import Mathlib.Computability.RegularExpressions

/-!
# Character classes of regular expressions

An expression over character classes matches words of its own letters only (`mem_letters`); a repeated class
matches exactly the words over it (`mem_matches_star_cls`).
-/

namespace Forge

variable {α : Type}

/-- A character class of a regular expression. -/
def cls (as : List α) : RegularExpression α := as.foldr (fun a r => RegularExpression.char a + r) 0

def letters : RegularExpression α → List α
  | .zero => []
  | .epsilon => []
  | .char a => [a]
  | .plus r r' => letters r ++ letters r'
  | .comp r r' => letters r ++ letters r'
  | .star r => letters r

theorem mem_matches_cls {as s : List α} : s ∈ (cls as).matches' ↔ ∃ a ∈ as, s = [a] := by
  induction as with
  | nil => exact ⟨fun h => h.elim, fun ⟨_, h, _⟩ => absurd h List.not_mem_nil⟩
  | cons a as ih =>
    rw [show cls (a :: as) = RegularExpression.char a + cls as from rfl, RegularExpression.matches'_add,
      Language.mem_add, RegularExpression.matches'_char, ih, List.exists_mem_cons_iff]
    rfl

theorem mem_matches_star_cls {as s : List α} :
    s ∈ (RegularExpression.star (cls as)).matches' ↔ ∀ a ∈ s, a ∈ as := by
  rw [RegularExpression.matches'_star, Language.mem_kstar]
  constructor
  · rintro ⟨l, rfl, hl⟩ a ha
    obtain ⟨t, ht, hat⟩ := List.mem_flatten.1 ha
    obtain ⟨b, hb, rfl⟩ := mem_matches_cls.1 (hl t ht)
    rwa [List.mem_singleton.1 hat]
  · intro h
    refine ⟨s.map fun a => [a], ?_, fun t ht => ?_⟩
    · rw [← List.flatMap_def, List.flatMap_singleton']
    · obtain ⟨a, ha, rfl⟩ := List.mem_map.1 ht
      exact mem_matches_cls.2 ⟨a, h a ha, rfl⟩

theorem mem_letters {r : RegularExpression α} {s : List α} (h : s ∈ r.matches') : ∀ a ∈ s, a ∈ letters r := by
  induction r generalizing s with
  | zero => exact h.elim
  | epsilon =>
    obtain rfl : s = [] := h
    simp
  | char a =>
    obtain rfl : s = [a] := h
    simp [letters]
  | plus r r' ih ih' =>
    intro a ha
    rcases h with h | h
    · exact List.mem_append_left _ (ih h a ha)
    · exact List.mem_append_right _ (ih' h a ha)
  | comp r r' ih ih' =>
    obtain ⟨s₁, h₁, s₂, h₂, rfl⟩ := Language.mem_mul.1 h
    intro a ha
    rcases List.mem_append.1 ha with ha | ha
    · exact List.mem_append_left _ (ih h₁ a ha)
    · exact List.mem_append_right _ (ih' h₂ a ha)
  | star r ih =>
    obtain ⟨l, rfl, hl⟩ := Language.mem_kstar.1 h
    intro a ha
    obtain ⟨t, ht, hat⟩ := List.mem_flatten.1 ha
    exact ih (hl t ht) a hat

end Forge
