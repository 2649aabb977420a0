import Mathlib.Order.Lattice
import Mathlib.Order.Basic
import Mathlib.Data.List.Basic

/-!
# Time-versioned values

A value that is set from time to time is kept as a list of half-open intervals (`Span`), the last of
which is open. `Timeline a l` says that they follow one another without gap or overlap from `a` on, so
that every instant from `a` on lies in exactly one of them (`Timeline.filter_contains`). `Tells` relates
the intervals to the log of what was set when: the interval an instant lies in has the value set last
at or before it.
-/

namespace Forge

/-- The interval `[start, stop)` with the value in force there; `none`: it is still open. -/
structure Span (τ α : Type) where
  start : τ
  stop : Option τ
  value : α

namespace Span

variable {τ α : Type} [LinearOrder τ]

def contains (t : τ) (x : Span τ α) : Bool :=
  x.start ≤ t ∧ ∀ b ∈ x.stop, t < b

theorem contains_open {a t : τ} {v : α} : (⟨a, none, v⟩ : Span τ α).contains t = true ↔ a ≤ t := by
  simp [contains]

theorem contains_closed {a b t : τ} {v : α} :
    (⟨a, some b, v⟩ : Span τ α).contains t = true ↔ a ≤ t ∧ t < b := by
  simp [contains]

theorem not_contains {t : τ} {x : Span τ α} (h : t < x.start) : x.contains t = false := by
  simp [contains, not_le.2 h]

end Span

/-- The intervals follow one another without gap or overlap from `a` on, and the last one is open. -/
inductive Timeline {τ α : Type} [LE τ] : τ → List (Span τ α) → Prop
  | last (a : τ) (v : α) : Timeline a [⟨a, none, v⟩]
  | cons {a b : τ} {v : α} {l : List (Span τ α)} (hab : a ≤ b) (h : Timeline b l) :
      Timeline a (⟨a, some b, v⟩ :: l)

namespace Timeline

variable {τ α : Type} [LinearOrder τ] {a b c t : τ} {l : List (Span τ α)} {v : α}

theorem start_le (h : Timeline a l) : ∀ x ∈ l, a ≤ x.start := by
  induction h with
  | last a v => simp
  | @cons a b v l hab _ ih =>
    intro x hx
    rcases List.mem_cons.1 hx with rfl | hx
    · exact le_rfl
    · exact hab.trans (ih x hx)

/-- Every instant lies in exactly one interval. -/
theorem filter_contains (h : Timeline a l) (ht : a ≤ t) : ∃ x, l.filter (·.contains t) = [x] := by
  induction h with
  | last a v => exact ⟨⟨a, none, v⟩, by simp [Span.contains_open.2 ht]⟩
  | @cons a b v l hab hl ih =>
    by_cases hb : t < b
    · have hnil : l.filter (·.contains t) = [] := List.filter_eq_nil_iff.2 fun x hx => by
        simp [Span.not_contains (hb.trans_le (hl.start_le x hx))]
      exact ⟨_, by rw [List.filter_cons_of_pos (Span.contains_closed.2 ⟨ht, hb⟩), hnil]⟩
    · have hno : ¬ (⟨a, some b, v⟩ : Span τ α).contains t = true := fun h => hb (Span.contains_closed.1 h).2
      rw [List.filter_cons_of_neg hno]
      exact ih (not_lt.1 hb)

/-- The open interval is closed and another one opened. -/
theorem change (v' : α) (h : Timeline a (l ++ [⟨c, none, v⟩])) (hcb : c ≤ b) :
    Timeline a (l ++ [⟨c, some b, v⟩, ⟨b, none, v'⟩]) := by
  induction l generalizing a with
  | nil =>
    cases h
    exact .cons hcb (.last b v')
  | cons x l ih =>
    generalize hl : x :: l ++ [(⟨c, none, v⟩ : Span τ α)] = l' at h
    cases h with
    | last => simp at hl
    | cons hab h =>
      obtain ⟨rfl, rfl⟩ := List.cons.inj hl
      exact .cons hab (ih h)

end Timeline

/-! ### What was set last -/

/-- The value set last at or before `t`. -/
def latest {τ α : Type} [LinearOrder τ] (log : List (τ × α)) (t : τ) : Option α :=
  ((log.filter (·.1 ≤ t)).getLast?).map Prod.snd

section
variable {τ α : Type} [LinearOrder τ] {a b c t : τ} {log : List (τ × α)} {l : List (Span τ α)} {v v' : α}

theorem latest_snoc_of_le (log : List (τ × α)) (h : b ≤ t) : latest (log ++ [(b, v)]) t = some v := by
  simp [latest, List.filter_append, h]

theorem latest_snoc_of_lt (h : t < b) : latest (log ++ [(b, v)]) t = latest log t := by
  simp [latest, List.filter_append, not_le.2 h]

/-- The intervals `l` tell, from `a` on, what the log says was set last. -/
def Tells (log : List (τ × α)) (a : τ) (l : List (Span τ α)) : Prop :=
  ∀ t, a ≤ t → ∃ x, l.filter (·.contains t) = [x] ∧ latest log t = some x.value

theorem Tells.start (a : τ) (v : α) : Tells [(a, v)] a [⟨a, none, v⟩] := fun t ht =>
  ⟨⟨a, none, v⟩, by simp [Span.contains_open.2 ht], latest_snoc_of_le [] ht⟩

theorem Tells.again (h : Tells log a (l ++ [⟨c, none, v⟩])) (hcb : c ≤ b) :
    Tells (log ++ [(b, v)]) a (l ++ [⟨c, none, v⟩]) := by
  intro t ht
  obtain ⟨x, hx, hlast⟩ := h t ht
  refine ⟨x, hx, ?_⟩
  by_cases hbt : b ≤ t
  · -- the instant is in the open interval
    rw [latest_snoc_of_le _ hbt]
    rw [List.filter_append, List.filter_cons_of_pos (Span.contains_open.2 (hcb.trans hbt))] at hx
    have := (List.append_eq_singleton_iff.1 hx)
    rcases this with ⟨-, he⟩ | ⟨-, he⟩
    · rw [← List.singleton_inj.1 he]
    · cases he
  · rw [latest_snoc_of_lt (not_le.1 hbt)]
    exact hlast

theorem Tells.change (h : Tells log a (l ++ [⟨c, none, v⟩])) (hl : Timeline a (l ++ [⟨c, none, v⟩]))
    (hcb : c ≤ b) : Tells (log ++ [(b, v')]) a (l ++ [⟨c, some b, v⟩, ⟨b, none, v'⟩]) := by
  intro t ht
  by_cases hbt : b ≤ t
  · obtain ⟨x, hx⟩ := (hl.change v' hcb).filter_contains ht
    refine ⟨x, hx, ?_⟩
    rw [latest_snoc_of_le _ hbt]
    have hmem : (⟨b, none, v'⟩ : Span τ α) ∈ [x] := by
      rw [← hx]
      exact List.mem_filter.2 ⟨by simp, Span.contains_open.2 hbt⟩
    rw [← List.mem_singleton.1 hmem]
  · have htb : t < b := not_le.1 hbt
    obtain ⟨x, hx, hlast⟩ := h t ht
    rw [latest_snoc_of_lt htb, hlast]
    have hnew : (⟨b, none, v'⟩ : Span τ α).contains t = false := Span.not_contains htb
    rw [List.filter_append] at hx ⊢
    -- before `b` the closed interval contains what the open one did
    by_cases hct : c ≤ t
    · rw [List.filter_cons_of_pos (Span.contains_open.2 hct)] at hx
      rw [List.filter_cons_of_pos (Span.contains_closed.2 ⟨hct, htb⟩), List.filter_cons_of_neg (by simp [hnew])]
      rcases List.append_eq_singleton_iff.1 hx with ⟨hnil, he⟩ | ⟨-, he⟩
      · exact ⟨⟨c, some b, v⟩, by rw [hnil]; rfl, by rw [← List.singleton_inj.1 he]⟩
      · cases he
    · have h₁ : (⟨c, none, v⟩ : Span τ α).contains t = false := Span.not_contains (not_le.1 hct)
      have h₂ : (⟨c, some b, v⟩ : Span τ α).contains t = false := Span.not_contains (not_le.1 hct)
      rw [List.filter_cons_of_neg (by simp [h₁])] at hx
      rw [List.filter_cons_of_neg (by simp [h₂]), List.filter_cons_of_neg (by simp [hnew])]
      exact ⟨x, hx, rfl⟩

end

end Forge
