import Mathlib.Data.List.Induction
import Mathlib.Data.List.Nodup
import Mathlib.Order.Basic

/-!
# What comes first in a list

`Led P Q l`: whatever satisfies `Q` in `l` comes after something that satisfies `P`. A list that grows at
its end stays so as long as each new `Q` finds a `P` (`led_concat`), and a sorted list is so if the `P` lie
below the `Q` (`Led.of_sorted`). `firsts key l` is what is left of a list in which keys come again: the first
element for each key. If one key leads another in the list, its first element comes first (`Led.firsts`), and a
list that has, with each of its elements, all that come before it in another list is the beginning of that one
(`isPrefix_of_led`).
-/

namespace Forge

variable {α : Type} {P Q Q' : α → Prop} {l : List α}

/-- Every `Q` of the list has a `P` before it. -/
def Led (P Q : α → Prop) (l : List α) : Prop := ∀ l₁ x l₂, l = l₁ ++ x :: l₂ → Q x → ∃ y ∈ l₁, P y

theorem Led.of_none (h : ∀ x ∈ l, ¬ Q x) : Led P Q l := by
  rintro l₁ x l₂ rfl hx
  exact absurd hx (h x (List.mem_append_right _ List.mem_cons_self))

theorem Led.mono (h : Led P Q l) (hQ : ∀ x ∈ l, Q' x → Q x) : Led P Q' l := by
  rintro l₁ x l₂ rfl hx
  exact h l₁ x l₂ rfl (hQ x (List.mem_append_right _ List.mem_cons_self) hx)

theorem led_concat {x : α} : Led P Q (l ++ [x]) ↔ Led P Q l ∧ (Q x → ∃ y ∈ l, P y) := by
  refine ⟨fun h => ⟨?_, h l x [] rfl⟩, ?_⟩
  · rintro l₁ y l₂ rfl hy
    exact h l₁ y (l₂ ++ [x]) (by simp) hy
  · rintro ⟨h, hx⟩ l₁ y l₂ heq hy
    -- the element is the last one, or one of `l`
    rcases List.eq_nil_or_concat l₂ with rfl | ⟨l₃, z, rfl⟩
    · obtain ⟨rfl, hxy⟩ := List.append_inj' heq rfl
      cases hxy
      exact hx hy
    · have heq' : l ++ [x] = (l₁ ++ y :: l₃) ++ [z] := by simpa using heq
      exact h l₁ y l₃ (List.append_inj' heq' rfl).1 hy

theorem Led.map {β : Type} {f : β → α} {l : List β} (h : Led (fun x => P (f x)) (fun x => Q (f x)) l) :
    Led P Q (l.map f) := by
  intro l₁ x l₂ heq hx
  obtain ⟨k₁, k, rfl, rfl, hk⟩ := List.map_eq_append_iff.1 heq
  obtain ⟨y, k₂, rfl, rfl, -⟩ := List.map_eq_cons_iff.1 hk
  obtain ⟨z, hz, hP⟩ := h k₁ y k₂ rfl hx
  exact ⟨f z, List.mem_map_of_mem hz, hP⟩

/-- What is added needs a `P` before it, there or among what was added. -/
theorem Led.append {l' : List α} (h : Led P Q l) (h' : (∃ y ∈ l, P y) ∨ Led P Q l') : Led P Q (l ++ l') := by
  intro l₁ x l₂ heq hx
  rcases List.append_eq_append_iff.1 heq with ⟨k, rfl, rfl⟩ | ⟨k, rfl, hk⟩
  · rcases h' with ⟨y, hy, hP⟩ | h'
    · exact ⟨y, List.mem_append_left _ hy, hP⟩
    · obtain ⟨y, hy, hP⟩ := h' k x l₂ rfl hx
      exact ⟨y, List.mem_append_right _ hy, hP⟩
  · cases k with
    | nil =>
      rw [List.nil_append] at hk
      rw [List.append_nil] at h h'
      rcases h' with hy | h'
      · exact hy
      · obtain ⟨y, hy, -⟩ := h' [] x l₂ hk.symm hx
        cases hy
    | cons z k =>
      obtain ⟨rfl, -⟩ := List.cons.inj hk
      exact h l₁ x k rfl hx

/-- In a sorted list, what has to come first lies below. -/
theorem Led.of_sorted {K : Type} [Preorder K] {key : α → K} (hs : l.Pairwise fun x y => key x ≤ key y)
    (h : ∀ x ∈ l, Q x → ∃ y ∈ l, P y ∧ key y < key x) : Led P Q l := by
  rintro l₁ x l₂ rfl hx
  obtain ⟨y, hy, hP, hlt⟩ := h x (List.mem_append_right _ List.mem_cons_self) hx
  rcases List.mem_append.1 hy with hy | hy
  · exact ⟨y, hy, hP⟩
  · rcases List.mem_cons.1 hy with rfl | hy
    · exact absurd hlt (lt_irrefl _)
    · have hle := (List.pairwise_cons.1 (List.pairwise_append.1 hs).2.1).1 y hy
      exact absurd (hlt.trans_le hle) (lt_irrefl _)

/-! ### First occurrences -/

section
variable {κ : Type} [DecidableEq κ] (key : α → κ)

/-- The list without the elements whose key has come before. -/
def firsts (l : List α) : List α := l.foldl (fun heard x => if heard.any (key · = key x) then heard else heard ++ [x]) []

variable {key}

/-- A new element is heard if its key is new. -/
theorem firsts_concat_of_mem {x : α} (h : key x ∈ (firsts key l).map key) : firsts key (l ++ [x]) = firsts key l := by
  obtain ⟨y, hy, hk⟩ := List.mem_map.1 h
  rw [firsts, List.foldl_append, List.foldl_cons, List.foldl_nil]
  exact if_pos (List.any_eq_true.2 ⟨y, hy, decide_eq_true hk⟩)

theorem firsts_concat_of_not_mem {x : α} (h : key x ∉ (firsts key l).map key) :
    firsts key (l ++ [x]) = firsts key l ++ [x] := by
  rw [firsts, List.foldl_append, List.foldl_cons, List.foldl_nil]
  refine if_neg fun hany => h ?_
  obtain ⟨y, hy, hk⟩ := List.any_eq_true.1 hany
  exact List.mem_map.2 ⟨y, hy, of_decide_eq_true hk⟩

theorem mem_of_mem_firsts {x : α} (h : x ∈ firsts key l) : x ∈ l := by
  induction l using List.reverseRecOn with
  | nil => exact h
  | append_singleton l y ih =>
    by_cases hy : key y ∈ (firsts key l).map key
    · rw [firsts_concat_of_mem hy] at h
      exact List.mem_append_left _ (ih h)
    · rw [firsts_concat_of_not_mem hy] at h
      rcases List.mem_append.1 h with h | h
      · exact List.mem_append_left _ (ih h)
      · exact List.mem_append_right _ h

theorem key_mem_firsts {k : κ} : k ∈ (firsts key l).map key ↔ k ∈ l.map key := by
  induction l using List.reverseRecOn generalizing k with
  | nil => exact Iff.rfl
  | append_singleton l y ih =>
    by_cases hy : key y ∈ (firsts key l).map key
    · rw [firsts_concat_of_mem hy, ih, List.map_append, List.mem_append]
      refine ⟨.inl, fun h => h.elim id fun h => ?_⟩
      rw [List.mem_singleton.1 h]
      exact ih.1 hy
    · rw [firsts_concat_of_not_mem hy, List.map_append, List.map_append, List.mem_append, List.mem_append, ih]

theorem nodup_firsts (key : α → κ) (l : List α) : ((firsts key l).map key).Nodup := by
  induction l using List.reverseRecOn with
  | nil => exact List.nodup_nil
  | append_singleton l y ih =>
    by_cases hy : key y ∈ (firsts key l).map key
    · rwa [firsts_concat_of_mem hy]
    · rw [firsts_concat_of_not_mem hy, List.map_append]
      refine List.nodup_append.2 ⟨ih, List.nodup_singleton _, ?_⟩
      rintro a ha b hb rfl
      exact hy (List.mem_singleton.1 hb ▸ ha)

/-- A key that leads another is heard before it. -/
theorem Led.firsts {a b : κ} (h : Led (key · = a) (key · = b) l) (hb : b ∈ l.map key) :
    [a, b].Sublist ((Forge.firsts key l).map key) := by
  induction l using List.reverseRecOn with
  | nil => cases hb
  | append_singleton l y ih =>
    obtain ⟨hled, hy⟩ := led_concat.1 h
    by_cases hnew : key y ∈ (Forge.firsts key l).map key
    · rw [firsts_concat_of_mem hnew]
      refine ih hled ?_
      rw [List.map_append, List.mem_append] at hb
      exact hb.elim id fun hb => List.mem_singleton.1 hb ▸ key_mem_firsts.1 hnew
    · rw [firsts_concat_of_not_mem hnew, List.map_append]
      by_cases hby : key y = b
      · obtain ⟨x, hx, rfl⟩ := hy hby
        have hfirst : [key x].Sublist ((Forge.firsts key l).map key) :=
          List.singleton_sublist.2 (key_mem_firsts.2 (List.mem_map_of_mem hx))
        rw [← hby]
        exact hfirst.append (List.Sublist.refl [key y])
      · refine (ih hled ?_).trans (List.sublist_append_left _ _)
        rw [List.map_append, List.mem_append] at hb
        exact hb.resolve_right fun hb => hby (List.mem_singleton.1 hb).symm

omit [DecidableEq κ] in
/-- What has come is the beginning of what is to come, if with each element all before it have come. -/
theorem isPrefix_of_led {xs ys : List κ} (hx : xs.Nodup) (hy : ys.Nodup) (hsub : xs ⊆ ys)
    (h : ys.Pairwise fun a b => b ∈ xs → [a, b].Sublist xs) : xs <+: ys := by
  induction ys generalizing xs with
  | nil => exact List.subset_nil.1 hsub ▸ List.prefix_refl _
  | cons a ys ih =>
    obtain ⟨hfirst, hrest⟩ := List.pairwise_cons.1 h
    obtain ⟨ha, hys⟩ := List.nodup_cons.1 hy
    cases xs with
    | nil => exact List.nil_prefix
    | cons x xs =>
      obtain ⟨hxmem, hxs⟩ := List.nodup_cons.1 hx
      -- the first of the one list is the first of the other
      obtain rfl : x = a := by
        rcases List.mem_cons.1 (hsub List.mem_cons_self) with heq | hmem
        · exact heq
        · rcases List.cons_sublist_cons'.1 (hfirst x hmem List.mem_cons_self) with hs | ⟨heq, -⟩
          · exact absurd (hs.subset (List.mem_cons_of_mem _ List.mem_cons_self)) hxmem
          · exact heq.symm
      refine List.cons_prefix_cons.2 ⟨rfl, ih hxs hys (fun b hb => ?_) (hrest.imp_of_mem fun {b c} hb hc hbc hcx => ?_)⟩
      · exact (List.mem_cons.1 (hsub (List.mem_cons_of_mem _ hb))).resolve_left fun heq => hxmem (heq ▸ hb)
      · rcases List.cons_sublist_cons'.1 (hbc (List.mem_cons_of_mem _ hcx)) with hs | ⟨heq, -⟩
        · exact hs
        · exact absurd (heq ▸ hb) ha

end

end Forge
