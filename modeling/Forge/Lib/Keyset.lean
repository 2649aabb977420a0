import Mathlib.Order.Lattice
import Mathlib.Data.List.Nodup
import Mathlib.Data.List.Perm.Subperm

/-!
# Keyset pagination

Rows are listed in the order of a key, a page at a time: a page has the first rows whose key lies after that
of the last row of the page before. One row more than the limit is fetched, and where it is there the page
has a successor (`IsPage`, `isPage`). A traversal takes one page after another from tables that change in
between (`Traversal`): nothing is listed twice or out of order, what is in every table is listed, and the
traversal ends if the keys come from a finite set.
-/

namespace Forge.Keyset

variable {α K : Type} [LinearOrder K] (key : α → K)

/-- `k` lies after the cursor. -/
def After (cursor : Option K) (k : K) : Prop := ∀ a ∈ cursor, a < k

instance (cursor : Option K) (k : K) : Decidable (After cursor k) := by
  unfold After
  infer_instance

/-- The rows after the cursor, in order. -/
def ordered (cursor : Option K) (rows : List α) : List α :=
  (rows.filter fun r => After cursor (key r)).mergeSort fun a b => key a ≤ key b

/-- `SELECT … WHERE key > cursor ORDER BY key LIMIT n`. -/
def select (cursor : Option K) (n : Nat) (rows : List α) : List α := (ordered key cursor rows).take n

/-- `ps` is the page of `rows` after the cursor and `next` the cursor of the page after it. -/
structure IsPage (limit : Nat) (cursor : Option K) (rows ps : List α) (next : Option K) : Prop where
  sorted : ps.Pairwise fun a b => key a < key b
  mem : ∀ r ∈ ps, r ∈ rows ∧ After cursor (key r)
  length : ps.length ≤ limit
  /-- The last page has all the rows that are left. -/
  last : next = none → ∀ r ∈ rows, After cursor (key r) → r ∈ ps
  /-- Another page is full and has all the rows up to its cursor. -/
  full : ∀ k, next = some k → ps.length = limit ∧ (∀ r ∈ ps, key r ≤ k) ∧ (∃ r ∈ ps, key r = k) ∧
    ∀ r ∈ rows, After cursor (key r) → key r ≤ k → r ∈ ps

theorem mem_ordered (cursor : Option K) (rows : List α) {r : α} :
    r ∈ ordered key cursor rows ↔ r ∈ rows ∧ After cursor (key r) := by
  rw [ordered, (List.mergeSort_perm _ _).mem_iff, List.mem_filter, decide_eq_true_eq]

/-- Without a cursor no row has been passed. -/
theorem length_ordered_none (rows : List α) : (ordered key none rows).length = rows.length := by
  simp [ordered, After]

variable {key}

theorem sorted_ordered (cursor : Option K) {rows : List α} (hkeys : (rows.map key).Nodup) :
    (ordered key cursor rows).Pairwise fun a b => key a < key b := by
  have hsorted := @List.pairwise_mergeSort α (fun a b => decide (key a ≤ key b))
    (fun a b c hab hbc => decide_eq_true (le_trans (of_decide_eq_true hab) (of_decide_eq_true hbc)))
    (fun a b => by simpa using le_total (key a) (key b)) (rows.filter fun r => After cursor (key r))
  have hnodup : (ordered key cursor rows).Pairwise fun a b => key a ≠ key b := by
    refine ((List.mergeSort_perm _ _).pairwise_iff fun h => h.symm).2 ?_
    exact (List.pairwise_map.1 hkeys).filter _
  exact (hsorted.and hnodup).imp fun h => lt_of_le_of_ne (of_decide_eq_true h.1) h.2

/-- One row more than the limit is fetched; the page is what was fetched without it. -/
theorem isPage {limit : Nat} (hlimit : 0 < limit) (cursor : Option K) {rows : List α}
    (hkeys : (rows.map key).Nodup) {fetched : List α} (hf : fetched = select key cursor (limit + 1) rows) :
    IsPage key limit cursor rows (fetched.take limit)
      (if limit < fetched.length then fetched[limit - 1]?.map key else none) := by
  have hsorted := sorted_ordered cursor hkeys
  have hmem : ∀ r, r ∈ ordered key cursor rows ↔ r ∈ rows ∧ After cursor (key r) :=
    fun r => mem_ordered key cursor rows
  rw [select] at hf
  generalize ordered key cursor rows = l at hf hsorted hmem
  subst hf
  have htake : (l.take (limit + 1)).take limit = l.take limit := by rw [List.take_take]; congr 1; omega
  rw [htake, List.length_take]
  refine ⟨hsorted.sublist (List.take_sublist _ _), fun r hr => (hmem r).1 (List.mem_of_mem_take hr),
    List.length_take_le _ _, fun hnext r hr ha => ?_, fun k hk => ?_⟩
  · -- no more rows than the limit: the page has them all
    have hlen : l.length ≤ limit := by
      by_contra hlt
      rw [if_pos (by omega), Option.map_eq_none_iff, List.getElem?_eq_none_iff, List.length_take] at hnext
      omega
    rw [List.take_of_length_le hlen]
    exact (hmem r).2 ⟨hr, ha⟩
  · split at hk
    case isFalse => cases hk
    case isTrue hlt =>
      have hlt : limit < l.length := by omega
      rw [List.getElem?_take_of_lt (by omega)] at hk
      obtain ⟨x, hx, rfl⟩ := Option.map_eq_some_iff.1 hk
      obtain ⟨hi, rfl⟩ := List.getElem?_eq_some_iff.1 hx
      have hget := List.pairwise_iff_getElem.1 hsorted
      refine ⟨by rw [List.length_take]; omega, fun r hr => ?_, ⟨_, ?_, rfl⟩, fun r hr ha hle => ?_⟩
      · obtain ⟨i, hi', rfl⟩ := List.getElem_of_mem hr
        rw [List.length_take] at hi'
        rw [List.getElem_take]
        rcases Nat.lt_or_ge i (limit - 1) with hlt' | hge
        · exact le_of_lt (hget i (limit - 1) _ _ hlt')
        · obtain rfl : i = limit - 1 := by omega
          exact le_rfl
      · exact List.mem_iff_getElem.2 ⟨limit - 1, by rw [List.length_take]; omega, by rw [List.getElem_take]⟩
      · obtain ⟨j, hj, rfl⟩ := List.getElem_of_mem ((hmem r).2 ⟨hr, ha⟩)
        rcases Nat.lt_or_ge j limit with hlt' | hge
        · exact List.mem_iff_getElem.2 ⟨j, by rw [List.length_take]; omega, by rw [List.getElem_take]⟩
        · exact absurd (hget (limit - 1) j _ _ (by omega)) (not_lt.2 hle)

/-! ### Traversals -/

variable (key) in
/-- Pages from one table after another, until a page has no successor (`true`) or there is no further
table. -/
inductive Traversal (limit : Nat) : Option K → List (List α) → List (List α) → Bool → Prop
  | pending (cursor : Option K) : Traversal limit cursor [] [] false
  | last {cursor : Option K} {rows ps : List α} {tables : List (List α)}
      (h : IsPage key limit cursor rows ps none) : Traversal limit cursor (rows :: tables) [ps] true
  | more {cursor : Option K} {rows ps : List α} {tables pages : List (List α)} {k : K} {done : Bool}
      (h : IsPage key limit cursor rows ps (some k)) (ht : Traversal limit (some k) tables pages done) :
      Traversal limit cursor (rows :: tables) (ps :: pages) done

namespace Traversal

variable {limit : Nat} {cursor : Option K} {tables pages : List (List α)} {done : Bool}

theorem length_le (h : Traversal key limit cursor tables pages done) : ∀ ps ∈ pages, ps.length ≤ limit := by
  induction h with
  | pending => simp
  | last h =>
    intro ps hps
    rw [List.mem_singleton.1 hps]
    exact h.length
  | more h _ ih => exact List.forall_mem_cons.2 ⟨h.length, ih⟩

theorem take_ne_nil (h : Traversal key limit cursor tables pages done) (hdone : done = true) :
    tables.take pages.length ≠ [] := by
  cases h with
  | pending => cases hdone
  | last => simp
  | more => simp

/-- Everything listed lies after the cursor, and each row before those that follow it. -/
theorem sorted (h : Traversal key limit cursor tables pages done) :
    pages.flatten.Pairwise (fun a b => key a < key b) ∧ ∀ r ∈ pages.flatten, After cursor (key r) := by
  induction h with
  | pending => simp
  | last h => simpa using ⟨h.sorted, fun r hr => (h.mem r hr).2⟩
  | @more cursor _ _ _ _ k _ h _ ih =>
    obtain ⟨-, hle, ⟨r₀, hr₀, hk⟩, -⟩ := h.full k rfl
    rw [List.flatten_cons, List.pairwise_append]
    -- the pages that follow lie after the last row of this one
    refine ⟨⟨h.sorted, ih.1, fun a ha b hb => lt_of_le_of_lt (hle a ha) (ih.2 b hb k rfl)⟩, fun r hr => ?_⟩
    rcases List.mem_append.1 hr with hr | hr
    · exact (h.mem r hr).2
    · intro c hc
      exact lt_trans ((h.mem r₀ hr₀).2 c hc) (hk ▸ ih.2 r hr k rfl)

/-- A key that is in every table is listed by the time the traversal is done. -/
theorem complete (h : Traversal key limit cursor tables pages done) (hdone : done = true) {k : K}
    (hk : After cursor k) (htables : ∀ t ∈ tables.take pages.length, ∃ r ∈ t, key r = k) :
    ∃ r ∈ pages.flatten, key r = k := by
  induction h with
  | pending => cases hdone
  | @last _ rows _ _ h =>
    obtain ⟨r, hr, rfl⟩ := htables rows (by simp)
    exact ⟨r, by simpa using h.last rfl r hr hk, rfl⟩
  | @more _ rows ps tables pages k' _ h ht ih =>
    rw [List.length_cons, List.take_succ_cons, List.forall_mem_cons] at htables
    obtain ⟨⟨r, hr, rfl⟩, htables⟩ := htables
    rw [List.flatten_cons]
    rcases le_or_gt (key r) k' with hle | hlt
    · exact ⟨r, List.mem_append_left _ ((h.full k' rfl).2.2.2 r hr hk hle), rfl⟩
    · obtain ⟨r', hr', he⟩ := ih hdone (fun a ha => by cases ha; exact hlt) htables
      exact ⟨r', List.mem_append_right _ hr', he⟩

/-- What is listed was in the table of its page. -/
theorem mem (h : Traversal key limit cursor tables pages done) :
    ∀ r ∈ pages.flatten, ∃ t ∈ tables, r ∈ t := by
  induction h with
  | pending => simp
  | last h => simpa using fun r hr => Or.inl (h.mem r hr).1
  | more h _ ih =>
    intro r hr
    rw [List.flatten_cons] at hr
    rcases List.mem_append.1 hr with hr | hr
    · exact ⟨_, List.mem_cons_self, (h.mem r hr).1⟩
    · obtain ⟨t, ht, hrt⟩ := ih r hr
      exact ⟨t, List.mem_cons_of_mem _ ht, hrt⟩

/-- A traversal that is not done has listed a full page from every table. -/
theorem length_le_flatten (hlimit : 0 < limit) (h : Traversal key limit cursor tables pages done)
    (hdone : done = false) : tables.length ≤ pages.flatten.length := by
  induction h with
  | pending => simp
  | last => cases hdone
  | more h _ ih =>
    have := (h.full _ rfl).1
    have := ih hdone
    rw [List.flatten_cons, List.length_append, List.length_cons]
    omega

/-- With finitely many keys a traversal is done after finitely many pages. -/
theorem done_of_length (hlimit : 0 < limit) (h : Traversal key limit cursor tables pages done)
    {keys : List K} (hkeys : ∀ t ∈ tables, ∀ r ∈ t, key r ∈ keys) (hlen : keys.length < tables.length) :
    done = true := by
  by_contra hdone
  have hfull := h.length_le_flatten hlimit (by simpa using hdone)
  have hnodup : (pages.flatten.map key).Nodup :=
    List.pairwise_map.2 (h.sorted.1.imp fun hlt => ne_of_lt hlt)
  have hsub : pages.flatten.map key ⊆ keys := by
    intro k hk
    obtain ⟨r, hr, rfl⟩ := List.mem_map.1 hk
    obtain ⟨t, ht, hrt⟩ := h.mem r hr
    exact hkeys t ht r hrt
  have := (List.subperm_of_subset hnodup hsub).length_le
  rw [List.length_map] at this
  omega

end Traversal

end Forge.Keyset
