import Mathlib.Algebra.Order.Field.Basic
import Mathlib.Tactic.Linarith

/-!
# Token buckets

A bucket holds at most `burst` tokens and is refilled at a constant rate; a request is allowed if a whole token
is available and takes it. Only the tokens available at a moment matter for what comes after
(`allow_snd_congr`), a bucket left alone for long enough is full (`available_of_idle`), and in no window of
length `T` are more than `burst + rate * T` requests allowed (`allowedIn_run_le`).
-/

namespace Forge.TokenBucket

variable {K : Type} [Field K] [LinearOrder K] [IsStrictOrderedRing K] {burst : Nat}

/-- The tokens at the moment of the last allowed request. -/
structure Bucket (K : Type) [Field K] [LinearOrder K] [IsStrictOrderedRing K] (burst : Nat) where
  tokens : K
  last : K
  nonneg : 0 ≤ tokens
  le_burst : tokens ≤ burst

namespace Bucket

def full : Bucket K burst := ⟨burst, 0, Nat.cast_nonneg burst, le_rfl⟩

variable (rate : K) (b : Bucket K burst)

/-- The tokens at time `t`; the clock does not go back. -/
def available (t : K) : K := min burst (b.tokens + (t - min b.last t) * rate)

theorem available_le (t : K) : b.available rate t ≤ burst := min_le_left _ _

/-- One request at time `t`: the answer and the bucket after it. A refused request changes nothing. -/
def allow (t : K) : Bool × Bucket K burst :=
  if h : 1 ≤ b.available rate t then
    (true, ⟨b.available rate t - 1, t, sub_nonneg.2 h, by linarith [b.available_le rate t]⟩)
  else (false, b)

variable {rate b}

theorem allow_fst (t : K) : (b.allow rate t).1 = decide (1 ≤ b.available rate t) := by
  unfold allow
  split <;> simp_all

theorem available_full (hrate : 0 ≤ rate) (t : K) : (full : Bucket K burst).available rate t = burst := by
  have helapsed : 0 ≤ t - min 0 t := sub_nonneg.2 (min_le_right 0 t)
  refine min_eq_left ?_
  show (burst : K) ≤ burst + (t - min 0 t) * rate
  have := mul_nonneg helapsed hrate
  linarith

/-- Whatever was taken, a bucket is full after it has been left alone for the time that `burst` tokens need. -/
theorem available_of_idle {idle t : K} (hrate : 0 ≤ rate) (hidle : b.last + idle ≤ t) (hpos : 0 ≤ idle)
    (hfull : burst ≤ rate * idle) : b.available rate t = burst := by
  have hmin : min b.last t = b.last := min_eq_left (by linarith)
  have hrefill : rate * idle ≤ (t - b.last) * rate := by nlinarith
  refine min_eq_left ?_
  rw [hmin]
  linarith [b.nonneg]

theorem available_nonneg (hrate : 0 ≤ rate) (t : K) : 0 ≤ b.available rate t := by
  have helapsed : 0 ≤ (t - min b.last t) * rate := mul_nonneg (sub_nonneg.2 (min_le_right _ _)) hrate
  exact le_min (Nat.cast_nonneg burst) (by linarith [b.nonneg])

theorem allow_of_le {t : K} (h : 1 ≤ b.available rate t) : b.allow rate t =
    (true, ⟨b.available rate t - 1, t, sub_nonneg.2 h, by linarith [b.available_le rate t]⟩) := dif_pos h

theorem allow_of_lt {t : K} (h : ¬ 1 ≤ b.available rate t) : b.allow rate t = (false, b) := dif_neg h

/-- At the moment of an allowed request, the token it took is missing. -/
theorem available_allow {t : K} (h : 1 ≤ b.available rate t) :
    (b.allow rate t).2.available rate t = b.available rate t - 1 := by
  have hle := b.available_le rate t
  rw [allow_of_le h]
  show min (burst : K) (b.available rate t - 1 + (t - min t t) * rate) = _
  rw [min_self, sub_self, zero_mul, add_zero]
  exact min_eq_right (by linarith)

/-- After an allowed request only the tokens there were matter. -/
theorem allow_snd_congr {b' : Bucket K burst} {t : K} (heq : b.available rate t = b'.available rate t)
    (h : 1 ≤ b.available rate t) : (b.allow rate t).2 = (b'.allow rate t).2 := by
  rw [allow_of_le h, allow_of_le (heq ▸ h)]
  simp only [heq]

/-- Tokens come in at most at the rate. -/
theorem available_le_add (hrate : 0 ≤ rate) {t₀ t : K} (h : t₀ ≤ t) :
    b.available rate t ≤ b.available rate t₀ + rate * (t - t₀) := by
  have hmin : min b.last t₀ ≤ min b.last t := min_le_min_left _ h
  have hgain : 0 ≤ rate * (t - t₀) := mul_nonneg hrate (sub_nonneg.2 h)
  have helapsed : (t - min b.last t) * rate ≤ (t₀ - min b.last t₀) * rate + rate * (t - t₀) := by nlinarith
  unfold available
  rcases min_choice (burst : K) (b.tokens + (t₀ - min b.last t₀) * rate) with h₀ | h₀
  · rw [h₀]
    exact (min_le_left _ _).trans (by linarith)
  · rw [h₀]
    exact (min_le_right _ _).trans (by linarith)

def run (rate : K) (b : Bucket K burst) : List K → List (K × Bool)
  | [] => []
  | t :: ts => (t, (b.allow rate t).1) :: (b.allow rate t).2.run rate ts

theorem map_fst_run (ts : List K) : (b.run rate ts).map (·.1) = ts := by
  induction ts generalizing b with
  | nil => rfl
  | cons t ts ih => rw [run, List.map_cons, ih]

/-- As many requests as there are tokens are allowed at once. -/
theorem run_replicate {t : K} {n : Nat} (h : (n : K) ≤ b.available rate t) :
    b.run rate (List.replicate n t) = List.replicate n (t, true) := by
  induction n generalizing b with
  | zero => rfl
  | succ n ih =>
    push_cast at h
    have hok : 1 ≤ b.available rate t := by linarith [(Nat.cast_nonneg n : (0 : K) ≤ n)]
    have hrest : (n : K) ≤ (b.allow rate t).2.available rate t := by
      rw [available_allow hok]
      linarith
    rw [List.replicate_succ, List.replicate_succ, run, ih hrest, allow_of_le hok]

end Bucket

/-- How many requests were allowed between `a` and `z`. -/
def allowedIn (a z : K) (answers : List (K × Bool)) : Nat :=
  answers.countP fun p => p.2 ∧ a ≤ p.1 ∧ p.1 ≤ z

section
omit [Field K] [IsStrictOrderedRing K]
variable {a z : K} {answers : List (K × Bool)} {t : K} {ok : Bool}

theorem allowedIn_cons : allowedIn a z ((t, ok) :: answers) =
    allowedIn a z answers + if ok ∧ a ≤ t ∧ t ≤ z then 1 else 0 := by
  simp [allowedIn, List.countP_cons]

theorem allowedIn_append (answers' : List (K × Bool)) :
    allowedIn a z (answers ++ answers') = allowedIn a z answers + allowedIn a z answers' := List.countP_append

theorem allowedIn_replicate (h : a ≤ t ∧ t ≤ z) (n : Nat) : allowedIn a z (List.replicate n (t, true)) = n := by
  simp [allowedIn, List.countP_replicate, h]

theorem allowedIn_eq_zero (h : ∀ t ∈ answers.map (·.1), z < t) : allowedIn a z answers = 0 := by
  refine List.countP_eq_zero.2 fun p hp => ?_
  have := h p.1 (List.mem_map_of_mem hp)
  simp only [decide_eq_true_eq, not_and, not_le]
  exact fun _ _ => this

end

section
variable {rate : K} (hrate : 0 ≤ rate) {a z : K}

theorem allowedIn_run_after {b : Bucket K burst} {t : K} {ts : List K} (hle : ∀ t' ∈ ts, t ≤ t') (h : z < t) :
    allowedIn a z (b.run rate (t :: ts)) = 0 := by
  refine allowedIn_eq_zero fun t' ht' => ?_
  rw [Bucket.map_fst_run] at ht'
  rcases List.mem_cons.1 ht' with rfl | ht'
  · exact h
  · exact h.trans_le (hle t' ht')

include hrate

/-- From `t₀` on, the requests that are allowed take tokens that are there at `t₀` or come in later. -/
theorem allowedIn_run_from {ts : List K} (hsorted : ts.Pairwise (· ≤ ·)) {b : Bucket K burst} {t₀ : K}
    (hfrom : ∀ t ∈ ts, t₀ ≤ t) (hz : t₀ ≤ z) :
    (allowedIn a z (b.run rate ts) : K) ≤ b.available rate t₀ + rate * (z - t₀) := by
  have hwindow : 0 ≤ rate * (z - t₀) := mul_nonneg hrate (sub_nonneg.2 hz)
  have hnonneg := b.available_nonneg hrate t₀
  induction ts generalizing b t₀ with
  | nil =>
    simp only [Bucket.run, allowedIn, List.countP_nil, Nat.cast_zero]
    linarith
  | cons t ts ih =>
    obtain ⟨hle, hsorted'⟩ := List.pairwise_cons.1 hsorted
    by_cases htz : t ≤ z
    · have hgain := b.available_le_add hrate (hfrom t List.mem_cons_self)
      have hrest := ih hsorted' (b := (b.allow rate t).2) hle htz (mul_nonneg hrate (sub_nonneg.2 htz))
        (Bucket.available_nonneg hrate t)
      rw [Bucket.run, allowedIn_cons]
      by_cases hok : 1 ≤ b.available rate t
      · rw [Bucket.available_allow hok] at hrest
        push_cast
        split <;> linarith
      · rw [Bucket.allow_of_lt hok] at hrest ⊢
        simp only [Bool.false_eq_true, false_and, if_false, add_zero]
        linarith
    · rw [allowedIn_run_after hle (not_le.1 htz), Nat.cast_zero]
      linarith

/-- No window from `a` to `z` has more than `burst + rate * (z - a)` allowed requests. -/
theorem allowedIn_run_le {ts : List K} (hsorted : ts.Pairwise (· ≤ ·)) (b : Bucket K burst) (haz : a ≤ z) :
    (allowedIn a z (b.run rate ts) : K) ≤ burst + rate * (z - a) := by
  have hwindow : 0 ≤ rate * (z - a) := mul_nonneg hrate (sub_nonneg.2 haz)
  have hburst : (0 : K) ≤ burst := Nat.cast_nonneg burst
  induction ts generalizing b with
  | nil =>
    simp only [Bucket.run, allowedIn, List.countP_nil, Nat.cast_zero]
    linarith
  | cons t ts ih =>
    obtain ⟨hle, hsorted'⟩ := List.pairwise_cons.1 hsorted
    by_cases hat : a ≤ t
    · by_cases htz : t ≤ z
      · -- the window begins here: all that is allowed in it is counted from `t` on
        have hfrom : (allowedIn a z (b.run rate (t :: ts)) : K) ≤ b.available rate t + rate * (z - t) :=
          allowedIn_run_from hrate hsorted (List.forall_mem_cons.2 ⟨le_rfl, hle⟩) htz
        have hcap := b.available_le rate t
        have hshort : rate * (z - t) ≤ rate * (z - a) := mul_le_mul_of_nonneg_left (by linarith) hrate
        linarith
      · rw [allowedIn_run_after hle (not_le.1 htz), Nat.cast_zero]
        linarith
    · have hrest := ih hsorted' (b.allow rate t).2
      rw [Bucket.run, allowedIn_cons, if_neg fun h => hat h.2.1, add_zero]
      exact hrest

end

end Forge.TokenBucket
