import Mathlib.Algebra.Order.Ring.Rat
import Forge.Lib.GoStrings
import Forge.Lib.TokenBucket

/-!
# Rate limiting (`platform/httpx/ratelimit.go`)

One token bucket for each key, made when the key is first seen. Every ten minutes the buckets that nobody used
for longer than that are deleted, and a key that comes back starts with a full one. A deleted bucket was full
in any case if ten minutes are enough to fill it; then the limiter answers as one that keeps its buckets forever
(`Matches`). Otherwise a key can empty its bucket, wait for the sweep and empty it again.
-/

namespace Forge.httpx

open TokenBucket

/-! ### The limiter -/

structure entry (burst : Nat) where
  limiter : Bucket ℚ burst
  seen : ℚ

/-- The bucket of an entry, a new one if there is none. -/
def limiterOf {burst : Nat} (e? : Option (entry burst)) : Bucket ℚ burst := (e?.map entry.limiter).getD .full

/-- The idle time after which a bucket is deleted, in seconds, and the period of the sweeps. -/
def ttl : ℚ := 600

/-- The limiter; its rate and burst never change. -/
structure keyedLimiter (rps : ℚ) (burst : Nat) where
  buckets : GoString → Option (entry burst)

def newKeyedLimiter (rps : ℚ) (burst : Nat) : keyedLimiter rps burst := ⟨fun _ => none⟩

variable {rps : ℚ} {burst : Nat}

namespace keyedLimiter

def allow (kl : keyedLimiter rps burst) (key : GoString) (now : ℚ) : Bool × keyedLimiter rps burst :=
  let (ok, limiter) := (limiterOf (kl.buckets key)).allow rps now
  (ok, ⟨Function.update kl.buckets key (some ⟨limiter, now⟩)⟩)

/-- One sweep of `reap`. -/
def reap (kl : keyedLimiter rps burst) (now : ℚ) : keyedLimiter rps burst :=
  ⟨fun key => (kl.buckets key).filter fun e => ¬ now - e.seen > ttl⟩

end keyedLimiter

/-- A request with a key, or the sweep at a multiple of `ttl`. -/
inductive Event
  | allow (t : ℚ) (key : GoString)
  | sweep (n : Nat)
deriving DecidableEq

def Event.time : Event → ℚ
  | allow t _ => t
  | sweep n => n * ttl

/-- Events in the order of time, after the limiter was made. -/
structure Timed (es : List Event) : Prop where
  sorted : (es.map Event.time).Pairwise (· ≤ ·)
  nonneg : ∀ e ∈ es, 0 ≤ e.time

structure Answer where
  time : ℚ
  key : GoString
  ok : Bool
deriving DecidableEq

def keyedLimiter.run (kl : keyedLimiter rps burst) : List Event → List Answer
  | [] => []
  | .allow t key :: es => ⟨t, key, (kl.allow key t).1⟩ :: (kl.allow key t).2.run es
  | .sweep n :: es => (kl.reap (n * ttl)).run es

def keyedLimiter.after (kl : keyedLimiter rps burst) : List Event → keyedLimiter rps burst
  | [] => kl
  | .allow t key :: es => (kl.allow key t).2.after es
  | .sweep n :: es => (kl.reap (n * ttl)).after es

/-! ### One bucket for each key, forever -/

/-- The answers of a limiter that never deletes a bucket. -/
def foreverFrom (rps : ℚ) (buckets : GoString → Bucket ℚ burst) : List Event → List Answer
  | [] => []
  | .allow t key :: es => ⟨t, key, ((buckets key).allow rps t).1⟩ ::
      foreverFrom rps (Function.update buckets key ((buckets key).allow rps t).2) es
  | .sweep _ :: es => foreverFrom rps buckets es

def forever (rps : ℚ) (burst : Nat) (es : List Event) : List Answer :=
  foreverFrom rps (fun _ => (.full : Bucket ℚ burst)) es

def answersFor (key : GoString) (answers : List Answer) : List (ℚ × Bool) :=
  (answers.filter (·.key = key)).map fun r => (r.time, r.ok)

def timesFor (key : GoString) (es : List Event) : List ℚ :=
  es.filterMap fun
    | .allow t k => if k = key then some t else none
    | .sweep _ => none

/-- Each key has its own bucket. -/
theorem answersFor_foreverFrom (key : GoString) (buckets : GoString → Bucket ℚ burst) (es : List Event) :
    answersFor key (foreverFrom rps buckets es) = (buckets key).run rps (timesFor key es) := by
  induction es generalizing buckets with
  | nil => rfl
  | cons e es ih =>
    cases e with
    | sweep n => exact ih buckets
    | allow t k =>
      by_cases hk : k = key
      · subst hk
        have := ih (Function.update buckets k ((buckets k).allow rps t).2)
        simp only [answersFor, timesFor, Function.update_self] at this
        simp [foreverFrom, answersFor, timesFor, Bucket.run, this]
      · have := ih (Function.update buckets k ((buckets k).allow rps t).2)
        simp only [answersFor, timesFor, Function.update_of_ne (Ne.symm hk)] at this
        simp [foreverFrom, answersFor, timesFor, hk, this]

theorem timesFor_sorted {es : List Event} (h : (es.map Event.time).Pairwise (· ≤ ·)) (key : GoString) :
    (timesFor key es).Pairwise (· ≤ ·) := by
  refine List.Pairwise.filterMap _ (fun e e' he t ht t' ht' => ?_) (List.pairwise_map.1 h)
  cases e with
  | sweep n => cases ht
  | allow u k =>
    cases e' with
    | sweep n => cases ht'
    | allow u' k' =>
      simp only [Option.ite_none_right_eq_some, Option.some.injEq] at ht ht'
      rw [← ht.2, ← ht'.2]
      exact he

/-! ### Deleting full buckets -/

/-- From `now` on, the bucket of the limiter or a new one has as many tokens as `b`. -/
structure Same (rps now : ℚ) (e? : Option (entry burst)) (b : Bucket ℚ burst) : Prop where
  level : ∀ t, now ≤ t → (limiterOf e?).available rps t = b.available rps t
  seen : ∀ e ∈ e?, e.limiter.last ≤ e.seen ∧ e.seen ≤ now

namespace Same

variable {now t : ℚ} {e? : Option (entry burst)} {b : Bucket ℚ burst}

theorem mono (h : Same rps now e? b) (hle : now ≤ t) : Same rps t e? b :=
  ⟨fun t' ht' => h.level t' (hle.trans ht'), fun e he => ⟨(h.seen e he).1, (h.seen e he).2.trans hle⟩⟩

/-- A request is answered alike, and leaves the same tokens. -/
theorem allow (hrps : 0 ≤ rps) (hburst : 1 ≤ burst) (h : Same rps now e? b) (hle : now ≤ t) :
    ((limiterOf e?).allow rps t).1 = (b.allow rps t).1 ∧
      Same rps t (some ⟨((limiterOf e?).allow rps t).2, t⟩) (b.allow rps t).2 := by
  have hlevel := h.level t hle
  refine ⟨by rw [Bucket.allow_fst, Bucket.allow_fst, hlevel], ?_⟩
  by_cases hok : 1 ≤ b.available rps t
  · rw [Bucket.allow_snd_congr hlevel (hlevel ▸ hok), Bucket.allow_of_le hok]
    exact ⟨fun _ _ => rfl, fun e he => by cases he; exact ⟨le_rfl, le_rfl⟩⟩
  · rw [Bucket.allow_of_lt (hlevel ▸ hok), Bucket.allow_of_lt hok]
    refine ⟨fun t' ht' => h.level t' (hle.trans ht'), fun e he => ?_⟩
    cases he
    refine ⟨?_, le_rfl⟩
    cases e? with
    | none =>
      -- a new bucket does not refuse
      rw [← hlevel] at hok
      refine absurd ?_ hok
      show (1 : ℚ) ≤ (Bucket.full : Bucket ℚ burst).available rps t
      rw [Bucket.available_full hrps]
      exact_mod_cast hburst
    | some e =>
      obtain ⟨hlast, hseen⟩ := h.seen e rfl
      exact hlast.trans (hseen.trans hle)

/-- What a sweep deletes was full. -/
theorem reap (hrps : 0 ≤ rps) (hfill : (burst : ℚ) ≤ rps * ttl) (h : Same rps now e? b) (hle : now ≤ t) :
    Same rps t (e?.filter fun e => ¬ t - e.seen > ttl) b := by
  cases e? with
  | none => exact h.mono hle
  | some e =>
    by_cases hold : t - e.seen > ttl
    · rw [Option.filter_some_neg (by simp [hold])]
      refine ⟨fun t' ht' => ?_, nofun⟩
      obtain ⟨hlast, -⟩ := h.seen e rfl
      rw [← h.level t' (hle.trans ht')]
      show (Bucket.full : Bucket ℚ burst).available rps t' = e.limiter.available rps t'
      rw [Bucket.available_full hrps, Bucket.available_of_idle hrps (by linarith) (by norm_num [ttl]) hfill]
    · rw [Option.filter_some_pos (by simp [hold])]
      exact h.mono hle

end Same

/-- The limiter has for each key the tokens of the one that deletes nothing. -/
def Matches (now : ℚ) (kl : keyedLimiter rps burst) (buckets : GoString → Bucket ℚ burst) : Prop :=
  ∀ key, Same rps now (kl.buckets key) (buckets key)

theorem matches_new : Matches 0 (newKeyedLimiter rps burst) fun _ => .full :=
  fun _ => ⟨fun _ _ => rfl, nofun⟩

theorem Matches.run (hrps : 0 ≤ rps) (hburst : 1 ≤ burst) (hfill : (burst : ℚ) ≤ rps * ttl) {es : List Event}
    (hsorted : (es.map Event.time).Pairwise (· ≤ ·)) {now : ℚ} (hnow : ∀ e ∈ es, now ≤ e.time)
    {kl : keyedLimiter rps burst} {buckets : GoString → Bucket ℚ burst} (h : Matches now kl buckets) :
    kl.run es = foreverFrom rps buckets es := by
  induction es generalizing now kl buckets with
  | nil => rfl
  | cons e es ih =>
    obtain ⟨hfirst, hsorted'⟩ := List.pairwise_cons.1 hsorted
    obtain ⟨hle, -⟩ := List.forall_mem_cons.1 hnow
    have hrest : ∀ e' ∈ es, e.time ≤ e'.time := fun e' he' => hfirst _ (List.mem_map_of_mem he')
    cases e with
    | allow t key =>
      obtain ⟨hanswer, hsame⟩ := (h key).allow hrps hburst hle
      have hnext : Matches t (kl.allow key t).2 (Function.update buckets key ((buckets key).allow rps t).2) := by
        intro k
        simp only [keyedLimiter.allow]
        by_cases hk : k = key
        · subst hk
          rw [Function.update_self, Function.update_self]
          exact hsame
        · rw [Function.update_of_ne hk, Function.update_of_ne hk]
          exact (h k).mono hle
      have hanswer : (kl.allow key t).1 = ((buckets key).allow rps t).1 := hanswer
      rw [keyedLimiter.run, foreverFrom, ih hsorted' hrest hnext, hanswer]
    | sweep n => exact ih hsorted' hrest fun key => (h key).reap hrps hfill hle

/-! ### Emptying a bucket twice -/

namespace keyedLimiter

variable (kl : keyedLimiter rps burst) (key : GoString) (t : ℚ)

theorem run_append (es es' : List Event) : kl.run (es ++ es') = kl.run es ++ (kl.after es).run es' := by
  induction es generalizing kl with
  | nil => rfl
  | cons e es ih =>
    cases e with
    | allow t key => exact congrArg (⟨t, key, (kl.allow key t).1⟩ :: ·) (ih (kl.allow key t).2)
    | sweep n => exact ih _

/-- Requests at one moment are answered by the bucket of their key. -/
theorem answersFor_replicate (n : Nat) : answersFor key (kl.run (List.replicate n (.allow t key))) =
    (limiterOf (kl.buckets key)).run rps (List.replicate n t) := by
  induction n generalizing kl with
  | zero => rfl
  | succ n ih =>
    have hrest := ih (kl.allow key t).2
    have hbucket : limiterOf ((kl.allow key t).2.buckets key) = ((limiterOf (kl.buckets key)).allow rps t).2 := by
      simp [keyedLimiter.allow, limiterOf]
    rw [hbucket] at hrest
    rw [List.replicate_succ, List.replicate_succ, run, Bucket.run, ← hrest]
    simp [answersFor, keyedLimiter.allow]

/-- A sweep deletes the entry of a key exactly if it was not used for longer than `ttl`. -/
theorem reap_some {kl : keyedLimiter rps burst} {key : GoString} {e : entry burst} (he : kl.buckets key = some e)
    (now : ℚ) : (kl.reap now).buckets key = if now - e.seen > ttl then none else some e := by
  simp only [reap, he, Option.filter_some, decide_not]
  split <;> simp_all

theorem reap_none {kl : keyedLimiter rps burst} {key : GoString} (h : kl.buckets key = none) (now : ℚ) :
    (kl.reap now).buckets key = none := by
  simp only [reap, h, Option.filter_none]

theorem seen_replicate (n : Nat) :
    ∃ e, (kl.after (List.replicate (n + 1) (.allow t key))).buckets key = some e ∧ e.seen = t := by
  induction n generalizing kl with
  | zero => exact ⟨_, Function.update_self .., rfl⟩
  | succ n ih => exact ih (kl.allow key t).2

end keyedLimiter

/-- All tokens at time `s`, two sweeps, and all tokens again at the second. -/
def drainTwice (burst : Nat) (s : ℚ) (key : GoString) : List Event :=
  List.replicate burst (.allow s key) ++ ([.sweep 1, .sweep 2] ++ List.replicate burst (.allow (2 * ttl) key))

theorem drainTwice_timed {s : ℚ} (h0 : 0 ≤ s) (hs : s < ttl) (key : GoString) : Timed (drainTwice burst s key) := by
  have httl : (0 : ℚ) < ttl := by norm_num [ttl]
  constructor
  · simp only [drainTwice, List.map_append, List.map_replicate, List.map_cons, List.map_nil, Event.time,
      List.pairwise_append, List.pairwise_replicate, List.pairwise_pair, List.mem_append, List.mem_replicate,
      List.mem_pair]
    push_cast
    refine ⟨.inr le_rfl, ⟨by linarith, .inr le_rfl, ?_⟩, ?_⟩
    · rintro a (rfl | rfl) b ⟨-, rfl⟩ <;> linarith
    · rintro a ⟨-, rfl⟩ b ((rfl | rfl) | ⟨-, rfl⟩) <;> linarith
  · intro e he
    simp only [drainTwice, List.mem_append, List.mem_replicate, List.mem_cons, List.not_mem_nil, or_false] at he
    rcases he with ⟨-, rfl⟩ | (rfl | rfl) | ⟨-, rfl⟩
    · exact h0
    all_goals (simp only [Event.time]; positivity)

/-- Before the first sweep a bucket is emptied; the second deletes it. -/
theorem answersFor_drainTwice (hrps : 0 ≤ rps) (hburst : 1 ≤ burst) {s : ℚ} (hs : s < ttl) (key : GoString) :
    answersFor key ((newKeyedLimiter rps burst).run (drainTwice burst s key)) =
      List.replicate burst (s, true) ++ List.replicate burst (2 * ttl, true) := by
  obtain ⟨n, rfl⟩ : ∃ n, burst = n + 1 := ⟨burst - 1, by omega⟩
  have hfull : ∀ t, ((n + 1 : Nat) : ℚ) ≤ (Bucket.full : Bucket ℚ (n + 1)).available rps t := fun t =>
    (Bucket.available_full hrps t).ge
  obtain ⟨e, he, hseen⟩ := (newKeyedLimiter rps (n + 1)).seen_replicate key s n
  -- the second sweep deletes the bucket if the first has left it
  have hgone : (((newKeyedLimiter rps (n + 1)).after (List.replicate (n + 1) (.allow s key))).after
      [.sweep 1, .sweep 2]).buckets key = none := by
    have hold : (((2 : Nat) : ℚ) * ttl - e.seen > ttl) := by
      rw [hseen]
      push_cast
      linarith
    have hfirst := keyedLimiter.reap_some he ((1 : Nat) * ttl)
    split_ifs at hfirst with hearly
    · exact keyedLimiter.reap_none hfirst _
    · exact (keyedLimiter.reap_some hfirst _).trans (if_pos hold)
  have happend : ∀ as as', answersFor key (as ++ as') = answersFor key as ++ answersFor key as' := by
    simp [answersFor]
  rw [drainTwice, keyedLimiter.run_append, keyedLimiter.run_append, happend, happend,
    keyedLimiter.answersFor_replicate, keyedLimiter.answersFor_replicate, hgone]
  exact congrArg₂ (· ++ ·) (Bucket.run_replicate (hfull s)) (Bucket.run_replicate (hfull _))

/-! ### When the sweeps cannot be seen -/

/-- Every request is answered as if no bucket was ever deleted. -/
def Invisible (rps : ℚ) (burst : Nat) : Prop :=
  ∀ es, Timed es → (newKeyedLimiter rps burst).run es = forever rps burst es

/-- No key is allowed more than `burst + rps * T` requests in a window of length `T`. -/
def Bounded (rps : ℚ) (burst : Nat) : Prop :=
  ∀ es, Timed es → ∀ key a T, 0 ≤ T →
    (allowedIn a (a + T) (answersFor key ((newKeyedLimiter rps burst).run es)) : ℚ) ≤ burst + rps * T

theorem Invisible.bounded (hrps : 0 ≤ rps) (h : Invisible rps burst) : Bounded rps burst := by
  intro es hes key a T hT
  have hle := allowedIn_run_le hrps (timesFor_sorted hes.sorted key) (.full : Bucket ℚ burst)
    (le_add_of_nonneg_right hT : a ≤ a + T)
  rw [add_sub_cancel_left] at hle
  rw [h es hes, forever, answersFor_foreverFrom]
  exact hle

theorem Bounded.fill (hrps : 0 < rps) (hburst : 1 ≤ burst) (h : Bounded rps burst) : (burst : ℚ) ≤ rps * ttl := by
  by_contra hlt
  rw [not_le] at hlt
  have httl : (0 : ℚ) < ttl := by norm_num [ttl]
  -- wait for a little longer than `ttl`, so that not all the tokens have come back
  obtain ⟨δ, hδ, hle, hmissing⟩ : ∃ δ, 0 < δ ∧ δ ≤ ttl ∧ rps * (ttl + δ) < burst := by
    refine ⟨min ttl ((burst - rps * ttl) / (2 * rps)), ?_, min_le_left _ _, ?_⟩
    · exact lt_min httl (div_pos (by linarith) (by linarith))
    · have hstep := mul_le_mul_of_nonneg_left (min_le_right ttl ((burst - rps * ttl) / (2 * rps))) hrps.le
      have hhalf : rps * ((burst - rps * ttl) / (2 * rps)) = (burst - rps * ttl) / 2 := by
        rw [mul_div, mul_comm 2 rps, mul_div_mul_left _ _ hrps.ne']
      rw [mul_add]
      linarith
  have htimed : Timed (drainTwice burst (ttl - δ) []) := drainTwice_timed (by linarith) (by linarith) []
  have hcount := h _ htimed [] (ttl - δ) (ttl + δ) (by linarith)
  have hwindow : allowedIn (ttl - δ) (ttl - δ + (ttl + δ))
      (List.replicate burst (ttl - δ, true) ++ List.replicate burst (2 * ttl, true)) = burst + burst := by
    have hbegin : ttl - δ ≤ ttl - δ + (ttl + δ) := by linarith
    have hend : ttl - δ ≤ 2 * ttl ∧ 2 * ttl ≤ ttl - δ + (ttl + δ) := ⟨by linarith, by linarith⟩
    rw [allowedIn_append, allowedIn_replicate ⟨le_rfl, hbegin⟩, allowedIn_replicate hend]
  rw [answersFor_drainTwice hrps.le hburst (by linarith) [], hwindow] at hcount
  push_cast at hcount
  linarith

/-- For every rate and burst, the sweeps cannot be seen, and the limit holds in every window, exactly if an
empty bucket is full again after `ttl`. -/
theorem reaping_invisible_iff (hrps : 0 < rps) (hburst : 1 ≤ burst) :
    (Invisible rps burst ↔ (burst : ℚ) ≤ rps * ttl) ∧ (Bounded rps burst ↔ (burst : ℚ) ≤ rps * ttl) := by
  have hinvisible : (burst : ℚ) ≤ rps * ttl → Invisible rps burst := fun hfill es hes =>
    matches_new.run hrps.le hburst hfill hes.sorted hes.nonneg
  refine ⟨⟨fun h => (h.bounded hrps.le).fill hrps hburst, hinvisible⟩, fun h => h.fill hrps hburst, fun hfill => ?_⟩
  exact (hinvisible hfill).bounded hrps.le

theorem reaping_invisible_default : (0 : ℚ) < 50 ∧ 1 ≤ 100 ∧ Invisible 50 100 ∧ Bounded 50 100 := by
  obtain ⟨hinvisible, hbounded⟩ := reaping_invisible_iff (show (0 : ℚ) < 50 by norm_num) (show 1 ≤ 100 by norm_num)
  exact ⟨by norm_num, by norm_num, hinvisible.2 (by norm_num [ttl]), hbounded.2 (by norm_num [ttl])⟩

/-- One request in 100 seconds with a burst of 10: after 601 seconds a key may send 10 requests again, where 6
tokens have come back. -/
theorem reaping_visible : Timed (drainTwice 10 599 "client") ∧
    (newKeyedLimiter (1 / 100) 10).run (drainTwice 10 599 "client") ≠ forever (1 / 100) 10 (drainTwice 10 599 "client") ∧
    allowedIn 599 (599 + 601) (answersFor "client" ((newKeyedLimiter (1 / 100) 10).run (drainTwice 10 599 "client"))) = 20 ∧
    (10 : ℚ) + 1 / 100 * 601 < 20 := by
  refine ⟨drainTwice_timed (by norm_num) (by norm_num [ttl]) _, ?_, ?_, by norm_num⟩
  · decide +kernel
  · decide +kernel

end Forge.httpx
