import Mathlib.Data.Rat.Cast.Order
import Forge.Platform.Authorised

/-!
# How often one principal is served

The limiter, an exact token bucket for each key, bounds what it lets pass (`Bounded`). A request is handled only after the limiter let it pass, once, and
under the key it was asked for: each handled request can be dated at the moment it passed, between its beginning
and its handling, so that no interval has more of one key than the limiter allows. What the requests of others
do, and requests without a valid token, makes no difference.
-/

namespace Forge.api

open GoString httpx TokenBucket

variable {rps : ℚ} {burst : Nat} {site : Site} {p : Nat} {w w' : World rps burst}

/-! ### The stages of a request -/

/-- A request has not begun, has begun, was let pass by the limiter, or makes no call any more. -/
inductive Stage
  | fresh
  | begun
  | admitted (key : GoString)
  | ended

namespace Stage

def May : Stage → Call → Prop
  | fresh, .newUUID => True
  | fresh, .now => True
  | begun, .jwks _ => True
  | begun, .now => True
  | begun, .allow _ => True
  | begun, .unauthenticated _ => True
  | admitted key, .handle _ ctx r => rateKey ctx r = key
  | _, _ => False

def after : Stage → (op : Call) → op.Ans → Stage
  | fresh, .now, _ => begun
  | begun, .allow key, true => admitted key
  | begun, .allow _, false => ended
  | admitted _, .handle .., _ => ended
  | st, _, _ => st

/-- What the stage of `p` says about the world. -/
def Holds (p : Nat) : Stage → World rps burst → Prop
  | fresh, w => p ∉ w.admitted.map (·.1)
  | begun, w => p ∉ w.admitted.map (·.1) ∧ ∃ start, w.began p = some start
  | admitted key, w => (∃ t, (p, t, key) ∈ w.admitted) ∧ p ∉ w.handled.map (·.1)
  | ended, _ => True

end Stage

open Stage

section
variable {α : Type}

/-- The calls of a verifier. -/
def Verifies : Call → Prop
  | .jwks _ => True
  | .now => True
  | _ => False

theorem uses_liftJwks (m : Proc JWKSVerifier.Call JWKSVerifier.Call.Ans α) : (liftJwks m).Uses Verifies := by
  induction m with
  | ret a => trivial
  | call op k ih => exact ⟨trivial, fun a => ih a⟩

variable [GoNumbers] [jwt.Library] [Rsa]

theorem uses_Verify (v : Verifier) (token : GoString) : (v.Verify token).Uses Verifies := by
  have hclaims : ∀ (x : jwt.Validator) (c : claims), (validateClaims x c).Uses Verifies := by
    intro x c
    refine ⟨trivial, fun now => ?_⟩
    dsimp only [Proc.bind]
    split <;> trivial
  cases v with
  | HMACVerifier secret =>
    unfold Verifier.Verify
    dsimp only
    split
    · trivial
    · split
      · exact hclaims _ _
      · trivial
  | JWKSVerifier url issuer audience =>
    unfold Verifier.Verify
    dsimp only
    split
    · trivial
    · split
      · refine (uses_liftJwks _).bind fun r => ?_
        cases r with
        | error e => trivial
        | ok key =>
          dsimp only
          split
          · exact hclaims _ _
          · trivial
      · trivial

/-- A request asks the limiter once at most, and is handled only if it was let pass. -/
theorem obeys_serveHTTP (cfg : config.Config) (r : Request) :
    (serveHTTP cfg r).Obeys May after (fun _ _ => True) fresh := by
  have hlimit : ∀ start ctx, (RateLimit (fun ctx r => perform (.handle start ctx r)) ctx r).Obeys May after
      (fun _ _ => True) begun := by
    intro start ctx
    refine ⟨trivial, fun ok => ?_⟩
    cases ok with
    | false => trivial
    | true => exact ⟨rfl, fun _ => trivial⟩
  have hrouter : ∀ start ctx, (router (buildVerifier cfg.auth) start ctx r).Obeys May after (fun _ _ => True) begun := by
    intro start ctx
    unfold router
    split
    · unfold Authenticate
      split
      · refine Proc.Obeys.bind (Q := fun _ st => st = begun) ((uses_Verify _ _).obeys ?_ ?_ fun _ => rfl) ?_
        · intro op hop
          cases op <;> trivial
        · intro op a hop
          cases op <;> first | rfl | exact hop.elim
        · rintro res st rfl
          cases res with
          | error e => trivial
          | ok principal => exact hlimit start _
      · trivial
    · exact ⟨trivial, fun _ => trivial⟩
  refine Proc.Obeys.bind (Q := fun _ _ => True) ?_ fun o st _ => ?_
  · refine Proc.Obeys.bind (Q := fun _ st => st = fresh) ?_ ?_
    · unfold correlationID
      split
      · exact ⟨trivial, fun _ => rfl⟩
      · rfl
    · rintro cid st rfl
      refine Proc.Obeys.bind (Q := fun _ _ => True) ?_ fun o st _ => trivial
      exact ⟨trivial, fun start => hrouter start _⟩
  · split <;> trivial

end

/-! ### The books of the limiter -/

theorem after_append (kl : keyedLimiter rps burst) (es es' : List Event) : kl.after (es ++ es') = (kl.after es).after es' := by
  induction es generalizing kl with
  | nil => rfl
  | cons e es ih => cases e <;> exact ih _

/-- What the limiter let pass, with the times and the keys. -/
def passed (rps : ℚ) (burst : Nat) (es : List Event) : List (ℚ × GoString) :=
  ((newKeyedLimiter rps burst).run es).filterMap fun a => if a.ok then some (a.time, a.key) else none

/-- The limiter is the one that was asked what the books say; it let pass the admitted requests, each of them once
and after it had begun; and the handled requests are admitted ones, each of them handled once. -/
structure Accounted (site : Site) (w : World rps burst) : Prop where
  uptime : 0 ≤ w.seconds site
  begun : ∀ p start, w.began p = some start → start ≤ w.clock
  limiter : w.limiter = (newKeyedLimiter rps burst).after w.events
  timed : Timed w.events
  past : ∀ e ∈ w.events, e.time ≤ w.seconds site
  passed : w.admitted.map (·.2) = passed rps burst w.events
  once : (w.admitted.map (·.1)).Nodup
  dated : ∀ x ∈ w.admitted, (∃ start, w.began x.1 = some start ∧ site.seconds start ≤ x.2.1) ∧ x.2.1 ≤ w.seconds site
  handled : ∀ x ∈ w.handled, ∃ t, (x.1, t, x.2) ∈ w.admitted
  handledOnce : (w.handled.map (·.1)).Nodup

theorem Site.seconds_mono {t t' : Int} (h : t ≤ t') : site.seconds t ≤ site.seconds t' := by
  unfold Site.seconds
  have hcast : ((t - site.boot : Int) : ℚ) ≤ ((t' - site.boot : Int) : ℚ) := by exact_mod_cast (by omega)
  linarith

theorem timed_append {es : List Event} {e : Event} (h : Timed es) (hpast : ∀ e' ∈ es, e'.time ≤ e.time)
    (hpos : 0 ≤ e.time) : Timed (es ++ [e]) := by
  constructor
  · rw [List.map_append, List.pairwise_append]
    refine ⟨h.sorted, List.pairwise_singleton _ _, ?_⟩
    intro a ha b hb
    obtain ⟨e', he', rfl⟩ := List.mem_map.1 ha
    rw [List.mem_singleton.1 hb]
    exact hpast e' he'
  · intro e' he'
    rcases List.mem_append.1 he' with he' | he'
    · exact h.nonneg e' he'
    · rw [List.mem_singleton.1 he']
      exact hpos

namespace Accounted

/-- A step that moves the clock, or notes the beginning of requests. -/
theorem congr (h : Accounted site w) (hclock : w.clock ≤ w'.clock) (hlimiter : w'.limiter = w.limiter)
    (hevents : w'.events = w.events) (hadmitted : w'.admitted = w.admitted) (hhandled : w'.handled = w.handled)
    (hbegan : ∀ p start, w.began p = some start → w'.began p = some start)
    (hbegun : ∀ p start, w'.began p = some start → start ≤ w'.clock) : Accounted site w' := by
  have hseconds : w.seconds site ≤ w'.seconds site := Site.seconds_mono hclock
  refine ⟨h.uptime.trans hseconds, hbegun, ?_, ?_, ?_, ?_, ?_, ?_, ?_, ?_⟩
  · rw [hlimiter, hevents, h.limiter]
  · rw [hevents]
    exact h.timed
  · rw [hevents]
    exact fun e he => (h.past e he).trans hseconds
  · rw [hadmitted, hevents, h.passed]
  · rw [hadmitted]
    exact h.once
  · rw [hadmitted]
    intro x hx
    obtain ⟨⟨start, hstart, hle⟩, hnow⟩ := h.dated x hx
    exact ⟨⟨start, hbegan _ _ hstart, hle⟩, hnow.trans hseconds⟩
  · rw [hadmitted, hhandled]
    exact h.handled
  · rw [hhandled]
    exact h.handledOnce

theorem sweep {n : Nat} (h : Accounted site w) (hn : w.seconds site = n * httpx.ttl) :
    Accounted site { w with limiter := w.limiter.reap (n * httpx.ttl), events := w.events ++ [.sweep n] } where
  uptime := h.uptime
  begun := h.begun
  limiter := by
    rw [after_append, ← h.limiter]
    rfl
  timed := timed_append h.timed (fun e he => (h.past e he).trans_eq hn) (h.uptime.trans_eq hn)
  past := by
    intro e he
    rcases List.mem_append.1 he with he | he
    · exact h.past e he
    · rw [List.mem_singleton.1 he]
      exact hn.ge
  passed := by
    unfold api.passed
    rw [keyedLimiter.run_append, List.filterMap_append]
    exact h.passed.trans (List.append_nil _).symm
  once := h.once
  dated := h.dated
  handled := h.handled
  handledOnce := h.handledOnce

/-- The limiter is asked for a request that has begun and was not let pass before. -/
theorem ask {start : Int} (h : Accounted site w) (hbegan : w.began p = some start) (hnew : p ∉ w.admitted.map (·.1))
    (key : GoString) : Accounted site (w.askLimiter site p key).2 := by
  have hpassed : api.passed rps burst (w.events ++ [.allow (w.seconds site) key]) = w.admitted.map (·.2) ++
      if (w.limiter.allow key (w.seconds site)).1 then [(w.seconds site, key)] else [] := by
    have hlast : w.limiter.run [.allow (w.seconds site) key] =
        [⟨w.seconds site, key, (w.limiter.allow key (w.seconds site)).1⟩] := rfl
    rw [h.passed, api.passed, keyedLimiter.run_append, List.filterMap_append, ← h.limiter, hlast]
    cases (w.limiter.allow key (w.seconds site)).1 <;> rfl
  have hadmitted : (w.askLimiter site p key).2.admitted = w.admitted ++
      if (w.limiter.allow key (w.seconds site)).1 then [(p, w.seconds site, key)] else [] := by
    simp only [World.askLimiter]
    split <;> simp
  have hmem : ∀ x ∈ (w.askLimiter site p key).2.admitted, x ∈ w.admitted ∨ x = (p, w.seconds site, key) := by
    intro x hx
    rw [hadmitted] at hx
    rcases List.mem_append.1 hx with hx | hx
    · exact .inl hx
    · split at hx
      · exact .inr (List.mem_singleton.1 hx)
      · cases hx
  refine ⟨h.uptime, h.begun, ?_, ?_, ?_, ?_, ?_, ?_, ?_, h.handledOnce⟩
  · show (w.limiter.allow key (w.seconds site)).2 = (newKeyedLimiter rps burst).after (w.events ++ _)
    rw [after_append, ← h.limiter]
    rfl
  · exact timed_append h.timed h.past h.uptime
  · intro e he
    rcases List.mem_append.1 he with he | he
    · exact h.past e he
    · rw [List.mem_singleton.1 he]
      exact le_rfl
  · rw [hadmitted, List.map_append]
    refine Eq.trans ?_ hpassed.symm
    split <;> rfl
  · rw [hadmitted, List.map_append, List.nodup_append]
    split
    · refine ⟨h.once, List.nodup_singleton _, ?_⟩
      intro a ha b hb
      rw [List.mem_singleton.1 hb]
      rintro rfl
      exact hnew ha
    · exact ⟨h.once, List.nodup_nil, fun _ _ _ hb => by cases hb⟩
  · intro x hx
    rcases hmem x hx with hx | rfl
    · exact h.dated x hx
    · exact ⟨⟨start, hbegan, Site.seconds_mono (h.begun p start hbegan)⟩, le_rfl⟩
  · intro x hx
    obtain ⟨t, ht⟩ := h.handled x hx
    refine ⟨t, ?_⟩
    rw [hadmitted]
    exact List.mem_append_left _ ht

theorem handle {key : GoString} (h : Accounted site w) (hadmitted : ∃ t, (p, t, key) ∈ w.admitted)
    (hnew : p ∉ w.handled.map (·.1)) : Accounted site { w with handled := w.handled ++ [(p, key)] } where
  uptime := h.uptime
  begun := h.begun
  limiter := h.limiter
  timed := h.timed
  past := h.past
  passed := h.passed
  once := h.once
  dated := h.dated
  handled := by
    intro x hx
    rcases List.mem_append.1 hx with hx | hx
    · exact h.handled x hx
    · rw [List.mem_singleton.1 hx]
      exact hadmitted
  handledOnce := by
    rw [List.map_append, List.nodup_append]
    refine ⟨h.handledOnce, List.nodup_singleton _, ?_⟩
    intro a ha b hb
    rw [List.mem_singleton.1 hb]
    rintro rfl
    exact hnew ha

end Accounted

/-! ### One step -/

theorem admitted_ask (site : Site) (p : Nat) (w : World rps burst) (key : GoString) :
    (w.askLimiter site p key).2.admitted = w.admitted ∨
      (w.askLimiter site p key).1 = true ∧
        (w.askLimiter site p key).2.admitted = w.admitted ++ [(p, w.seconds site, key)] := by
  simp only [World.askLimiter]
  split
  · exact .inr ⟨‹_›, rfl⟩
  · exact .inl rfl

/-- A call of `p` says nothing about the stage of another request. -/
theorem Stage.Holds.other {q : Nat} {st : Stage} {op : Call} {a : op.Ans} (h : st.Holds q w) (hq : q ≠ p)
    (hdid : w.Did site p op a w') : st.Holds q w' := by
  have hbegan : w'.began q = w.began q := (hdid.moved hq.symm).began
  have hadmitted : ∀ x, x ∈ w.admitted → x ∈ w'.admitted := by
    cases hdid with
    | allow key =>
      intro x hx
      rcases admitted_ask site p w key with h | ⟨-, h⟩ <;> rw [h]
      · exact hx
      · exact List.mem_append_left _ hx
    | _ => exact fun x hx => hx
  have hnew : q ∉ w.admitted.map (·.1) → q ∉ w'.admitted.map (·.1) := by
    intro hno
    cases hdid with
    | allow key =>
      rcases admitted_ask site p w key with h | ⟨-, h⟩ <;> rw [h]
      · exact hno
      · simpa [hq] using hno
    | _ => exact hno
  have hhandled : q ∉ w.handled.map (·.1) → q ∉ w'.handled.map (·.1) := by
    intro hno
    cases hdid with
    | handle => simpa [hq] using hno
    | _ => exact hno
  cases st with
  | fresh => exact hnew h
  | begun => exact ⟨hnew h.1, hbegan ▸ h.2⟩
  | admitted key =>
    obtain ⟨⟨t, ht⟩, hno⟩ := h
    exact ⟨⟨t, hadmitted _ ht⟩, hhandled hno⟩
  | ended => trivial

theorem Accounted.begin (h : Accounted site w) (p : Nat) : Accounted site (w.begin p) := by
  refine h.congr le_rfl rfl rfl rfl rfl (fun q start hq => ?_) fun q start hq => ?_
  · by_cases hpq : q = p
    · subst hpq
      simp [World.begin, hq]
    · simpa [World.begin, hpq] using hq
  · by_cases hpq : q = p
    · subst hpq
      have hstart : (w.began q).getD w.clock = start := by simpa [World.begin] using hq
      rw [← hstart]
      cases hb : w.began q with
      | none => exact le_rfl
      | some t => exact h.begun q t hb
    · exact h.begun q start (by simpa [World.begin, hpq] using hq)

/-- A call that a request may make in its stage keeps the books, and leads to its next stage. -/
theorem Stage.Holds.step {st : Stage} {op : Call} {a : op.Ans} (h : st.Holds p w) (hw : Accounted site w)
    (hmay : st.May op) (hdid : w.Did site p op a w') : Accounted site w' ∧ (st.after op a).Holds p w' := by
  cases st with
  | fresh =>
    cases hdid with
    | now => exact ⟨hw.begin p, h, _, Function.update_self ..⟩
    | newUUID u => exact ⟨hw, h⟩
    | _ => exact hmay.elim
  | begun =>
    obtain ⟨hnew, start, hbegan⟩ := h
    have hsame : ∀ w'' : World rps burst, w''.admitted = w.admitted → w''.began p = w.began p →
        begun.Holds p w'' := by
      intro w'' hadmitted hb
      refine ⟨?_, start, hb.trans hbegan⟩
      rw [hadmitted]
      exact hnew
    cases hdid with
    | allow key =>
      refine ⟨hw.ask hbegan hnew key, ?_⟩
      rcases hok : (w.askLimiter site p key).1 with _ | _
      · trivial
      · have hlast : (p, w.seconds site, key) ∈ (w.askLimiter site p key).2.admitted := by
          simp only [World.askLimiter] at hok ⊢
          rw [if_pos hok]
          exact List.mem_append_right _ (List.mem_singleton_self _)
        refine ⟨⟨_, hlast⟩, fun hmem => ?_⟩
        obtain ⟨x, hx, rfl⟩ := List.mem_map.1 hmem
        obtain ⟨t, ht⟩ := hw.handled x hx
        exact hnew (List.mem_map.2 ⟨_, ht, rfl⟩)
    | now => exact ⟨hw.begin p, hnew, _, Function.update_self ..⟩
    | newUUID => exact hmay.elim
    | handle => exact hmay.elim
    | unauthenticated => exact ⟨hw, hsame w rfl rfl⟩
    | cached => exact ⟨hw, hsame _ rfl rfl⟩
    | key => exact ⟨hw, hsame _ rfl rfl⟩
    | _ => exact ⟨hw.congr le_rfl rfl rfl rfl rfl (fun _ _ h => h) hw.begun, hsame _ rfl rfl⟩
  | admitted key =>
    cases hdid with
    | handle start ctx r o =>
      have hkey : rateKey ctx r = key := hmay
      rw [hkey]
      exact ⟨hw.handle h.1 h.2, trivial⟩
    | _ => exact hmay.elim
  | ended => exact hmay.elim

/-! ### Every run -/

theorem accounted_init : Accounted site (World.init site : World rps burst) where
  uptime := by simp [World.seconds, Site.seconds, World.init]
  begun := fun _ _ h => by cases h
  limiter := rfl
  timed := ⟨List.Pairwise.nil, fun _ h => absurd h List.not_mem_nil⟩
  past := fun _ h => absurd h List.not_mem_nil
  passed := rfl
  once := List.nodup_nil
  dated := fun _ h => absurd h List.not_mem_nil
  handled := fun _ h => absurd h List.not_mem_nil
  handledOnce := List.nodup_nil

theorem accounted_env {c : Choice} (h : Accounted site w) (henv : World.env site c w = some w') :
    Accounted site w' ∧ ∀ q st, Stage.Holds q st w → Stage.Holds q st w' := by
  cases c with
  | tick d =>
    cases henv
    have hle : w.clock ≤ w.clock + d := by omega
    refine ⟨h.congr hle rfl rfl rfl rfl (fun _ _ h => h) fun p t ht => (h.begun p t ht).trans hle, fun q st hst => ?_⟩
    cases st <;> exact hst
  | sweep n =>
    simp only [World.env] at henv
    split at henv <;> cases henv
    refine ⟨h.sweep ‹_›, fun q st hst => ?_⟩
    cases st <;> exact hst
  | _ => cases henv

section
variable [GoNumbers] [jwt.Library] [Rsa] {cfg : config.Config} {requests : Nat → Option Request} {ms : List (Move Nat Choice)}
  {s : Pool Nat Call Call.Ans (List Write) (World rps burst)}

theorem accounted_run (hrun : (server rps burst site cfg requests).run (World.machine site) ms = some s) :
    Accounted site s.world := by
  have hob : (server rps burst site cfg requests).Obeying May after (fun _ _ => True) Holds ended := by
    intro p
    cases hp : requests p with
    | none =>
      simp only [server, hp, Option.map_none]
      trivial
    | some r =>
      simp only [server, hp, Option.map_some]
      exact ⟨fresh, obeys_serveHTTP cfg r, List.not_mem_nil⟩
  refine (Pool.obeys_run (K := Accounted site) ?_ ?_ ?_ accounted_init hob hrun).1
  · intro p op c a st w w' hmay hst hw hc
    have hdid := World.call_did hc
    obtain ⟨hw', hst'⟩ := hst.step hw hmay hdid
    exact ⟨hw', hst', fun q st' hq hst' => hst'.other hq hdid⟩
  · exact fun p w hw => ⟨hw, trivial, fun q st _ hst => hst⟩
  · exact fun c w w' hw hc => accounted_env hw hc

end

/-! ### Counting -/

/-- When the limiter let the request pass. -/
def admittedAt (w : World rps burst) (p : Nat) : ℚ := ((w.admitted.find? (·.1 = p)).map (·.2.1)).getD 0

theorem Accounted.admittedAt (h : Accounted site w) {x : Nat × GoString} (hx : x ∈ w.handled) :
    (x.1, api.admittedAt w x.1, x.2) ∈ w.admitted := by
  obtain ⟨t, ht⟩ := h.handled x hx
  have hfound : (w.admitted.find? (·.1 = x.1)).isSome := List.find?_isSome.2 ⟨_, ht, by simp⟩
  obtain ⟨y, hy⟩ := Option.isSome_iff_exists.1 hfound
  have hyx : y.1 = x.1 := by simpa using List.find?_some hy
  -- no request is admitted twice
  obtain rfl : y = (x.1, t, x.2) := List.inj_on_of_nodup_map h.once (List.mem_of_find?_eq_some hy) ht hyx
  rw [api.admittedAt, hy]
  exact ht

/-- How many of the handled requests of a key passed the limiter between `a` and `z`. -/
def handledIn (key : GoString) (a z : ℚ) (w : World rps burst) : Nat :=
  w.handled.countP fun x => x.2 = key ∧ a ≤ admittedAt w x.1 ∧ admittedAt w x.1 ≤ z

theorem Accounted.handledIn_le (h : Accounted site w) (key : GoString) (a z : ℚ) :
    handledIn key a z w ≤ allowedIn a z (answersFor key ((newKeyedLimiter rps burst).run w.events)) := by
  have hnodup : (w.handled.map fun x => (x.1, api.admittedAt w x.1, x.2)).Nodup := by
    refine List.Nodup.of_map (·.1) ?_
    rw [List.map_map]
    exact h.handledOnce
  have hsub : (w.handled.map fun x => (x.1, api.admittedAt w x.1, x.2)) ⊆ w.admitted := by
    intro y hy
    obtain ⟨x, hx, rfl⟩ := List.mem_map.1 hy
    exact h.admittedAt hx
  calc handledIn key a z w
      = (w.handled.map fun x => (x.1, api.admittedAt w x.1, x.2)).countP fun y =>
          y.2.2 = key ∧ a ≤ y.2.1 ∧ y.2.1 ≤ z := by
        rw [List.countP_map]
        rfl
    _ ≤ w.admitted.countP fun y => y.2.2 = key ∧ a ≤ y.2.1 ∧ y.2.1 ≤ z := (hnodup.subperm hsub).countP_le _
    _ = (w.admitted.map (·.2)).countP fun y => y.2 = key ∧ a ≤ y.1 ∧ y.1 ≤ z := by
        rw [List.countP_map]
        rfl
    _ = allowedIn a z (answersFor key ((newKeyedLimiter rps burst).run w.events)) := by
        rw [h.passed, api.passed, List.countP_filterMap, allowedIn, answersFor, List.countP_map, List.countP_filter]
        refine List.countP_congr fun x _ => ?_
        cases hok : x.ok <;> simp [hok, and_comm]

section
variable [GoNumbers] [jwt.Library] [Rsa] {cfg : config.Config} {requests : Nat → Option Request} {ms : List (Move Nat Choice)}
  {s : Pool Nat Call Call.Ans (List Write) (World rps burst)}

/-- However many requests come at once, with whatever tokens: no request is handled twice; each handled request
passed the limiter at some moment between its beginning and now; and in no interval of `T` seconds more than
`burst + rps * T` requests of one key did, if ten minutes fill an empty bucket and the limiter of a key is an exact
token bucket, as `TokenBucket` has it. -/
theorem throttled (hrps : 0 < rps) (hburst : 1 ≤ burst) (hfill : (burst : ℚ) ≤ rps * httpx.ttl)
    (hrun : (server rps burst site cfg requests).run (World.machine site) ms = some s) :
    (s.world.handled.map (·.1)).Nodup ∧
    (∀ x ∈ s.world.handled, (∃ start, s.world.began x.1 = some start ∧ site.seconds start ≤ admittedAt s.world x.1) ∧
      admittedAt s.world x.1 ≤ s.world.seconds site) ∧
    ∀ key a T, 0 ≤ T → (handledIn key a (a + T) s.world : ℚ) ≤ burst + rps * T := by
  have h := accounted_run hrun
  refine ⟨h.handledOnce, fun x hx => h.dated _ (h.admittedAt hx), fun key a T hT => ?_⟩
  have hinvisible : Invisible rps burst := fun es hes =>
    matches_new.run hrps.le hburst hfill hes.sorted hes.nonneg
  calc (handledIn key a (a + T) s.world : ℚ)
      ≤ allowedIn a (a + T) (answersFor key ((newKeyedLimiter rps burst).run s.world.events)) := by
        exact_mod_cast h.handledIn_le key a (a + T)
    _ ≤ burst + rps * T := hinvisible.bounded hrps.le _ h.timed key a T hT

end

section
attribute [local instance] GoNumbers.integers jwt.Library.reference sampleRsa

/-- One request a second and no burst; two requests of one principal. -/
def slowServer : Pool Nat Call Call.Ans (List Write) (World 1 1) :=
  server 1 1 sampleSite (config.read sampleEnviron) fun p => if p < 2 then some (sampleRequest oldToken) else none

/-- Half a second after the first request has passed, the second one finds its key in the cache and is told to come
back later. -/
def slowMoves : List (Move Nat Choice) :=
  fetchAndPass 0 1700000000000000000 ++ [.env (.tick 500000000)] ++
    ([.ok, .ok, .ok, .ok] : List Choice).map (.call 1) ++ [.call 0 (.outcome ⟨[.status 200], false⟩)]

theorem throttled_sample : ∃ s ws, slowServer.run (World.machine sampleSite) slowMoves = some s ∧
    s.result? 1 = some ws ∧ .status 429 ∈ ws ∧ handledIn "ada" 0 (0 + 1 / 2) s.world = 1 ∧
    (handledIn "ada" 0 (0 + 1 / 2) s.world : ℚ) ≤ (1 : Nat) + 1 * (1 / 2) := by
  have h : (slowServer.run (World.machine sampleSite) slowMoves).bind (fun s => (s.result? 1).map fun ws =>
      (decide (.status 429 ∈ ws), handledIn "ada" 0 (0 + 1 / 2) s.world)) = some (true, 1) := by
    decide +kernel
  obtain ⟨s, hrun, hs⟩ := Option.bind_eq_some_iff.1 h
  obtain ⟨ws, hres, hs⟩ := Option.map_eq_some_iff.1 hs
  simp only [Prod.mk.injEq, decide_eq_true_eq] at hs
  obtain ⟨-, -, hbound⟩ := throttled (by norm_num) le_rfl (by norm_num [httpx.ttl]) hrun
  exact ⟨s, ws, hrun, hres, hs.1, hs.2, hbound "ada" 0 (1 / 2) (by norm_num)⟩

end

end Forge.api
