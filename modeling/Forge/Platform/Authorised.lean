import Forge.Platform.Server

/-!
# Which requests the handlers see

In production a handler of `/api/v1` runs only for a request with a token that was signed with RS256 under a key the
JWKS endpoint published under the token's key id, that names the configured issuer and audience and had not
expired when it was checked (`Authorised`). The endpoint may change its keys and any number of requests may
refresh the cache at once: what the cache holds is the document of one moment, not much older than the time it was
stored (`Cached`), so that a key that was withdrawn is accepted for ten minutes and the length of a refresh at
most. The other way round a request is refused for a reason only (`Refused`).
-/

namespace Forge.api

open GoString httpx

variable {rps : ℚ} {burst : Nat} {site : Site} {p : Nat} {w w' : World rps burst}

/-! ### What a call does -/

namespace World

inductive Did (site : Site) (p : Nat) (w : World rps burst) : (op : Call) → op.Ans → World rps burst → Prop
  | cached (kid : GoString) : Did site p w (.jwks (.cached kid))
      (w.verifier.keys kid, decide (w.clock - w.verifier.fetched < JWKSVerifier.ttl)) w
  | unsent (text : GoString) : Did site p w (.jwks .send) (.error (.ext text)) (w.fail p)
  | send : Did site p w (.jwks .send) (.ok ()) { w with sent := Function.update w.sent p (some w.clock) }
  | unanswered (text : GoString) : Did site p w (.jwks .receive) (.error (.ext text)) (w.fail p)
  | receive {t u : Int} (ht : w.sent p = some t) (hsince : t ≤ u) (hnow : u ≤ w.clock)
      (htimeout : w.clock ≤ t + clientTimeout) : Did site p w (.jwks .receive) (.ok (site.endpoint u))
        { w with received := Function.update w.received p (some w.clock) }
  | store {t : Int} (keys : Keys) (ht : w.received p = some t) (hlag : w.clock ≤ t + site.lag) :
      Did site p w (.jwks (.store keys)) () { w with verifier := ⟨keys, w.clock⟩ }
  | key (kid : GoString) : Did site p w (.jwks (.key kid)) (w.verifier.keys kid) w
  | now : Did site p w .now w.clock (w.begin p)
  | newUUID (u : UUID) : Did site p w .newUUID u w
  | allow (key : GoString) : Did site p w (.allow key) (w.askLimiter site p key).1 (w.askLimiter site p key).2
  | handle (start : Int) (ctx : Context) (r : Request) (o : Outcome) :
      Did site p w (.handle start ctx r) o { w with handled := w.handled ++ [(p, rateKey ctx r)] }
  | unauthenticated (r : Request) (o : Outcome) : Did site p w (.unauthenticated r) o w

theorem callJwks_did {op : JWKSVerifier.Call} {c : Choice} {a : op.Ans} (h : callJwks site p op c w = some (a, w')) :
    Did site p w (.jwks op) a w' := by
  cases op with
  | cached kid =>
    cases c <;> cases h
    exact .cached kid
  | send =>
    cases c <;> cases h
    · exact .send
    · exact .unsent _
  | receive =>
    cases c <;> simp only [callJwks, reduceCtorEq] at h
    · cases h
      exact .unanswered _
    · split at h
      · rename_i ht
        split at h
        · rename_i hu
          cases h
          exact .receive ht hu.1 hu.2.1 hu.2.2
        · cases h
      · cases h
  | store keys =>
    cases c <;> simp only [callJwks, reduceCtorEq] at h
    split at h
    · rename_i ht
      split at h
      · rename_i hlag
        cases h
        exact .store keys ht hlag
      · cases h
    · cases h
  | key kid =>
    cases c <;> cases h
    exact .key kid

theorem call_did {op : Call} {c : Choice} {a : op.Ans} (h : call site p op c w = some (a, w')) :
    Did site p w op a w' := by
  cases op with
  | jwks op => exact callJwks_did h
  | now =>
    cases c <;> cases h
    exact .now
  | newUUID =>
    cases c <;> cases h
    exact .newUUID _
  | allow key =>
    cases c <;> cases h
    exact .allow key
  | handle start ctx r =>
    cases c <;> cases h
    exact .handle start ctx r _
  | unauthenticated r =>
    cases c <;> cases h
    exact .unauthenticated r _

end World

/-! ### What others do meanwhile -/

/-- What the request `p` can rely on between two of its calls. -/
structure Moved (p : Nat) (w w' : World rps burst) : Prop where
  clock : w.clock ≤ w'.clock
  sent : w'.sent p = w.sent p
  received : w'.received p = w.received p
  began : w'.began p = w.began p
  failed : w'.failed p = w.failed p
  verifier : w'.verifier = w.verifier ∨ w.clock ≤ w'.verifier.fetched
  handled : ∀ x ∈ w.handled, x ∈ w'.handled

namespace Moved

theorem refl (p : Nat) (w : World rps burst) : Moved p w w :=
  ⟨le_rfl, rfl, rfl, rfl, rfl, .inl rfl, fun _ h => h⟩

theorem trans {w₁ w₂ w₃ : World rps burst} (h : Moved p w₁ w₂) (h' : Moved p w₂ w₃) : Moved p w₁ w₃ where
  clock := h.clock.trans h'.clock
  sent := h'.sent.trans h.sent
  received := h'.received.trans h.received
  began := h'.began.trans h.began
  failed := h'.failed.trans h.failed
  verifier := by
    rcases h'.verifier with hv | hv
    · rw [hv]
      exact h.verifier
    · exact .inr (h.clock.trans hv)
  handled := fun x hx => h'.handled x (h.handled x hx)

/-- What was stored at a time or later is only replaced by what is stored later. -/
theorem stored {t : Int} (h : Moved p w w') (hclock : t ≤ w.clock) (ht : t ≤ w.verifier.fetched) :
    t ≤ w'.verifier.fetched := by
  rcases h.verifier with hv | hv
  · rw [hv]
    exact ht
  · exact hclock.trans hv

end Moved

/-- A call of one request is a move the others rely on. -/
theorem World.Did.moved {q : Nat} {op : Call} {a : op.Ans} (h : w.Did site p op a w') (hpq : p ≠ q) : Moved q w w' := by
  have hq : q ≠ p := Ne.symm hpq
  cases h with
  | unsent | unanswered => exact { Moved.refl q w with failed := Function.update_of_ne hq _ _ }
  | send => exact { Moved.refl q w with sent := Function.update_of_ne hq _ _ }
  | receive => exact { Moved.refl q w with received := Function.update_of_ne hq _ _ }
  | now => exact { Moved.refl q w with began := Function.update_of_ne hq _ _ }
  | store keys => exact { Moved.refl q w with verifier := .inr le_rfl }
  | handle => exact { Moved.refl q w with handled := fun _ h => List.mem_append_left _ h }
  | allow key => exact ⟨le_rfl, rfl, rfl, rfl, rfl, .inl rfl, fun _ h => h⟩
  | _ => exact .refl q w

theorem World.Did.clock {op : Call} {a : op.Ans} (h : w.Did site p op a w') : w'.clock = w.clock := by
  cases h <;> rfl

theorem moved_env {c : Choice} (h : World.env site c w = some w') (q : Nat) : Moved q w w' := by
  cases c with
  | tick d =>
    cases h
    exact { Moved.refl q w with clock := by simp }
  | sweep n =>
    simp only [World.env] at h
    split at h <;> cases h
    exact ⟨le_rfl, rfl, rfl, rfl, rfl, .inl rfl, fun _ h => h⟩
  | _ => cases h

/-! ### The cache is the document of one moment -/

/-- The keys are those of the document of a moment not long before `t`, and not after `now`. -/
def Fetched (site : Site) (t : Int) (keys : Keys) (now : Int) : Prop :=
  ∃ u, t - (clientTimeout + site.lag) ≤ u ∧ u ≤ now ∧ parseResponse (site.endpoint u) = .ok keys

/-- Nothing was stored yet, or the document of a moment shortly before it was stored. -/
structure Cached (site : Site) (w : World rps burst) : Prop where
  clock : 0 ≤ w.clock
  verifier : w.verifier = .new ∨ Fetched site w.verifier.fetched w.verifier.keys w.clock

theorem Cached.mono (h : Cached site w) (hv : w'.verifier = w.verifier) (hc : w.clock ≤ w'.clock) : Cached site w' := by
  refine ⟨h.clock.trans hc, ?_⟩
  rw [hv]
  refine h.verifier.imp_right ?_
  rintro ⟨u, hu, hnow, hparse⟩
  exact ⟨u, hu, hnow.trans hc, hparse⟩

/-- A call keeps the cache, a store provided that it stores the document of a moment. -/
theorem Cached.did {op : Call} {a : op.Ans} (h : Cached site w) (hdid : w.Did site p op a w')
    (hstore : ∀ keys, op = .jwks (.store keys) → Fetched site w.clock keys w.clock) : Cached site w' := by
  cases hdid with
  | store keys ht hlag => exact ⟨h.clock, .inr (hstore keys rfl)⟩
  | _ => exact h.mono rfl le_rfl

theorem Cached.env {c : Choice} (h : Cached site w) (henv : World.env site c w = some w') : Cached site w' := by
  refine h.mono ?_ (moved_env henv 0).clock
  cases c with
  | tick d =>
    cases henv
    rfl
  | sweep n =>
    simp only [World.env] at henv
    split at henv <;> cases henv
    rfl
  | _ => cases henv

/-! ### Judging a request -/

/-- The judgement about a part of the request `p`: it makes a call only where `G` permits it, and ends in `Q`. -/
abbrev Judged (site : Site) (p : Nat) (G : Call → World rps burst → Prop) {α : Type} (Q : α → World rps burst → Prop)
    (m : M α) (w : World rps burst) : Prop :=
  m.Rg (World.call site p) (Cached site) (Moved p) G Q w

section
variable {α β : Type} {G : Call → World rps burst → Prop} {Q : α → World rps burst → Prop}

/-- A call that is not a store. -/
theorem judged_call (op : Call) {k : op.Ans → M α} (hop : ∀ keys, op ≠ .jwks (.store keys))
    (hG : ∀ w', Moved p w w' → G op w')
    (hk : ∀ a w₁ w₂, Moved p w w₁ → Cached site w₁ → w₁.Did site p op a w₂ → Judged site p G Q (k a) w₂) :
    Judged site p G Q (.call op k) w := by
  intro w₁ hm hc
  refine ⟨hG w₁ hm, fun c a w₂ he => ?_⟩
  have hdid := World.call_did he
  exact ⟨hc.did hdid fun keys e => absurd e (hop keys), hk a w₁ w₂ hm hc hdid⟩

theorem judged_ret {a : α} (h : ∀ w', Moved p w w' → Cached site w' → Q a w') : Judged site p G Q (.ret a) w := h

theorem judged_bind {m : M β} {f : β → M α} (h : Judged site p G (fun b w => Judged site p G Q (f b) w) m w) :
    Judged site p G Q (m >>= f) w :=
  Proc.Rg.bind (Moved.refl p) h

/-- What nobody undoes still holds at the end. -/
theorem judged_kept {P : World rps burst → Prop} (hmoved : ∀ w w', Moved p w w' → P w → P w')
    (hdid : ∀ op a w w', World.Did site p w op a w' → P w → P w') {m : M α} (h : Judged site p G Q m w) (hP : P w) :
    Judged site p G (fun a w => Q a w ∧ P w) m w := by
  induction m generalizing w with
  | ret a => exact fun w' hm hc => ⟨h w' hm hc, hmoved w w' hm hP⟩
  | call op k ih =>
    intro w₁ hm hc
    obtain ⟨hG, hcall⟩ := h w₁ hm hc
    refine ⟨hG, fun c a w₂ he => ⟨(hcall c a w₂ he).1, ih a (hcall c a w₂ he).2 ?_⟩⟩
    exact hdid op a w₁ w₂ (World.call_did he) (hmoved w w₁ hm hP)

/-- The clock does not go back. -/
theorem judged_later {m : M α} {t : Int} (h : Judged site p G Q m w) (ht : t ≤ w.clock) :
    Judged site p G (fun a w => Q a w ∧ t ≤ w.clock) m w := by
  refine judged_kept (fun _ _ hm ht => ht.trans hm.clock) (fun op a w w' hd ht => ?_) h ht
  rw [hd.clock]
  exact ht

theorem judged_began {m : M α} {t : Int} (h : Judged site p G Q m w) (ht : w.began p = some t) :
    Judged site p G (fun a w => Q a w ∧ w.began p = some t) m w := by
  refine judged_kept (fun _ _ hm ht => hm.began.trans ht) (fun op a w w' hd ht => ?_) h ht
  cases hd with
  | now => simp [World.begin, ht]
  | _ => exact ht

end

/-! ### Looking a key up -/

theorem liftJwks_bind {α β : Type} (m : Proc JWKSVerifier.Call JWKSVerifier.Call.Ans α)
    (f : α → Proc JWKSVerifier.Call JWKSVerifier.Call.Ans β) :
    liftJwks (m >>= f) = liftJwks m >>= fun a => liftJwks (f a) := by
  induction m with
  | ret a => rfl
  | call op k ih =>
    simp only [Proc.call_bind, liftJwks, ih]

/-- How long a key may have been withdrawn when it is still accepted. -/
def staleness (site : Site) : Int := JWKSVerifier.ttl + clientTimeout + site.lag

/-- The result of a lookup that began at `start` or later. -/
def Looked (site : Site) (p : Nat) (start : Int) (kid : GoString) : Except Err PublicKey → World rps burst → Prop
  | .ok key, w => ∃ u, start - staleness site < u ∧ u ≤ w.clock ∧ (site.endpoint u).Serves kid key
  | .error _, w => w.failed p = true ∨
      ∃ u, start - (clientTimeout + site.lag) ≤ u ∧ u ≤ w.clock ∧ ∀ key, ¬ (site.endpoint u).Serves kid key

theorem Looked.moved {start : Int} {kid : GoString} {r : Except Err PublicKey} (h : Looked site p start kid r w)
    (hm : Moved p w w') : Looked site p start kid r w' := by
  cases r with
  | ok key =>
    obtain ⟨u, hu, hnow, hserves⟩ := h
    exact ⟨u, hu, hnow.trans hm.clock, hserves⟩
  | error e =>
    rcases h with hfail | ⟨u, hu, hnow, hserves⟩
    · exact .inl (hm.failed.trans hfail)
    · exact .inr ⟨u, hu, hnow.trans hm.clock, hserves⟩

section
variable {G : Call → World rps burst → Prop} {start : Int} {kid : GoString}

/-- A key that is cached was served when the cached document was current. -/
theorem Cached.served {key : PublicKey} (h : Cached site w) (hkey : w.verifier.keys kid = some key) :
    ∃ u, w.verifier.fetched - (clientTimeout + site.lag) ≤ u ∧ u ≤ w.clock ∧ (site.endpoint u).Serves kid key := by
  rcases h.verifier with hnew | ⟨u, hu, hnow, hparse⟩
  · rw [hnew] at hkey
    cases hkey
  · exact ⟨u, hu, hnow, _, hparse, hkey⟩

/-- A key that is missing from what was stored since the server runs was not served then. -/
theorem Cached.missing (h : Cached site w) (hfetched : 0 ≤ w.verifier.fetched) (hkey : w.verifier.keys kid = none) :
    ∃ u, w.verifier.fetched - (clientTimeout + site.lag) ≤ u ∧ u ≤ w.clock ∧
      ∀ key, ¬ (site.endpoint u).Serves kid key := by
  rcases h.verifier with hnew | ⟨u, hu, hnow, hparse⟩
  · rw [hnew] at hfetched
    exact absurd hfetched (by decide)
  · refine ⟨u, hu, hnow, ?_⟩
    rintro key ⟨keys, hkeys, hsome⟩
    cases hparse.symm.trans hkeys
    rw [hkey] at hsome
    cases hsome

/-- A refresh that ends without an error has stored the keys, or others did since. -/
def Refreshed (site : Site) (p : Nat) (start : Int) (kid : GoString) : Except Err Unit → World rps burst → Prop
  | .ok (), w => start ≤ w.clock ∧ start ≤ w.verifier.fetched
  | .error e, w => Looked site p start kid (.error e) w

theorem judged_storeParsed (kid : GoString) {u : Int} (hG : ∀ c w, G (.jwks c) w) (hstart : start ≤ u) (hnow : u ≤ w.clock)
    (hreceived : ∃ t, w.received p = some t ∧ t ≤ u + clientTimeout) :
    Judged site p G (Refreshed site p start kid)
      (liftJwks (JWKSVerifier.storeParsed (parseResponse (site.endpoint u)))) w := by
  cases hparse : parseResponse (site.endpoint u) with
  | error e =>
    refine judged_ret fun w' hm hc => .inr ⟨u, by unfold clientTimeout; omega, hnow.trans hm.clock, ?_⟩
    rintro key ⟨keys, hkeys, -⟩
    rw [hparse] at hkeys
    cases hkeys
  | ok keys =>
    intro w₁ hm hc
    refine ⟨hG _ _, fun c a w₂ he => ?_⟩
    obtain ⟨t, ht, htu⟩ := hreceived
    cases World.call_did he with
    | @store t' _ ht' hlag =>
      cases ht.symm.trans (hm.received.symm.trans ht')
      have hclock := hm.clock
      refine ⟨⟨hc.clock, .inr ⟨u, by dsimp only; omega, hnow.trans hclock, hparse⟩⟩, ?_⟩
      have hstart₁ := hstart.trans (hnow.trans hclock)
      refine judged_ret fun w₃ hm₃ hc₃ => ⟨hstart₁.trans hm₃.clock, ?_⟩
      exact hm₃.stored hstart₁ hstart₁

theorem judged_refresh (kid : GoString) (hG : ∀ c w, G (.jwks c) w) (hstart : start ≤ w.clock) :
    Judged site p G (Refreshed site p start kid) (liftJwks JWKSVerifier.refresh) w := by
  have hfailed : ∀ (e : Err) (w : World rps burst), Judged site p G (Refreshed site p start kid)
      (liftJwks (pure (.error e))) (w.fail p) := by
    intro e w
    refine judged_ret fun w' hm hc => .inl (hm.failed.trans ?_)
    exact Function.update_self ..
  refine judged_call (.jwks .send) (fun _ h => by cases h) (fun _ _ => hG _ _) fun a w₁ w₂ hm₁ hc₁ hdid => ?_
  cases hdid with
  | unsent text => exact hfailed _ _
  | send =>
    have hstart₁ := hstart.trans hm₁.clock
    refine judged_call (.jwks .receive) (fun _ h => by cases h) (fun _ _ => hG _ _)
      fun a w₂ w₃ hm₂ hc₂ hdid => ?_
    cases hdid with
    | unanswered text => exact hfailed _ _
    | @receive t u ht hsince hnow htimeout =>
      have hsent : w₂.sent p = some w₁.clock := hm₂.sent.trans (Function.update_self ..)
      cases hsent.symm.trans ht
      exact judged_storeParsed kid hG (by omega) hnow ⟨w₂.clock, Function.update_self .., by omega⟩

theorem judged_afterRefresh {k : Except Err Unit → Proc JWKSVerifier.Call JWKSVerifier.Call.Ans (Except Err PublicKey)}
    (hG : ∀ c w, G (.jwks c) w) (hstart : start ≤ w.clock)
    (hok : ∀ w : World rps burst, start ≤ w.clock → start ≤ w.verifier.fetched →
      Judged site p G (Looked site p start kid) (liftJwks (k (.ok ()))) w)
    (herr : ∀ (e : Err) (w : World rps burst), Looked site p start kid (.error e) w →
      Judged site p G (Looked site p start kid) (liftJwks (k (.error e))) w) :
    Judged site p G (Looked site p start kid) (liftJwks (JWKSVerifier.refresh >>= k)) w := by
  rw [liftJwks_bind]
  refine judged_bind ((judged_refresh kid hG hstart).mono fun r w hc hr => ?_)
  rcases r with e | ⟨⟩
  · exact herr e w hr
  · exact hok w hr.1 hr.2

/-- The look at the cache after a refresh: what is there was stored since the lookup began. -/
theorem Cached.lookedAgain (p : Nat) (kid : GoString) (h : Cached site w) (hpos : 0 ≤ start) (hfetched : start ≤ w.verifier.fetched) :
    (∀ key, w.verifier.keys kid = some key → Looked site p start kid (.ok key) w) ∧
      (w.verifier.keys kid = none → ∀ e, Looked site p start kid (.error e) w) := by
  constructor
  · intro key hkey
    obtain ⟨u, hu, hnow, hserves⟩ := h.served hkey
    exact ⟨u, by unfold staleness JWKSVerifier.ttl; omega, hnow, hserves⟩
  · intro hkey e
    obtain ⟨u, hu, hnow, hserves⟩ := h.missing (hpos.trans hfetched) hkey
    exact .inr ⟨u, by omega, hnow, hserves⟩

theorem judged_keyForKID (hG : ∀ c w, G (.jwks c) w) (hpos : 0 ≤ start) (hstart : start ≤ w.clock) :
    Judged site p G (Looked site p start kid) (liftJwks (JWKSVerifier.keyForKID kid)) w := by
  refine judged_call (.jwks (.cached kid)) (fun _ h => by cases h) (fun _ _ => hG _ _) fun a w₁ w₂ hm₁ hc₁ hdid => ?_
  have hstart₁ := hstart.trans hm₁.clock
  have hw : w₂ = w₁ ∧ a = (w₁.verifier.keys kid, decide (w₁.clock - w₁.verifier.fetched < JWKSVerifier.ttl)) := by
    cases hdid
    exact ⟨rfl, rfl⟩
  obtain ⟨rfl, ha⟩ := hw
  rcases a with ⟨_ | key, _ | _⟩
  case some.true =>
    -- the cache is fresh, and what it holds not much older
    simp only [Prod.mk.injEq, true_eq_decide_iff] at ha
    obtain ⟨u, hu, hnow, hserves⟩ := hc₁.served ha.1.symm
    have hfresh := ha.2
    exact judged_ret fun w' hm _ => ⟨u, by unfold staleness; omega, hnow.trans hm.clock, hserves⟩
  all_goals
    refine judged_afterRefresh hG hstart₁ (fun w hstart hfetched => ?_) fun e w h =>
      judged_ret fun w' hm _ => Looked.moved h hm
    refine judged_call (.jwks (.key kid)) (fun _ h => by cases h) (fun _ _ => hG _ _) fun a w₃ w₄ hm₃ hc₃ hdid => ?_
    obtain ⟨hfound, hmissing⟩ := hc₃.lookedAgain p kid hpos (hm₃.stored hstart hfetched)
    have hw : w₄ = w₃ ∧ a = w₃.verifier.keys kid := by
      cases hdid
      exact ⟨rfl, rfl⟩
    obtain ⟨rfl, ha⟩ := hw
    cases a with
    | none => exact judged_ret fun w' hm _ => Looked.moved (hmissing ha.symm _) hm
    | some key => exact judged_ret fun w' hm _ => Looked.moved (hfound key ha.symm) hm

end

/-! ### Verifying a token -/

section
variable [GoNumbers] [jwt.Library]

section
variable {α : Type} {name : GoString} {read : α → Json → Option α} {f : jwt.RegisteredClaims → α}
  (hset : ∀ c m c', jwt.Library.set c m = some c' → jwt.readMember name read (f c) m = some (f c'))
  (hemail : Json.foldName (str "email") ≠ Json.foldName name)
  (hgroups : Json.foldName (str "groups") ≠ Json.foldName name)
include hset hemail hgroups

/-- The members of the names `email` and `groups` are not read into the registered claims. -/
theorem claims.read_set {c c' : claims} {m : GoString × Json} (h : c.set m = some c') :
    jwt.readMember name read (f c.RegisteredClaims) m = some (f c'.RegisteredClaims) := by
  unfold claims.set at h
  split at h
  · rename_i hm
    obtain ⟨s, -, rfl⟩ := Option.map_eq_some_iff.1 h
    exact jwt.readMember_of_ne _ hm hemail
  split at h
  · rename_i hm
    obtain ⟨g, -, rfl⟩ := Option.map_eq_some_iff.1 h
    exact jwt.readMember_of_ne _ hm hgroups
  · obtain ⟨r, hr, rfl⟩ := Option.map_eq_some_iff.1 h
    exact hset _ _ _ hr

theorem claims.read_payload {payload : List (GoString × Json)} {c : claims}
    (h : payload.foldlM claims.set .zero = some c) :
    payload.foldlM (jwt.readMember name read) (f .zero) = some (f c.RegisteredClaims) :=
  jwt.foldlM_readMember (f := fun c => f c.RegisteredClaims) (fun _ _ _ => claims.read_set hset hemail hgroups) h

end

theorem claims.says {payload : List (GoString × Json)} {c : claims} (h : payload.foldlM claims.set .zero = some c) :
    jwt.Says payload c.RegisteredClaims where
  iss := claims.read_payload (f := (·.Issuer)) (fun _ _ _ => jwt.Library.set_iss) (by decide) (by decide) h
  sub := claims.read_payload (f := (·.Subject)) (fun _ _ _ => jwt.Library.set_sub) (by decide) (by decide) h
  aud := claims.read_payload (f := (·.Audience)) (fun _ _ _ => jwt.Library.set_aud) (by decide) (by decide) h
  exp := claims.read_payload (f := (·.ExpiresAt)) (fun _ _ _ => jwt.Library.set_exp) (by decide) (by decide) h
  nbf := claims.read_payload (f := (·.NotBefore)) (fun _ _ _ => jwt.Library.set_nbf) (by decide) (by decide) h

/-- A payload that names an issuer is an object. -/
theorem claims.says_of_unmarshal {data : GoString} {c : claims} (h : claims.unmarshal data = some c)
    (hiss : c.RegisteredClaims.Issuer ≠ []) :
    ∃ payload, Json.parse data = some (.object payload) ∧ jwt.Says payload c.RegisteredClaims := by
  unfold claims.unmarshal at h
  split at h
  · cases h
    exact absurd rfl hiss
  · rename_i payload hparse
    exact ⟨payload, hparse, claims.says h⟩
  · cases h

variable [Rsa]

/-- What speaks for a request that began at `start`: its token, and the key under which it is signed. -/
structure Vouched (site : Site) (issuer audience : GoString) (start now : Int) (r : Request) (principal : Principal)
    (t : jwt.Token claims) (key : PublicKey) : Prop where
  /-- The request carries the token, and the claims are what the payload says, a part of the signed text. -/
  bearer : ∃ raw header data payload, r.Get "Authorization" = str "Bearer " ++ raw ∧
    jwt.Compact claims.unmarshal raw t header data ∧ Json.parse data = some (.object payload) ∧
    jwt.Says payload t.Claims.RegisteredClaims
  method : t.Method = .RS256
  signed : Rsa.VerifyPKCS1v15 key (sha256.Sum256 t.text) t.Signature = true
  /-- The key was published under the id the token names, not too long before the request. -/
  served : ∃ u, start - staleness site < u ∧ u ≤ now ∧ (site.endpoint u).Serves t.kid key
  /-- The token was valid at some time since the request began. -/
  valid : ∃ checked, start ≤ checked ∧ checked ≤ now ∧
    (∃ exp, t.Claims.RegisteredClaims.ExpiresAt = some exp ∧ checked < exp) ∧
    ∀ nbf, t.Claims.RegisteredClaims.NotBefore = some nbf → nbf ≤ checked
  issuer : t.Claims.RegisteredClaims.Issuer = issuer
  audience : audience ∈ t.Claims.RegisteredClaims.Audience
  principal : principal = principalFromClaims t.Claims

def Authorised (site : Site) (issuer audience : GoString) (start now : Int) (r : Request) (principal : Principal) :
    Prop :=
  ∃ t key, Vouched site issuer audience start now r principal t key

theorem Authorised.later {issuer audience : GoString} {start now now' : Int} {r : Request} {principal : Principal}
    (h : Authorised site issuer audience start now r principal) (hle : now ≤ now') :
    Authorised site issuer audience start now' r principal := by
  obtain ⟨t, key, hv⟩ := h
  obtain ⟨u, hu, hnow, hserves⟩ := hv.served
  obtain ⟨checked, hc, hcnow, hvalid⟩ := hv.valid
  exact ⟨t, key, { hv with
    served := ⟨u, hu, hnow.trans hle, hserves⟩
    valid := ⟨checked, hc, hcnow.trans hle, hvalid⟩ }⟩

/-- Why a token is refused: it cannot be read, the endpoint failed or did not serve its key at some moment, it is
not signed with a key served under its key id, or its claims are not valid. -/
def Refused (site : Site) (issuer audience : GoString) (start now : Int) (failed : Bool) (raw : GoString) : Prop :=
  ∀ t, jwt.Library.parse claims.unmarshal ["RS256"] raw = some t → failed = true ∨
    (∃ u, start - (clientTimeout + site.lag) ≤ u ∧ u ≤ now ∧ ∀ key, ¬ (site.endpoint u).Serves t.kid key) ∨
    (∃ u key, start - staleness site < u ∧ u ≤ now ∧ (site.endpoint u).Serves t.kid key ∧
      Rsa.VerifyPKCS1v15 key (sha256.Sum256 t.text) t.Signature = false) ∨
    ∃ checked, start ≤ checked ∧ checked ≤ now ∧
      jwt.Library.Validate ⟨issuer, audience, true⟩ checked t.Claims.RegisteredClaims = false

/-- How the verification of the token of `p` ended. -/
def Checked (site : Site) (issuer audience : GoString) (p : Nat) (start : Int) (r : Request) (raw : GoString) :
    Except Err Principal → World rps burst → Prop
  | .ok principal, w => Authorised site issuer audience start w.clock r principal
  | .error _, w => Refused site issuer audience start w.clock (w.failed p) raw

section
variable {G : Call → World rps burst → Prop} {issuer audience url raw : GoString} {start : Int} {r : Request}

theorem Refused.moved (h : Refused site issuer audience start w.clock (w.failed p) raw) (hm : Moved p w w') :
    Refused site issuer audience start w'.clock (w'.failed p) raw := by
  intro t ht
  rw [hm.failed]
  rcases h t ht with hfail | ⟨u, hu, hnow, hno⟩ | ⟨u, key, hu, hnow, hkey⟩ | ⟨checked, hc, hnow, hinvalid⟩
  · exact .inl hfail
  · exact .inr (.inl ⟨u, hu, hnow.trans hm.clock, hno⟩)
  · exact .inr (.inr (.inl ⟨u, key, hu, hnow.trans hm.clock, hkey⟩))
  · exact .inr (.inr (.inr ⟨checked, hc, hnow.trans hm.clock, hinvalid⟩))

theorem judged_Verify (hG : ∀ c w, G (.jwks c) w) (hnow : ∀ w, G .now w) (hiss : issuer ≠ []) (haud : audience ≠ [])
    (hpos : 0 ≤ start) (hstart : start ≤ w.clock) (hraw : r.Get "Authorization" = str "Bearer " ++ raw) :
    Judged site p G (Checked site issuer audience p start r raw) ((Verifier.JWKSVerifier url issuer audience).Verify raw)
      w := by
  have hrefuse : ∀ w : World rps burst, Refused site issuer audience start w.clock (w.failed p) raw →
      Judged site p G (Checked site issuer audience p start r raw) (.ret (.error invalidToken)) w :=
    fun w h => judged_ret fun w' hm _ => h.moved hm
  unfold Verifier.Verify
  dsimp only
  split
  · rename_i hnone
    exact hrefuse w fun t ht => by rw [hnone] at ht; cases ht
  rename_i t ht
  obtain ⟨⟨header, data, hcompact⟩, hvalid⟩ := (jwt.Library.parse_iff _ _ _ _).1 ht
  have hmethod : t.Method = .RS256 := jwt.Method.eq_RS256 hvalid
  rw [if_pos (by rw [hmethod]; decide)]
  refine judged_bind ((judged_later (judged_keyForKID hG hpos hstart) hstart).mono fun res w₁ hc₁ hres => ?_)
  obtain ⟨hres, hstart₁⟩ := hres
  cases res with
  | error e =>
    refine hrefuse w₁ fun t' ht' => ?_
    cases ht.symm.trans ht'
    rcases hres with hfail | hmissing
    · exact .inl hfail
    · exact .inr (.inl hmissing)
  | ok key =>
    obtain ⟨u, hu, hunow, hserves⟩ := hres
    dsimp only
    split
    · rename_i hsigned
      simp only [validateClaims, Proc.perform_bind]
      refine judged_call .now (fun _ h => by cases h) (fun w _ => hnow w) fun a w₂ w₃ hm₂ hc₂ hdid => ?_
      have hclock := hdid.clock
      have ha : a = w₂.clock := by
        cases hdid
        rfl
      have hchecked : start ≤ a ∧ a ≤ w₃.clock := by
        rw [ha, hclock]
        exact ⟨hstart₁.trans hm₂.clock, le_rfl⟩
      have hunow₃ : u ≤ w₃.clock := by
        rw [hclock]
        exact hunow.trans hm₂.clock
      split
      · rename_i hvalid
        have hissuer := jwt.Library.Validate_iss hvalid hiss
        obtain ⟨payload, hparse, hsays⟩ := claims.says_of_unmarshal hcompact.claims (hissuer ▸ hiss)
        obtain ⟨exp, hexp⟩ := Option.ne_none_iff_exists'.1 (jwt.Library.Validate_requireExp hvalid rfl)
        refine judged_ret fun w' hm _ => Authorised.later ⟨t, key, ?_⟩ hm.clock
        exact ⟨⟨raw, header, data, payload, hraw, hcompact, hparse, hsays⟩, hmethod, hsigned, ⟨u, hu, hunow₃, hserves⟩,
          ⟨a, hchecked.1, hchecked.2, ⟨exp, hexp, jwt.Library.Validate_exp hvalid hexp⟩,
            fun nbf => jwt.Library.Validate_nbf hvalid⟩, hissuer, jwt.Library.Validate_aud hvalid haud, rfl⟩
      · rename_i hinvalid
        refine hrefuse w₃ fun t' ht' => ?_
        cases ht.symm.trans ht'
        exact .inr (.inr (.inr ⟨a, hchecked.1, hchecked.2, Bool.not_eq_true _ ▸ hinvalid⟩))
    · rename_i hunsigned
      refine hrefuse w₁ fun t' ht' => ?_
      cases ht.symm.trans ht'
      exact .inr (.inr (.inl ⟨u, key, hu, hunow, hserves, Bool.not_eq_true _ ▸ hunsigned⟩))

end

/-! ### Serving a request -/

/-- The calls of the middleware: the limiter is asked for and the handlers are run for authorised requests only. -/
def Permitted (site : Site) (issuer audience : GoString) : Call → World rps burst → Prop
  | .allow key, w => ∃ start ctx r principal, ctx.principal = some principal ∧ key = rateKey ctx r ∧
      Authorised site issuer audience start w.clock r principal
  | .handle start ctx r, w => ∃ principal, ctx.principal = some principal ∧
      Authorised site issuer audience start w.clock r principal
  | _, _ => True

/-- A request with a token was handled, is told to come back later, or was refused for a reason. -/
def Answered (site : Site) (issuer audience : GoString) (p : Nat) (r : Request) (ws : List Write) (w : World rps burst) :
    Prop :=
  underAPI r.Path → ∀ raw, r.Get "Authorization" = str "Bearer " ++ raw →
    (∃ key, (p, key) ∈ w.handled) ∨ .status 429 ∈ ws ∨
      ∃ start, w.began p = some start ∧ Refused site issuer audience start w.clock (w.failed p) raw

section
variable {issuer audience url : GoString} {start : Int} {r : Request} {ctx : Context} {ws ws' : List Write}

theorem Answered.moved (h : Answered site issuer audience p r ws w) (hm : Moved p w w') (hws : ∀ x ∈ ws, x ∈ ws') :
    Answered site issuer audience p r ws' w' := by
  intro hapi raw hraw
  rcases h hapi raw hraw with ⟨key, hdone⟩ | hlimited | ⟨start, hbegan, hrefused⟩
  · exact .inl ⟨key, hm.handled _ hdone⟩
  · exact .inr (.inl (hws _ hlimited))
  · exact .inr (.inr ⟨start, hm.began.trans hbegan, hrefused.moved hm⟩)

theorem judged_RateLimit {principal : Principal} (hctx : ctx.principal = some principal)
    (hauth : Authorised site issuer audience start w.clock r principal) :
    Judged site p (Permitted site issuer audience) (fun o w => Answered site issuer audience p r o.writes w)
      (RateLimit (fun ctx r => perform (.handle start ctx r)) ctx r) w := by
  refine judged_call (.allow _) (fun _ h => by cases h)
    (fun w' hm => ⟨start, ctx, r, principal, hctx, rfl, hauth.later hm.clock⟩) fun a w₁ w₂ hm₁ hc₁ hdid => ?_
  have hclock : w.clock ≤ w₂.clock := by
    rw [hdid.clock]
    exact hm₁.clock
  cases a with
  | false =>
    refine judged_ret fun w' hm _ _ raw hraw => .inr (.inl ?_)
    simp [Error, JSON, apperr.TooManyRequests, apperr.HTTPStatus, apperr.Kind.status]
  | true =>
    refine judged_call (.handle start ctx r) (fun _ h => by cases h)
      (fun w' hm => ⟨principal, hctx, hauth.later (hclock.trans hm.clock)⟩) fun o w₃ w₄ hm₃ hc₃ hdid => ?_
    cases hdid
    refine judged_ret fun w' hm _ _ raw hraw => .inl ⟨rateKey ctx r, hm.handled _ ?_⟩
    exact List.mem_append_right _ (List.mem_singleton_self _)

theorem judged_router (hiss : issuer ≠ []) (haud : audience ≠ []) (hpos : 0 ≤ start) (hstart : start ≤ w.clock)
    (hbegan : w.began p = some start) :
    Judged site p (Permitted site issuer audience) (fun o w => Answered site issuer audience p r o.writes w)
      (router (.JWKSVerifier url issuer audience) start ctx r) w := by
  unfold router
  split
  · unfold Authenticate
    split
    · rename_i hbearer
      obtain ⟨raw, hraw⟩ := hbearer
      have htrim : TrimPrefix (r.Get "Authorization") "Bearer " = raw := by
        rw [← hraw, TrimPrefix, if_pos (List.prefix_append _ _), List.drop_left]
      rw [htrim]
      refine judged_bind ((judged_began (judged_Verify (fun _ _ => trivial) (fun _ => trivial) hiss haud hpos hstart
        hraw.symm) hbegan).mono fun res w₁ hc₁ hres => ?_)
      obtain ⟨hres, hbegan₁⟩ := hres
      cases res with
      | error e =>
        refine judged_ret fun w' hm _ _ raw' hraw' => .inr (.inr ⟨start, hm.began.trans hbegan₁, ?_⟩)
        rw [← hraw] at hraw'
        rw [← List.append_cancel_left hraw']
        exact Refused.moved hres hm
      | ok principal => exact judged_RateLimit rfl hres
    · rename_i hbearer
      exact judged_ret fun w' hm _ _ raw hraw => absurd ⟨raw, hraw.symm⟩ hbearer
  · rename_i hapi
    refine judged_call (.unauthenticated r) (fun _ h => by cases h) (fun _ _ => trivial) fun o w₁ w₂ _ _ _ => ?_
    exact judged_ret fun w' _ _ h => absurd h hapi

omit [GoNumbers] [jwt.Library] [Rsa] in
theorem judged_correlationID {G : Call → World rps burst → Prop} (hG : ∀ w, G .newUUID w) (hbegan : w.began p = none) :
    Judged site p G (fun _ w => w.began p = none) (correlationID r) w := by
  unfold correlationID
  split
  · refine judged_call .newUUID (fun _ h => by cases h) (fun w _ => hG w) fun u w₁ w₂ hm₁ hc₁ hdid => ?_
    cases hdid
    exact judged_ret fun w' hm _ => hm.began.trans (hm₁.began.trans hbegan)
  · exact judged_ret fun w' hm _ => hm.began.trans hbegan

theorem judged_serveHTTP {cfg : config.Config} (hmode : cfg.auth.Mode = "jwks") (hiss : cfg.auth.Issuer ≠ [])
    (haud : cfg.auth.Audience ≠ []) (r : Request) (hbegan : w.began p = none) :
    Judged site p (Permitted site cfg.auth.Issuer cfg.auth.Audience)
      (Answered site cfg.auth.Issuer cfg.auth.Audience p r) (serveHTTP cfg r) w := by
  have hverifier : buildVerifier cfg.auth = .JWKSVerifier cfg.auth.JWKSURL cfg.auth.Issuer cfg.auth.Audience :=
    if_pos hmode
  rw [serveHTTP, hverifier]
  refine judged_bind (Proc.Rg.mono
    (Q := fun o w => Answered site cfg.auth.Issuer cfg.auth.Audience p r o.writes w) (fun o w _ ho => ?_) ?_)
  · split
    · exact judged_ret fun w' hm _ => ho.moved hm fun x hx => List.mem_append_left _ hx
    · exact judged_ret fun w' hm _ => ho.moved hm fun x hx => hx
  refine judged_bind ((judged_correlationID (fun _ => trivial) hbegan).mono fun cid w₁ _ hbegan₁ => ?_)
  refine judged_bind (Proc.Rg.mono
    (Q := fun o w => Answered site cfg.auth.Issuer cfg.auth.Audience p r o.writes w) (fun o w _ ho => ?_) ?_)
  · exact judged_ret fun w' hm _ => ho.moved hm fun x hx => List.mem_cons_of_mem _ hx
  refine judged_call .now (fun _ h => by cases h) (fun _ _ => trivial) fun start w₂ w₃ hm₂ hc₂ hdid => ?_
  cases hdid
  refine judged_router hiss haud hc₂.clock le_rfl ?_
  simp [World.begin, hm₂.began, hbegan₁]

end

/-! ### Every run -/

section
variable {env : config.Environ} {cfg : config.Config} {requests : Nat → Option Request} {ms : List (Move Nat Choice)}
  {s : Pool Nat Call Call.Ans (List Write) (World rps burst)}

theorem judged_run (hload : config.Load env = .ok cfg) (hprod : cfg.IsProduction)
    (hrun : (server rps burst site cfg requests).run (World.machine site) ms = some s) :
    Cached site s.world ∧ s.AllRg (World.machine site) (Cached site) Moved
      (Permitted site cfg.auth.Issuer cfg.auth.Audience)
      (fun p ws w => ∀ r, requests p = some r → Answered site cfg.auth.Issuer cfg.auth.Audience p r ws w) := by
  obtain ⟨hmode, hiss, haud⟩ := config.jwks_of_production hload hprod
  refine Pool.rg_run Moved.refl (fun p _ _ _ => Moved.trans) ?_ ?_ ?_ ?_ ?_ hrun
  · exact fun p q op c a w w' hpq _ hc => (World.call_did hc).moved hpq
  · exact fun p w hw => ⟨hw, fun q _ => Moved.refl q w⟩
  · exact fun c w w' hw hc => ⟨hw.env hc, moved_env hc⟩
  · exact ⟨Int.natCast_nonneg _, .inl rfl⟩
  · intro p prog hp
    obtain ⟨r, hr, rfl⟩ := Option.map_eq_some_iff.1 hp
    refine (judged_serveHTTP hmode hiss haud r rfl).mono fun ws w _ h r' hr' => ?_
    cases hr.symm.trans hr'
    exact h

/-- In production, whatever the endpoint serves and however the requests interleave: when a handler of a module is
about to run, it runs for a principal whose token was signed under a key the endpoint published under the token's
key id within the last ten minutes and the time of a refresh, that names the configured issuer and audience and
was valid when it was checked. -/
theorem handled_authorised (hload : config.Load env = .ok cfg) (hprod : cfg.IsProduction)
    (hrun : (server rps burst site cfg requests).run (World.machine site) ms = some s) {start : Int} {ctx : Context}
    {r : Request} {k : Outcome → M (List Write)} (hp : s.procs p = some (.call (.handle start ctx r) k)) :
    ∃ principal, ctx.principal = some principal ∧
      Authorised site cfg.auth.Issuer cfg.auth.Audience start s.world.clock r principal := by
  obtain ⟨hc, hs⟩ := judged_run hload hprod hrun
  exact hs.call Moved.refl hc hp

/-- A token to be trusted throughout a request that began at `start`: it names the issuer and the audience, is valid
all the time, and is signed with the key that was served under its key id, before and during the request. -/
structure Trusted (site : Site) (issuer audience : GoString) (start now : Int) (t : jwt.Token claims) (key : PublicKey) :
    Prop where
  method : t.Method = .RS256
  signed : Rsa.VerifyPKCS1v15 key (sha256.Sum256 t.text) t.Signature = true
  served : ∀ u, start - (clientTimeout + site.lag) ≤ u → u ≤ now → (site.endpoint u).Serves t.kid key
  only : ∀ u key', start - staleness site < u → u ≤ now → (site.endpoint u).Serves t.kid key' → key' = key
  issuer : t.Claims.RegisteredClaims.Issuer = issuer
  audience : audience ∈ t.Claims.RegisteredClaims.Audience
  expires : ∃ exp, t.Claims.RegisteredClaims.ExpiresAt = some exp ∧ now < exp
  notBefore : ∀ nbf, t.Claims.RegisteredClaims.NotBefore = some nbf → nbf ≤ start

theorem Trusted.not_refused {issuer audience raw data : GoString} {start now : Int} {t : jwt.Token claims} {key : PublicKey}
    {header : List (GoString × Json)} (h : Trusted site issuer audience start now t key)
    (ht : jwt.Compact claims.unmarshal raw t header data) : ¬ Refused site issuer audience start now false raw := by
  intro hrefused
  have hvalid : t.Method.Alg ∈ [str "RS256"] := by
    rw [h.method]
    decide
  have hparse := (jwt.Library.parse_iff _ _ _ _).2 ⟨⟨header, data, ht⟩, hvalid⟩
  rcases hrefused t hparse with hfail | ⟨u, hu, hnow, hno⟩ | ⟨u, key', hu, hnow, hserves, hbad⟩ | ⟨checked, hc, hnow, hbad⟩
  · cases hfail
  · exact hno key (h.served u hu hnow)
  · rw [h.only u key' hu hnow hserves, h.signed] at hbad
    cases hbad
  · obtain ⟨exp, hexp, hlt⟩ := h.expires
    have haccepted := jwt.Library.Validate_intro (v := ⟨issuer, audience, true⟩) hexp (lt_of_le_of_lt hnow hlt)
      (fun nbf hnbf => (h.notBefore nbf hnbf).trans hc) h.audience h.issuer
    rw [hbad] at haccepted
    cases haccepted

/-- In production a request with a token to be trusted is handled, or told to come back later if it comes too often,
unless the endpoint fails while it is served: no rotation of keys and no other request keeps it out. -/
theorem trusted_served (hload : config.Load env = .ok cfg) (hprod : cfg.IsProduction)
    (hrun : (server rps burst site cfg requests).run (World.machine site) ms = some s) {r : Request}
    {raw data : GoString} {header : List (GoString × Json)} {t : jwt.Token claims} {key : PublicKey} {start : Int}
    {ws : List Write} (hr : requests p = some r) (hapi : underAPI r.Path)
    (hraw : r.Get "Authorization" = str "Bearer " ++ raw) (ht : jwt.Compact claims.unmarshal raw t header data) (hbegan : s.world.began p = some start)
    (htrusted : Trusted site cfg.auth.Issuer cfg.auth.Audience start s.world.clock t key)
    (hok : s.world.failed p = false) (hres : s.result? p = some ws) :
    (∃ key, (p, key) ∈ s.world.handled) ∨ .status 429 ∈ ws := by
  obtain ⟨hc, hs⟩ := judged_run hload hprod hrun
  have hanswered := hs.ret Moved.refl hc (Pool.procs_of_result hres) r hr hapi raw hraw
  rw [hok] at hanswered
  rcases hanswered with hdone | hlimited | ⟨start', hbegan', hrefused⟩
  · exact .inl hdone
  · exact .inr hlimited
  · cases hbegan.symm.trans hbegan'
    exact absurd hrefused (htrusted.not_refused ht)

end

end

/-! ### A run -/

section
attribute [local instance] GoNumbers.integers jwt.Library.reference

/-- A signature is right under the key whose modulus it spells. -/
@[reducible] def sampleRsa : Rsa := ⟨fun key _ sig => decide (BigInt.SetBytes sig = key.N)⟩

attribute [local instance] sampleRsa

def sampleEnviron : config.Environ := fun key =>
  ([("FORGE_ENV", "production"), ("FORGE_DB_URL", "postgres://db"), ("FORGE_AUTH_MODE", "jwks"),
    ("FORGE_AUTH_JWKS_URL", "https://idp/keys"), ("FORGE_AUTH_ISSUER", "idp"),
    ("FORGE_AUTH_AUDIENCE", "forge")] : List (String × String)).findSome? fun x =>
      if str x.1 = key then some (str x.2) else none

theorem load_sampleEnviron : config.Load sampleEnviron = .ok (config.read sampleEnviron) := by
  have h : (config.read sampleEnviron).problems = [] := by decide +kernel
  unfold config.Load config.Config.validate
  rw [if_pos h]
  rfl

def sampleRequest (token : String) : Request where
  Method := "GET"
  Path := "/api/v1/services"
  Header := [("Authorization", str "Bearer " ++ str token), ("X-Correlation-Id", "c-1")]
  RemoteAddr := "10.0.0.1:40000"

/-- Two tokens that expire in 2027, of the same subject, signed under the keys `old` and `new`. -/
def oldToken : String :=
  "eyJhbGciOiJSUzI1NiIsImtpZCI6Im9sZCJ9." ++
    "eyJpc3MiOiJpZHAiLCJhdWQiOiJmb3JnZSIsInN1YiI6ImFkYSIsImV4cCI6MTgwMDAwMDAwMH0.AQ"

def newToken : String :=
  "eyJhbGciOiJSUzI1NiIsImtpZCI6Im5ldyJ9." ++
    "eyJpc3MiOiJpZHAiLCJhdWQiOiJmb3JnZSIsInN1YiI6ImFkYSIsImV4cCI6MTgwMDAwMDAwMH0.Ag"

/-- The endpoint replaces the key `old` by the key `new` thirty seconds after the server was started. -/
def sampleSite : Site where
  boot := 1700000000000000000
  endpoint u := if u < 1700000030000000000 then JWKSVerifier.oneKey "old" "AQ" else JWKSVerifier.oneKey "new" "Ag"
  lag := 1000000000

def sampleRequests (p : Nat) : Option Request :=
  if p = 0 then some (sampleRequest oldToken) else if p = 1 then some (sampleRequest newToken) else none

def sampleServer : Pool Nat Call Call.Ans (List Write) (World 50 100) :=
  server 50 100 sampleSite (config.read sampleEnviron) sampleRequests

/-- A request that fetches the document of the moment `u` and is let pass. -/
def fetchAndPass (p : Nat) (u : Int) : List (Move Nat Choice) :=
  ([.ok, .ok, .ok, .answer u, .ok, .ok, .ok, .ok] : List Choice).map (.call p)

/-- Before the handler of the first request runs a minute passes, the keys are rotated, and a second request comes
with a token under the new key, for which it fetches the document again. -/
def sampleMoves : List (Move Nat Choice) :=
  fetchAndPass 0 1700000000000000000 ++ [.env (.tick 60000000000)] ++ fetchAndPass 1 1700000060000000000

/-- The handler that runs next. -/
def nextHandler : Option (M (List Write)) → Option (Int × Context × Request)
  | some (.call (.handle start ctx r) _) => some (start, ctx, r)
  | _ => none

theorem of_nextHandler {m : Option (M (List Write))} {start : Int} {ctx : Context} {r : Request}
    (h : nextHandler m = some (start, ctx, r)) : ∃ k, m = some (.call (.handle start ctx r) k) := by
  unfold nextHandler at h
  split at h <;> cases h
  exact ⟨_, rfl⟩

theorem handled_authorised_sample : ∃ s k k',
    sampleServer.run (World.machine sampleSite) sampleMoves = some s ∧
    s.procs 0 = some (.call (.handle 1700000000000000000 ⟨"c-1", some ⟨"ada", [], []⟩⟩ (sampleRequest oldToken)) k) ∧
    s.procs 1 = some (.call (.handle 1700000060000000000 ⟨"c-1", some ⟨"ada", [], []⟩⟩ (sampleRequest newToken)) k') ∧
    Authorised sampleSite "idp" "forge" 1700000000000000000 s.world.clock (sampleRequest oldToken) ⟨"ada", [], []⟩ ∧
    Authorised sampleSite "idp" "forge" 1700000060000000000 s.world.clock (sampleRequest newToken) ⟨"ada", [], []⟩ := by
  have h : (sampleServer.run (World.machine sampleSite) sampleMoves).map (fun s =>
      (nextHandler (s.procs 0), nextHandler (s.procs 1))) =
      some (some (1700000000000000000, ⟨"c-1", some ⟨"ada", [], []⟩⟩, sampleRequest oldToken),
        some (1700000060000000000, ⟨"c-1", some ⟨"ada", [], []⟩⟩, sampleRequest newToken)) := by
    decide +kernel
  obtain ⟨s, hrun, hs⟩ := Option.map_eq_some_iff.1 h
  simp only [Prod.mk.injEq] at hs
  obtain ⟨k, hk⟩ := of_nextHandler hs.1
  obtain ⟨k', hk'⟩ := of_nextHandler hs.2
  have hprod : (config.read sampleEnviron).IsProduction := by decide +kernel
  obtain ⟨principal, hprincipal, hauth⟩ := handled_authorised load_sampleEnviron hprod hrun hk
  obtain ⟨principal', hprincipal', hauth'⟩ := handled_authorised load_sampleEnviron hprod hrun hk'
  cases hprincipal
  cases hprincipal'
  exact ⟨s, k, k', hrun, hk, hk', hauth, hauth'⟩

theorem serves_sample {u : Int} (hu : 1700000030000000000 ≤ u) : (sampleSite.endpoint u).Serves "new" ⟨2, 65537⟩ := by
  simp only [sampleSite, if_neg (not_lt.2 hu)]
  exact JWKSVerifier.serves_new_iff.2 ⟨rfl, rfl⟩

theorem serves_sample_only {u : Int} {key : PublicKey} (h : (sampleSite.endpoint u).Serves "new" key) :
    key = ⟨2, 65537⟩ := by
  simp only [sampleSite] at h
  split at h
  · exact absurd (JWKSVerifier.serves_old_iff.1 h).1 (by decide)
  · exact (JWKSVerifier.serves_new_iff.1 h).2

def sampleToken : jwt.Token claims where
  Method := .RS256
  kid := "new"
  Claims := ⟨⟨"idp", "ada", ["forge"], some 1800000000000000000, none, none, []⟩, [], ⟨[], 0⟩⟩
  text := "eyJhbGciOiJSUzI1NiIsImtpZCI6Im5ldyJ9.eyJpc3MiOiJpZHAiLCJhdWQiOiJmb3JnZSIsInN1YiI6ImFkYSIsImV4cCI6MTgwMDAwMDAwMH0"
  Signature := [2]

theorem trusted_served_sample : ∃ s ws,
    sampleServer.run (World.machine sampleSite) (sampleMoves ++ [.call 1 (.outcome ⟨[.status 200], false⟩)]) = some s ∧
    s.result? 1 = some ws ∧ ((∃ key, (1, key) ∈ s.world.handled) ∨ .status 429 ∈ ws) := by
  have h : (sampleServer.run (World.machine sampleSite)
      (sampleMoves ++ [.call 1 (.outcome ⟨[.status 200], false⟩)])).bind (fun s =>
        (s.result? 1).map fun ws => (ws, s.world.clock, s.world.began 1, s.world.failed 1)) =
      some ([.set "X-Correlation-Id" "c-1", .status 200], 1700000060000000000, some 1700000060000000000, false) := by
    decide +kernel
  obtain ⟨s, hrun, hs⟩ := Option.bind_eq_some_iff.1 h
  obtain ⟨ws, hres, hs⟩ := Option.map_eq_some_iff.1 hs
  simp only [Prod.mk.injEq] at hs
  obtain ⟨-, hclock, hbegan, hfailed⟩ := hs
  have hparse : jwt.Reference.parse claims.unmarshal ["RS256"] (str newToken) = some sampleToken := by decide +kernel
  obtain ⟨⟨header, data, hcompact⟩, -⟩ := (jwt.Reference.parse_iff _ _ _ _).1 hparse
  have htrusted : Trusted sampleSite "idp" "forge" 1700000060000000000 s.world.clock sampleToken ⟨2, 65537⟩ := by
    refine ⟨rfl, by decide, fun u hu _ => serves_sample (le_trans (by decide) hu),
      fun _ _ _ _ hkey => serves_sample_only hkey, rfl, by decide, ⟨1800000000000000000, rfl, ?_⟩,
      fun _ hnbf => by cases hnbf⟩
    rw [hclock]
    decide
  refine ⟨s, ws, hrun, hres, ?_⟩
  exact trusted_served load_sampleEnviron (by decide +kernel) hrun (by rfl) (by decide) (by rfl) hcompact hbegan
    htrusted hfailed hres

end

end Forge.api
