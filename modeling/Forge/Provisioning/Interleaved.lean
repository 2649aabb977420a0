import Mathlib.Data.List.Nodup
import Forge.Provisioning.Rollback

/-!
# Interleaved provisioning runs

Any number of workflow runs for distinct slugs over one provisioner, their activities interleaved in any
way, where an activity that fails has no effect: each run that returned is all or nothing up to the
compensations that failed, as if it had run alone.
-/

namespace Forge.Provisioning

open GoString

def Executed.outcome (x : Executed) : Activity × Bool := (x.activity, x.ok)

def failed (xs : List (Activity × Bool)) (a : Activity) : Bool := xs.any fun x => decide (x.1 = a) && !x.2

/-- The resources of a tenant whose compensation failed. -/
def residue (inp : ProvisionTenantInput) (xs : List (Activity × Bool)) : TenantEnv where
  namespc := failed xs (.DeleteNamespace inp.Slug)
  quota := if failed xs (.RemoveQuota inp.Slug) = true then some inp.MaxServices else none
  dns := failed xs (.DeregisterDNS inp.Slug)
  secret := failed xs (.DeleteSecretPath inp.Slug)

section
variable (t : TenantEnv) (s : GoString) (b : Bool) (xs : List (Activity × Bool))

theorem replay_nil : replay t [] = t := rfl

theorem replay_done (a : Activity) : replay t ((a, true) :: xs) = replay (a.effect t) xs := rfl

theorem replay_failed (a : Activity) : replay t ((a, false) :: xs) = replay t xs := rfl

theorem replay_DeleteNamespace :
    replay t ((.DeleteNamespace s, b) :: xs) = replay { t with namespc := t.namespc && !b } xs := by
  cases b <;> simp [replay, Activity.effect]

theorem replay_RemoveQuota :
    replay t ((.RemoveQuota s, b) :: xs) = replay { t with quota := if b = false then t.quota else none } xs := by
  cases b <;> simp [replay, Activity.effect]

theorem replay_DeregisterDNS :
    replay t ((.DeregisterDNS s, b) :: xs) = replay { t with dns := t.dns && !b } xs := by
  cases b <;> simp [replay, Activity.effect]

theorem replay_DeleteSecretPath :
    replay t ((.DeleteSecretPath s, b) :: xs) = replay { t with secret := t.secret && !b } xs := by
  cases b <;> simp [replay, Activity.effect]

attribute [local simp] replay_nil replay_done replay_failed replay_DeleteNamespace replay_RemoveQuota
  replay_DeregisterDNS replay_DeleteSecretPath residue failed TenantEnv.nothing ProvisionTenantInput.forward
  ProvisionTenantInput.compensations ProvisionTenantInput.steps Activity.effect

/-- Compensations that succeed or fail, after a failure that had no effect. -/
theorem replay_residue {inp : ProvisionTenantInput} {k : Nat} (hk : k < 5) {a : Activity}
    (ha : inp.forward[k]? = some a) {oks : List Bool} (hoks : oks.length = k) :
    replay .nothing ((inp.forward.take k).map (·, true) ++
      (a, false) :: (inp.compensations.take k).reverse.zip oks) =
    residue inp ((inp.forward.take k).map (·, true) ++
      (a, false) :: (inp.compensations.take k).reverse.zip oks) := by
  subst hoks
  -- the last compensation runs first
  match oks, hk, ha with
  | [], _, ha => cases ha; simp
  | [_], _, ha => cases ha; simp
  | [_, _], _, ha => cases ha; simp
  | [_, _, _], _, ha => cases ha; simp
  | [_, _, _, _], _, ha => cases ha; simp
  | _ :: _ :: _ :: _ :: _ :: _, hk, _ => simp only [List.length_cons] at hk; omega

end

/-- What a run that returned `res` did, and the environment of its slug. -/
structure AllOrNothing (inp : ProvisionTenantInput) (history : List Executed) (env : TenantEnv)
    (res : Except Err ProvisionTenantResult) : Prop where
  succeeds_iff : (∃ out, res = .ok out) ↔
    ∀ a ∈ inp.forward, ∃ x ∈ history, x.activity = a ∧ x.ok = true
  provisioned : ∀ out, res = .ok out →
    out = ⟨str "tenant-" ++ inp.Slug, inp.Slug ++ str "." ++ dnsZone⟩ ∧
      env = ⟨true, some inp.MaxServices, true, true⟩
  rolledBack : ∀ err, res = .error err → ∃ k cause, k < inp.forward.length ∧
    -- the first `k` activities succeeded and the next is the first to fail
    history.map (·.activity) = inp.forward.take (k + 1) ++ (inp.compensations.take k).reverse ∧
    (∀ x ∈ history.take k, x.ok = true) ∧ (history[k]?).map (·.answer) = some (.error cause) ∧
    err = (if k = 0 then cause else .wrap rolledBack cause) ∧
    env = residue inp (history.map Executed.outcome)

theorem effects_eq_outcomes {p : SimulatedProvisioner} {xs : List Executed}
    (hans : ∀ x ∈ xs, x.Answered p) (hclean : ∀ x ∈ xs, x.ok = false → x.took p = false) :
    effects p xs = xs.map Executed.outcome := by
  refine List.map_congr_left fun x hx => ?_
  rcases hok : x.ok with _ | _
  · rw [hclean x hx hok, Executed.outcome, hok]
  · rw [(hans x hx).took hok, Executed.outcome, hok]

theorem outcome_of_ok {xs : List Executed} (hok : ∀ x ∈ xs, x.ok = true) :
    xs.map Executed.outcome = (xs.map (·.activity)).map (·, true) := by
  rw [List.map_map]
  exact List.map_congr_left fun x hx => by rw [Executed.outcome, hok x hx]; rfl

theorem nodup_activities (inp : ProvisionTenantInput) (k : Nat) :
    (inp.forward.take (k + 1) ++ (inp.compensations.take k).reverse).Nodup := by
  have hall : (inp.forward ++ inp.compensations).Nodup := by
    simp [ProvisionTenantInput.forward, ProvisionTenantInput.compensations, ProvisionTenantInput.steps]
  rw [((List.reverse_perm _).append_left _).nodup_iff]
  exact hall.sublist ((List.take_sublist _ _).append (List.take_sublist _ _))

theorem allOrNothing_of_settled {inp : ProvisionTenantInput} {p : SimulatedProvisioner}
    {history : List Executed} {env : TenantEnv} {res : Except Err ProvisionTenantResult}
    (henv : env = replay .nothing (effects p history)) (hans : ∀ x ∈ history, x.Answered p)
    (hclean : ∀ x ∈ history, x.ok = false → x.took p = false) (h : Settled inp history res) :
    AllOrNothing inp history env res := by
  rw [effects_eq_outcomes hans hclean] at henv
  rcases h with ⟨hacts, hok, hanswers⟩ | ⟨k, hk, done, rfl, hdone, hok, hx, hcause, hundone⟩
  · rename_i ns q dns sec fin
    refine ⟨⟨fun _ a ha => ?_, fun _ => ⟨_, rfl⟩⟩, ?_, nofun⟩
    · rw [← hacts] at ha
      obtain ⟨x, hx, rfl⟩ := List.mem_map.1 ha
      exact ⟨x, hx, rfl, hok x hx⟩
    rintro out ⟨⟩
    -- each activity answers with its own result
    have hres : history.map (·.answer) = inp.forward.map fun a => .ok a.result := by
      rw [← hacts, List.map_map]
      exact List.map_congr_left fun x hx => (hans x hx).answer (hok x hx)
    rw [hanswers] at hres
    simp only [ProvisionTenantInput.forward, ProvisionTenantInput.steps, List.map_cons, List.map_nil,
      List.cons.injEq, Except.ok.injEq] at hres
    obtain ⟨rfl, -, rfl, -⟩ := hres
    refine ⟨rfl, ?_⟩
    rw [henv, outcome_of_ok hok, hacts]
    rfl
  · rename_i x undone cause
    have hfail : x.ok = false := by unfold Executed.ok; rw [hcause]
    have hlen : done.length = k := by
      have := congrArg List.length hdone
      simpa [ProvisionTenantInput.forward, ProvisionTenantInput.steps, hk.le] using this
    obtain ⟨hlt, hget⟩ := List.getElem?_eq_some_iff.1 hx
    have hacts : (done ++ x :: undone).map (·.activity) =
        inp.forward.take (k + 1) ++ (inp.compensations.take k).reverse := by
      rw [List.map_append, List.map_cons, hdone, hundone, List.take_succ_eq_append_getElem hlt, hget,
        List.append_assoc, List.singleton_append]
    refine ⟨⟨nofun, fun hall => ?_⟩, nofun, ?_⟩
    · -- the activity that failed is executed only once
      obtain ⟨y, hy, hyx, hyok⟩ := hall x.activity (List.mem_of_getElem? hx)
      have heq := List.inj_on_of_nodup_map (hacts ▸ nodup_activities inp k) hy (by simp) hyx
      rw [heq, hfail] at hyok
      cases hyok
    rintro err ⟨⟩
    refine ⟨k, cause, hk, hacts, ?_, ?_, rfl, ?_⟩
    · rw [List.take_append_of_le_length hlen.ge, List.take_of_length_le hlen.le]
      exact hok
    · rw [List.getElem?_append_right hlen.le, hlen, Nat.sub_self, List.getElem?_cons_zero, Option.map_some,
        hcause]
    · have hxs : (done ++ x :: undone).map Executed.outcome = (inp.forward.take k).map (·, true) ++
          (x.activity, false) :: (inp.compensations.take k).reverse.zip (undone.map (·.ok)) := by
        rw [List.map_append, outcome_of_ok hok, hdone, List.map_cons, Executed.outcome, hfail, ← hundone,
          List.zip_map']
        rfl
      have hlen' : (undone.map (·.ok)).length = k := by
        have := congrArg List.length hundone
        have hc : k ≤ inp.compensations.length := Nat.lt_succ_iff.1 hk
        simpa [hc] using this
      rw [henv, hxs]
      exact replay_residue hk hx hlen'

/-! ### Any number of runs -/

variable {Run : Type} [DecidableEq Run]

/-- The runs have been started on the provisioner `p`. -/
def started (inputs : Run → ProvisionTenantInput) (p : SimulatedProvisioner) :
    Pool Run Activity (fun _ => Except Err GoString) (Except Err ProvisionTenantResult) (Temporal Run) :=
  ⟨⟨p, fun _ => []⟩, fun r => some (ProvisionTenantWorkflow (inputs r))⟩

section
variable {inputs : Run → ProvisionTenantInput} {p : SimulatedProvisioner} {ms : List (Move Run (List Attempt))}
  {s : Pool Run Activity (fun _ => Except Err GoString) (Except Err ProvisionTenantResult) (Temporal Run)}

/-- Runs for distinct slugs do not see each other. -/
theorem replays_run (hslugs : Function.Injective fun r => (inputs r).Slug)
    (hrun : (started inputs p).run Temporal.machine ms = some s) (r : Run) :
    Replays p (inputs r).Slug r s.world := by
  have hall := Pool.rg_run (I := fun w => ∀ r, Replays p (inputs r).Slug r w) (R := fun _ _ _ => True)
    (G := fun _ _ => True) (Q := fun _ _ _ => True) (fun _ _ => trivial) (fun _ _ _ _ _ _ => trivial)
    (fun _ _ _ _ _ _ _ _ _ _ => trivial) (fun _ _ hI => ⟨hI, fun _ _ => trivial⟩) (fun _ _ _ _ hc => by cases hc)
    (fun r => Replays.start p _ r) ?_ hrun
  · exact hall.1 r
  rintro q prog ⟨⟩
  refine (uses_ProvisionTenantWorkflow (inputs q)).rg (fun a w ha hI => ⟨trivial, ?_⟩) _
  intro ts ans w' hc r
  by_cases hrq : r = q
  · subst hrq
    exact (hI r).own ha hc
  · exact (hI r).other hrq (fun e => hrq (hslugs (e.symm.trans ha))) hc

/-- The history of a run has the calls of its workflow. -/
theorem path_history (hrun : (started inputs p).run Temporal.machine ms = some s) {r : Run}
    {prog : Workflow (Except Err ProvisionTenantResult)} (hr : s.procs r = some prog) :
    (ProvisionTenantWorkflow (inputs r)).Path ((s.world.history r).map Executed.call) prog := by
  have hcall : ∀ q a ts ans (w w' : Temporal Run), Temporal.call q a ts w = some (ans, w') →
      (w'.history q).map Executed.call = (w.history q).map Executed.call ++ [⟨a, ans⟩] ∧
      ∀ q', q' ≠ q → (w'.history q').map Executed.call = (w.history q').map Executed.call := by
    intro q a ts ans w w' hc
    rw [(Temporal.call_spec hc).1]
    exact ⟨by simp, fun q' hq => by simp [Function.update_of_ne hq]⟩
  obtain ⟨_, ⟨⟩, hpath⟩ := Pool.path_run (fun w r => (w.history r).map Executed.call) hcall
    (fun _ _ => rfl) (fun _ _ _ hc => by cases hc) (fun _ => rfl) hrun r hr
  exact hpath

end

/-- Runs for distinct slugs, over a provisioner that has nothing for them, where activities that fail have
no effect: each run that returned is all or nothing, with exactly the residue of its failed compensations,
and no step of a run changes the environment of another slug. -/
theorem saga_all_or_nothing (inputs : Run → ProvisionTenantInput)
    (hslugs : Function.Injective fun r => (inputs r).Slug) (p : SimulatedProvisioner)
    (hnone : ∀ r, p.tenant (inputs r).Slug = .nothing) {ms : List (Move Run (List Attempt))}
    {s : Pool Run Activity (fun _ => Except Err GoString) (Except Err ProvisionTenantResult) (Temporal Run)}
    (hrun : (started inputs p).run Temporal.machine ms = some s)
    (hclean : ∀ r, ∀ x ∈ s.world.history r, x.ok = false → x.took p = false) :
    (∀ r res, s.procs r = some (.ret res) →
      AllOrNothing (inputs r) (s.world.history r) (s.world.prov.tenant (inputs r).Slug) res) ∧
    ∀ r ts s', s.step Temporal.machine (.call r ts) = some s' →
      ∀ slug, slug ≠ (inputs r).Slug → s'.world.prov.tenant slug = s.world.prov.tenant slug := by
  constructor
  · intro r res hr
    have hrep := replays_run hslugs hrun r
    refine allOrNothing_of_settled (p := p) ?_ hrep.answered (hclean r) (settled_of_path (path_history hrun hr))
    rw [hrep.tenant, hnone r]
  · intro r ts s' hstep slug hne
    rcases Pool.step_cases hstep with ⟨q, a, k, c, ans, w, hm, hq, hc, rfl⟩ | ⟨q, hm, -⟩ | ⟨c, w, hm, -⟩
    · cases hm
      have hown : a.slug = (inputs r).Slug :=
        ((uses_ProvisionTenantWorkflow (inputs r)).path (path_history hrun hq)).1
      have htenant := (Temporal.call_spec hc).2.tenant slug
      rwa [if_neg (fun h => hne (h.1.symm.trans hown))] at htenant
    · cases hm
    · cases hm

/-- Two runs, whose activities alternate for a while. -/
def sampleMoves : List (Move Bool (List Attempt)) :=
  let down : Attempt := .before "unavailable"
  [.call false [.ok], .call true [down, .ok], .call true [.ok], .call false [down, down, .ok],
    .call true [down, down, down], .call false [.ok], .call true [down, down, down], .call false [.ok],
    .call true [.ok], .call false [.ok]]

def sampleInputs (b : Bool) : ProvisionTenantInput := if b then ⟨"beta", 5⟩ else ⟨"acme", 10⟩

/-- One of them is provisioned; the other has no DNS entry, and the removal of its quota fails. -/
theorem saga_all_or_nothing_sample :
    ∃ s, (started sampleInputs NewSimulatedProvisioner).run Temporal.machine sampleMoves = some s ∧
      AllOrNothing ⟨"acme", 10⟩ (s.world.history false) ⟨true, some 10, true, true⟩
        (.ok ⟨"tenant-acme", "acme.forge.example.com"⟩) ∧
      AllOrNothing ⟨"beta", 5⟩ (s.world.history true) ⟨false, some 5, false, false⟩
        (.error (.wrap rolledBack (.ext "unavailable"))) := by
  have h : ((started sampleInputs NewSimulatedProvisioner).run Temporal.machine sampleMoves).map
      (fun s => (s.result? false, s.result? true, s.world.prov.tenant "acme", s.world.prov.tenant "beta",
        [false, true].all fun r => (s.world.history r).all fun x => x.ok || !x.took NewSimulatedProvisioner)) =
      some (some (.ok ⟨"tenant-acme", "acme.forge.example.com"⟩),
        some (.error (.wrap rolledBack (.ext "unavailable"))),
        ⟨true, some 10, true, true⟩, ⟨false, some 5, false, false⟩, true) := by decide +kernel
  obtain ⟨s, hrun, hs⟩ := Option.map_eq_some_iff.1 h
  simp only [Prod.mk.injEq, List.all_cons, List.all_nil, Bool.and_true, Bool.and_eq_true,
    List.all_eq_true, Bool.or_eq_true, Bool.not_eq_true'] at hs
  obtain ⟨hacme, hbeta, htenantA, htenantB, hclean⟩ := hs
  have hslugs : Function.Injective fun r => (sampleInputs r).Slug := by
    show ∀ r q, _ → _
    decide
  have hall := saga_all_or_nothing sampleInputs hslugs NewSimulatedProvisioner (fun _ => rfl) hrun ?_
  · exact ⟨s, hrun, htenantA ▸ hall.1 false _ (Pool.procs_of_result hacme),
      htenantB ▸ hall.1 true _ (Pool.procs_of_result hbeta)⟩
  intro r x hx hfail
  cases r
  · simpa [hfail] using hclean.1 x hx
  · simpa [hfail] using hclean.2 x hx

end Forge.Provisioning
