import Mathlib.Tactic.IntervalCases
import Forge.Provisioning.Workflow

/-!
# What a provisioning run leaves behind

The history of a run determines the environment of its slug: it is the replay of the activities that took
effect (`Replays`), because a run only executes activities of its own slug. Which activities a run executes
is known from the saga (`Settled`), so the environment it leaves can be computed: with every compensation
successful, nothing is left exactly if the failing activity took no effect, and if failing activities take
no effect at all, what is left are the resources whose compensation failed.
-/

namespace Forge.Provisioning

open GoString

/-! ### Replaying a history -/

def Executed.ok (x : Executed) : Bool :=
  match x.answer with
  | .ok _ => true
  | .error _ => false

/-- Activities, with whether they took effect. -/
def replay (t : TenantEnv) (xs : List (Activity × Bool)) : TenantEnv :=
  xs.foldl (fun t x => if x.2 = true then x.1.effect t else t) t

def effects (p : SimulatedProvisioner) (history : List Executed) : List (Activity × Bool) :=
  history.map fun x => (x.activity, x.took p)

/-- An answer is as the attempts say. -/
def Executed.Answered (p : SimulatedProvisioner) (x : Executed) : Prop :=
  if x.activity.Succeeds p x.attempts = true then x.answer = .ok x.activity.result
  else ∃ e, x.answer = .error e

theorem Executed.Answered.ok_eq {p : SimulatedProvisioner} {x : Executed} (h : x.Answered p) :
    x.ok = x.activity.Succeeds p x.attempts := by
  unfold Executed.Answered at h
  unfold Executed.ok
  split at h
  · rw [h]; simp_all
  · obtain ⟨e, he⟩ := h
    rw [he]; simp_all

theorem Executed.Answered.answer {p : SimulatedProvisioner} {x : Executed} (h : x.Answered p)
    (hok : x.ok = true) : x.answer = .ok x.activity.result := by
  rw [h.ok_eq] at hok
  simpa only [Executed.Answered, hok, if_true] using h

theorem Executed.Answered.took {p : SimulatedProvisioner} {x : Executed} (h : x.Answered p)
    (hok : x.ok = true) : x.took p = true :=
  Activity.Took_of_Succeeds (h.ok_eq ▸ hok)

/-- The environment of `slug` is the replay of the history of `r`, started in `p`. -/
structure Replays (p : SimulatedProvisioner) (slug : GoString) {Run : Type} (r : Run)
    (w : Temporal Run) : Prop where
  works : ∀ b : Activity, b.works w.prov = b.works p
  tenant : w.prov.tenant slug = replay (p.tenant slug) (effects p (w.history r))
  answered : ∀ x ∈ w.history r, x.Answered p

namespace Replays

theorem start (p : SimulatedProvisioner) (slug : GoString) {Run : Type} (r : Run) :
    Replays p slug r ⟨p, fun _ => []⟩ :=
  ⟨fun _ => rfl, rfl, by simp⟩

variable {Run : Type} [DecidableEq Run] {p : SimulatedProvisioner} {slug : GoString} {r : Run}
  {a : Activity} {ts : List Attempt} {ans : Except Err GoString} {w w' : Temporal Run}

/-- The run itself executes an activity of its slug. -/
theorem own (h : Replays p slug r w) (ha : a.slug = slug)
    (hc : Temporal.call r a ts w = some (ans, w')) : Replays p slug r w' := by
  obtain ⟨hhist, hatt⟩ := Temporal.call_spec hc
  have hr : w'.history r = w.history r ++ [⟨a, ts, ans⟩] := by rw [hhist, Function.update_self]
  refine ⟨fun b => (hatt.works b).trans (h.works b), ?_, fun x hx => ?_⟩
  · have htook : a.Took w.prov ts = a.Took p ts := by unfold Activity.Took; rw [h.works a]
    rw [hatt.tenant slug, h.tenant, hr, htook]
    simp [effects, replay, Executed.took, ha]
  · rw [hr, List.mem_append, List.mem_singleton] at hx
    rcases hx with hx | rfl
    · exact h.answered x hx
    · have hsucc : a.Succeeds w.prov ts = a.Succeeds p ts := by unfold Activity.Succeeds; rw [h.works a]
      have := hatt.answer
      rwa [hsucc] at this

/-- Another run executes an activity of another slug. -/
theorem other {q : Run} (h : Replays p slug r w) (hq : r ≠ q) (ha : a.slug ≠ slug)
    (hc : Temporal.call q a ts w = some (ans, w')) : Replays p slug r w' := by
  obtain ⟨hhist, hatt⟩ := Temporal.call_spec hc
  have hr : w'.history r = w.history r := by rw [hhist, Function.update_of_ne hq]
  refine ⟨fun b => (hatt.works b).trans (h.works b), ?_, hr ▸ h.answered⟩
  rw [hatt.tenant slug, if_neg (fun hs => ha hs.1), hr]
  exact h.tenant

theorem exec {inp : ProvisionTenantInput} {outcomes : List (List Attempt)}
    {res : Except Err ProvisionTenantResult} (h : Replays p inp.Slug r w)
    (he : (ProvisionTenantWorkflow inp).exec (Temporal.call r) outcomes w = some (res, w')) :
    Replays p inp.Slug r w' :=
  (((uses_ProvisionTenantWorkflow inp).rg (R := Eq) (G := fun _ _ => True)
    (fun _ _ ha hI => ⟨trivial, fun _ _ _ hc => hI.own ha hc⟩) w).exec (fun _ => rfl) h he).1

end Replays

/-! ### Which activities a run executes -/

/-- The calls of a run that returned `res`: all forward activities succeeded, or the first `k` of them did,
the next failed with `cause`, and the compensations of those `k` ran in reverse order. -/
inductive Settled (inp : ProvisionTenantInput) (history : List Executed) :
    Except Err ProvisionTenantResult → Prop
  | provisioned (hacts : history.map (·.activity) = inp.forward) (hok : ∀ x ∈ history, x.ok = true)
      {ns q dns sec fin : GoString}
      (hans : history.map (·.answer) = [.ok ns, .ok q, .ok dns, .ok sec, .ok fin]) :
      Settled inp history (.ok ⟨ns, dns⟩)
  | rolledBack (k : Nat) (hk : k < 5) (done : List Executed) {x : Executed} {undone : List Executed}
      {cause : Err} (hhist : history = done ++ x :: undone)
      (hdone : done.map (·.activity) = inp.forward.take k) (hok : ∀ y ∈ done, y.ok = true)
      (hx : inp.forward[k]? = some x.activity) (hcause : x.answer = .error cause)
      (hundone : undone.map (·.activity) = (inp.compensations.take k).reverse) :
      Settled inp history (.error (if k = 0 then cause else .wrap rolledBack cause))

theorem steps_split {inp : ProvisionTenantInput} {l rest : List (Saga.Step Activity)}
    {s : Saga.Step Activity} (h : inp.steps = l ++ s :: rest) :
    ∃ k, k < 5 ∧ l = inp.steps.take k ∧ inp.steps[k]? = some s := by
  have hlen : inp.steps.length = 5 := rfl
  refine ⟨l.length, ?_, ?_, ?_⟩
  · rw [h] at hlen
    simp only [List.length_append, List.length_cons] at hlen
    omega
  · simp [h]
  · simp [h]

theorem undos_take (inp : ProvisionTenantInput) {k : Nat} (hk : k < 5) :
    Saga.undos (inp.steps.take k) [] = (inp.compensations.take k).reverse := by
  rw [Saga.undos_eq, List.append_nil]
  interval_cases k <;> rfl

theorem ok_of_answer {xs : List Executed} (rs : List GoString) (h : xs.map (·.answer) = rs.map .ok) :
    ∀ x ∈ xs, x.ok = true := by
  intro x hx
  have hmem : x.answer ∈ rs.map Except.ok := h ▸ List.mem_map_of_mem hx
  obtain ⟨r, -, hr⟩ := List.mem_map.1 hmem
  unfold Executed.ok
  rw [← hr]

/-- The saga's outcome, read off the history of the run. -/
theorem settled_of_path {inp : ProvisionTenantInput} {history : List Executed}
    {res : Except Err ProvisionTenantResult}
    (hp : (ProvisionTenantWorkflow inp).Path (history.map Executed.call) (.ret res)) :
    Settled inp history res := by
  rw [ProvisionTenantWorkflow_eq] at hp
  obtain ⟨h₁, h₂, r, hh, hrun, hret⟩ := hp.of_bind
  rcases hret with _ | _
  rw [List.append_nil] at hh
  subst hh
  have hout := Saga.run_path hrun
  generalize hcalls : history.map Executed.call = cs at hout
  have hfst : history.map (·.activity) = cs.map (·.1) := by rw [← hcalls, List.map_map]; rfl
  have hsnd : history.map (·.answer) = cs.map (·.2) := by rw [← hcalls, List.map_map]; rfl
  rcases hout with ⟨rs, hl⟩ | ⟨l, rs, hsteps, hl, has⟩
  · have hlen : (rs.map (Except.ok : GoString → Except Err GoString)).length =
      (inp.steps.map (·.op)).length := by simpa using hl
    rw [Saga.calls_fst hlen] at hfst
    rw [Saga.calls_snd hlen] at hsnd
    match rs, hl, hsnd with
    | [ns, q, dns, sec, fin], _, hsnd => exact .provisioned hfst (ok_of_answer _ hsnd) hsnd
  · rename_i rest s cause as
    obtain ⟨k, hk, rfl, hs⟩ := steps_split hsteps
    have hlen : (rs.map (Except.ok : GoString → Except Err GoString)).length =
      ((inp.steps.take k).map (·.op)).length := by simpa using hl
    obtain ⟨done, tail, rfl, hdone, htail⟩ := List.map_eq_append_iff.1 hcalls
    obtain ⟨x, undone, rfl, hx, hundone⟩ := List.map_eq_cons_iff.1 htail
    have hus : (Saga.undos (inp.steps.take k) [] = []) = (k = 0) := by
      rw [undos_take inp hk]
      interval_cases k <;> simp [ProvisionTenantInput.compensations, ProvisionTenantInput.steps]
    simp only [finish, hus]
    refine .rolledBack k hk done rfl ?_ (ok_of_answer rs ?_) ?_ ?_ ?_
    · have := congrArg (List.map (·.1)) hdone
      rw [Saga.calls_fst hlen, List.map_map] at this
      rw [ProvisionTenantInput.forward, ← List.map_take]
      exact this
    · have := congrArg (List.map (·.2)) hdone
      rw [Saga.calls_snd hlen, List.map_map] at this
      exact this
    · have hop : x.activity = s.op := congrArg (·.1) hx
      rw [ProvisionTenantInput.forward, List.getElem?_map, hs, hop]
      rfl
    · exact congrArg (·.2) hx
    · have := congrArg (List.map (·.1)) hundone
      rw [Saga.calls_fst has, List.map_map, undos_take inp hk] at this
      exact this

/-! ### After a rollback -/

theorem effects_ok {p : SimulatedProvisioner} {xs : List Executed} (hans : ∀ x ∈ xs, x.Answered p)
    (hok : ∀ x ∈ xs, x.ok = true) : effects p xs = (xs.map (·.activity)).map (·, true) := by
  rw [effects, List.map_map]
  refine List.map_congr_left fun x hx => ?_
  rw [(hans x hx).took (hok x hx)]
  rfl

/-- A run that failed at its `k`-th activity `x` and whose compensations all succeeded, with the attempts
of its forward activities and the environment of its slug. -/
structure RolledBack (inp : ProvisionTenantInput) (p : SimulatedProvisioner) (outcomes : List (List Attempt))
    (k : Nat) (done : List (Activity × List Attempt)) (x : Activity × List Attempt) (env : TenantEnv) :
    Prop where
  lt : k < 5
  completed : done.map (·.1) = inp.forward.take k
  failing : inp.forward[k]? = some x.1
  zip : ∃ rest, inp.forward.zip outcomes = done ++ x :: rest
  succeed : ∀ y ∈ done, y.1.Succeeds p y.2 = true
  fails : x.1.Succeeds p x.2 = false
  env_eq : env = replay (p.tenant inp.Slug) ((inp.forward.take k).map (·, true) ++
    (x.1, x.1.Took p x.2) :: (inp.compensations.take k).reverse.map (·, true))

theorem zip_outcomes {inp : ProvisionTenantInput} {k : Nat} {done undone : List Executed} {x : Executed}
    (hdone : done.map (·.activity) = inp.forward.take k) (hx : inp.forward[k]? = some x.activity) :
    ∃ rest, inp.forward.zip ((done ++ x :: undone).map (·.attempts)) =
      (done.map fun y => (y.activity, y.attempts)) ++ (x.activity, x.attempts) :: rest := by
  obtain ⟨hlt, hget⟩ := List.getElem?_eq_some_iff.1 hx
  have hforward : inp.forward = done.map (·.activity) ++ x.activity :: inp.forward.drop (k + 1) := by
    rw [hdone, ← hget, ← List.drop_eq_getElem_cons hlt, List.take_append_drop]
  rw [hforward, List.map_append, List.zip_append (by simp), List.zip_map', List.map_cons, List.zip_cons_cons]
  exact ⟨_, rfl⟩

/-- What a run that returned an error did. -/
theorem rolledBack_of_exec {Run : Type} [DecidableEq Run] {r : Run} {inp : ProvisionTenantInput}
    {p : SimulatedProvisioner} {outcomes : List (List Attempt)} {err : Err} {w : Temporal Run}
    (hexec : (ProvisionTenantWorkflow inp).exec (Temporal.call r) outcomes ⟨p, fun _ => []⟩ =
      some (.error err, w))
    (hcomp : ∀ x ∈ w.history r, x.activity ∈ inp.compensations → x.ok = true) :
    ∃ k done x, RolledBack inp p outcomes k done x (w.prov.tenant inp.Slug) := by
  have hrep := (Replays.start p inp.Slug r).exec hexec
  obtain ⟨l, hl, hpath⟩ := Proc.path_of_exec (fun w => (w.history r).map Executed.call)
    (fun a ts ans s s' hc => by simp [(Temporal.call_spec hc).1]) hexec
  have hout := Proc.choices_of_exec (fun w => (w.history r).map (·.attempts))
    (fun a ts ans s s' hc => by simp [(Temporal.call_spec hc).1]) hexec
  simp only [List.map_nil, List.nil_append] at hl hout
  rw [← hl] at hpath
  rcases settled_of_path hpath with _ | ⟨k, hk, done, hhist, hdone, hok, hx, hcause, hundone⟩
  rename_i x undone cause
  have hans := hrep.answered
  have htenant := hrep.tenant
  rw [hhist] at hans hcomp hout htenant
  have hundoneOk : ∀ y ∈ undone, y.ok = true := fun y hy => by
    refine hcomp y (by simp [hy]) (List.mem_of_mem_take (i := k) ?_)
    rw [← List.mem_reverse, ← hundone]
    exact List.mem_map_of_mem hy
  have hfail : x.ok = false := by unfold Executed.ok; rw [hcause]
  have heffects : effects p (done ++ x :: undone) = (inp.forward.take k).map (·, true) ++
      (x.activity, x.took p) :: (inp.compensations.take k).reverse.map (·, true) := by
    rw [← hdone, ← hundone, ← effects_ok (fun y hy => hans y (by simp [hy])) hok,
      ← effects_ok (fun y hy => hans y (by simp [hy])) hundoneOk]
    simp [effects]
  refine ⟨k, done.map fun y => (y.activity, y.attempts), (x.activity, x.attempts), hk, ?_, hx, ?_, ?_, ?_, ?_⟩
  · rw [List.map_map, ← hdone]
    rfl
  · exact hout ▸ zip_outcomes hdone hx
  · intro y hy
    obtain ⟨z, hz, rfl⟩ := List.mem_map.1 hy
    rw [← (hans z (by simp [hz])).ok_eq, hok z hz]
  · rw [← (hans x (by simp)).ok_eq, hfail]
  · rw [htenant, heffects]
    rfl

/-- The first activity that fails is the one the workflow stops at. -/
theorem RolledBack.find_failing {inp : ProvisionTenantInput} {p : SimulatedProvisioner}
    {outcomes : List (List Attempt)} {k : Nat} {done : List (Activity × List Attempt)}
    {x : Activity × List Attempt} {env : TenantEnv} (h : RolledBack inp p outcomes k done x env) :
    (inp.forward.zip outcomes).find? (fun y => !y.1.Succeeds p y.2) = some x := by
  obtain ⟨rest, hzip⟩ := h.zip
  have hdone : done.find? (fun y => !y.1.Succeeds p y.2) = none := by
    rw [List.find?_eq_none]
    intro y hy
    simp [h.succeed y hy]
  rw [hzip, List.find?_append, hdone, List.find?_cons, h.fails]
  rfl

/-- The compensations undo what was completed, and nothing else. -/
theorem replay_rolledBack {inp : ProvisionTenantInput} {k : Nat} (hk : k < 5) {a : Activity}
    (ha : inp.forward[k]? = some a) (b : Bool) :
    replay .nothing ((inp.forward.take k).map (·, true) ++
      (a, b) :: (inp.compensations.take k).reverse.map (·, true)) =
    if b = true then a.effect .nothing else .nothing := by
  interval_cases k <;> cases ha <;> cases b <;> rfl

theorem effect_nothing_iff {inp : ProvisionTenantInput} {k : Nat} (hk : k < 5) {a : Activity}
    (ha : inp.forward[k]? = some a) : a.effect .nothing = .nothing ↔ a = .Finalize inp.Slug := by
  interval_cases k <;> cases ha <;> simp [Activity.effect, TenantEnv.nothing]

/-- The first forward activity that does not succeed with these outcomes has no attempt that was lost after
the provisioner had been called; finalizing changes nothing there. -/
def NoLateFailure (inp : ProvisionTenantInput) (p : SimulatedProvisioner)
    (outcomes : List (List Attempt)) : Prop :=
  ∀ a ts, (inp.forward.zip outcomes).find? (fun x => !x.1.Succeeds p x.2) = some (a, ts) →
    a = .Finalize inp.Slug ∨ a.Took p ts = false

/-- A run that returned an error and whose compensations all succeeded has left nothing for its slug,
exactly if the activity that failed did not fail after its effect. -/
theorem rollback_leaves_nothing_iff {Run : Type} [DecidableEq Run] (r : Run) (inp : ProvisionTenantInput)
    (p : SimulatedProvisioner) (hnone : p.tenant inp.Slug = .nothing) {outcomes : List (List Attempt)}
    {err : Err} {w : Temporal Run}
    (hexec : (ProvisionTenantWorkflow inp).exec (Temporal.call r) outcomes ⟨p, fun _ => []⟩ =
      some (.error err, w))
    (hcomp : ∀ x ∈ w.history r, x.activity ∈ inp.compensations → x.ok = true) :
    w.prov.tenant inp.Slug = .nothing ↔ NoLateFailure inp p outcomes := by
  obtain ⟨k, done, ⟨b, us⟩, h⟩ := rolledBack_of_exec hexec hcomp
  rw [h.env_eq, hnone, replay_rolledBack h.lt h.failing, NoLateFailure, h.find_failing]
  constructor
  · rintro henv a ts ⟨⟩
    rcases htook : b.Took p us with _ | _
    · exact .inr rfl
    · rw [htook] at henv
      exact .inl ((effect_nothing_iff h.lt h.failing).1 henv)
  · intro hlate
    rcases hlate _ _ rfl with hfin | htook
    · rw [(effect_nothing_iff h.lt h.failing).2 hfin]
      split <;> rfl
    · rw [htook]
      rfl

/-- The quota provider is down: the namespace is deleted again. -/
theorem exec_quota_refused :
    ∃ w, (ProvisionTenantWorkflow ⟨"acme", 10⟩).exec (Temporal.call ())
        [[.ok], [.before "refused", .before "refused", .before "refused"], [.ok]]
        ⟨NewSimulatedProvisioner, fun _ => []⟩ = some (.error (.wrap rolledBack (.ext "refused")), w) ∧
      w.history () = [⟨.CreateNamespace "acme", [.ok], .ok "tenant-acme"⟩,
        ⟨.ApplyQuota "acme" 10, [.before "refused", .before "refused", .before "refused"],
          .error (.ext "refused")⟩,
        ⟨.DeleteNamespace "acme", [.ok], .ok []⟩] :=
  Proc.exec_observed (fun w : Temporal Unit => w.history ()) (by decide +kernel)

theorem rollback_leaves_nothing_sample :
    ∃ err w, (ProvisionTenantWorkflow ⟨"acme", 10⟩).exec (Temporal.call ())
        [[.ok], [.before "refused", .before "refused", .before "refused"], [.ok]]
        ⟨NewSimulatedProvisioner, fun _ => []⟩ = some (.error err, w) ∧
      (w.prov.tenant "acme" = .nothing ↔ NoLateFailure ⟨"acme", 10⟩ NewSimulatedProvisioner
        [[.ok], [.before "refused", .before "refused", .before "refused"], [.ok]]) := by
  obtain ⟨w, hexec, hhist⟩ := exec_quota_refused
  refine ⟨_, w, hexec, rollback_leaves_nothing_iff () ⟨"acme", 10⟩ _ rfl hexec ?_⟩
  rw [hhist]
  decide

/-- The quota is set and every attempt times out afterwards: the compensations all succeed, and the quota
stays. -/
theorem rollback_leaks_quota :
    ∃ err w, (ProvisionTenantWorkflow ⟨"acme", 10⟩).exec (Temporal.call ())
        [[.ok], [.after "timeout", .after "timeout", .after "timeout"], [.ok]]
        ⟨NewSimulatedProvisioner, fun _ => []⟩ = some (.error err, w) ∧
      NewSimulatedProvisioner.tenant "acme" = .nothing ∧
      (∀ x ∈ w.history (), x.activity ∈ (⟨"acme", 10⟩ : ProvisionTenantInput).compensations → x.ok = true) ∧
      w.prov.tenant "acme" = ⟨false, some 10, false, false⟩ := by
  obtain ⟨w, hexec, hw⟩ : ∃ w, (ProvisionTenantWorkflow ⟨"acme", 10⟩).exec (Temporal.call ())
        [[.ok], [.after "timeout", .after "timeout", .after "timeout"], [.ok]]
        ⟨NewSimulatedProvisioner, fun _ => []⟩ = some (.error (.wrap rolledBack (.ext "timeout")), w) ∧
      (w.history (), w.prov.tenant "acme") = ([⟨.CreateNamespace "acme", [.ok], .ok "tenant-acme"⟩,
        ⟨.ApplyQuota "acme" 10, [.after "timeout", .after "timeout", .after "timeout"],
          .error (.ext "timeout")⟩,
        ⟨.DeleteNamespace "acme", [.ok], .ok []⟩], ⟨false, some 10, false, false⟩) :=
    Proc.exec_observed (fun w : Temporal Unit => (w.history (), w.prov.tenant "acme")) (by decide +kernel)
  simp only [Prod.mk.injEq] at hw
  refine ⟨_, w, hexec, rfl, ?_, hw.2⟩
  rw [hw.1]
  decide

end Forge.Provisioning
