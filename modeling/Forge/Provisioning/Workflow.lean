import Forge.Lib.Saga
import Forge.Provisioning.Provisioner

/-!
# The provisioning workflow (`provisioning/workflow.go`)

Temporal runs an activity at most `MaximumAttempts` times, and an attempt that fails may do so before or
after the provisioner was called: the worker can crash, and the start-to-close timeout can pass, after the
call. `Activity.attempts` is one execution of an activity with all its attempts, `Temporal` the provisioner
together with the event history of each workflow run, and `ProvisionTenantWorkflow` the workflow as a
process whose calls are activities. It is an instance of `Saga.run` (`ProvisionTenantWorkflow_eq`).
-/

namespace Forge.Provisioning

open GoString

/-! ### Executing an activity -/

/-- One attempt: the activity runs and its own result counts, or the attempt is lost before or after the
provisioner was called. -/
inductive Attempt
  | ok
  | before (text : GoString)
  | after (text : GoString)
deriving DecidableEq

namespace Attempt

def run (a : Activity) (p : SimulatedProvisioner) :
    Attempt → Except GoString GoString × SimulatedProvisioner
  | ok => a.run p
  | before text => (.error text, p)
  | after text => (.error text, (a.run p).2)

/-- The attempt reaches the provisioner. -/
def calls : Attempt → Bool
  | before _ => false
  | _ => true

end Attempt

namespace Activity

def MaximumAttempts : Nat := 3

/-- The attempts `ts` of an activity that has `n` of them left; `none` unless they are those of a complete
execution, which ends with the first success or with the last attempt allowed. -/
def attempts (a : Activity) : Nat → List Attempt → SimulatedProvisioner →
    Option (Except Err GoString × SimulatedProvisioner)
  | 0, _, _ => none
  | _, [], _ => none
  | n + 1, t :: ts, p => match t.run a p with
    | (.ok r, p') => if ts = [] then some (.ok r, p') else none
    | (.error e, p') =>
      if n = 0 then if ts = [] then some (.error (.ext e), p') else none
      else a.attempts n ts p'

/-- The execution with these attempts succeeds. -/
def Succeeds (a : Activity) (p : SimulatedProvisioner) (ts : List Attempt) : Bool :=
  a.works p && ts.any (· == .ok)

/-- The execution with these attempts takes effect. -/
def Took (a : Activity) (p : SimulatedProvisioner) (ts : List Attempt) : Bool :=
  a.works p && ts.any (·.calls)

theorem Took_of_Succeeds {a : Activity} {p : SimulatedProvisioner} {ts : List Attempt}
    (h : a.Succeeds p ts = true) : a.Took p ts = true := by
  simp only [Succeeds, Bool.and_eq_true, List.any_eq_true, beq_iff_eq] at h
  obtain ⟨hw, t, ht, rfl⟩ := h
  simp only [Took, Bool.and_eq_true, List.any_eq_true]
  exact ⟨hw, .ok, ht, rfl⟩

/-- What an execution does and answers. -/
structure Attempted (a : Activity) (ts : List Attempt) (p : SimulatedProvisioner)
    (ans : Except Err GoString) (p' : SimulatedProvisioner) : Prop where
  works : ∀ b : Activity, b.works p' = b.works p
  tenant : ∀ s, p'.tenant s =
    if a.slug = s ∧ a.Took p ts = true then a.effect (p.tenant s) else p.tenant s
  answer : if a.Succeeds p ts = true then ans = .ok a.result else ∃ e, ans = .error e

theorem Attempted.single (a : Activity) (p : SimulatedProvisioner) (t : Attempt) :
    a.Attempted [t] p ((t.run a p).1.mapError .ext) (t.run a p).2 := by
  rcases hw : a.works p with _ | _
  · obtain ⟨⟨e, he⟩, hp⟩ := a.run_fails p hw
    rcases t with _ | text | text <;>
      exact ⟨by simp [Attempt.run, hp], by simp [Attempt.run, Took, hw, hp],
        by simp [Attempt.run, Succeeds, hw, he, Except.mapError]⟩
  · rcases t with _ | text | text
    · exact ⟨a.works_run p, by simp [Attempt.run, Attempt.calls, Took, hw, a.tenant_run p hw],
        by simp [Attempt.run, Succeeds, hw, a.run_works p hw, Except.mapError]⟩
    · exact ⟨fun _ => rfl, by simp [Attempt.run, Attempt.calls, Took],
        by simp [Attempt.run, Succeeds, Except.mapError]⟩
    · exact ⟨a.works_run p, by simp [Attempt.run, Attempt.calls, Took, hw, a.tenant_run p hw],
        by simp [Attempt.run, Succeeds, Except.mapError]⟩

/-- A failed attempt and the attempts after it: the effect is idempotent. -/
theorem Attempted.retry {a : Activity} {t : Attempt} {ts : List Attempt} {p p₁ p' : SimulatedProvisioner}
    {e : Err} {ans : Except Err GoString} (h₁ : a.Attempted [t] p (.error e) p₁)
    (h : a.Attempted ts p₁ ans p') : a.Attempted (t :: ts) p ans p' := by
  have htook : a.Took p (t :: ts) = (a.Took p [t] || a.Took p₁ ts) := by
    simp only [Took, h₁.works a, List.any_cons, List.any_nil, Bool.or_false]
    rw [Bool.and_or_distrib_left]
  have hsucc : a.Succeeds p (t :: ts) = a.Succeeds p₁ ts := by
    have hfail : a.Succeeds p [t] = false := by
      rcases hs : a.Succeeds p [t] with _ | _
      · rfl
      · simpa [hs] using h₁.answer
    simp only [Succeeds, List.any_cons, List.any_nil, Bool.or_false] at hfail
    simp only [Succeeds, h₁.works a, List.any_cons]
    rw [Bool.and_or_distrib_left, hfail, Bool.false_or]
  refine ⟨fun b => (h.works b).trans (h₁.works b), fun s => ?_, hsucc ▸ h.answer⟩
  rw [h.tenant s, h₁.tenant s, htook]
  by_cases hs : a.slug = s
  · rcases a.Took p [t] <;> rcases a.Took p₁ ts <;> simp [hs, effect_effect]
  · simp [hs]

theorem attempts_spec {a : Activity} {n : Nat} {ts : List Attempt} {p p' : SimulatedProvisioner}
    {ans : Except Err GoString} (h : a.attempts n ts p = some (ans, p')) : a.Attempted ts p ans p' := by
  induction n generalizing ts p with
  | zero => cases ts <;> cases h
  | succ n ih =>
    rcases ts with _ | ⟨t, ts⟩
    · cases h
    have h₁ := Attempted.single a p t
    simp only [attempts] at h
    split at h
    · rename_i r p₁ hrun
      rw [hrun] at h₁
      split at h <;> cases h
      subst_vars
      exact h₁
    · rename_i e p₁ hrun
      rw [hrun] at h₁
      split at h
      · -- the last attempt allowed
        split at h <;> cases h
        subst_vars
        exact h₁
      · exact h₁.retry (ih h)

end Activity

/-! ### Runs and their histories -/

/-- An executed activity in the event history of a run. -/
structure Executed where
  activity : Activity
  attempts : List Attempt
  answer : Except Err GoString
deriving DecidableEq

/-- What the workflow sees of it. -/
abbrev Executed.call (x : Executed) : Σ _ : Activity, Except Err GoString := ⟨x.activity, x.answer⟩

/-- The execution changed the provisioner `p`. -/
def Executed.took (p : SimulatedProvisioner) (x : Executed) : Bool := x.activity.Took p x.attempts

/-- The provisioner and the histories of the runs that use it. -/
structure Temporal (Run : Type) where
  prov : SimulatedProvisioner
  history : Run → List Executed

variable {Run : Type} [DecidableEq Run]

/-- A run executes an activity; the attempts are the choice. -/
def Temporal.call (r : Run) : Env Activity (fun _ => Except Err GoString) (List Attempt) (Temporal Run) :=
  fun a ts w => match a.attempts Activity.MaximumAttempts ts w.prov with
    | some (ans, prov) =>
      some (ans, ⟨prov, Function.update w.history r (w.history r ++ [⟨a, ts, ans⟩])⟩)
    | none => none

/-- Temporal replays a run after a crash of its worker: only the attempts see it. A run that is terminated
leaves everything as it is. -/
def Temporal.machine : Machine Run Activity (fun _ => Except Err GoString) (List Attempt) (Temporal Run) where
  call := Temporal.call
  crash := fun _ w => w
  env := fun _ _ => none

theorem Temporal.call_spec {r : Run} {a : Activity} {ts : List Attempt} {w w' : Temporal Run}
    {ans : Except Err GoString} (h : Temporal.call r a ts w = some (ans, w')) :
    w'.history = Function.update w.history r (w.history r ++ [⟨a, ts, ans⟩]) ∧
      a.Attempted ts w.prov ans w'.prov := by
  simp only [Temporal.call] at h
  split at h
  · rename_i hatt
    cases h
    exact ⟨rfl, Activity.attempts_spec hatt⟩
  · cases h

/-! ### The workflow -/

structure ProvisionTenantInput where
  Slug : GoString
  MaxServices : Int

structure ProvisionTenantResult where
  Namespace : GoString
  Endpoint : GoString
deriving DecidableEq

abbrev Workflow (α : Type) : Type := Proc Activity (fun _ => Except Err GoString) α

def ExecuteActivity (a : Activity) : Workflow (Except Err GoString) := Proc.perform a

/-- The compensations, as the activities they execute. -/
structure saga where
  compensations : List Activity

def newSaga : saga := ⟨[]⟩

def saga.addCompensation (s : saga) (f : Activity) : saga := ⟨s.compensations ++ [f]⟩

def rolledBack : GoString := "provisioning failed and was rolled back"

/-- The last compensation runs first; the answers are logged and otherwise ignored. -/
def saga.compensate (s : saga) (cause : Err) : Workflow Err := do
  Saga.compensate s.compensations.reverse
  return .wrap rolledBack cause

def ProvisionTenantWorkflow (inp : ProvisionTenantInput) : Workflow (Except Err ProvisionTenantResult) := do
  let saga := newSaga
  match ← ExecuteActivity (.CreateNamespace inp.Slug) with
  | .error err => return .error err
  | .ok ns =>
  let saga := saga.addCompensation (.DeleteNamespace inp.Slug)
  match ← ExecuteActivity (.ApplyQuota inp.Slug inp.MaxServices) with
  | .error err => return .error (← saga.compensate err)
  | .ok _ =>
  let saga := saga.addCompensation (.RemoveQuota inp.Slug)
  match ← ExecuteActivity (.RegisterDNS inp.Slug) with
  | .error err => return .error (← saga.compensate err)
  | .ok dns =>
  let saga := saga.addCompensation (.DeregisterDNS inp.Slug)
  match ← ExecuteActivity (.CreateSecretPath inp.Slug) with
  | .error err => return .error (← saga.compensate err)
  | .ok _ =>
  let saga := saga.addCompensation (.DeleteSecretPath inp.Slug)
  match ← ExecuteActivity (.Finalize inp.Slug) with
  | .error err => return .error (← saga.compensate err)
  | .ok _ => return .ok ⟨ns, dns⟩

namespace ProvisionTenantInput

variable (inp : ProvisionTenantInput)

def steps : List (Saga.Step Activity) :=
  [⟨.CreateNamespace inp.Slug, some (.DeleteNamespace inp.Slug)⟩,
    ⟨.ApplyQuota inp.Slug inp.MaxServices, some (.RemoveQuota inp.Slug)⟩,
    ⟨.RegisterDNS inp.Slug, some (.DeregisterDNS inp.Slug)⟩,
    ⟨.CreateSecretPath inp.Slug, some (.DeleteSecretPath inp.Slug)⟩,
    ⟨.Finalize inp.Slug, none⟩]

/-- The activities that provision the tenant. -/
def forward : List Activity := inp.steps.map (·.op)

/-- The activities that undo them; the last one has none. -/
def compensations : List Activity := inp.steps.filterMap (·.undo)

end ProvisionTenantInput

/-- An error is wrapped unless nothing had to be rolled back. -/
def finish : Except (List Activity × Err) (List GoString) → Except Err ProvisionTenantResult
  | .error (us, cause) => .error (if us = [] then cause else .wrap rolledBack cause)
  | .ok rs => .ok ⟨rs.getD 0 [], rs.getD 2 []⟩

/-- The workflow is a saga. -/
theorem ProvisionTenantWorkflow_eq (inp : ProvisionTenantInput) :
    ProvisionTenantWorkflow inp = Saga.run inp.steps [] [] >>= fun r => .ret (finish r) := by
  simp only [ProvisionTenantWorkflow, ExecuteActivity, Proc.perform_bind, ProvisionTenantInput.steps,
    Saga.run, Proc.call_bind]
  -- one level for each activity: both sides stop at an error, and go on alike after a result
  congr 1; funext ns
  rcases ns with err | ns
  · rfl
  dsimp only
  congr 1; funext q
  rcases q with err | q
  · rfl
  dsimp only
  congr 1; funext dns
  rcases dns with err | dns
  · rfl
  dsimp only
  congr 1; funext sec
  rcases sec with err | sec
  · rfl
  dsimp only
  congr 1; funext fin
  rcases fin with err | fin <;> rfl

theorem uses_ProvisionTenantWorkflow (inp : ProvisionTenantInput) :
    (ProvisionTenantWorkflow inp).Uses fun a => a.slug = inp.Slug := by
  rw [ProvisionTenantWorkflow_eq]
  refine Proc.Uses.bind (Saga.uses_run ?_ ?_ [] ) fun r => trivial
  · simp [ProvisionTenantInput.steps, Activity.slug]
  · simp

end Forge.Provisioning
