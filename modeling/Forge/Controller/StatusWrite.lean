import Forge.Controller.History

/-!
# The status that is written

What `updateStatus` compares and what it stores. A status that only `updateStatus` wrote is what it writes for
the spec of the generation it names (`StatusOk`), so where the four fields it compares agree, the condition
agrees as well (`StatusOk.unchanged`).
-/

namespace Forge.Controller

open GoString

/-- The condition of a status write; its time is set by `setCondition`. -/
def availableCondition (app : Application) (dep : DeploymentStatus) : Condition where
  ConditionType := "Available"
  Status := (phaseOf app dep).2
  ObservedGeneration := app.Generation
  LastTransitionTime := none
  Reason := (phaseOf app dep).1
  Message := FormatInt dep.ReadyReplicas ++ str "/" ++ FormatInt (desiredReplicas app) ++ str " replicas ready"

def writtenStatus (now : Int) (app : Application) (dep : DeploymentStatus) : ApplicationStatus :=
  ⟨(phaseOf app dep).1, app.Generation, dep.Replicas, dep.ReadyReplicas,
    setCondition now app.Status.Conditions (availableCondition app dep)⟩

/-- The comparison of `updateStatus`. -/
abbrev Unchanged (app : Application) (dep : DeploymentStatus) : Prop :=
  app.Status.Phase = (phaseOf app dep).1 ∧ app.Status.ReadyReplicas = dep.ReadyReplicas ∧
    app.Status.Replicas = dep.Replicas ∧ app.Status.ObservedGeneration = app.Generation

theorem updateStatusOnce_eq (key : NamespacedName) (dep : DeploymentStatus) :
    updateStatusOnce key dep = .call (.getApplication key) fun r => match r with
      | .error e => .ret (.error e)
      | .ok app => if Unchanged app dep then .ret (.ok false)
        else .call .now fun now =>
          .call (.updateStatus key { app with Status := writtenStatus now app dep }) fun r => match r with
            | .error e => .ret (.error e)
            | .ok () => .ret (.ok true) := by
  simp only [updateStatusOnce, GetApplication, Now, StatusUpdate, Proc.perform_bind, Proc.pure_eq]
  congr 1
  funext r
  rcases r with e | app
  · rfl
  · refine if_congr Iff.rfl rfl (congrArg (Proc.call Op.now) (funext fun now => ?_))
    refine congrArg (Proc.call _) (funext fun r => ?_)
    rcases r with e | u <;> rfl

theorem phaseOf_ne_nil (app : Application) (dep : DeploymentStatus) : (phaseOf app dep).1 ≠ [] := by
  unfold phaseOf
  split <;> decide

theorem desiredReplicas_congr {app app' : Application} (h : app.Spec = app'.Spec) :
    desiredReplicas app = desiredReplicas app' := by
  unfold desiredReplicas
  rw [h]

theorem phaseOf_congr {app app' : Application} (h : app.Spec = app'.Spec) (dep : DeploymentStatus) :
    phaseOf app dep = phaseOf app' dep := by
  unfold phaseOf
  rw [desiredReplicas_congr h]

/-- The status as it is stored, its condition since the time `t`. -/
def storedStatus (app : Application) (dep : DeploymentStatus) (t : Option Int) : ApplicationStatus :=
  ⟨(phaseOf app dep).1, app.Generation, dep.Replicas, dep.ReadyReplicas,
    [{ availableCondition app dep with LastTransitionTime := t }]⟩

def emptyStatus : ApplicationStatus := ⟨[], 0, 0, 0, []⟩

/-- A status that was never written, or last written for an earlier state `old` of the Application. -/
inductive StatusOk (app : Application) : Prop
  | empty (h : app.Status = emptyStatus)
  | written (old : Application) (dep : DeploymentStatus) (t : Option Int)
      (h : app.Status = storedStatus old dep t) (hle : old.Generation ≤ app.Generation)
      (hspec : old.Generation = app.Generation → old.Spec = app.Spec)

theorem storedStatus_congr {old app : Application} (hgen : old.Generation = app.Generation)
    (hspec : old.Spec = app.Spec) (dep : DeploymentStatus) (t : Option Int) :
    storedStatus old dep t = storedStatus app dep t := by
  simp only [storedStatus, availableCondition, phaseOf_congr hspec, hgen, desiredReplicas_congr hspec]

theorem writtenStatus_empty {app : Application} (h : app.Status = emptyStatus) (now : Int)
    (dep : DeploymentStatus) : writtenStatus now app dep = storedStatus app dep (some now) := by
  unfold writtenStatus
  rw [h]
  rfl

/-- One condition is replaced; its time stays if its status does. -/
theorem writtenStatus_stored {app old : Application} {dep' : DeploymentStatus} {t : Option Int}
    (h : app.Status = storedStatus old dep' t) (now : Int) (dep : DeploymentStatus) :
    writtenStatus now app dep =
      storedStatus app dep (if (phaseOf old dep').2 = (phaseOf app dep).2 then t else some now) := by
  unfold writtenStatus
  rw [h]
  by_cases hs : (phaseOf old dep').2 = (phaseOf app dep).2
  · simp [storedStatus, setCondition, availableCondition, hs]
  · simp [storedStatus, setCondition, availableCondition, hs]

theorem StatusOk.writtenStatus {app : Application} (h : StatusOk app) (now : Int) (dep : DeploymentStatus) :
    ∃ t, Controller.writtenStatus now app dep = storedStatus app dep t := by
  rcases h with h | ⟨old, dep', t, h, -, -⟩
  · exact ⟨_, writtenStatus_empty h now dep⟩
  · exact ⟨_, writtenStatus_stored h now dep⟩

/-- Where the four fields agree, the whole status does. -/
theorem StatusOk.unchanged {app : Application} (h : StatusOk app) {dep : DeploymentStatus}
    (hu : Unchanged app dep) (now : Int) : Controller.writtenStatus now app dep = app.Status := by
  obtain ⟨hphase, hready, hreplicas, hgen⟩ := hu
  rcases h with h | ⟨old, dep', t, h, -, hspec⟩
  · rw [h] at hphase
    exact absurd hphase.symm (phaseOf_ne_nil app dep)
  · rw [h] at hready hreplicas hgen
    obtain rfl : dep' = dep := by
      rcases dep' with ⟨replicas, ready⟩
      rcases dep with ⟨replicas', ready'⟩
      simp only [storedStatus] at hready hreplicas
      rw [hready, hreplicas]
    have hs := hspec hgen
    rw [writtenStatus_stored h now, h, storedStatus_congr hgen hs, phaseOf_congr hs, if_pos rfl]

/-! ### The write -/

/-- The Application as it was stored, with another status. -/
def Cluster.putStatus (c : Cluster) (key : NamespacedName) (stored : Application) (status : ApplicationStatus) :
    Cluster :=
  let written := { stored with Status := status, ResourceVersion := stored.ResourceVersion + 1 }
  { c with applications := Function.update c.applications key (some written) }

theorem Cluster.writeStatus_cases (c : Cluster) (key : NamespacedName) (app : Application) :
    (∃ e, c.writeStatus key app = (.error e, c)) ∨
    ∃ stored, c.applications key = some stored ∧ stored.ResourceVersion = app.ResourceVersion ∧
      c.writeStatus key app = (.ok (), c.putStatus key stored app.Status) := by
  unfold Cluster.writeStatus
  split
  · exact .inl ⟨_, rfl⟩
  · rename_i stored hstored
    split
    · exact .inr ⟨stored, hstored, ‹_›, rfl⟩
    · exact .inl ⟨_, rfl⟩

end Forge.Controller
