import Forge.Lib.Proc
import Forge.Controller.Desired

/-!
# The reconciler (`controller/application_controller.go`)

`Cluster` is what the API server stores, as far as the operator reads and writes it: the Applications, the
part of every other object that the field manager `forge-operator` owns, and the status of the Deployments.
A server-side apply creates the named object or replaces that part of it, and deletes nothing. `Reconcile`
and `updateStatus` are processes over the API calls they make.
-/

namespace Forge.Controller

open GoString

/-! ### The API server -/

inductive Object
  | deployment (d : Deployment)
  | service (s : Service)
  | configMap (m : ConfigMap)
deriving DecidableEq

/-- Namespace and name. -/
abbrev NamespacedName := GoString × GoString

inductive Kind
  | deployment | service | configMap
deriving DecidableEq

namespace Object

def objectMeta : Object → ObjectMeta
  | deployment d => d.objectMeta
  | service s => s.objectMeta
  | configMap m => m.objectMeta

def kind : Object → Kind
  | deployment _ => .deployment
  | service _ => .service
  | configMap _ => .configMap

def key (o : Object) : Kind × NamespacedName := (o.kind, o.objectMeta.Namespace, o.objectMeta.Name)

/-- The object is owned by the resource with this UID. -/
def OwnedBy (uid : GoString) (o : Object) : Prop := ∃ r ∈ o.objectMeta.OwnerReferences, r.UID = uid

end Object

inductive ApiError
  | notFound
  | conflict
  | other (text : GoString)
deriving DecidableEq

structure DeploymentStatus where
  Replicas : Int
  ReadyReplicas : Int
deriving DecidableEq

structure Cluster where
  applications : NamespacedName → Option Application
  objects : Kind × NamespacedName → Option Object
  deploymentStatus : NamespacedName → DeploymentStatus

inductive Op
  | getApplication (key : NamespacedName)
  | patch (o : Object)
  | getDeployment (key : NamespacedName)
  | updateStatus (key : NamespacedName) (app : Application)
  | now

abbrev Ans : Op → Type
  | .getApplication _ => Except ApiError Application
  | .patch _ => Except ApiError Unit
  | .getDeployment _ => Except ApiError DeploymentStatus
  | .updateStatus _ _ => Except ApiError Unit
  | .now => Int

/-- What a call meets: it is served, it fails before or after it took effect; and a clock reading. -/
inductive Choice
  | served
  | refused (text : GoString)
  | lost (text : GoString)
  | time (t : Int)

namespace Cluster

def apply (c : Cluster) (o : Object) : Cluster :=
  { c with objects := Function.update c.objects o.key (some o) }

/-- The status subresource is written if nobody wrote the resource in between. -/
def writeStatus (c : Cluster) (key : NamespacedName) (app : Application) :
    Except ApiError Unit × Cluster :=
  match c.applications key with
  | none => (.error .notFound, c)
  | some stored =>
    if stored.ResourceVersion = app.ResourceVersion then
      let written := { stored with Status := app.Status, ResourceVersion := stored.ResourceVersion + 1 }
      (.ok (), { c with applications := Function.update c.applications key (some written) })
    else (.error .conflict, c)

/-- The call as it is served. -/
def serve (c : Cluster) : (op : Op) → Option (Ans op × Cluster)
  | .getApplication key => some ((c.applications key).elim (.error .notFound) .ok, c)
  | .patch o => some (.ok (), c.apply o)
  | .getDeployment key =>
    some ((c.objects (.deployment, key)).elim (.error .notFound) fun _ => .ok (c.deploymentStatus key), c)
  | .updateStatus key app => some (c.writeStatus key app)
  | .now => none

/-- The answer of a call that failed. -/
def fail (text : GoString) : (op : Op) → Option (Ans op)
  | .getApplication _ => some (.error (.other text))
  | .patch _ => some (.error (.other text))
  | .getDeployment _ => some (.error (.other text))
  | .updateStatus _ _ => some (.error (.other text))
  | .now => none

def call : Env Op Ans Choice Cluster
  | .now, .time t, c => some (t, c)
  | _, .time _, _ => none
  | op, .served, c => c.serve op
  | op, .refused text, c => (fail text op).map (·, c)
  | op, .lost text, c => (fail text op).bind fun a => (c.serve op).map fun x => (a, x.2)

end Cluster

/-! ### Reconciling -/

abbrev Kube (α : Type) : Type := Proc Op Ans α

def GetApplication (key : NamespacedName) : Kube (Except ApiError Application) :=
  Proc.perform (Op.getApplication key)

def Patch (o : Object) : Kube (Except ApiError Unit) := Proc.perform (Op.patch o)

def GetDeployment (key : NamespacedName) : Kube (Except ApiError DeploymentStatus) :=
  Proc.perform (Op.getDeployment key)

def StatusUpdate (key : NamespacedName) (app : Application) : Kube (Except ApiError Unit) :=
  Proc.perform (Op.updateStatus key app)

def Now : Kube Int := Proc.perform Op.now

inductive ReconcileError
  | api (e : ApiError)
  | wrap (context : GoString) (e : ApiError)
  | panicked

def IgnoreNotFound : ApiError → Except ReconcileError Unit
  | .notFound => .ok ()
  | e => .error (.api e)

/-- `ctrl.SetControllerReference` on an object that has no owner yet. -/
def SetControllerReference (app : Application) (m : ObjectMeta) : ObjectMeta :=
  { m with OwnerReferences :=
      m.OwnerReferences ++ [⟨"platform.forge.dev/v1alpha1", "Application", app.Name, app.UID, true, true⟩] }

/-- `setCondition` at the time `now`. -/
def setCondition (now : Int) (conditions : List Condition) (c : Condition) : List Condition :=
  let c := { c with LastTransitionTime := some (c.LastTransitionTime.getD now) }
  match conditions.findIdx? (·.ConditionType = c.ConditionType) with
  | some i => conditions.modify i fun old =>
      if old.Status = c.Status then { c with LastTransitionTime := old.LastTransitionTime } else c
  | none => conditions ++ [c]

def phaseOf (app : Application) (dep : DeploymentStatus) : GoString × ConditionStatus :=
  if desiredReplicas app ≤ dep.ReadyReplicas ∧ 0 < desiredReplicas app then ("Ready", .ConditionTrue)
  else ("Progressing", .ConditionFalse)

/-- One attempt of the status write; `true`: something was written. -/
def updateStatusOnce (key : NamespacedName) (dep : DeploymentStatus) : Kube (Except ApiError Bool) := do
  match ← GetApplication key with
  | .error e => return .error e
  | .ok app =>
  let (phase, condStatus) := phaseOf app dep
  if app.Status.Phase = phase ∧ app.Status.ReadyReplicas = dep.ReadyReplicas ∧
      app.Status.Replicas = dep.Replicas ∧ app.Status.ObservedGeneration = app.Generation then
    return .ok false
  else
  let now ← Now
  let conditions := setCondition now app.Status.Conditions {
    ConditionType := "Available"
    Status := condStatus
    ObservedGeneration := app.Generation
    LastTransitionTime := none
    Reason := phase
    Message := FormatInt dep.ReadyReplicas ++ str "/" ++ FormatInt (desiredReplicas app) ++
      str " replicas ready" }
  let status : ApplicationStatus := ⟨phase, app.Generation, dep.Replicas, dep.ReadyReplicas, conditions⟩
  match ← StatusUpdate key { app with Status := status } with
  | .error e => return .error e
  | .ok () => return .ok true

/-- `retry.RetryOnConflict` with `n` attempts. -/
def RetryOnConflict {α : Type} (fn : Kube (Except ApiError α)) : Nat → Kube (Except ApiError α)
  | 0 => return .error .conflict
  | n + 1 => do
    match ← fn with
    | .error .conflict => RetryOnConflict fn n
    | r => return r

/-- `retry.DefaultRetry.Steps`. -/
def DefaultRetry : Nat := 5

def updateStatus (key : NamespacedName) (dep : DeploymentStatus) : Kube (Except ApiError Bool) :=
  RetryOnConflict (updateStatusOnce key dep) DefaultRetry

/-- The objects as they are applied, with their owner. -/
def ownedDeployment (app : Application) (d : Deployment) : Object :=
  .deployment { d with objectMeta := SetControllerReference app d.objectMeta }

def ownedService (app : Application) : Object :=
  .service { desiredService app with
    objectMeta := SetControllerReference app (desiredService app).objectMeta }

def ownedObservability (app : Application) : Object :=
  .configMap { desiredObservability app with
    objectMeta := SetControllerReference app (desiredObservability app).objectMeta }

def Reconcile (key : NamespacedName) : Kube (Except ReconcileError Unit) := do
  match ← GetApplication key with
  | .error e => return IgnoreNotFound e
  | .ok app =>
  match desiredDeployment app with
  | none => return .error .panicked
  | some dep =>
  match ← Patch (ownedDeployment app dep) with
  | .error e => return .error (.wrap "apply deployment" e)
  | .ok () =>
  match ← (if app.Spec.Expose then Patch (ownedService app) else pure (.ok ())) with
  | .error e => return .error (.wrap "apply service" e)
  | .ok () =>
  match ← Patch (ownedObservability app) with
  | .error e => return .error (.wrap "apply observability" e)
  | .ok () =>
  match ← GetDeployment (app.Namespace, app.Name) with
  | .error e => return .error (.wrap "read deployment status" e)
  | .ok live =>
  match ← updateStatus key live with
  | .error e => return .error (.api e)
  | .ok _ => return .ok ()

end Forge.Controller
