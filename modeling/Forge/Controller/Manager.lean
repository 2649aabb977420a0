import Forge.Lib.ControlLoop
import Forge.Controller.StatusWrite

/-!
# The operator process (`cmd/operator/main.go`, `SetupWithManager`)

The manager runs `Reconcile` for the Applications in its queue. Its client writes to the API server and reads
from caches that lag behind it: of the Applications, and of the Deployments and Services that `Owns` watches.
Every change of an Application adds it to the queue, and every change of a Deployment or a Service adds the
Application that controls it before or after the change. ConfigMaps are not watched. A reconcile that fails is
repeated after a delay; a panic is recovered and counts as a failure. After a restart the caches are filled
and all Applications are in the queue.

Users and other controllers write what they like: Applications, the objects the operator renders (or others
under their names), and the status of Deployments. An apply that changes nothing is no change. The API server
refuses an object that is invalid, or that changes what cannot be changed of the stored one (the selector of a
Deployment, the data of a ConfigMap that someone has made immutable); what it refuses is part of its state
(`Operator.refuses`), for others can change it.
-/

namespace Forge.Controller

open GoString

/-- The API group of a reference. -/
def groupOf (apiVersion : GoString) : GoString :=
  if 0x2F ∈ apiVersion then apiVersion.takeWhile (· ≠ 0x2F) else []

/-- The Application that controls an object, which its changes are mapped to. -/
def controllerOf (o : Object) : Option NamespacedName :=
  match o.objectMeta.OwnerReferences.find? (·.controller) with
  | some r =>
    if groupOf r.APIVersion = str "platform.forge.dev" ∧ r.Kind = str "Application" then
      some (o.objectMeta.Namespace, r.Name)
    else none
  | none => none

/-- The live Deployment: its managed part and its status. -/
def Cluster.deployment (c : Cluster) (key : NamespacedName) : Option (Object × DeploymentStatus) :=
  (c.objects (.deployment, key)).map (·, c.deploymentStatus key)

def Cluster.service (c : Cluster) (key : NamespacedName) : Option Object := c.objects (.service, key)

/-- The API server and the caches of the manager. -/
structure Operator where
  cluster : Cluster
  applications : Informer NamespacedName Application
  deployments : Informer NamespacedName (Object × DeploymentStatus)
  services : Informer NamespacedName Object
  /-- Why the API server refuses to apply an object over the one that is stored under its name, if it does. -/
  refuses : Option Object → Object → Option GoString
  /-- The ConfigMaps that someone else has written since the operator last did (a history variable). -/
  drifted : NamespacedName → Bool

/-- What `SetupWithManager` watches. -/
inductive Watch
  | application | deployment | service
deriving DecidableEq

/-- What can happen: a call is answered, someone writes to the API server, a cache sees a change. -/
inductive Occurrence
  | answer (c : Choice)
  | declare (key : NamespacedName) (app : Option Application)
  | write (k : Kind × NamespacedName) (o : Option Object)
  | observe (key : NamespacedName) (status : DeploymentStatus)
  | policy (refuses : Option Object → Object → Option GoString)
  | see (watch : Watch)

namespace Operator

/-- An Application is created, changed or deleted. -/
def declare (w : Operator) (key : NamespacedName) (app : Option Application) : Operator :=
  { w with
    cluster := { w.cluster with applications := Function.update w.cluster.applications key app }
    applications := w.applications.send key app }

/-- The status of a Deployment changes. -/
def observe (w : Operator) (key : NamespacedName) (o : Object) (status : DeploymentStatus) : Operator :=
  { w with
    cluster := { w.cluster with deploymentStatus := Function.update w.cluster.deploymentStatus key status }
    deployments := w.deployments.send key (some (o, status)) }

/-- An object is written or deleted. A Deployment that is created or deleted has no replicas. -/
def put (w : Operator) (k : Kind × NamespacedName) (o : Option Object) : Operator :=
  let objects := Function.update w.cluster.objects k o
  match k.1 with
  | .deployment =>
    let status := if w.cluster.objects k = none ∨ o = none then ⟨0, 0⟩ else w.cluster.deploymentStatus k.2
    let c := { w.cluster with
      objects := objects, deploymentStatus := Function.update w.cluster.deploymentStatus k.2 status }
    { w with cluster := c, deployments := w.deployments.send k.2 (c.deployment k.2) }
  | .service => { w with cluster := { w.cluster with objects := objects }, services := w.services.send k.2 o }
  | .configMap => { w with cluster := { w.cluster with objects := objects } }

theorem objects_put (w : Operator) (k : Kind × NamespacedName) (o : Option Object) :
    (w.put k o).cluster.objects = Function.update w.cluster.objects k o := by
  rcases k with ⟨_ | _ | _, k⟩ <;> rfl

theorem objects_put_of_ne (w : Operator) {k k' : Kind × NamespacedName} (h : k' ≠ k) (o : Option Object) :
    (w.put k o).cluster.objects k' = w.cluster.objects k' := by
  rw [objects_put, Function.update_of_ne h]

@[simp] theorem objects_put_self (w : Operator) (k : Kind × NamespacedName) (o : Option Object) :
    (w.put k o).cluster.objects k = o := by
  rw [objects_put, Function.update_self]

@[simp] theorem applications_put (w : Operator) (k : Kind × NamespacedName) (o : Option Object) :
    (w.put k o).cluster.applications = w.cluster.applications ∧ (w.put k o).applications = w.applications := by
  rcases k with ⟨_ | _ | _, k⟩ <;> exact ⟨rfl, rfl⟩

@[simp] theorem refuses_put (w : Operator) (k : Kind × NamespacedName) (o : Option Object) :
    (w.put k o).refuses = w.refuses := by
  rcases k with ⟨_ | _ | _, k⟩ <;> rfl

@[simp] theorem drifted_put (w : Operator) (k : Kind × NamespacedName) (o : Option Object) :
    (w.put k o).drifted = w.drifted := by
  rcases k with ⟨_ | _ | _, k⟩ <;> rfl

theorem deploymentStatus_put_of_ne (w : Operator) {k : Kind × NamespacedName} {key : NamespacedName}
    (h : (Kind.deployment, key) ≠ k) (o : Option Object) :
    (w.put k o).cluster.deploymentStatus key = w.cluster.deploymentStatus key := by
  rcases k with ⟨_ | _ | _, k⟩
  · exact Function.update_of_ne (fun e => h (by rw [e])) _ _
  · rfl
  · rfl

def setDrifted (w : Operator) (k : Kind × NamespacedName) (b : Bool) : Operator :=
  match k.1 with
  | .configMap => { w with drifted := Function.update w.drifted k.2 b }
  | _ => w

theorem drifted_setDrifted_self (w : Operator) (key : NamespacedName) (b : Bool) :
    (w.setDrifted (.configMap, key) b).drifted key = b :=
  Function.update_self ..

theorem drifted_setDrifted_of_ne (w : Operator) {k : Kind × NamespacedName} {key : NamespacedName}
    (h : k ≠ (.configMap, key)) (b : Bool) : (w.setDrifted k b).drifted key = w.drifted key := by
  rcases k with ⟨_ | _ | _, k⟩
  · rfl
  · rfl
  · refine Function.update_of_ne ?_ _ _
    rintro rfl
    exact h rfl

@[simp] theorem cluster_setDrifted (w : Operator) (k : Kind × NamespacedName) (b : Bool) :
    (w.setDrifted k b).cluster = w.cluster := by
  rcases k with ⟨_ | _ | _, k⟩ <;> rfl

@[simp] theorem informer_setDrifted (w : Operator) (k : Kind × NamespacedName) (b : Bool) :
    (w.setDrifted k b).applications = w.applications := by
  rcases k with ⟨_ | _ | _, k⟩ <;> rfl

@[simp] theorem refuses_setDrifted (w : Operator) (k : Kind × NamespacedName) (b : Bool) :
    (w.setDrifted k b).refuses = w.refuses := by
  rcases k with ⟨_ | _ | _, k⟩ <;> rfl

/-- A server-side apply of the operator. -/
def apply (w : Operator) (o : Object) : Operator :=
  (if w.cluster.objects o.key = some o then w else w.put o.key (some o)).setDrifted o.key false

theorem refuses_apply (w : Operator) (o : Object) : (w.apply o).refuses = w.refuses := by
  rw [apply, refuses_setDrifted]
  split
  · rfl
  · exact refuses_put w o.key (some o)

def patch (w : Operator) (o : Object) : Except ApiError Unit × Operator :=
  match w.refuses (w.cluster.objects o.key) o with
  | none => (.ok (), w.apply o)
  | some text => (.error (.other text), w)

def writeStatus (w : Operator) (key : NamespacedName) (app : Application) : Except ApiError Unit × Operator :=
  match w.cluster.writeStatus key app with
  | (.ok (), c) => (.ok (), w.declare key (c.applications key))
  | (.error e, _) => (.error e, w)

def serve (w : Operator) : (op : Op) → Option (Ans op × Operator)
  | .getApplication key => some ((w.applications.cache key).elim (.error .notFound) .ok, w)
  | .patch o => some (w.patch o)
  | .getDeployment key => some ((w.deployments.cache key).elim (.error .notFound) fun d => .ok d.2, w)
  | .updateStatus key app => some (w.writeStatus key app)
  | .now => none

/-- A call of the operator; reads are answered by the caches. -/
def call : Env Op Ans Occurrence Operator
  | .now, .answer (.time t), w => some (t, w)
  | _, .answer (.time _), _ => none
  | op, .answer .served, w => w.serve op
  | op, .answer (.refused text), w => (Cluster.fail text op).map (·, w)
  | op, .answer (.lost text), w => (Cluster.fail text op).bind fun a => (w.serve op).map fun x => (a, x.2)
  | _, _, _ => none

/-- What the others write. -/
def env : Occurrence → Operator → Option Operator
  | .declare key app, w => if ∀ a, app = some a → (a.Namespace, a.Name) = key then some (w.declare key app) else none
  | .write k o, w => if ∀ a, o = some a → a.key = k then some ((w.put k o).setDrifted k true) else none
  | .observe key status, w => match w.cluster.objects (.deployment, key) with
    | some o => some (w.observe key o status)
    | none => none
  | .policy refuses, w => some { w with refuses := refuses }
  | _, _ => none

/-- The Applications a change of an object is mapped to (`handler.EnqueueRequestForOwner`). -/
def owners (old new : Option Object) : List NamespacedName := (old.toList ++ new.toList).filterMap controllerOf

def watch : Occurrence → Operator → Option (List NamespacedName × Operator)
  | .see .application, w => w.applications.next.map fun x => ([x.1.1], { w with applications := x.2 })
  | .see .deployment, w => w.deployments.next.map fun x =>
    (owners (x.1.2.1.map (·.1)) (x.1.2.2.map (·.1)), { w with deployments := x.2 })
  | .see .service, w => w.services.next.map fun x => (owners x.1.2.1 x.1.2.2, { w with services := x.2 })
  | _, _ => none

/-- The caches are filled. Their objects are new to the handlers, so all Applications are added; what the
objects of an Application that is gone would add has nothing to reconcile. -/
def restart (w : Operator) : (NamespacedName → Bool) × Operator :=
  (fun key => (w.cluster.applications key).isSome,
    { w with
      applications := .synced w.cluster.applications
      deployments := .synced w.cluster.deployment
      services := .synced w.cluster.service })

end Operator

/-- The manager with its one controller. -/
def manager : ControlLoop NamespacedName Op Ans Occurrence ReconcileError Operator :=
  ⟨Reconcile, Operator.call, Operator.env, Operator.watch, Operator.restart⟩

abbrev OperatorState := ControlLoop.State NamespacedName Op Ans ReconcileError Operator

end Forge.Controller
