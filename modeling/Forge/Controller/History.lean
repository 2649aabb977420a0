import Mathlib.Data.Set.Basic
import Forge.Controller.Reconcile

/-!
# Owned objects over edit histories

A successful `Reconcile` applies what the spec asks for (`Reconcile_ok`) and deletes nothing. Over a history
of edits and reconciles the Deployment and the ConfigMap therefore follow the last spec, but a Service that
was once applied stays (`Tracked`): the owned objects are those the spec asks for exactly if the spec
exposes the application or no reconcile before did.
-/

namespace Forge.Controller

open GoString

/-! ### A successful reconcile -/

/-- What the status writes leave alone. -/
structure Declared where
  Name : GoString
  Namespace : GoString
  UID : GoString
  Spec : ApplicationSpec

def Application.declared (app : Application) : Declared := ⟨app.Name, app.Namespace, app.UID, app.Spec⟩

/-- The objects and what the users declared are unchanged. -/
def Cluster.Kept (c c' : Cluster) : Prop :=
  c'.objects = c.objects ∧ ∀ key, (c'.applications key).map (·.declared) = (c.applications key).map (·.declared)

theorem Cluster.Kept.refl (c : Cluster) : c.Kept c := ⟨rfl, fun _ => rfl⟩

theorem Cluster.Kept.trans {c₁ c₂ c₃ : Cluster} (h₁ : c₁.Kept c₂) (h₂ : c₂.Kept c₃) : c₁.Kept c₃ :=
  ⟨h₂.1.trans h₁.1, fun key => (h₂.2 key).trans (h₁.2 key)⟩

theorem Cluster.kept_writeStatus (c : Cluster) (key : NamespacedName) (app : Application) :
    c.Kept (c.writeStatus key app).2 := by
  unfold Cluster.writeStatus
  split
  · exact .refl c
  · rename_i stored hstored
    split
    · refine ⟨rfl, fun k => ?_⟩
      by_cases hk : k = key
      · subst hk
        simp [hstored, Application.declared]
      · simp [Function.update_of_ne hk]
    · exact .refl c

/-- The calls that apply nothing. -/
def Op.Reads : Op → Prop
  | .patch _ => False
  | _ => True

theorem Cluster.kept_serve {op : Op} (hop : op.Reads) {c : Cluster} {x : Ans op × Cluster}
    (h : c.serve op = some x) : c.Kept x.2 := by
  cases op
  case getApplication => cases h; exact .refl c
  case patch => exact hop.elim
  case getDeployment => cases h; exact .refl c
  case updateStatus key app => cases h; exact c.kept_writeStatus key app
  case now => cases h

theorem Cluster.kept_call {op : Op} (hop : op.Reads) {ch : Choice} {c c' : Cluster} {a : Ans op}
    (h : Cluster.call op ch c = some (a, c')) : c.Kept c' := by
  rcases ch with _ | text | text | t
  · have h : c.serve op = some (a, c') := by cases op <;> exact h
    exact Cluster.kept_serve hop h
  · have h : (Cluster.fail text op).map (·, c) = some (a, c') := by cases op <;> exact h
    obtain ⟨_, -, hx⟩ := Option.map_eq_some_iff.1 h
    cases hx
    exact .refl c
  · have h : ((Cluster.fail text op).bind fun a => (c.serve op).map fun x => (a, x.2)) = some (a, c') := by
      cases op <;> exact h
    obtain ⟨_, -, h⟩ := Option.bind_eq_some_iff.1 h
    obtain ⟨x, hx, hxc⟩ := Option.map_eq_some_iff.1 h
    cases hxc
    exact Cluster.kept_serve hop hx
  · cases op
    case now => cases h; exact .refl c
    all_goals cases h

/-- An apply that is answered without an error took place. -/
theorem Cluster.call_patch {o : Object} {ch : Choice} {c c' : Cluster}
    (h : Cluster.call (.patch o) ch c = some (.ok (), c')) : c' = c.apply o := by
  rcases ch with _ | text | text | t <;> cases h
  rfl

theorem Cluster.call_getApplication {key : NamespacedName} {ch : Choice} {c c' : Cluster}
    {app : Application} (happ : c.applications key = some app) {a : Except ApiError Application}
    (h : Cluster.call (.getApplication key) ch c = some (a, c')) :
    c' = c ∧ (a = .ok app ∨ ∃ text, a = .error (.other text)) := by
  rcases ch with _ | text | text | t
  · have h : some ((c.applications key).elim (.error .notFound) .ok, c) = some (a, c') := h
    rw [happ] at h
    cases h
    exact ⟨rfl, .inl rfl⟩
  · cases h
    exact ⟨rfl, .inr ⟨text, rfl⟩⟩
  · cases h
    exact ⟨rfl, .inr ⟨text, rfl⟩⟩
  · cases h

theorem reads_updateStatus (key : NamespacedName) (dep : DeploymentStatus) :
    (updateStatus key dep).Uses Op.Reads := by
  have honce : (updateStatusOnce key dep).Uses Op.Reads := by
    simp only [updateStatusOnce, GetApplication, Now, StatusUpdate, Proc.perform_bind]
    refine ⟨trivial, fun a => ?_⟩
    rcases a with e | app
    · trivial
    dsimp only
    split
    · trivial
    · refine ⟨trivial, fun now => ⟨trivial, fun r => ?_⟩⟩
      rcases r with e | _ <;> trivial
  have hretry : ∀ n, (RetryOnConflict (updateStatusOnce key dep) n).Uses Op.Reads := by
    intro n
    induction n with
    | zero => trivial
    | succ n ih =>
      refine honce.bind fun r => ?_
      split
      · exact ih
      · trivial
  exact hretry DefaultRetry

/-- The status write at the end leaves the objects and the specs alone. -/
theorem kept_updateStatus {key : NamespacedName} {dep : DeploymentStatus} {cs : List Choice}
    {c c' : Cluster} {r : Except ApiError Bool}
    (h : (updateStatus key dep).exec Cluster.call cs c = some (r, c')) : c.Kept c' :=
  (((reads_updateStatus key dep).rg (R := Eq) (G := fun _ _ => True) (I := c.Kept)
    (fun _ _ hop hI => ⟨trivial, fun _ _ _ hc => hI.trans (Cluster.kept_call hop hc)⟩) c).exec
      (fun _ => rfl) (.refl c) h).1

/-- The objects applied for `app`. -/
def Cluster.applyAll (c : Cluster) (app : Application) (dep : Deployment) : Cluster :=
  let c := c.apply (ownedDeployment app dep)
  let c := if app.Spec.Expose then c.apply (ownedService app) else c
  c.apply (ownedObservability app)

theorem exec_patch_if {b : Bool} {o : Object} {cs : List Choice} {c c' : Cluster}
    (h : (if b = true then Patch o else pure (.ok ())).exec Cluster.call cs c = some (.ok (), c')) :
    c' = if b then c.apply o else c := by
  cases b
  · exact (Proc.exec_ret h).2
  · obtain ⟨ch, cs, a, c₁, rfl, hcall, h⟩ := Proc.exec_call h
    obtain ⟨rfl, rfl⟩ := Proc.exec_ret h
    exact Cluster.call_patch hcall

theorem Cluster.applications_applyAll (c : Cluster) (app : Application) (dep : Deployment) :
    (c.applyAll app dep).applications = c.applications := by
  simp only [Cluster.applyAll, Cluster.apply]
  split <;> rfl

theorem Reconcile_ok {key : NamespacedName} {cs : List Choice} {c c' : Cluster} {app : Application}
    (happ : c.applications key = some app)
    (h : (Reconcile key).exec Cluster.call cs c = some (.ok (), c')) :
    ∃ dep, desiredDeployment app = some dep ∧ (c.applyAll app dep).Kept c' := by
  simp only [Reconcile, GetApplication, Patch, GetDeployment, Proc.perform_bind] at h
  obtain ⟨ch, cs, a, c₁, rfl, hget, h⟩ := Proc.exec_call h
  obtain ⟨rfl, rfl | ⟨text, rfl⟩⟩ := Cluster.call_getApplication happ hget
  swap
  · cases (Proc.exec_ret h).1
  dsimp only at h
  split at h
  · cases (Proc.exec_ret h).1
  rename_i dep hdep
  refine ⟨dep, hdep, ?_⟩
  -- every other answer than success ends in an error
  obtain ⟨ch, cs, a, c₁, rfl, hpatch, h⟩ := Proc.exec_call h
  rcases a with e | _
  · cases (Proc.exec_ret h).1
  obtain rfl := Cluster.call_patch hpatch
  obtain ⟨cs₁, cs, a, c₁, rfl, hservice, h⟩ := Proc.exec_bind h
  rcases a with e | _
  · cases (Proc.exec_ret h).1
  obtain rfl := exec_patch_if hservice
  obtain ⟨ch, cs, a, c₁, rfl, hpatch, h⟩ := Proc.exec_call h
  rcases a with e | _
  · cases (Proc.exec_ret h).1
  obtain rfl := Cluster.call_patch hpatch
  obtain ⟨ch, cs, a, c₁, rfl, hread, h⟩ := Proc.exec_call h
  have hkept := Cluster.kept_call (show Op.Reads (.getDeployment _) from trivial) hread
  rcases a with e | live
  · cases (Proc.exec_ret h).1
  obtain ⟨cs₁, cs, a, c₂, rfl, hstatus, h⟩ := Proc.exec_bind h
  rcases a with e | _
  · cases (Proc.exec_ret h).1
  obtain rfl := (Proc.exec_ret h).2
  exact hkept.trans (kept_updateStatus hstatus)

/-! ### Histories -/

inductive Event
  | edit (spec : ApplicationSpec)
  | reconcile (choices : List Choice)

/-- A user replaces the spec. -/
def Application.edited (app : Application) (spec : ApplicationSpec) : Application :=
  { app with Spec := spec, Generation := app.Generation + 1, ResourceVersion := app.ResourceVersion + 1 }

def Cluster.edit (c : Cluster) (key : NamespacedName) (spec : ApplicationSpec) : Cluster :=
  { c with applications := Function.update c.applications key ((c.applications key).map (·.edited spec)) }

/-- An edit, or a reconcile that succeeds. -/
def Cluster.after (key : NamespacedName) (c : Cluster) : Event → Option Cluster
  | .edit spec => some (c.edit key spec)
  | .reconcile choices => match (Reconcile key).exec Cluster.call choices c with
    | some (.ok (), c') => some c'
    | _ => none

def Cluster.history (key : NamespacedName) : Cluster → List Event → Option Cluster
  | c, [] => some c
  | c, e :: es => (c.after key e).bind fun c' => c'.history key es

/-- Some reconcile of the history, started with this spec, ran on a spec that exposes the application. -/
def exposedIn : ApplicationSpec → List Event → Bool
  | _, [] => false
  | _, .edit spec :: es => exposedIn spec es
  | spec, .reconcile _ :: es => spec.Expose || exposedIn spec es

def Cluster.owned (c : Cluster) (uid : GoString) : Set Object :=
  { o | ∃ k, c.objects k = some o ∧ o.OwnedBy uid }

/-- What the spec of the Application asks for. -/
def asked (app : Application) : Set Object :=
  { o | (∃ dep, desiredDeployment app = some dep ∧ o = ownedDeployment app dep) ∨
    o = ownedObservability app ∨ (app.Spec.Expose = true ∧ o = ownedService app) }

section
variable {app : Application}

theorem not_mem_asked_of_service (hexp : app.Spec.Expose = false) {o : Object} (ho : o.kind = .service) :
    o ∉ asked app := by
  rintro (⟨_, -, rfl⟩ | rfl | ⟨hexp', -⟩)
  · cases ho
  · cases ho
  · rw [hexp] at hexp'
    cases hexp'

theorem ownedDeployment_ownedBy (dep : Deployment) : (ownedDeployment app dep).OwnedBy app.UID := by
  simp [Object.OwnedBy, ownedDeployment, Object.objectMeta, SetControllerReference]

theorem ownedService_ownedBy : (ownedService app).OwnedBy app.UID := by
  simp [Object.OwnedBy, ownedService, Object.objectMeta, SetControllerReference]

theorem ownedObservability_ownedBy : (ownedObservability app).OwnedBy app.UID := by
  simp [Object.OwnedBy, ownedObservability, Object.objectMeta, SetControllerReference]

theorem key_ownedDeployment {dep : Deployment} (h : desiredDeployment app = some dep) :
    (ownedDeployment app dep).key = (.deployment, app.Namespace, app.Name) := by
  obtain ⟨res, -, hdep⟩ := Option.bind_eq_some_iff.1 h
  cases hdep
  rfl

theorem key_ownedService : (ownedService app).key = (.service, app.Namespace, app.Name) := rfl

theorem key_ownedObservability :
    (ownedObservability app).key = (.configMap, app.Namespace, app.Name ++ str "-observability") := rfl

end

/-- The objects after a reconcile, kind by kind. -/
theorem objects_applyAll (c : Cluster) {app : Application} {dep : Deployment}
    (hdep : desiredDeployment app = some dep) (k : Kind × NamespacedName) :
    (c.applyAll app dep).objects k =
      if k = (.deployment, app.Namespace, app.Name) then some (ownedDeployment app dep)
      else if k = (.configMap, app.Namespace, app.Name ++ str "-observability") then
        some (ownedObservability app)
      else if k = (.service, app.Namespace, app.Name) ∧ app.Spec.Expose = true then some (ownedService app)
      else c.objects k := by
  have hk := key_ownedDeployment hdep
  rcases hexp : app.Spec.Expose with _ | _ <;>
    simp only [Cluster.applyAll, hexp, Cluster.apply, hk, key_ownedService, key_ownedObservability,
      Function.update_apply, Bool.false_eq_true, if_true, if_false, and_true, and_false]
  · by_cases h₁ : k = (.deployment, app.Namespace, app.Name)
    · subst h₁; simp
    · simp [h₁]
  · by_cases h₁ : k = (.deployment, app.Namespace, app.Name)
    · subst h₁; simp
    · simp [h₁]

/-- The state of the cluster along a history: `app` is the Application up to status writes, and `exposed`
says whether a reconcile applied a Service. -/
structure Tracked (key : NamespacedName) (app : Declared) (exposed : Bool) (c : Cluster) : Prop where
  declared : (c.applications key).map (·.declared) = some app
  owned : ∀ k o, c.objects k = some o → o.OwnedBy app.UID →
    k = (.deployment, app.Namespace, app.Name) ∨
    k = (.configMap, app.Namespace, app.Name ++ str "-observability") ∨
    (k = (.service, app.Namespace, app.Name) ∧ exposed = true)
  service : exposed = true → ∃ s, c.objects (.service, app.Namespace, app.Name) = some (.service s) ∧
    (Object.service s).OwnedBy app.UID

namespace Tracked

variable {key : NamespacedName} {d : Declared} {exposed : Bool} {c c' : Cluster}

theorem edit (h : Tracked key d exposed c) (spec : ApplicationSpec) :
    Tracked key { d with Spec := spec } exposed (c.edit key spec) := by
  obtain ⟨app, happ, hd⟩ := Option.map_eq_some_iff.1 h.declared
  refine ⟨?_, h.owned, h.service⟩
  simp [Cluster.edit, Application.edited, happ, ← hd, Application.declared]

/-- The Application a reconcile reads is the tracked one. -/
theorem reconcile (h : Tracked key d exposed c) {choices : List Choice}
    (hafter : c.after key (.reconcile choices) = some c') :
    ∃ app dep, c.applications key = some app ∧ app.declared = d ∧ desiredDeployment app = some dep ∧
      (c.applyAll app dep).Kept c' ∧ Tracked key d (exposed || d.Spec.Expose) c' := by
  obtain ⟨app, happ, hd⟩ := Option.map_eq_some_iff.1 h.declared
  simp only [Cluster.after] at hafter
  split at hafter
  case h_2 => cases hafter
  case h_1 c'' hexec =>
    cases hafter
    obtain ⟨dep, hdep, hkept⟩ := Reconcile_ok happ hexec
    refine ⟨app, dep, happ, hd, hdep, hkept, ?_, fun k o hk ho => ?_, fun hex => ?_⟩
    · rw [hkept.2 key, c.applications_applyAll]
      exact h.declared
    · rw [hkept.1, objects_applyAll c hdep] at hk
      subst hd
      split at hk
      · exact .inl ‹_›
      split at hk
      · exact .inr (.inl ‹_›)
      split at hk
      · rename_i hsvc
        exact .inr (.inr ⟨hsvc.1, by simp [Application.declared, hsvc.2]⟩)
      · exact (h.owned k o hk ho).imp_right (Or.imp_right fun hs => ⟨hs.1, by rw [hs.2]; rfl⟩)
    · rw [hkept.1, objects_applyAll c hdep]
      subst hd
      rcases hexp : app.Spec.Expose with _ | _
      · obtain ⟨s, hs, hown⟩ := h.service (by simpa [Application.declared, hexp] using hex)
        exact ⟨s, by simpa [Application.declared] using hs, hown⟩
      · exact ⟨_, by simp [Application.declared]; rfl, ownedService_ownedBy⟩

theorem history (h : Tracked key d exposed c) {es : List Event} (hes : c.history key es = some c') :
    ∃ spec, Tracked key { d with Spec := spec } (exposed || exposedIn d.Spec es) c' := by
  induction es generalizing d exposed c with
  | nil =>
    cases hes
    exact ⟨d.Spec, by simpa [exposedIn] using h⟩
  | cons e es ih =>
    obtain ⟨c₁, he, hes'⟩ := Option.bind_eq_some_iff.1 hes
    cases e with
    | edit spec =>
      cases he
      exact ih (h.edit spec) hes'
    | reconcile choices =>
      obtain ⟨_, _, -, -, -, -, h₁⟩ := h.reconcile he
      obtain ⟨spec, hspec⟩ := ih h₁ hes'
      exact ⟨spec, by rwa [Bool.or_assoc] at hspec⟩

end Tracked

/-- After a reconcile that read `app`, at the end of any history of edits and successful reconciles that
began with no owned objects, the owned objects are those the spec asks for, exactly if the spec exposes the
application or no reconcile before ran on a spec that did. -/
theorem reconcile_owned_iff {key : NamespacedName} {c₀ c c' : Cluster} {app₀ app : Application}
    (happ₀ : c₀.applications key = some app₀)
    (hnone : ∀ k o, c₀.objects k = some o → ¬ o.OwnedBy app₀.UID)
    {es : List Event} (hes : c₀.history key es = some c) (happ : c.applications key = some app)
    {choices : List Choice} (hrec : c.after key (.reconcile choices) = some c') :
    c'.owned app.UID = asked app ↔ app.Spec.Expose = true ∨ exposedIn app₀.Spec es = false := by
  have h₀ : Tracked key app₀.declared false c₀ :=
    ⟨by rw [happ₀]; rfl, fun k o hk ho => absurd ho (hnone k o hk), nofun⟩
  obtain ⟨spec, h⟩ := h₀.history hes
  obtain ⟨app', dep, happ', hd, hdep, hkept, -⟩ := h.reconcile hrec
  obtain rfl : app' = app := Option.some.inj (happ'.symm.trans happ)
  rw [Bool.false_or] at h
  rw [← hd] at h
  have hobj := fun k => (congrFun hkept.1 k).trans (objects_applyAll c hdep k)
  constructor
  · -- an earlier Service is still there
    intro heq
    rcases hexp : app'.Spec.Expose with _ | _
    · rcases hex : exposedIn app₀.Spec es with _ | _
      · exact .inr rfl
      obtain ⟨s, hs, hown⟩ := h.service hex
      have hstays := hobj (.service, app'.Namespace, app'.Name)
      simp only [hexp, Prod.mk.injEq, reduceCtorEq, false_and, and_false, Bool.false_eq_true, if_false]
        at hstays
      have hmem : Object.service s ∈ c'.owned app'.UID := ⟨_, hstays.trans hs, hown⟩
      rw [heq] at hmem
      exact absurd hmem (not_mem_asked_of_service hexp rfl)
    · exact .inl rfl
  · intro hcond
    ext o
    constructor
    · rintro ⟨k, hk, ho⟩
      rw [hobj] at hk
      split at hk
      · exact .inl ⟨dep, hdep, (Option.some.inj hk).symm⟩
      split at hk
      · exact .inr (.inl (Option.some.inj hk).symm)
      split at hk
      · exact .inr (.inr ⟨(‹_ ∧ _› : _ ∧ _).2, (Option.some.inj hk).symm⟩)
      -- nothing else was owned before
      rename_i hdk hck hsk
      rcases h.owned k o hk ho with hk' | hk' | ⟨hk', hex⟩
      · exact absurd hk' hdk
      · exact absurd hk' hck
      · rcases hcond with hexp | hno
        · exact absurd ⟨hk', hexp⟩ hsk
        · exact absurd (hex.symm.trans hno) (by decide)
    · rintro (⟨dep', hdep', rfl⟩ | rfl | ⟨hexp, rfl⟩)
      · obtain rfl : dep = dep' := Option.some.inj (hdep.symm.trans hdep')
        exact ⟨_, (hobj (.deployment, app'.Namespace, app'.Name)).trans (by simp), ownedDeployment_ownedBy dep⟩
      · exact ⟨_, (hobj (.configMap, app'.Namespace, app'.Name ++ str "-observability")).trans (by simp),
          ownedObservability_ownedBy⟩
      · exact ⟨_, (hobj (.service, app'.Namespace, app'.Name)).trans (by simp [hexp]), ownedService_ownedBy⟩

section
/-- A tier 2 application that is exposed or not. -/
def sampleSpec (expose : Bool) : ApplicationSpec :=
  ⟨"ghcr.io/acme/payments:1.0", 8080, 3, 2, [], ⟨[], []⟩, expose, ⟨none⟩⟩

def sampleKey : NamespacedName := ("default", "payments")

/-- The application has just been created, exposed. -/
def sampleCluster : Cluster where
  applications := fun key =>
    if key = sampleKey then some ⟨"payments", "default", "uid-1", 1, 1, sampleSpec true, ⟨[], 0, 0, 0, []⟩⟩
    else none
  objects := fun _ => none
  deploymentStatus := fun _ => ⟨0, 0⟩

/-- The calls of a reconcile, all served: the reads, `n` applies and the status write. -/
def sampleChoices (n : Nat) : List Choice :=
  .served :: List.replicate n .served ++ [.served, .served, .time 0, .served]

/-- The exposed application is reconciled, and again after its port changed. -/
theorem reconcile_owned_sample :
    ∃ c c' app, sampleCluster.history sampleKey [.reconcile (sampleChoices 3),
        .edit { sampleSpec true with Port := 9090 }] = some c ∧
      c.applications sampleKey = some app ∧ c.after sampleKey (.reconcile (sampleChoices 3)) = some c' ∧
      (c'.owned app.UID = asked app ↔ app.Spec.Expose = true ∨
        exposedIn (sampleSpec true) [.reconcile (sampleChoices 3),
          .edit { sampleSpec true with Port := 9090 }] = false) := by
  have h : ((sampleCluster.history sampleKey [.reconcile (sampleChoices 3),
      .edit { sampleSpec true with Port := 9090 }]).map fun c =>
        ((c.applications sampleKey).isSome, (c.after sampleKey (.reconcile (sampleChoices 3))).isSome)) =
      some (true, true) := by decide +kernel
  obtain ⟨c, hc, hsome⟩ := Option.map_eq_some_iff.1 h
  simp only [Prod.mk.injEq, Option.isSome_iff_exists] at hsome
  obtain ⟨⟨app, happ⟩, c', hc'⟩ := hsome
  exact ⟨c, c', app, hc, happ, hc', reconcile_owned_iff rfl (fun k o h => by cases h) hc happ hc'⟩

/-- The exposed application is reconciled, its `expose` is turned off, and it is reconciled again: its
Service is still there. -/
theorem reconcile_keeps_service :
    ∃ c c' app, sampleCluster.history sampleKey [.reconcile (sampleChoices 3), .edit (sampleSpec false)] =
        some c ∧
      c.applications sampleKey = some app ∧ c.after sampleKey (.reconcile (sampleChoices 2)) = some c' ∧
      app.Spec = sampleSpec false ∧ ¬ c'.owned app.UID = asked app := by
  have h : ((sampleCluster.history sampleKey [.reconcile (sampleChoices 3), .edit (sampleSpec false)]).bind
      fun c => (c.applications sampleKey).bind fun app =>
        (c.after sampleKey (.reconcile (sampleChoices 2))).bind fun c' =>
          (c'.objects (.service, sampleKey)).map fun o =>
            decide (app.Spec = sampleSpec false) && decide (o.kind = .service) &&
              (o.objectMeta.OwnerReferences.any fun r => r.UID = app.UID)) = some true := by decide +kernel
  obtain ⟨c, hc, h⟩ := Option.bind_eq_some_iff.1 h
  obtain ⟨app, happ, h⟩ := Option.bind_eq_some_iff.1 h
  obtain ⟨c', hc', h⟩ := Option.bind_eq_some_iff.1 h
  obtain ⟨o, ho, h⟩ := Option.map_eq_some_iff.1 h
  simp only [Bool.and_eq_true, decide_eq_true_eq, List.any_eq_true] at h
  obtain ⟨⟨hspec, hkind⟩, r, hr, huid⟩ := h
  refine ⟨c, c', app, hc, happ, hc', hspec, fun heq => ?_⟩
  have hmem : o ∈ c'.owned app.UID := ⟨_, ho, r, hr, huid⟩
  rw [heq] at hmem
  exact not_mem_asked_of_service (by rw [hspec]; rfl) hkind hmem

end

end Forge.Controller
