import Forge.Controller.Manager

/-!
# Convergence of the operator

However users, other controllers, the caches, failing calls and restarts interleave: when nothing is left to do
for an Application, its Deployment and Service are what its spec asks for and its status is about its current
generation (`Settled`, `quiet_converged`). What a change may undo is seen by a watch: a change of an Application,
or of an object it controls, is on its way to a cache (`Marked`) and will add it to the queue. The ConfigMap is
right unless someone else has written it since, for it is not watched.

A reconcile on old caches is therefore no harm, because what was not seen is marked: each of its steps
establishes what it is for unless the Application is to be reconciled again (`Known`).
-/

namespace Forge.Controller

open GoString

/-- The name of the ConfigMap of an Application. -/
def observabilityKey (key : NamespacedName) : NamespacedName := (key.1, key.2 ++ str "-observability")

namespace Operator

/-! ### Marks -/

def Controls (key : NamespacedName) (o : Object) : Prop := controllerOf o = some key

/-- A change that will add the Application to the queue is on its way. -/
def Marked (key : NamespacedName) (w : Operator) : Prop :=
  w.applications.Behind key ∨ w.deployments.Marked (fun d => Controls key d.1) key ∨
    w.services.Marked (Controls key) key

/-- What belongs to the Application and is watched is unchanged, and so is its ConfigMap if nobody else has
written it. -/
structure Same (key : NamespacedName) (w w' : Operator) : Prop where
  application : w'.cluster.applications key = w.cluster.applications key
  deployment : ∀ o, w.cluster.objects (.deployment, key) = some o → Controls key o →
    w'.cluster.objects (.deployment, key) = some o ∧
      w'.cluster.deploymentStatus key = w.cluster.deploymentStatus key
  service : ∀ o, w.cluster.objects (.service, key) = some o → Controls key o →
    w'.cluster.objects (.service, key) = some o
  configMap : w'.drifted (observabilityKey key) = false → w.drifted (observabilityKey key) = false ∧
    w'.cluster.objects (.configMap, observabilityKey key) = w.cluster.objects (.configMap, observabilityKey key)

theorem Same.refl (key : NamespacedName) (w : Operator) : Same key w w :=
  ⟨rfl, fun _ h _ => ⟨h, rfl⟩, fun _ h _ => h, fun h => ⟨h, rfl⟩⟩

theorem Same.trans {key : NamespacedName} {w₁ w₂ w₃ : Operator} (h : Same key w₁ w₂) (h' : Same key w₂ w₃) :
    Same key w₁ w₃ where
  application := h'.application.trans h.application
  deployment o ho hc := by
    obtain ⟨ho₂, hs₂⟩ := h.deployment o ho hc
    obtain ⟨ho₃, hs₃⟩ := h'.deployment o ho₂ hc
    exact ⟨ho₃, hs₃.trans hs₂⟩
  service o ho hc := h'.service o (h.service o ho hc) hc
  configMap hd := by
    obtain ⟨hd₂, ho₂⟩ := h'.configMap hd
    obtain ⟨hd₁, ho₁⟩ := h.configMap hd₂
    exact ⟨hd₁, ho₂.trans ho₁⟩

/-- What a reconcile of the Application relies on: marks stay, and what is not marked is unchanged. -/
def Moved (key : NamespacedName) (w w' : Operator) : Prop := ¬ Marked key w' → ¬ Marked key w ∧ Same key w w'

theorem Moved.refl (key : NamespacedName) (w : Operator) : Moved key w w := fun h => ⟨h, .refl key w⟩

theorem Moved.trans {key : NamespacedName} {w₁ w₂ w₃ : Operator} (h : Moved key w₁ w₂) (h' : Moved key w₂ w₃) :
    Moved key w₁ w₃ := by
  intro hno
  obtain ⟨hno₂, hsame₂⟩ := h' hno
  obtain ⟨hno₁, hsame₁⟩ := h hno₂
  exact ⟨hno₁, hsame₁.trans hsame₂⟩

theorem Moved.marked {key : NamespacedName} {w w' : Operator} (h : Moved key w w') (hw : Marked key w) :
    Marked key w' :=
  by_contra fun hno => (h hno).1 hw

/-! ### The invariant -/

/-- An Application is stored under its name. -/
def Named (key : NamespacedName) (app : Application) : Prop := (app.Namespace, app.Name) = key

/-- The caches, with what is on its way to them, are the API server's content. -/
structure Ok (w : Operator) : Prop where
  named : w.applications.All Named
  applications : w.applications.latest = w.cluster.applications
  deployments : w.deployments.latest = w.cluster.deployment
  services : w.services.latest = w.cluster.service

theorem Ok.stored {w : Operator} (h : w.Ok) {key : NamespacedName} {app : Application}
    (happ : w.cluster.applications key = some app) : Named key app :=
  h.named.latest (by rw [h.applications]; exact happ)

section
variable {w : Operator} {key : NamespacedName}

/-- The stored Application is a version that the cache knows or will see. -/
theorem Ok.current (h : w.Ok) {app : Application} (happ : w.cluster.applications key = some app) :
    some app ∈ w.applications.versions key := by
  rw [← happ, ← h.applications]
  exact w.applications.latest_mem_versions key

theorem Ok.cachedApplication (h : w.Ok) (hno : ¬ Marked key w) :
    w.applications.cache key = w.cluster.applications key := by
  rw [← h.applications]
  exact Informer.cache_of_not_behind fun hb => hno (.inl hb)

/-- The cached Deployment is the live one, if that is controlled by the Application. -/
theorem Ok.cachedDeployment (h : w.Ok) (hno : ¬ Marked key w) {o : Object}
    (ho : w.cluster.objects (.deployment, key) = some o) (hc : Controls key o) :
    w.deployments.cache key = some (o, w.cluster.deploymentStatus key) := by
  have hlive : w.deployments.latest key = some (o, w.cluster.deploymentStatus key) := by
    rw [h.deployments, Cluster.deployment, ho]
    rfl
  rw [← hlive]
  refine Informer.cache_of_not_behind fun hb => hno (.inr (.inl ?_))
  exact hb.marked hlive hc

theorem Ok.declared (h : w.Ok) {app : Option Application} (hnamed : ∀ a, app = some a → Named key a) :
    (w.declare key app).Ok where
  named := h.named.send hnamed
  applications := by simp [declare, h.applications]
  deployments := h.deployments
  services := h.services

theorem marked_declare (w : Operator) (key : NamespacedName) (app : Option Application) :
    Marked key (w.declare key app) :=
  .inl (w.applications.behind_send key app)

/-- A change of an Application. -/
theorem moved_declared (w : Operator) (key key' : NamespacedName) (app : Option Application) :
    Moved key' w (w.declare key app) := by
  intro hno
  have hne : key' ≠ key := by
    rintro rfl
    exact hno (marked_declare w key' app)
  refine ⟨fun hm => hno (hm.imp_left fun hb => hb.send key app), ?_⟩
  exact ⟨Function.update_of_ne hne _ _, fun _ ho _ => ⟨ho, rfl⟩, fun _ ho _ => ho, fun hd => ⟨hd, rfl⟩⟩

theorem Ok.put (h : w.Ok) (k : Kind × NamespacedName) (o : Option Object) : (w.put k o).Ok := by
  obtain ⟨happs, hinf⟩ := w.applications_put k o
  refine ⟨hinf ▸ h.named, by rw [happs, hinf, h.applications], ?_, ?_⟩
  · funext key
    by_cases hk : (Kind.deployment, key) = k
    · subst hk
      exact (congrFun (Informer.latest_send ..) key).trans (Function.update_self ..)
    · have hsent : (w.put k o).deployments.latest key = w.deployments.latest key := by
        rcases k with ⟨_ | _ | _, k⟩
        · refine (congrFun (Informer.latest_send ..) key).trans (Function.update_of_ne ?_ _ _)
          rintro rfl
          exact hk rfl
        · rfl
        · rfl
      rw [hsent, h.deployments, Cluster.deployment, Cluster.deployment, objects_put_of_ne w hk,
        deploymentStatus_put_of_ne w hk]
  · funext key
    by_cases hk : (Kind.service, key) = k
    · subst hk
      rw [Cluster.service, objects_put_self]
      exact (congrFun (Informer.latest_send ..) key).trans (Function.update_self ..)
    · have hsent : (w.put k o).services.latest key = w.services.latest key := by
        rcases k with ⟨_ | _ | _, k⟩
        · rfl
        · refine (congrFun (Informer.latest_send ..) key).trans (Function.update_of_ne ?_ _ _)
          rintro rfl
          exact hk rfl
        · rfl
      rw [hsent, h.services, Cluster.service, Cluster.service, objects_put_of_ne w hk]

theorem Ok.setDrifted (h : w.Ok) (k : Kind × NamespacedName) (b : Bool) : (w.setDrifted k b).Ok := by
  rcases k with ⟨_ | _ | _, k⟩ <;> exact ⟨h.named, h.applications, h.deployments, h.services⟩

theorem Marked.put (h : Marked key w) (k : Kind × NamespacedName) (o : Option Object) :
    Marked key (w.put k o) := by
  rcases k with ⟨_ | _ | _, k⟩
  · exact h.imp_right (Or.imp_left fun hd => hd.send k _)
  · exact h.imp_right (Or.imp_right fun hd => hd.send k _)
  · exact h

/-- A change of an object the Application controls is marked. -/
theorem marked_put (hw : w.Ok) {kind : Kind} (hkind : kind ≠ .configMap) {o : Object}
    (ho : w.cluster.objects (kind, key) = some o) (hc : Controls key o) (o' : Option Object) :
    Marked key (w.put (kind, key) o') := by
  cases kind with
  | deployment =>
    refine .inr (.inl (Informer.marked_send (v := (o, w.cluster.deploymentStatus key)) ?_ hc _))
    rw [hw.deployments, Cluster.deployment, ho]
    rfl
  | service =>
    refine .inr (.inr (Informer.marked_send (v := o) ?_ hc _))
    rw [hw.services]
    exact ho
  | configMap => exact absurd rfl hkind

/-- A change of an object, other than the ConfigMap of the Application. -/
theorem moved_put (hw : w.Ok) {k : Kind × NamespacedName} (hk : k ≠ (.configMap, observabilityKey key))
    (o : Option Object) : Moved key w (w.put k o) := by
  intro hno
  -- an object under the Application's name that it controls is not the one that changed
  have hother : ∀ {kind o'}, kind ≠ .configMap → w.cluster.objects (kind, key) = some o' → Controls key o' →
      (kind, key) ≠ k := by
    rintro kind o' hkind ho' hc rfl
    exact hno (marked_put hw hkind ho' hc o)
  refine ⟨fun hm => hno (hm.put k o), ?_⟩
  constructor
  · rw [(w.applications_put k o).1]
  · intro o' ho' hc
    have hne := hother (by decide) ho' hc
    exact ⟨(objects_put_of_ne w hne o).trans ho', deploymentStatus_put_of_ne w hne o⟩
  · intro o' ho' hc
    exact (objects_put_of_ne w (hother (by decide) ho' hc) o).trans ho'
  · intro hd
    rw [drifted_put] at hd
    exact ⟨hd, objects_put_of_ne w (Ne.symm hk) o⟩

theorem marked_setDrifted (k : Kind × NamespacedName) (b : Bool) : Marked key (w.setDrifted k b) ↔ Marked key w := by
  rcases k with ⟨_ | _ | _, k⟩ <;> exact Iff.rfl

theorem moved_setDrifted {k : Kind × NamespacedName} (hk : k ≠ (.configMap, observabilityKey key)) (b : Bool) :
    Moved key w (w.setDrifted k b) := by
  intro hno
  rw [marked_setDrifted] at hno
  refine ⟨hno, ?_⟩
  constructor <;> rw [cluster_setDrifted]
  · exact fun _ ho _ => ⟨ho, rfl⟩
  · exact fun _ ho _ => ho
  · rw [drifted_setDrifted_of_ne w hk]
    exact fun hd => ⟨hd, rfl⟩

/-- Someone else writes an object. -/
theorem moved_write (hw : w.Ok) (k : Kind × NamespacedName) (o : Option Object) :
    Moved key w ((w.put k o).setDrifted k true) := by
  by_cases hk : k = (.configMap, observabilityKey key)
  · subst hk
    intro hno
    refine ⟨hno, rfl, fun o' ho' _ => ⟨?_, rfl⟩, fun o' ho' _ => ?_, fun hd => ?_⟩
    · exact (objects_put_of_ne w (by simp) o).trans ho'
    · exact (objects_put_of_ne w (by simp) o).trans ho'
    · rw [drifted_setDrifted_self] at hd
      cases hd
  · exact (moved_put hw hk o).trans (moved_setDrifted hk true)

/-- The status of a Deployment changes. -/
theorem Ok.observed (h : w.Ok) {k : NamespacedName} {o : Object} (ho : w.cluster.objects (.deployment, k) = some o)
    (status : DeploymentStatus) : (w.observe k o status).Ok := by
  refine ⟨h.named, h.applications, ?_, h.services⟩
  funext key
  rw [observe, Informer.latest_send, h.deployments]
  by_cases hk : key = k
  · subst hk
    simp [Cluster.deployment, ho]
  · simp [Cluster.deployment, Function.update_of_ne hk]

theorem moved_observed (hw : w.Ok) {k : NamespacedName} {o : Object}
    (ho : w.cluster.objects (.deployment, k) = some o) (status : DeploymentStatus) :
    Moved key w (w.observe k o status) := by
  intro hno
  refine ⟨fun hm => hno (hm.imp_right (Or.imp_left fun hd => hd.send k _)), rfl, fun o' ho' hc => ⟨ho', ?_⟩,
    fun _ ho' _ => ho', fun hd => ⟨hd, rfl⟩⟩
  refine Function.update_of_ne ?_ _ _
  rintro rfl
  refine hno (.inr (.inl (Informer.marked_send (v := (o', w.cluster.deploymentStatus key)) ?_ hc _)))
  rw [hw.deployments, Cluster.deployment, ho']
  rfl

/-- What the others write is marked, or does not concern the Application. -/
theorem env_ok {c : Occurrence} {w' : Operator} (hw : w.Ok) (h : env c w = some w') :
    w'.Ok ∧ ∀ key, Moved key w w' := by
  cases c with
  | answer => cases h
  | declare k app =>
    simp only [env] at h
    split_ifs at h with hnamed
    cases h
    exact ⟨hw.declared hnamed, fun key => moved_declared w k key app⟩
  | write k o =>
    simp only [env] at h
    split_ifs at h
    cases h
    exact ⟨(hw.put k o).setDrifted k true, fun key => moved_write hw k o⟩
  | observe k status =>
    simp only [env] at h
    split at h
    · rename_i o ho
      cases h
      exact ⟨hw.observed ho status, fun key => moved_observed hw ho status⟩
    · cases h
  | policy refuses =>
    cases h
    exact ⟨⟨hw.named, hw.applications, hw.deployments, hw.services⟩,
      fun key hno => ⟨hno, rfl, fun _ ho _ => ⟨ho, rfl⟩, fun _ ho _ => ho, fun hd => ⟨hd, rfl⟩⟩⟩
  | see => cases h

theorem mem_owners {old new : Option Object} {o : Object} (h : old = some o ∨ new = some o)
    (hc : Controls key o) : key ∈ owners old new :=
  List.mem_filterMap.2 ⟨o, by rcases h with rfl | rfl <;> simp, hc⟩

/-- A change that a cache sees adds the Application, or leaves its marks. -/
theorem watch_ok {c : Occurrence} {ks : List NamespacedName} {w' : Operator} (hw : w.Ok)
    (h : watch c w = some (ks, w')) : w'.Ok ∧ ∀ key, key ∉ ks → Moved key w w' := by
  have hmoved : ∀ {key w'}, w'.cluster = w.cluster → w'.drifted = w.drifted →
      (Marked key w → Marked key w') → Moved key w w' := by
    intro key w' hc hd hm hno
    refine ⟨fun h => hno (hm h), ?_⟩
    constructor
    · rw [hc]
    · rw [hc]
      exact fun o ho _ => ⟨ho, rfl⟩
    · rw [hc]
      exact fun o ho _ => ho
    · rw [hc, hd]
      exact fun h => ⟨h, rfl⟩
  cases c with
  | see watched =>
    cases watched with
    | application =>
      simp only [watch, Option.map_eq_some_iff] at h
      obtain ⟨⟨⟨k, old, new⟩, i⟩, hi, h⟩ := h
      cases h
      refine ⟨⟨hw.named.next hi, (Informer.latest_next hi).trans hw.applications, hw.deployments, hw.services⟩,
        fun key hkey => hmoved rfl rfl fun hm => ?_⟩
      refine hm.imp_left fun hb => (hb.next hi).resolve_left ?_
      rintro rfl
      exact hkey (List.mem_singleton.2 rfl)
    | deployment =>
      simp only [watch, Option.map_eq_some_iff] at h
      obtain ⟨⟨⟨k, old, new⟩, i⟩, hi, h⟩ := h
      cases h
      refine ⟨⟨hw.named, hw.applications, (Informer.latest_next hi).trans hw.deployments, hw.services⟩,
        fun key hkey => hmoved rfl rfl fun hm => ?_⟩
      refine hm.imp_right (Or.imp_left fun hd => (hd.next hi).resolve_left ?_)
      rintro ⟨-, v, hv, hc⟩
      exact hkey (mem_owners (hv.imp (fun h => by rw [h]; rfl) fun h => by rw [h]; rfl) hc)
    | service =>
      simp only [watch, Option.map_eq_some_iff] at h
      obtain ⟨⟨⟨k, old, new⟩, i⟩, hi, h⟩ := h
      cases h
      refine ⟨⟨hw.named, hw.applications, hw.deployments, (Informer.latest_next hi).trans hw.services⟩,
        fun key hkey => hmoved rfl rfl fun hm => ?_⟩
      refine hm.imp_right (Or.imp_right fun hd => (hd.next hi).resolve_left ?_)
      rintro ⟨-, v, hv, hc⟩
      exact hkey (mem_owners hv hc)
  | _ => cases h

theorem cluster_watch {c : Occurrence} {ks : List NamespacedName} {w' : Operator}
    (h : watch c w = some (ks, w')) : w'.cluster = w.cluster := by
  cases c with
  | see watched =>
    cases watched <;>
    · simp only [watch, Option.map_eq_some_iff] at h
      obtain ⟨x, -, h⟩ := h
      cases h
      rfl
  | _ => cases h

/-- The cache of the Applications moves on to later versions. -/
theorem versions_watch {c : Occurrence} {ks : List NamespacedName} {w' : Operator}
    (h : watch c w = some (ks, w')) (key : NamespacedName) :
    w'.applications.versions key <:+ w.applications.versions key := by
  cases c with
  | see watched =>
    cases watched with
    | application =>
      simp only [watch, Option.map_eq_some_iff] at h
      obtain ⟨⟨⟨k, old, new⟩, i⟩, hi, h⟩ := h
      cases h
      by_cases hk : k = key
      · subst hk
        rw [Informer.versions_next hi]
        exact List.suffix_cons ..
      · rw [← Informer.versions_next_of_ne hi hk]
    | deployment | service =>
      simp only [watch, Option.map_eq_some_iff] at h
      obtain ⟨x, -, h⟩ := h
      cases h
      exact List.suffix_refl _
  | _ => cases h

theorem restart_ok (hw : w.Ok) : (restart w).2.Ok :=
  ⟨.synced fun _ _ h => hw.stored h, rfl, rfl, rfl⟩

/-! ### Calls -/

/-- What a reconcile of the Application writes is its own: objects that some state of it asks for, and its
status. -/
def Own (key : NamespacedName) : Op → Prop
  | .patch o => ∃ app, Named key app ∧ o ∈ asked app
  | .updateStatus k _ => k = key
  | _ => True

theorem key_of_asked {app : Application} (hn : Named key app) {o : Object} (ho : o ∈ asked app) :
    o.key = (.deployment, key) ∨ o.key = (.service, key) ∨ o.key = (.configMap, observabilityKey key) := by
  have hname : (app.Namespace, app.Name) = key := hn
  rcases ho with ⟨d, hd, rfl⟩ | rfl | ⟨-, rfl⟩
  · rw [key_ownedDeployment hd, hname]
    exact .inl rfl
  · rw [key_ownedObservability, ← hname]
    exact .inr (.inr rfl)
  · rw [key_ownedService, hname]
    exact .inr (.inl rfl)

theorem observabilityKey_injective : Function.Injective observabilityKey := by
  intro k k' h
  obtain ⟨h₁, h₂⟩ := Prod.mk.inj h
  exact Prod.ext h₁ (List.append_cancel_right h₂)

theorem Ok.apply (h : w.Ok) (o : Object) : (w.apply o).Ok := by
  refine Ok.setDrifted ?_ _ _
  split
  · exact h
  · exact h.put _ _

theorem Marked.apply (h : Marked key w) (o : Object) : Marked key (w.apply o) := by
  rw [Operator.apply, marked_setDrifted]
  split
  · exact h
  · exact h.put _ _

theorem moved_apply (hw : w.Ok) {o : Object} (ho : o.key ≠ (.configMap, observabilityKey key)) :
    Moved key w (w.apply o) := by
  refine Moved.trans ?_ (moved_setDrifted ho false)
  split
  · exact .refl key w
  · exact moved_put hw ho _

section
variable {ch : Occurrence} {w' : Operator}

theorem patch_cases (w : Operator) (o : Object) :
    w.patch o = (.ok (), w.apply o) ∨ ∃ e, w.patch o = (.error e, w) := by
  unfold patch
  split
  · exact .inl rfl
  · exact .inr ⟨_, rfl⟩

theorem call_patch {o : Object} {a : Ans (.patch o)} (h : call (.patch o) ch w = some (a, w')) :
    w' = w.apply o ∨ w' = w ∧ ∃ e, a = .error e := by
  rcases ch with (_ | text | text | t) | _ | _ | _ | _ | _
  · have h : some (w.patch o) = some (a, w') := h
    rcases w.patch_cases o with hp | ⟨e, hp⟩ <;> rw [hp] at h <;> cases h
    · exact .inl rfl
    · exact .inr ⟨rfl, _, rfl⟩
  · cases h
    exact .inr ⟨rfl, _, rfl⟩
  · have h : some (.error (.other text), (w.patch o).2) = some (a, w') := h
    rcases w.patch_cases o with hp | ⟨e, hp⟩ <;> rw [hp] at h <;> cases h
    · exact .inl rfl
    · exact .inr ⟨rfl, _, rfl⟩
  all_goals cases h

theorem call_getApplication {k : NamespacedName} {a : Ans (.getApplication k)}
    (h : call (.getApplication k) ch w = some (a, w')) :
    w' = w ∧ (a = (w.applications.cache k).elim (.error .notFound) .ok ∨ ∃ text, a = .error (.other text)) := by
  rcases ch with (_ | text | text | t) | _ | _ | _ | _ | _ <;> cases h
  · exact ⟨rfl, .inl rfl⟩
  · exact ⟨rfl, .inr ⟨text, rfl⟩⟩
  · exact ⟨rfl, .inr ⟨text, rfl⟩⟩

/-- What a call has read was in the cache. -/
theorem cached_of_answer {k : NamespacedName} {app : Application} {a : Ans (.getApplication k)}
    (h : a = (w.applications.cache k).elim (.error .notFound) .ok ∨ ∃ text, a = .error (.other text))
    (ha : a = .ok app) : w.applications.cache k = some app := by
  subst ha
  rcases hcache : w.applications.cache k with _ | app'
  · rw [hcache] at h
    rcases h with h | ⟨text, h⟩ <;> cases h
  · rw [hcache] at h
    rcases h with h | ⟨text, h⟩ <;> cases h
    rfl

theorem call_getDeployment {k : NamespacedName} {a : Ans (.getDeployment k)}
    (h : call (.getDeployment k) ch w = some (a, w')) :
    w' = w ∧ ∀ live, a = .ok live → ∃ o, w.deployments.cache k = some (o, live) := by
  rcases ch with (_ | text | text | t) | _ | _ | _ | _ | _ <;> cases h
  · refine ⟨rfl, fun live hlive => ?_⟩
    rcases hd : w.deployments.cache k with _ | ⟨o, live'⟩
    · rw [hd] at hlive
      cases hlive
    · rw [hd] at hlive
      cases hlive
      exact ⟨o, rfl⟩
  · exact ⟨rfl, fun live hlive => by cases hlive⟩
  · exact ⟨rfl, fun live hlive => by cases hlive⟩

theorem call_now {t : Ans .now} (h : call .now ch w = some (t, w')) : w' = w := by
  rcases ch with (_ | text | text | t) | _ | _ | _ | _ | _ <;> cases h
  rfl

theorem writeStatus_cases (w : Operator) (k : NamespacedName) (app : Application) :
    (∃ e, w.writeStatus k app = (.error e, w)) ∨ ∃ stored, w.cluster.applications k = some stored ∧
      stored.ResourceVersion = app.ResourceVersion ∧
      w.writeStatus k app = (.ok (), w.declare k (some { stored with
        Status := app.Status, ResourceVersion := stored.ResourceVersion + 1 })) := by
  rcases w.cluster.writeStatus_cases k app with ⟨e, h⟩ | ⟨stored, hstored, hv, h⟩
  · exact .inl ⟨e, by rw [writeStatus, h]⟩
  · refine .inr ⟨stored, hstored, hv, ?_⟩
    rw [writeStatus, h]
    simp only [Cluster.putStatus, Function.update_self]

/-- A status write has no effect, or changes the Application of the resource version it was computed from. -/
theorem call_updateStatus {k : NamespacedName} {app : Application} {a : Ans (.updateStatus k app)}
    (h : call (.updateStatus k app) ch w = some (a, w')) :
    (w' = w ∧ ∃ e, a = .error e) ∨ ∃ stored, w.cluster.applications k = some stored ∧
      stored.ResourceVersion = app.ResourceVersion ∧ w' = w.declare k (some { stored with
        Status := app.Status, ResourceVersion := stored.ResourceVersion + 1 }) := by
  have hserved : ∀ {a'}, w.writeStatus k app = (a', w') → (w' = w ∧ ∃ e, a' = .error e) ∨
      ∃ stored, w.cluster.applications k = some stored ∧ stored.ResourceVersion = app.ResourceVersion ∧
        w' = w.declare k (some { stored with
          Status := app.Status, ResourceVersion := stored.ResourceVersion + 1 }) := by
    intro a' ha'
    rcases w.writeStatus_cases k app with ⟨e, hw⟩ | ⟨stored, hstored, hv, hw⟩
    · cases hw.symm.trans ha'
      exact .inl ⟨rfl, e, rfl⟩
    · cases hw.symm.trans ha'
      exact .inr ⟨stored, hstored, hv, rfl⟩
  rcases ch with (_ | text | text | t) | _ | _ | _ | _ | _
  · exact hserved (Option.some.inj h)
  · cases h
    exact .inl ⟨rfl, _, rfl⟩
  · have h : some (.error (.other text), (w.writeStatus k app).2) = some (a, w') := h
    cases h
    exact (hserved rfl).imp_left fun hw => ⟨hw.1, _, rfl⟩
  all_goals cases h

/-- Every call keeps the invariant, and the marks of every Application. -/
theorem call_ok {op : Op} {a : Ans op} (hw : w.Ok) (h : call op ch w = some (a, w')) :
    w'.Ok ∧ ∀ key, Marked key w → Marked key w' := by
  cases op with
  | getApplication k =>
    rw [(call_getApplication h).1]
    exact ⟨hw, fun _ hm => hm⟩
  | getDeployment k =>
    rw [(call_getDeployment h).1]
    exact ⟨hw, fun _ hm => hm⟩
  | now =>
    rw [call_now h]
    exact ⟨hw, fun _ hm => hm⟩
  | patch o =>
    rcases call_patch h with rfl | ⟨rfl, -⟩
    · exact ⟨hw.apply o, fun _ hm => hm.apply o⟩
    · exact ⟨hw, fun _ hm => hm⟩
  | updateStatus k app =>
    rcases call_updateStatus h with ⟨rfl, -⟩ | ⟨stored, hstored, -, rfl⟩
    · exact ⟨hw, fun _ hm => hm⟩
    · refine ⟨hw.declared fun a ha => ?_, fun key => (moved_declared w k key _).marked⟩
      cases ha
      exact (show Named k stored from hw.stored hstored)

/-- The reconcile of another Application. -/
theorem moved_call {key' : NamespacedName} {op : Op} {a : Ans op} (hne : key' ≠ key) (hw : w.Ok)
    (hown : Own key' op) (h : call op ch w = some (a, w')) : Moved key w w' := by
  cases op with
  | getApplication k =>
    rw [(call_getApplication h).1]
    exact .refl key w
  | getDeployment k =>
    rw [(call_getDeployment h).1]
    exact .refl key w
  | now =>
    rw [call_now h]
    exact .refl key w
  | patch o =>
    rcases call_patch h with rfl | ⟨rfl, -⟩
    · refine moved_apply hw fun hk => ?_
      obtain ⟨app, hn, happ⟩ := hown
      rcases key_of_asked hn happ with ho | ho | ho
      · cases ho.symm.trans hk
      · cases ho.symm.trans hk
      · exact hne (observabilityKey_injective (congrArg Prod.snd (ho.symm.trans hk)))
    · exact .refl key w'
  | updateStatus k app =>
    rcases call_updateStatus h with ⟨rfl, -⟩ | ⟨stored, -, -, rfl⟩
    · exact .refl key w'
    · exact moved_declared w k key _

end

end

/-! ### A reconcile -/

theorem controls_ownedDeployment {key : NamespacedName} {app : Application} {d : Deployment} (hn : Named key app)
    (hd : desiredDeployment app = some d) : Controls key (ownedDeployment app d) := by
  obtain ⟨res, -, hdep⟩ := Option.bind_eq_some_iff.1 hd
  cases hdep
  exact congrArg some hn

theorem controls_ownedService {key : NamespacedName} {app : Application} (hn : Named key app) :
    Controls key (ownedService app) :=
  congrArg some hn

/-- What the spec of the Application asks for is there, and its status is about it. -/
structure Converged (key : NamespacedName) (app : Application) (w : Operator) : Prop where
  deployment : ∃ d, desiredDeployment app = some d ∧
    w.cluster.objects (.deployment, key) = some (ownedDeployment app d)
  service : app.Spec.Expose = true → w.cluster.objects (.service, key) = some (ownedService app)
  configMap : w.drifted (observabilityKey key) = false →
    w.cluster.objects (.configMap, observabilityKey key) = some (ownedObservability app)
  status : Unchanged app (w.cluster.deploymentStatus key)

def Settled (key : NamespacedName) (w : Operator) : Prop :=
  ∀ app, w.cluster.applications key = some app → Converged key app w

/-- The Application is the stored one, and the first `n` of its objects are applied. -/
structure Rendered (key : NamespacedName) (app : Application) (d : Deployment) (n : Nat) (w : Operator) : Prop where
  application : w.cluster.applications key = some app
  deployment : 1 ≤ n → w.cluster.objects (.deployment, key) = some (ownedDeployment app d)
  service : 2 ≤ n → app.Spec.Expose = true → w.cluster.objects (.service, key) = some (ownedService app)
  configMap : 3 ≤ n → w.drifted (observabilityKey key) = false →
    w.cluster.objects (.configMap, observabilityKey key) = some (ownedObservability app)

/-- `P` holds, or the Application will be reconciled again. -/
def Known (key : NamespacedName) (P : Operator → Prop) (x : Operator × Bool) : Prop :=
  x.2 = true ∨ Marked key x.1 ∨ P x.1

/-- The judgement of a reconcile of the Application. -/
abbrev Judged (key : NamespacedName) {α : Type} (Q : α → Operator × Bool → Prop) (p : Proc Op Ans α)
    (x : Operator × Bool) : Prop :=
  p.Rg (ControlLoop.flagged call) (fun x => x.1.Ok) (ControlLoop.Rely (Moved key)) (fun op _ => Own key op) Q x

section
variable {key : NamespacedName} {app : Application} {d : Deployment}

theorem Settled.same {w w' : Operator} (hw' : w'.Ok) (h : Same key w w') (hs : Settled key w) : Settled key w' := by
  intro app happ
  have hn := hw'.stored happ
  rw [h.application] at happ
  obtain ⟨⟨d, hd, hdep⟩, hsvc, hcm, hst⟩ := hs app happ
  obtain ⟨hdep', hst'⟩ := h.deployment _ hdep (controls_ownedDeployment hn hd)
  refine ⟨⟨d, hd, hdep'⟩, fun he => h.service _ (hsvc he) (controls_ownedService hn), fun hdr => ?_, hst' ▸ hst⟩
  obtain ⟨hdr', hcm'⟩ := h.configMap hdr
  exact hcm'.trans (hcm hdr')

theorem Rendered.same (hn : Named key app) (hd : desiredDeployment app = some d) {n : Nat} {w w' : Operator}
    (h : Same key w w') (hr : Rendered key app d n w) : Rendered key app d n w' where
  application := h.application.trans hr.application
  deployment hle := (h.deployment _ (hr.deployment hle) (controls_ownedDeployment hn hd)).1
  service hle he := h.service _ (hr.service hle he) (controls_ownedService hn)
  configMap hle hdr := by
    obtain ⟨hdr', hcm⟩ := h.configMap hdr
    exact hcm.trans (hr.configMap hle hdr')

theorem objects_apply (w : Operator) (o : Object) :
    (w.apply o).cluster.objects = Function.update w.cluster.objects o.key (some o) := by
  rw [Operator.apply, cluster_setDrifted]
  split
  · rename_i h
    rw [← h, Function.update_eq_self]
  · exact objects_put w o.key (some o)

theorem applications_apply (w : Operator) (o : Object) :
    (w.apply o).cluster.applications = w.cluster.applications := by
  rw [Operator.apply, cluster_setDrifted]
  split
  · rfl
  · exact (w.applications_put o.key (some o)).1

theorem informer_apply (w : Operator) (o : Object) : (w.apply o).applications = w.applications := by
  rw [Operator.apply, informer_setDrifted]
  split
  · rfl
  · exact (w.applications_put o.key (some o)).2

/-- The next object is applied. -/
theorem Rendered.apply {n : Nat} {w : Operator} (h : Rendered key app d n w) {o : Object}
    (ho : n = 0 ∧ o = ownedDeployment app d ∧ o.key = (.deployment, key) ∨
      n = 1 ∧ o = ownedService app ∧ o.key = (.service, key) ∨
      n = 2 ∧ o = ownedObservability app ∧ o.key = (.configMap, observabilityKey key)) :
    Rendered key app d (n + 1) (w.apply o) := by
  have hkeep : ∀ k, k ≠ o.key → (w.apply o).cluster.objects k = w.cluster.objects k := fun k hk => by
    rw [objects_apply, Function.update_of_ne hk]
  have hself : (w.apply o).cluster.objects o.key = some o := by rw [objects_apply, Function.update_self]
  refine ⟨(congrFun (applications_apply w o) key).trans h.application, fun _ => ?_, fun hle he => ?_,
    fun hle hdr => ?_⟩
  · rcases ho with ⟨-, ho, hk⟩ | ⟨rfl, -, hk⟩ | ⟨rfl, -, hk⟩
    · rw [← hk, hself, ho]
    all_goals
      rw [hkeep _ (by rw [hk]; simp)]
      exact h.deployment (by omega)
  · rcases ho with ⟨rfl, -, hk⟩ | ⟨-, ho, hk⟩ | ⟨rfl, -, hk⟩
    · omega
    · rw [← hk, hself, ho]
    · rw [hkeep _ (by rw [hk]; simp)]
      exact h.service (by omega) he
  · rcases ho with ⟨rfl, -, -⟩ | ⟨rfl, -, -⟩ | ⟨-, ho, hk⟩
    · omega
    · omega
    · rw [← hk, hself, ho]

/-- An application that is not exposed has no Service to apply. -/
theorem Rendered.skip {w : Operator} (h : Rendered key app d 1 w) (he : app.Spec.Expose = false) :
    Rendered key app d 2 w :=
  ⟨h.application, fun _ => h.deployment le_rfl, fun _ he' => absurd (he.symm.trans he') (by decide),
    fun hle => absurd hle (by decide)⟩

theorem Known.moved {P : Operator → Prop} (hP : ∀ w w', w'.Ok → Same key w w' → P w → P w')
    {x x' : Operator × Bool} (hx' : x'.1.Ok) (hR : ControlLoop.Rely (Moved key) x x') (h : Known key P x) :
    Known key P x' := by
  rcases hR with hb | ⟨hb, -, hR⟩
  · exact .inl hb
  · by_cases hm : Marked key x'.1
    · exact .inr (.inl hm)
    · obtain ⟨hno, hsame⟩ := hR hm
      rcases h with h | h | h
      · exact absurd (h.symm.trans hb) (by decide)
      · exact absurd h hno
      · exact .inr (.inr (hP _ _ hx' hsame h))

theorem Known.step {P P' : Operator → Prop} {w w' : Operator} {b : Bool} (h : Known key P (w, b))
    (hm : Marked key w → Marked key w') (hP : ¬ Marked key w → P w → P' w') : Known key P' (w', b) := by
  by_cases hmw : Marked key w
  · exact .inr (.inl (hm hmw))
  · exact h.imp_right (Or.imp hm (hP hmw))

section
variable {α : Type} {Q : α → Operator × Bool → Prop} {P : Operator → Prop} {x : Operator × Bool}

/-- One call of a reconcile, where `P` is known. -/
theorem judged_call {op : Op} {f : Ans op → Proc Op Ans α}
    (hP : ∀ w w', w'.Ok → Same key w w' → P w → P w') (hx : Known key P x) (hown : Own key op)
    (h : ∀ c a w w' b, w.Ok → call op c w = some (a, w') → Known key P (w, b) → Judged key Q (f a) (w', b)) :
    Judged key Q (.call op f) x := by
  intro x₁ hR hok
  refine ⟨hown, fun c a x₂ hc => ?_⟩
  obtain ⟨⟨a', w'⟩, hc', heq⟩ := Option.map_eq_some_iff.1 hc
  cases heq
  exact ⟨(call_ok hok hc').1, h c a' x₁.1 w' x₁.2 hok hc' (hx.moved hP hok hR)⟩

theorem judged_ret {a : α} (hP : ∀ w w', w'.Ok → Same key w w' → P w → P w') (hx : Known key P x)
    (h : ∀ x, Known key P x → Q a x) : Judged key Q (.ret a) x :=
  fun _ hR hok => h _ (hx.moved hP hok hR)

end

/-- What `updateStatus` starts with: the objects are applied, and the status of the Deployment is known. -/
def Live (key : NamespacedName) (app : Application) (d : Deployment) (live : DeploymentStatus) (w : Operator) : Prop :=
  Rendered key app d 3 w ∧ w.cluster.deploymentStatus key = live

theorem Live.same (hn : Named key app) (hd : desiredDeployment app = some d) {live : DeploymentStatus}
    {w w' : Operator} (h : Same key w w') (hl : Live key app d live w) : Live key app d live w' :=
  ⟨hl.1.same hn hd h, (h.deployment _ (hl.1.deployment (by decide)) (controls_ownedDeployment hn hd)).2.trans hl.2⟩

theorem Live.settled (hd : desiredDeployment app = some d) {live : DeploymentStatus} {w : Operator}
    (hl : Live key app d live w) (hu : Unchanged app live) : Settled key w := by
  obtain ⟨hr, rfl⟩ := hl
  intro app' happ'
  obtain rfl : app = app' := Option.some.inj (hr.application.symm.trans happ')
  exact ⟨⟨d, hd, hr.deployment (by decide)⟩, hr.service (by decide), hr.configMap (by decide), hu⟩

/-- What an attempt of the status write ends with. -/
def Attempted (key : NamespacedName) (P : Operator → Prop) :
    Except ApiError Bool → Operator × Bool → Prop
  | .ok _, x => Known key (Settled key) x
  | .error _, x => Known key P x

theorem judged_updateStatusOnce (hn : Named key app) (hd : desiredDeployment app = some d) (live : DeploymentStatus)
    {x : Operator × Bool} (hx : Known key (Live key app d live) x) :
    Judged key (Attempted key (Live key app d live)) (updateStatusOnce key live) x := by
  have hlive : ∀ w w' : Operator, w'.Ok → Same key w w' → Live key app d live w → Live key app d live w' :=
    fun _ _ _ hs hl => hl.same hn hd hs
  rw [updateStatusOnce_eq]
  refine judged_call hlive hx trivial fun c a w w' b hw hc hk => ?_
  obtain ⟨rfl, ha⟩ := call_getApplication hc
  rcases a with e | app'
  · exact judged_ret hlive hk fun _ h => h
  -- what is read is the stored Application, unless a change of it is on its way
  have hread : Known key (fun w => Live key app d live w ∧ app' = app) (w', b) := by
    refine hk.step id fun hno hl => ⟨hl, ?_⟩
    rcases ha with ha | ⟨text, ha⟩
    · rw [hw.cachedApplication hno, hl.1.application] at ha
      exact Except.ok.inj ha
    · cases ha
  have hstable : ∀ w w' : Operator, w'.Ok → Same key w w' → Live key app d live w ∧ app' = app →
      Live key app d live w' ∧ app' = app := fun _ _ _ hs hl => ⟨hl.1.same hn hd hs, hl.2⟩
  dsimp only
  split
  · rename_i hu
    refine judged_ret hstable hread fun x h => h.imp_right (Or.imp_right ?_)
    rintro ⟨hl, rfl⟩
    exact hl.settled hd hu
  · refine judged_call hstable hread trivial fun c now w w' b hw hc hk => ?_
    obtain rfl := call_now hc
    refine judged_call hstable hk rfl fun c r w w' b hw hc hk => ?_
    rcases call_updateStatus hc with ⟨rfl, e, rfl⟩ | ⟨stored, -, -, rfl⟩
    · exact judged_ret hlive (hk.imp_right (Or.imp_right fun h => h.1)) fun _ h => h
    · -- the write is on its way to the cache
      rcases r with e | u
      · exact judged_ret hlive (.inr (.inl (marked_declare w key _))) fun _ h => h
      · exact judged_ret (fun _ _ hw' hs h => h.same hw' hs) (.inr (.inl (marked_declare w key _))) fun _ h => h

theorem judged_updateStatus (hn : Named key app) (hd : desiredDeployment app = some d) (live : DeploymentStatus)
    {x : Operator × Bool} (hx : Known key (Live key app d live) x) :
    Judged key (Attempted key (Live key app d live)) (updateStatus key live) x := by
  have hlive : ∀ w w' : Operator, w'.Ok → Same key w w' → Live key app d live w → Live key app d live w' :=
    fun _ _ _ hs hl => hl.same hn hd hs
  suffices h : ∀ n x, Known key (Live key app d live) x →
      Judged key (Attempted key (Live key app d live)) (RetryOnConflict (updateStatusOnce key live) n) x from
    h DefaultRetry x hx
  intro n
  induction n with
  | zero => exact fun x hx => judged_ret hlive hx fun _ h => h
  | succ n ih =>
    intro x hx
    refine Proc.Rg.bind (fun x => ControlLoop.rely_of_world (.refl key x.1) x.2)
      ((judged_updateStatusOnce hn hd live hx).mono fun r x hok hr => ?_)
    split
    · exact ih x hr
    · rcases r with e | wrote
      · exact judged_ret hlive hr fun _ h => h
      · exact judged_ret (fun _ _ hw' hs h => h.same hw' hs) hr fun _ h => h

/-- A reconcile that ends without an error leaves the Application settled, unless it is to be reconciled
again. -/
theorem judged_Reconcile (key : NamespacedName) (x : Operator × Bool) :
    Judged key (fun r x => r = .ok () → Known key (Settled key) x) (Reconcile key) x := by
  have hrefl : ∀ x : Operator × Bool, ControlLoop.Rely (Moved key) x x :=
    fun x => ControlLoop.rely_of_world (.refl key x.1) x.2
  simp only [Reconcile, GetApplication, Patch, GetDeployment, Proc.perform_bind]
  refine judged_call (P := fun _ => True) (fun _ _ _ _ h => h) (.inr (.inr trivial))
    trivial fun c a w w' b hw hc _ => ?_
  obtain ⟨rfl, ha⟩ := call_getApplication hc
  rcases a with e | app
  · -- an Application that is gone has nothing to be reconciled
    cases e with
    | notFound =>
      refine judged_ret (P := Settled key) (fun _ _ hw' hs h => h.same hw' hs) ?_ fun _ h _ => h
      refine Known.step (P := fun _ => True) (.inr (.inr trivial)) id fun hno _ app happ => ?_
      rw [hw.cachedApplication hno, happ] at ha
      rcases ha with ha | ⟨text, ha⟩ <;> cases ha
    | conflict => exact fun _ _ _ h => by cases h
    | other text => exact fun _ _ _ h => by cases h
  have hcached := cached_of_answer ha rfl
  have hn : Named key app := hw.named.cache key app hcached
  have hname : (app.Namespace, app.Name) = key := hn
  dsimp only
  split
  · exact fun _ _ _ h => by cases h
  rename_i d hd
  have hstable : ∀ n (w w' : Operator), w'.Ok → Same key w w' → Rendered key app d n w → Rendered key app d n w' :=
    fun n _ _ _ hs hr => hr.same hn hd hs
  have hread : Known key (Rendered key app d 0) (w', b) := by
    refine Known.step (P := fun _ => True) (.inr (.inr trivial)) id fun hno _ => ?_
    exact ⟨(hw.cachedApplication hno).symm.trans hcached, by omega, by omega, by omega⟩
  have hkd : (ownedDeployment app d).key = (.deployment, key) := by rw [key_ownedDeployment hd, ← hname]
  have hks : (ownedService app).key = (.service, key) := by rw [key_ownedService, ← hname]
  have hkc : (ownedObservability app).key = (.configMap, observabilityKey key) := by
    rw [key_ownedObservability, ← hname]
    rfl
  -- an apply that is answered without an error took place
  have hpatched : ∀ {n : Nat} {o : Object} {c : Occurrence} {u : Unit} {w w' : Operator} {b : Bool},
      call (.patch o) c w = some (.ok u, w') → Known key (Rendered key app d n) (w, b) →
      (n = 0 ∧ o = ownedDeployment app d ∧ o.key = (.deployment, key) ∨
        n = 1 ∧ o = ownedService app ∧ o.key = (.service, key) ∨
        n = 2 ∧ o = ownedObservability app ∧ o.key = (.configMap, observabilityKey key)) →
      Known key (Rendered key app d (n + 1)) (w', b) := by
    intro n o c u w w' b hc hk ho
    rcases call_patch hc with rfl | ⟨-, e, he⟩
    · exact hk.step (fun hm => hm.apply o) fun _ hr => hr.apply ho
    · cases he
  refine judged_call (hstable 0) hread ⟨app, hn, .inl ⟨d, hd, rfl⟩⟩ fun c a w w' b hw hc hk => ?_
  rcases a with e | u
  · exact fun _ _ _ h => by cases h
  have hk₁ := hpatched hc hk (.inl ⟨rfl, rfl, hkd⟩)
  -- the Service, if the application is exposed
  refine Proc.Rg.bind hrefl (Proc.Rg.mono
    (Q := fun r x => r = .ok () → Known key (Rendered key app d 2) x) (fun r x hok hr => ?_) ?_)
  swap
  · cases he : app.Spec.Expose with
    | false => exact judged_ret (hstable 2) (hk₁.step id fun _ hr => hr.skip he) fun _ h _ => h
    | true =>
      refine judged_call (hstable 1) hk₁ ⟨app, hn, .inr (.inr ⟨he, rfl⟩)⟩
        fun c a w w' b hw hc hk => ?_
      rcases a with e | u
      · exact fun _ _ _ h => by cases h
      · exact judged_ret (hstable 2) (hpatched hc hk (.inr (.inl ⟨rfl, rfl, hks⟩))) fun _ h _ => h
  rcases r with e | u
  · exact fun _ _ _ h => by cases h
  refine judged_call (hstable 2) (hr rfl) ⟨app, hn, .inr (.inl rfl)⟩
    fun c a w w' b hw hc hk => ?_
  rcases a with e | u
  · exact fun _ _ _ h => by cases h
  have hk₃ := hpatched hc hk (.inr (.inr ⟨rfl, rfl, hkc⟩))
  refine judged_call (hstable 3) hk₃ trivial fun c a w w' b hw hc hk => ?_
  obtain ⟨rfl, hlive⟩ := call_getDeployment hc
  rcases a with e | live
  · exact fun _ _ _ h => by cases h
  have hk₄ : Known key (Live key app d live) (w', b) := by
    refine hk.step id fun hno hr => ⟨hr, ?_⟩
    obtain ⟨o, ho⟩ := hlive live rfl
    have hdep := hr.deployment (by decide)
    rw [hname, hw.cachedDeployment hno hdep (controls_ownedDeployment hn hd)] at ho
    cases ho
    rfl
  refine Proc.Rg.bind hrefl ((judged_updateStatus hn hd live hk₄).mono fun r x hok hr => ?_)
  rcases r with e | wrote
  · exact fun _ _ _ h => by cases h
  · exact judged_ret (fun _ _ hw' hs h => h.same hw' hs) hr fun _ h _ => h

end


/-! ### Runs -/

/-- The manager does what is asked of it. -/
theorem sound_manager : manager.Sound Ok Moved (fun key op _ => Own key op) fun key w => Marked key w ∨ Settled key w where
  refl := Moved.refl
  trans _ _ _ _ h h' := h.trans h'
  works key x := judged_Reconcile key x
  stable key w w' hw' hR h := by
    by_cases hm : Marked key w'
    · exact .inl hm
    · obtain ⟨hno, hsame⟩ := hR hm
      exact .inr ((h.resolve_left hno).same hw' hsame)
  call key key' op c a w w' hne hw hown hc := moved_call hne hw hown hc
  env c w w' hw hc := env_ok hw hc
  watch c w ks w' hw hc := watch_ok hw hc
  restart w hw := by
    refine ⟨restart_ok hw, fun key => ?_⟩
    rcases happ : w.cluster.applications key with _ | app
    · exact .inr (.inr fun app happ' => by cases happ.symm.trans happ')
    · exact .inl (by simp [manager, restart, happ])

/-- What holds in every state of a run. -/
abbrev Sane (s : OperatorState) : Prop := s.world.Ok ∧ ∀ key, ControlLoop.Settling call Ok Moved
  (fun key op _ => Own key op) (fun key w => Marked key w ∨ Settled key w) s key

/-- The operator before it is started for the first time on a cluster. -/
def unstarted (c : Cluster) (refuses : Option Object → Object → Option GoString) : Operator :=
  ⟨c, .synced c.applications, .synced c.deployment, .synced c.service, refuses, fun _ => true⟩

theorem ok_unstarted {c : Cluster} (hnamed : ∀ key app, c.applications key = some app → Named key app)
    (refuses : Option Object → Object → Option GoString) : (unstarted c refuses).Ok :=
  ⟨.synced hnamed, rfl, rfl, rfl⟩

/-- No change of the Application, or of the Deployment or the Service of its name, is on its way to a cache. -/
structure Seen (key : NamespacedName) (w : Operator) : Prop where
  application : ¬ w.applications.Behind key
  deployment : ¬ w.deployments.Behind key
  service : ¬ w.services.Behind key

end Operator

section

theorem named_sampleCluster (key : NamespacedName) (app : Application)
    (happ : sampleCluster.applications key = some app) : (app.Namespace, app.Name) = key := by
  simp only [sampleCluster] at happ
  split at happ
  · cases happ
    exact (‹key = sampleKey› : key = sampleKey).symm
  · cases happ

/-- An API server that keeps the selectors of Deployments and takes everything else. -/
def keepsSelectors : Option Object → Object → Option GoString
  | some (.deployment d), .deployment d' => if d.Selector = d'.Selector then none else some "field is immutable"
  | _, _ => none

def sampleCalls (cs : List Choice) : List (ControlLoop.Step NamespacedName Occurrence) :=
  cs.map fun c => .call sampleKey (.answer c)

end

end Forge.Controller
