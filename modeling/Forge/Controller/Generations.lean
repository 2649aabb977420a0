import Forge.Lib.Protocol
import Forge.Controller.Convergence

/-!
# Observed generations

`Reconcile` builds the Deployment from the Application it reads first, and `updateStatus` reads the Application
again and stores the generation of what it finds. Both read from the cache of the manager. An edit that the
cache sees in between is reported as observed although the Deployment was built from the spec before it
(`observed_unapplied`).

As long as the cache sees new generations only while no reconcile of the Application is in progress, what a
reconcile reads last is of the generation it has read first (`Stage.Tracks`), and the stored generation is that
of the applied Deployment or an earlier one (`observed_generation_honest`). Edits may be made at any time; a
cache that lags behind them does no harm, because a status computed from an old version is a conflict.
-/

namespace Forge.Controller

open GoString Operator

/-- The object is the Deployment built from the spec of `app`. -/
def BuiltFrom (app : Application) (o : Option Object) : Prop :=
  ∃ d, desiredDeployment app = some d ∧ o = some (ownedDeployment app d)

/-- A version of the Application that was stored in one of the states. -/
def StoredIn (key : NamespacedName) (past : List OperatorState) (app : Application) : Prop :=
  ∃ s ∈ past, s.world.cluster.applications key = some app

/-- A generation is reported as observed only if the Deployment was built from its spec or a later one. -/
def Honest (key : NamespacedName) (past : List OperatorState) (w : Operator) : Prop :=
  ∀ app, w.cluster.applications key = some app → 0 < app.Status.ObservedGeneration →
    ∃ a, StoredIn key past a ∧ app.Status.ObservedGeneration ≤ a.Generation ∧
      BuiltFrom a (w.cluster.objects (.deployment, key))

/-- The versions the cache knows or will see were stored, their generations rise, and none is before the
observed one. -/
structure Inv (key : NamespacedName) (past : List OperatorState) (w : Operator) : Prop where
  stored : ∀ v, some v ∈ w.applications.versions key → StoredIn key past v
  ordered : (w.applications.versions key).Pairwise fun a b => ∀ x ∈ a, ∀ y ∈ b, x.Generation ≤ y.Generation
  bound : ∀ v, some v ∈ w.applications.versions key →
    ∀ app, w.cluster.applications key = some app → v.Generation ≤ app.Generation
  observed : ∀ v, some v ∈ w.applications.versions key →
    ∀ app, w.cluster.applications key = some app → app.Status.ObservedGeneration ≤ v.Generation
  honest : Honest key past w

/-! ### The protocol of `Reconcile` -/

/-- How far a reconcile is: the Application it has read first, whether its Deployment is applied, and the
generation of what it has read last. -/
inductive Stage
  | fresh
  | going (app : Application) (applied : Bool) (seen : Int)

namespace Stage

variable (key : NamespacedName)

def May : Stage → Op → Prop
  | fresh, .getApplication k => k = key
  | going app _ _, .patch o => BuiltFrom app (some o) ∨ o.kind ≠ .deployment
  | going _ true _, .getApplication k => k = key
  | going _ true _, .getDeployment _ => True
  | going _ true _, .now => True
  | going _ true seen, .updateStatus k app' => k = key ∧ app'.Status.ObservedGeneration = seen
  | _, _ => False

def next : Stage → (op : Op) → Ans op → Stage
  | fresh, .getApplication _, .ok app => going app false app.Generation
  | going app applied _, .getApplication _, .ok app' => going app applied app'.Generation
  | going app applied seen, .patch o, .ok () => going app (applied || o.kind = .deployment) seen
  | st, _, _ => st

/-- The cache is at the generation that was read first. -/
def Tracks (past : List OperatorState) (st : Stage) (w : Operator) : Prop :=
  ∀ app applied seen, st = going app applied seen → Named key app ∧ StoredIn key past app ∧ seen = app.Generation ∧
    (∃ v, w.applications.cache key = some v ∧ v.Generation = app.Generation) ∧
    (applied = true → BuiltFrom app (w.cluster.objects (.deployment, key)))

end Stage

open Stage

theorem obeys_status {key : NamespacedName} (dep : DeploymentStatus) (app : Application) (seen : Int) :
    (updateStatus key dep).Obeys (Stage.May key) Stage.next (fun _ _ => True) (.going app true seen) := by
  have honce : ∀ seen, (updateStatusOnce key dep).Obeys (Stage.May key) Stage.next
      (fun _ st => ∃ seen, st = .going app true seen) (.going app true seen) := by
    intro seen
    rw [updateStatusOnce_eq]
    refine ⟨rfl, fun r => ?_⟩
    rcases r with e | app'
    · exact ⟨seen, rfl⟩
    show Proc.Obeys _ _ _ _ (if Unchanged app' dep then _ else _)
    split
    · exact ⟨app'.Generation, rfl⟩
    · refine ⟨trivial, fun now => ⟨⟨rfl, rfl⟩, fun r => ?_⟩⟩
      rcases r with e | u <;> exact ⟨app'.Generation, rfl⟩
  have hretry : ∀ n seen, (RetryOnConflict (updateStatusOnce key dep) n).Obeys (Stage.May key) Stage.next
      (fun _ _ => True) (.going app true seen) := by
    intro n
    induction n with
    | zero => exact fun _ => trivial
    | succ n ih =>
      intro seen
      refine (honce seen).bind fun r st hst => ?_
      obtain ⟨seen', rfl⟩ := hst
      split
      · exact ih seen'
      · trivial
  exact hretry DefaultRetry seen

theorem obeys_Reconcile (key : NamespacedName) :
    (Reconcile key).Obeys (Stage.May key) Stage.next (fun _ _ => True) .fresh := by
  simp only [Reconcile, GetApplication, Patch, GetDeployment, Proc.perform_bind]
  refine ⟨rfl, fun r => ?_⟩
  rcases r with e | app
  · trivial
  dsimp only
  split
  · trivial
  rename_i dep hdep
  refine ⟨.inl ⟨dep, hdep, rfl⟩, fun r => ?_⟩
  rcases r with e | u
  · trivial
  show Proc.Obeys _ _ _ (going app true app.Generation) _
  refine Proc.Obeys.bind (Q := fun _ st => st = going app true app.Generation) ?_ fun r st hst => ?_
  · split
    · refine ⟨.inr (by simp [ownedService, Object.kind]), fun r => ?_⟩
      rcases r with e | u <;> rfl
    · rfl
  subst hst
  rcases r with e | u
  · trivial
  refine ⟨.inr (by simp [ownedObservability, Object.kind]), fun r => ?_⟩
  rcases r with e | u
  · trivial
  refine ⟨trivial, fun r => ?_⟩
  rcases r with e | live
  · trivial
  refine Proc.Obeys.bind (obeys_status live app app.Generation) fun r st _ => ?_
  rcases r with e | u <;> trivial

/-! ### What the steps keep -/

section
variable {key : NamespacedName} {past past' : List OperatorState} {w w' : Operator} {st : Stage}

theorem StoredIn.mono {app : Application} (h : StoredIn key past app) (hp : past ⊆ past') : StoredIn key past' app :=
  h.imp fun _ hs => ⟨hp hs.1, hs.2⟩

/-- Neither the Application, nor what the cache knows and will know of it, nor its Deployment changes. -/
structure Frame (key : NamespacedName) (w w' : Operator) : Prop where
  application : w'.cluster.applications key = w.cluster.applications key
  versions : w'.applications.versions key = w.applications.versions key
  deployment : w'.cluster.objects (.deployment, key) = w.cluster.objects (.deployment, key)

theorem Frame.refl (key : NamespacedName) (w : Operator) : Frame key w w := ⟨rfl, rfl, rfl⟩

theorem Frame.cache (h : Frame key w w') : w'.applications.cache key = w.applications.cache key :=
  (List.cons.inj h.versions).1

/-- The Application and its Deployment are the same, and the cache is at the same version or a later one. -/
theorem Inv.suffix (h : Inv key past w) (hp : past ⊆ past')
    (happ : w'.cluster.applications key = w.cluster.applications key)
    (hv : w'.applications.versions key <:+ w.applications.versions key)
    (hdep : w'.cluster.objects (.deployment, key) = w.cluster.objects (.deployment, key)) : Inv key past' w' where
  stored v hm := (h.stored v (hv.subset hm)).mono hp
  ordered := h.ordered.sublist hv.sublist
  bound v hm app ha := h.bound v (hv.subset hm) app (happ ▸ ha)
  observed v hm app ha := h.observed v (hv.subset hm) app (happ ▸ ha)
  honest app ha hpos := by
    obtain ⟨a, hs, hle, hb⟩ := h.honest app (happ ▸ ha) hpos
    exact ⟨a, hs.mono hp, hle, hdep ▸ hb⟩

theorem Inv.frame (h : Inv key past w) (hp : past ⊆ past') (hf : Frame key w w') : Inv key past' w' :=
  h.suffix hp hf.application (hf.versions ▸ List.suffix_refl _) hf.deployment

/-- The cache may be at another version, but not of another generation. -/
theorem Stage.Tracks.congr (h : Tracks key past st w) (hp : past ⊆ past')
    (hgen : (w'.applications.cache key).map (·.Generation) = (w.applications.cache key).map (·.Generation))
    (hdep : w'.cluster.objects (.deployment, key) = w.cluster.objects (.deployment, key)) : Tracks key past' st w' := by
  intro app applied seen hst
  obtain ⟨hn, hs, hseen, ⟨v, hv, hvgen⟩, hb⟩ := h app applied seen hst
  rw [hv] at hgen
  obtain ⟨v', hv', hvgen'⟩ := Option.map_eq_some_iff.1 hgen
  exact ⟨hn, hs.mono hp, hseen, ⟨v', hv', hvgen'.trans hvgen⟩, fun ha => hdep ▸ hb ha⟩

theorem Stage.Tracks.frame (h : Tracks key past st w) (hp : past ⊆ past') (hf : Frame key w w') :
    Tracks key past' st w' :=
  h.congr hp (by rw [hf.cache]) hf.deployment

theorem Stage.tracks_fresh (past : List OperatorState) (w : Operator) : Tracks key past fresh w :=
  fun _ _ _ h => nomatch h

/-- A new version of the Application, not of an earlier generation. -/
theorem Inv.declare {stored new : Application} (h : Inv key past w) (hok : w.Ok) (hp : past ⊆ past')
    (hstored : w.cluster.applications key = some stored) (hnew : StoredIn key past' new)
    (hgen : stored.Generation ≤ new.Generation)
    (hobs : ∀ v, some v ∈ w.applications.versions key → new.Status.ObservedGeneration ≤ v.Generation)
    (hhonest : 0 < new.Status.ObservedGeneration → ∃ a, StoredIn key past a ∧
      new.Status.ObservedGeneration ≤ a.Generation ∧ BuiltFrom a (w.cluster.objects (.deployment, key))) :
    Inv key past' (w.declare key (some new)) := by
  have happ : (w.declare key (some new)).cluster.applications key = some new := Function.update_self ..
  have hversions : (w.declare key (some new)).applications.versions key =
      w.applications.versions key ++ [some new] := Informer.versions_send ..
  have hmem : ∀ {v}, some v ∈ (w.declare key (some new)).applications.versions key →
      some v ∈ w.applications.versions key ∨ v = new := by
    intro v hv
    rw [hversions, List.mem_append, List.mem_singleton] at hv
    exact hv.imp_right Option.some.inj
  have hle : ∀ v, some v ∈ w.applications.versions key → v.Generation ≤ new.Generation :=
    fun v hv => (h.bound v hv stored hstored).trans hgen
  refine ⟨fun v hv => ?_, ?_, fun v hv app ha => ?_, fun v hv app ha => ?_, fun app ha hpos => ?_⟩
  · rcases hmem hv with hv | rfl
    · exact (h.stored v hv).mono hp
    · exact hnew
  · rw [hversions, List.pairwise_append]
    refine ⟨h.ordered, List.pairwise_singleton .., fun a ha b hb x hx y hy => ?_⟩
    rw [List.mem_singleton] at hb
    subst hb
    cases hy
    exact hle x (hx ▸ ha)
  · cases happ.symm.trans ha
    rcases hmem hv with hv | rfl
    · exact hle v hv
    · exact le_rfl
  · cases happ.symm.trans ha
    rcases hmem hv with hv | rfl
    · exact hobs v hv
    · exact (hobs stored (hok.current hstored)).trans hgen
  · cases happ.symm.trans ha
    obtain ⟨a, hs, hle, hb⟩ := hhonest hpos
    exact ⟨a, hs.mono hp, hle, hb⟩

/-- A user edits the spec, if the Application is there. -/
theorem Inv.edit (h : Inv key past w) (hok : w.Ok) (hp : past ⊆ past') (spec : ApplicationSpec)
    (hnew : ∀ app, (w.cluster.applications key).map (·.edited spec) = some app → StoredIn key past' app) :
    Inv key past' (w.declare key ((w.cluster.applications key).map (·.edited spec))) := by
  cases hstored : w.cluster.applications key with
  | some stored =>
    rw [hstored] at hnew
    refine h.declare hok hp hstored (hnew _ rfl) ?_ (fun v hv => h.observed v hv stored hstored)
      (h.honest stored hstored)
    show stored.Generation ≤ stored.Generation + 1
    omega
  | none =>
    have hnone : ∀ app, (w.declare key none).cluster.applications key ≠ some app := fun app happ =>
      nomatch (Function.update_self ..).symm.trans happ
    have hversions : (w.declare key none).applications.versions key = w.applications.versions key ++ [none] :=
      Informer.versions_send ..
    refine ⟨fun v hv => (h.stored v ?_).mono hp, ?_, fun v _ app ha => absurd ha (hnone app),
      fun v _ app ha => absurd ha (hnone app), fun app ha => absurd ha (hnone app)⟩
    · rw [Option.map_none, hversions] at hv
      simpa using hv
    · rw [Option.map_none, hversions, List.pairwise_append]
      refine ⟨h.ordered, List.pairwise_singleton .., fun a _ b hb x _ y hy => ?_⟩
      rw [List.mem_singleton.1 hb] at hy
      cases hy

/-- The Deployment is applied that was built from a version of the generation the cache is at. -/
theorem Inv.applied {app v : Application} {o : Object} (h : Inv key past w) (hp : past ⊆ past') (hn : Named key app)
    (hs : StoredIn key past app) (hcache : w.applications.cache key = some v) (hgen : v.Generation = app.Generation)
    (hb : BuiltFrom app (some o)) :
    Inv key past' (w.apply o) ∧ BuiltFrom app ((w.apply o).cluster.objects (.deployment, key)) ∧
      (w.apply o).applications = w.applications := by
  have hkey : o.key = (.deployment, key) := by
    obtain ⟨d, hd, ho⟩ := hb
    cases ho
    rw [key_ownedDeployment hd, show (app.Namespace, app.Name) = key from hn]
  have hobj : (w.apply o).cluster.objects (.deployment, key) = some o := by
    rw [objects_apply, ← hkey, Function.update_self]
  have happs := applications_apply w o
  have hinf := informer_apply w o
  refine ⟨⟨?_, ?_, ?_, ?_, fun stored hstored _ => ⟨app, hs.mono hp, ?_, hobj ▸ hb⟩⟩, hobj ▸ hb, hinf⟩
  · rw [hinf]
    exact fun v hv => (h.stored v hv).mono hp
  · rw [hinf]
    exact h.ordered
  · rw [hinf, happs]
    exact h.bound
  · rw [hinf, happs]
    exact h.observed
  · rw [happs] at hstored
    rw [← hgen]
    exact h.observed v (hcache ▸ w.applications.cache_mem_versions key) stored hstored

theorem frame_apply {o : Object} (ho : o.key ≠ (.deployment, key)) : Frame key w (w.apply o) where
  application := by rw [applications_apply]
  versions := by rw [informer_apply]
  deployment := by rw [objects_apply, Function.update_of_ne (Ne.symm ho)]

theorem frame_declare {k : NamespacedName} (hk : k ≠ key) (app : Option Application) :
    Frame key w (w.declare k app) :=
  ⟨Function.update_of_ne (Ne.symm hk) _ _, Informer.versions_send_of_ne _ hk _, rfl⟩

/-- A call of a reconcile that has followed the protocol so far. -/
theorem Stage.call {op : Op} {c : Occurrence} {a : Ans op} (hmay : Stage.May key st op)
    (htr : Tracks key past st w) (hI : Inv key past w) (hok : w.Ok) (hp : past ⊆ past')
    (hpast : ∀ app, w'.cluster.applications key = some app → StoredIn key past' app)
    (hc : Operator.call op c w = some (a, w')) :
    Inv key past' w' ∧ Tracks key past' (Stage.next st op a) w' := by
  cases op with
  | getApplication k =>
    obtain ⟨rfl, ha⟩ := call_getApplication hc
    refine ⟨hI.frame hp (.refl key w'), ?_⟩
    rcases a with e | app
    · rcases st with _ | ⟨app', applied, seen⟩ <;> exact htr.frame hp (.refl key w')
    have hk : k = key := by
      rcases st with _ | ⟨app', _ | _, seen⟩
      · exact hmay
      · exact hmay.elim
      · exact hmay
    subst hk
    have hcache := cached_of_answer ha rfl
    rcases st with _ | ⟨app', applied, seen⟩
    · rintro _ _ _ ⟨⟩
      have hs := hI.stored app (hcache ▸ w'.applications.cache_mem_versions k)
      exact ⟨hok.named.cache k app hcache, hs.mono hp, rfl, ⟨app, hcache, rfl⟩, fun h => nomatch h⟩
    · -- the cache is still at the generation of the first read
      rintro _ _ _ ⟨⟩
      obtain ⟨hn, hs, -, ⟨v, hv, hgen⟩, hb⟩ := htr app' applied seen rfl
      cases hcache.symm.trans hv
      exact ⟨hn, hs.mono hp, hgen, ⟨app, hcache, hgen⟩, hb⟩
  | patch o =>
    rcases st with _ | ⟨app, applied, seen⟩
    · exact hmay.elim
    obtain ⟨hn, hs, hseen, ⟨v, hv, hgen⟩, hb⟩ := htr app applied seen rfl
    have hmay : BuiltFrom app (some o) ∨ o.kind ≠ .deployment := hmay
    rcases call_patch hc with rfl | ⟨rfl, e, rfl⟩
    swap
    · exact ⟨hI.frame hp (.refl key w'), htr.frame hp (.refl key w')⟩
    by_cases hkind : o.kind = .deployment
    · obtain ⟨hI', hb', hinf⟩ := hI.applied hp hn hs hv hgen (hmay.resolve_right fun h => h hkind)
      refine ⟨hI', ?_⟩
      rcases a with e | u <;>
      · rintro _ _ _ ⟨⟩
        exact ⟨hn, hs.mono hp, hseen, ⟨v, hinf ▸ hv, hgen⟩, fun _ => hb'⟩
    · have hf : Frame key w (w.apply o) := frame_apply fun h => hkind (congrArg Prod.fst h)
      refine ⟨hI.frame hp hf, ?_⟩
      have hst : Stage.next (going app applied seen) (.patch o) a = going app applied seen := by
        rcases a with e | u
        · rfl
        · simp [Stage.next, hkind]
      rw [hst]
      exact htr.frame hp hf
  | getDeployment k =>
    rw [(call_getDeployment hc).1]
    exact ⟨hI.frame hp (.refl key w), by cases st <;> exact htr.frame hp (.refl key w)⟩
  | now =>
    rw [call_now hc]
    exact ⟨hI.frame hp (.refl key w), by cases st <;> exact htr.frame hp (.refl key w)⟩
  | updateStatus k app' =>
    rcases st with _ | ⟨app, _ | _, seen⟩
    · exact hmay.elim
    · exact hmay.elim
    obtain ⟨rfl, hgen'⟩ : k = key ∧ app'.Status.ObservedGeneration = seen := hmay
    obtain ⟨hn, hs, hseen, ⟨v, hv, hgen⟩, hb⟩ := htr app true seen rfl
    rcases call_updateStatus hc with ⟨rfl, -⟩ | ⟨stored, hstored, -, rfl⟩
    · exact ⟨hI.frame hp (.refl k w'), htr.frame hp (.refl k w')⟩
    have hobs : app'.Status.ObservedGeneration = v.Generation := hgen'.trans (hseen.trans hgen.symm)
    refine ⟨hI.declare hok hp hstored (hpast _ (Function.update_self ..)) le_rfl (fun v' hv' => ?_) fun _ => ?_, ?_⟩
    · -- every version is the cached one or a later one
      show app'.Status.ObservedGeneration ≤ v'.Generation
      rw [hobs]
      rcases List.mem_cons.1 hv' with hv' | hv'
      · cases hv.symm.trans hv'.symm
        exact le_rfl
      · exact (List.pairwise_cons.1 hI.ordered).1 _ hv' v hv v' rfl
    · exact ⟨app, hs, (hgen'.trans hseen).le, hb rfl⟩
    · rintro _ _ _ ⟨⟩
      exact ⟨hn, hs.mono hp, hseen, ⟨v, hv, hgen⟩, hb⟩

/-- A reconcile of another Application. -/
theorem frame_call {key' : NamespacedName} {op : Op} {c : Occurrence} {a : Ans op} (hne : key' ≠ key)
    (hown : Own key' op) (hc : Operator.call op c w = some (a, w')) : Frame key w w' := by
  cases op with
  | getApplication k =>
    rw [(call_getApplication hc).1]
    exact .refl key w
  | getDeployment k =>
    rw [(call_getDeployment hc).1]
    exact .refl key w
  | now =>
    rw [call_now hc]
    exact .refl key w
  | patch o =>
    rcases call_patch hc with rfl | ⟨rfl, -⟩
    swap
    · exact .refl key w'
    obtain ⟨app, hn, ho⟩ := hown
    refine frame_apply fun hk => ?_
    rcases key_of_asked hn ho with ho | ho | ho
    · exact hne (congrArg Prod.snd (ho.symm.trans hk))
    · cases ho.symm.trans hk
    · cases ho.symm.trans hk
  | updateStatus k app =>
    obtain rfl : k = key' := hown
    rcases call_updateStatus hc with ⟨rfl, -⟩ | ⟨stored, -, -, rfl⟩
    · exact .refl key w'
    · exact frame_declare hne _

end

/-! ### Runs -/

/-- Users change the Application by edits of its spec, and its Deployment is written by the operator only. -/
def EditsOnly (key : NamespacedName) (w : Operator) : Occurrence → Prop
  | .declare k app => k = key → ∃ spec, app = (w.cluster.applications key).map (·.edited spec)
  | .write k _ => k ≠ (.deployment, key)
  | _ => True

/-- The next change that the cache of the Applications sees is another generation of the Application. -/
def SeesGeneration (key : NamespacedName) (w : Operator) : Prop :=
  ∃ new es, w.applications.stream = (key, new) :: es ∧
    new.map (·.Generation) ≠ (w.applications.cache key).map (·.Generation)

/-- No reconcile of the Application has made a call and not yet returned. -/
def AtRest (key : NamespacedName) (s : OperatorState) : Prop :=
  ∀ op f, s.workers key = some (.call op f) → Proc.call op f = Reconcile key

/-- The reconcile of the Application follows the protocol. -/
def Following (key : NamespacedName) (past : List OperatorState) (s : OperatorState) : Prop :=
  ∀ p, s.workers key = some p →
    ∃ st, p.Obeys (Stage.May key) Stage.next (fun _ _ => True) st ∧ Stage.Tracks key past st s.world

section
variable {key : NamespacedName} {past past' : List OperatorState} {s s' : OperatorState}

theorem AtRest.following (h : AtRest key s) (hw : s'.workers key = s.workers key) : Following key past s' := by
  intro p hp
  rw [hw] at hp
  refine ⟨fresh, ?_, Stage.tracks_fresh past s'.world⟩
  rcases p with r | ⟨op, f⟩
  · trivial
  · rw [h op f hp]
    exact obeys_Reconcile key

theorem Following.congr (h : Following key past s) (hp : past ⊆ past') (hw : s'.workers key = s.workers key)
    (hgen : (s'.world.applications.cache key).map (·.Generation) = (s.world.applications.cache key).map (·.Generation))
    (hdep : s'.world.cluster.objects (.deployment, key) = s.world.cluster.objects (.deployment, key)) :
    Following key past' s' := by
  intro p hp'
  rw [hw] at hp'
  obtain ⟨st, hob, htr⟩ := h p hp'
  exact ⟨st, hob, htr.congr hp hgen hdep⟩

theorem Following.frame (h : Following key past s) (hp : past ⊆ past') (hw : s'.workers key = s.workers key)
    (hf : Frame key s.world s'.world) : Following key past' s' :=
  h.congr hp hw (by rw [hf.cache]) hf.deployment

/-- What the others write. -/
theorem Inv.env {e : Occurrence} {w' : Operator} (hI : Inv key past s.world) (hok : s.world.Ok) (hp : past ⊆ past')
    (hpast : ∀ app, w'.cluster.applications key = some app → StoredIn key past' app)
    (he : EditsOnly key s.world e) (h : Operator.env e s.world = some w') :
    Inv key past' w' ∧ (w'.applications.cache key = s.world.applications.cache key ∧
      w'.cluster.objects (.deployment, key) = s.world.cluster.objects (.deployment, key)) := by
  have hframe : Frame key s.world w' → Inv key past' w' ∧ (w'.applications.cache key =
      s.world.applications.cache key ∧ w'.cluster.objects (.deployment, key) =
        s.world.cluster.objects (.deployment, key)) := fun hf => ⟨hI.frame hp hf, hf.cache, hf.deployment⟩
  cases e with
  | answer | see => cases h
  | declare k app =>
    simp only [Operator.env] at h
    split_ifs at h
    cases h
    by_cases hk : k = key
    swap
    · exact hframe (frame_declare hk app)
    subst hk
    obtain ⟨spec, rfl⟩ := he rfl
    refine ⟨hI.edit hok hp spec fun app happ => hpast app ?_, rfl, rfl⟩
    rw [← happ]
    exact Function.update_self ..
  | write k o =>
    simp only [Operator.env] at h
    split_ifs at h
    cases h
    have hk : k ≠ (.deployment, key) := he
    obtain ⟨happs, hinf⟩ := s.world.applications_put k o
    refine hframe ⟨?_, ?_, ?_⟩
    · rw [cluster_setDrifted, happs]
    · rw [informer_setDrifted, hinf]
    · rw [cluster_setDrifted, objects_put_of_ne _ (Ne.symm hk)]
  | observe k status =>
    simp only [Operator.env] at h
    split at h <;> cases h
    exact hframe ⟨rfl, rfl, rfl⟩
  | policy refuses =>
    cases h
    exact hframe ⟨rfl, rfl, rfl⟩

/-- Where the cache does not see another generation, it stays at the one it is at. -/
theorem generation_watch {c : Occurrence} {ks : List NamespacedName} {w w' : Operator}
    (h : Operator.watch c w = some (ks, w')) (hno : ¬ (c = .see .application ∧ SeesGeneration key w)) :
    (w'.applications.cache key).map (·.Generation) = (w.applications.cache key).map (·.Generation) := by
  cases c with
  | see watched =>
    cases watched with
    | application =>
      simp only [Operator.watch, Option.map_eq_some_iff] at h
      obtain ⟨⟨⟨k, old, new⟩, i⟩, hi, h⟩ := h
      cases h
      obtain ⟨es, hes, -, rfl⟩ := Informer.next_cases hi
      by_cases hk : key = k
      · subst hk
        by_contra hne
        refine hno ⟨rfl, new, es, hes, ?_⟩
        simpa only [Function.update_self] using hne
      · simp only [Function.update_of_ne hk]
    | deployment | service =>
      simp only [Operator.watch, Option.map_eq_some_iff] at h
      obtain ⟨x, -, h⟩ := h
      cases h
      rfl
  | _ => cases h

/-- Every step keeps the invariant, if the environment makes edits only and the cache sees new generations where
no reconcile is in progress. -/
theorem Inv.step {m : ControlLoop.Step NamespacedName Occurrence} (hsane : Sane s) (hI : Inv key past s.world)
    (hfol : Following key past s) (hedits : ∀ e, m = .env e → EditsOnly key s.world e)
    (hsees : m = .watch (.see .application) → SeesGeneration key s.world → AtRest key s)
    (hm : manager.step s m = some s') :
    Inv key (past ++ [s']) s'.world ∧ Following key (past ++ [s']) s' := by
  have hp : past ⊆ past ++ [s'] := List.subset_append_left ..
  have hpast : ∀ app, s'.world.cluster.applications key = some app → StoredIn key (past ++ [s']) app :=
    fun app happ => ⟨s', by simp, happ⟩
  have hquiet : s'.world = s.world → Inv key (past ++ [s']) s'.world := by
    intro hw
    rw [hw]
    exact hI.frame hp (.refl key s.world)
  cases m with
  | get k =>
    simp only [ControlLoop.step] at hm
    split at hm
    swap
    · cases hm
    split_ifs at hm
    cases hm
    refine ⟨hquiet rfl, ?_⟩
    by_cases hk : key = k
    · subst hk
      intro p hp'
      simp only [Function.update_self, Option.some.injEq] at hp'
      subst hp'
      exact ⟨fresh, obeys_Reconcile key, Stage.tracks_fresh _ _⟩
    · exact hfol.frame hp (Function.update_of_ne hk _ _) (.refl key s.world)
  | call k c =>
    simp only [ControlLoop.step] at hm
    split at hm
    swap
    · cases hm
    rename_i op f hworker
    split at hm
    swap
    · cases hm
    rename_i a w hc
    cases hm
    by_cases hk : key = k
    · subst hk
      obtain ⟨st, hob, htr⟩ := hfol _ hworker
      obtain ⟨hI', htr'⟩ := Stage.call hob.1 htr hI hsane.1 hp hpast hc
      refine ⟨hI', fun p hp' => ?_⟩
      simp only [Function.update_self, Option.some.injEq] at hp'
      subst hp'
      exact ⟨_, hob.2 a, htr'⟩
    · have hf : Frame key s.world w :=
        frame_call (Ne.symm hk) (sound_manager.may_call hsane.1 (hsane.2 k) hworker) hc
      exact ⟨hI.frame hp hf, hfol.frame hp (Function.update_of_ne hk _ _) hf⟩
  | done k =>
    simp only [ControlLoop.step] at hm
    split at hm
    swap
    · cases hm
    cases hm
    refine ⟨hquiet rfl, ?_⟩
    by_cases hk : key = k
    · subst hk
      intro p hp'
      simp only [Function.update_self, reduceCtorEq] at hp'
    · exact hfol.frame hp (Function.update_of_ne hk _ _) (.refl key s.world)
  | fire k =>
    simp only [ControlLoop.step] at hm
    split_ifs at hm
    cases hm
    exact ⟨hquiet rfl, hfol.frame hp rfl (.refl key s.world)⟩
  | env e =>
    simp only [ControlLoop.step, Option.map_eq_some_iff] at hm
    obtain ⟨w, hw, rfl⟩ := hm
    obtain ⟨hI', hcache, hdep⟩ := hI.env hsane.1 hp hpast (hedits e rfl) hw
    exact ⟨hI', hfol.congr hp rfl (by rw [hcache]) hdep⟩
  | watch c =>
    simp only [ControlLoop.step, Option.map_eq_some_iff] at hm
    obtain ⟨⟨ks, w⟩, hw, rfl⟩ := hm
    have hcl := cluster_watch hw
    have hI' : Inv key (past ++ [_]) w :=
      hI.suffix hp (by rw [hcl]) (versions_watch hw key) (by rw [hcl])
    refine ⟨hI', ?_⟩
    by_cases hsee : c = .see .application ∧ SeesGeneration key s.world
    · exact (hsees (by rw [hsee.1]) hsee.2).following rfl
    · exact hfol.congr hp rfl (generation_watch hw hsee) (by rw [hcl])
  | restart =>
    cases hm
    refine ⟨?_, fun p hp' => by cases hp'⟩
    have hmem : ∀ {v}, some v ∈ (Operator.restart s.world).2.applications.versions key →
        s.world.cluster.applications key = some v := fun {v} hv => (List.mem_singleton.1 hv).symm
    have hcur : ∀ {v}, some v ∈ (Operator.restart s.world).2.applications.versions key →
        some v ∈ s.world.applications.versions key := fun hv => hsane.1.current (hmem hv)
    exact ⟨fun v hv => (hI.stored v (hcur hv)).mono hp, List.pairwise_singleton ..,
      fun v hv => hI.bound v (hcur hv), fun v hv => hI.observed v (hcur hv),
      fun app happ hpos => (hI.honest app happ hpos).imp fun a ha => ⟨ha.1.mono hp, ha.2⟩⟩

end

/-- The manager at work on an Application whose status was empty, with edits of its spec at any time, changes of
the status of its Deployment, anything that concerns other Applications, refused and failing calls, and
restarts. If the cache sees new generations of the Application only where no reconcile of it is in progress,
then in every state of the run the Deployment was built from the spec of the generation that is stored as
observed, or of a later one. -/
theorem observed_generation_honest {key : NamespacedName} {c : Cluster}
    {refuses : Option Object → Object → Option GoString}
    (hnamed : ∀ key app, c.applications key = some app → (app.Namespace, app.Name) = key)
    (hstart : ∀ app, c.applications key = some app → 0 ≤ app.Generation ∧ app.Status = emptyStatus)
    {steps : List (ControlLoop.Step NamespacedName Occurrence)} {s : OperatorState}
    (hrun : manager.run (manager.start (unstarted c refuses)) steps = some s)
    (hedits : manager.Along (fun s m => ∀ e, m = .env e → EditsOnly key s.world e)
      (manager.start (unstarted c refuses)) steps)
    (hsees : manager.Along (fun s m => m = .watch (.see .application) → SeesGeneration key s.world → AtRest key s)
      (manager.start (unstarted c refuses)) steps) :
    Honest key (manager.start (unstarted c refuses) :: manager.trail (manager.start (unstarted c refuses)) steps)
      s.world := by
  have hsane : Sane (manager.start (unstarted c refuses)) :=
    sound_manager.settling_run (ok_unstarted hnamed refuses)
      (show manager.run (manager.start (unstarted c refuses)) [] = some _ from rfl)
  have hmem : ∀ {v}, some v ∈ (manager.start (unstarted c refuses)).world.applications.versions key →
      c.applications key = some v := fun hv => (List.mem_singleton.1 hv).symm
  have hI : Inv key [manager.start (unstarted c refuses)] (manager.start (unstarted c refuses)).world := by
    refine ⟨fun v hv => ⟨_, List.mem_singleton.2 rfl, hmem hv⟩, List.pairwise_singleton .., fun v hv app happ => ?_,
      fun v hv app happ => ?_, fun app happ hpos => ?_⟩
    · cases (hmem hv).symm.trans happ
      exact le_rfl
    · cases (hmem hv).symm.trans happ
      rw [(hstart v happ).2]
      exact (hstart v happ).1
    · rw [(hstart app happ).2] at hpos
      exact absurd hpos (lt_irrefl _)
  exact (ControlLoop.run_induction_along (Q := fun past s => Sane s ∧ Inv key past s.world ∧ Following key past s)
    (fun past s s' m hQ hm hstep => ⟨sound_manager.settling_step hQ.1.1 hQ.1.2 hstep,
      hQ.2.1.step hQ.1 hQ.2.2 hm.1 hm.2 hstep⟩)
    ⟨hsane, hI, fun p hp => nomatch hp⟩ (hedits.and hsees) hrun).2.1.honest

/-! ### Edits meanwhile -/

def sampleEdit (spec : ApplicationSpec) : ControlLoop.Step NamespacedName Occurrence :=
  .env (.declare sampleKey (some ⟨"payments", "default", "uid-1", 2, 2, spec, emptyStatus⟩))

/-- A reconcile has applied the Deployment of the first generation. -/
def sampleApplied : List (ControlLoop.Step NamespacedName Occurrence) :=
  .get sampleKey :: sampleCalls (List.replicate 2 .served)

/-- The reconcile goes on and fails. -/
def sampleFailed : List (ControlLoop.Step NamespacedName Occurrence) :=
  sampleCalls [.served, .served, .refused "timeout"] ++ [.done sampleKey]

/-- The Application is reconciled again, and its status is written. -/
def sampleAgain : List (ControlLoop.Step NamespacedName Occurrence) :=
  .fire sampleKey :: .get sampleKey :: .watch (.see .deployment) ::
    sampleCalls [.served, .served, .served, .served, .served, .served, .time 7, .served]

/-- The replicas are edited while the Application is reconciled, and the cache does not see it yet. -/
def editedUnseen : List (ControlLoop.Step NamespacedName Occurrence) :=
  sampleApplied ++ sampleEdit { sampleSpec true with Replicas := 2 } :: sampleFailed

def editedMeanwhile : List (ControlLoop.Step NamespacedName Occurrence) :=
  editedUnseen ++ .watch (.see .application) :: sampleAgain

/-- The edit of a run is one, where the Application is still the first. -/
theorem editsOnly_sampleEdit {w : Operator} (spec : ApplicationSpec)
    (h : w.cluster.applications sampleKey = sampleCluster.applications sampleKey)
    {e : Occurrence} (he : sampleEdit spec = .env e) : EditsOnly sampleKey w e := by
  cases he
  refine fun _ => ⟨spec, ?_⟩
  rw [h]
  rfl

theorem observed_generation_sample :
    ∃ s app, manager.run (manager.start (unstarted sampleCluster keepsSelectors)) editedMeanwhile = some s ∧
      s.world.cluster.applications sampleKey = some app ∧ app.Status.ObservedGeneration = 2 ∧
      Honest sampleKey (manager.start (unstarted sampleCluster keepsSelectors) ::
        manager.trail (manager.start (unstarted sampleCluster keepsSelectors)) editedMeanwhile) s.world := by
  have h : ((manager.run (manager.start (unstarted sampleCluster keepsSelectors)) editedMeanwhile).bind fun s =>
      (s.world.cluster.applications sampleKey).map fun app => app.Status.ObservedGeneration) = some 2 := by
    decide +kernel
  obtain ⟨s, hs, h⟩ := Option.bind_eq_some_iff.1 h
  obtain ⟨app, happ, hobs⟩ := Option.map_eq_some_iff.1 h
  refine ⟨s, app, hs, happ, hobs, observed_generation_honest named_sampleCluster ?_ hs ?_ ?_⟩
  · intro app happ
    cases happ
    exact ⟨by decide, rfl⟩
  · refine .append (.append (.of_mem fun s m hm e he => ?_) fun s' hs' =>
      ⟨fun e he => editsOnly_sampleEdit _ ?_ he, fun s'' _ => .of_mem fun s m hm e he => ?_⟩)
      fun s' _ => .of_mem fun s m hm e he => ?_
    · subst he
      simp [sampleApplied, sampleCalls] at hm
    · have h : (manager.run (manager.start (unstarted sampleCluster keepsSelectors)) sampleApplied).map
          (fun s => s.world.cluster.applications sampleKey) = some (sampleCluster.applications sampleKey) := by
        decide +kernel
      rw [hs'] at h
      exact Option.some.inj h
    · subst he
      simp [sampleFailed, sampleCalls] at hm
    · subst he
      simp [sampleAgain, sampleCalls] at hm
  · -- the cache sees the edit after the reconcile has ended
    refine .append (.of_mem fun s m hm hsee => ?_) fun s' hs' =>
      ⟨fun _ _ op f hworker => ?_, fun s'' _ => .of_mem fun s m hm hsee => ?_⟩
    · subst hsee
      simp [editedUnseen, sampleApplied, sampleFailed, sampleCalls, sampleEdit] at hm
    · have h : (manager.run (manager.start (unstarted sampleCluster keepsSelectors)) editedUnseen).map
          (fun s => (s.workers sampleKey).isNone) = some true := by
        decide +kernel
      rw [hs', Option.map_some, hworker] at h
      cases h
    · subst hsee
      simp [sampleAgain, sampleCalls] at hm

/-- The replicas are ready, the image is edited while the Application is reconciled, and the cache sees it before
the status is written. -/
def editedWithin : List (ControlLoop.Step NamespacedName Occurrence) :=
  .get sampleKey :: sampleCalls (List.replicate 4 .served) ++
    [.env (.observe sampleKey ⟨3, 3⟩), .watch (.see .deployment), .watch (.see .deployment)] ++
    sampleCalls [.served]

def seenWithin : List (ControlLoop.Step NamespacedName Occurrence) :=
  .watch (.see .application) :: sampleCalls [.served, .time 7, .served]

theorem observed_unapplied :
    ∃ s app, manager.run (manager.start (unstarted sampleCluster keepsSelectors))
        (editedWithin ++ sampleEdit { sampleSpec true with Image := "ghcr.io/acme/payments:2.0" } :: seenWithin) =
        some s ∧
      manager.Along (fun s m => ∀ e, m = .env e → EditsOnly sampleKey s.world e)
        (manager.start (unstarted sampleCluster keepsSelectors))
        (editedWithin ++ sampleEdit { sampleSpec true with Image := "ghcr.io/acme/payments:2.0" } :: seenWithin) ∧
      s.world.cluster.applications sampleKey = some app ∧ app.Status.ObservedGeneration = 2 ∧
      app.Status.Phase = str "Ready" ∧
      ¬ Honest sampleKey (manager.start (unstarted sampleCluster keepsSelectors) ::
        manager.trail (manager.start (unstarted sampleCluster keepsSelectors)) (editedWithin ++
          sampleEdit { sampleSpec true with Image := "ghcr.io/acme/payments:2.0" } :: seenWithin)) s.world := by
  have h : ((manager.run (manager.start (unstarted sampleCluster keepsSelectors)) (editedWithin ++
      sampleEdit { sampleSpec true with Image := "ghcr.io/acme/payments:2.0" } :: seenWithin)).bind fun s =>
        (s.world.cluster.applications sampleKey).map fun app => (app.Status.ObservedGeneration, app.Status.Phase,
          (manager.start (unstarted sampleCluster keepsSelectors) ::
            manager.trail (manager.start (unstarted sampleCluster keepsSelectors)) (editedWithin ++
              sampleEdit { sampleSpec true with Image := "ghcr.io/acme/payments:2.0" } :: seenWithin)).all fun s₁ =>
            (s₁.world.cluster.applications sampleKey).all fun a =>
              decide (a.Generation < 2) || decide ((desiredDeployment a).map (fun d => ownedDeployment a d) ≠
                s.world.cluster.objects (.deployment, sampleKey)))) =
      some (2, str "Ready", true) := by decide +kernel
  obtain ⟨s, hs, h⟩ := Option.bind_eq_some_iff.1 h
  obtain ⟨app, happ, heq⟩ := Option.map_eq_some_iff.1 h
  obtain ⟨hobs, hphase, hall⟩ : _ = (2 : Int) ∧ _ = str "Ready" ∧ _ = true := by
    simpa only [Prod.mk.injEq] using heq
  refine ⟨s, app, hs, ?_, happ, hobs, hphase, fun hhonest => ?_⟩
  · refine .append (.of_mem fun s m hm e he => ?_) fun s' hs' =>
      ⟨fun e he => editsOnly_sampleEdit _ ?_ he, fun s'' _ => .of_mem fun s m hm e he => ?_⟩
    · subst he
      simp only [editedWithin, sampleCalls, List.map_replicate, List.cons_append, List.mem_cons, List.mem_append,
        List.mem_replicate, reduceCtorEq, and_false, ControlLoop.Step.env.injEq, List.map_cons, List.map_nil,
        List.not_mem_nil, or_false, false_or] at hm
      subst hm
      trivial
    · have h : (manager.run (manager.start (unstarted sampleCluster keepsSelectors)) editedWithin).map
          (fun s => s.world.cluster.applications sampleKey) = some (sampleCluster.applications sampleKey) := by
        decide +kernel
      rw [hs'] at h
      exact Option.some.inj h
    · subst he
      simp [seenWithin, sampleCalls] at hm
  · obtain ⟨a, ⟨s₁, hs₁, ha⟩, hle, d, hd, ho⟩ := hhonest app happ (by omega)
    have hno := List.all_eq_true.1 hall s₁ hs₁
    rw [ha, Option.all_some, hd, ho] at hno
    simp only [Option.map_some, ne_eq, not_true_eq_false, decide_false, Bool.or_false, decide_eq_true_eq] at hno
    omega

end Forge.Controller
