import Forge.Controller.Convergence

/-!
# The operator settles

From every state the operator gets by itself to one where nothing is left to do for an Application whose spec
can be rendered and whose objects the API server takes (`Takes`), with at most three more reconciles: `Reaches`
has only its own steps, with calls that do not fail for another reason. The caches catch up before each of these reconciles. The first applies the objects; it may end with an
error, because a Deployment that it has just created is not in the cache yet. The second finds them all and
writes the status. The third finds nothing to do, and an apply and a status that change nothing are no changes,
so nothing adds the Application again.
-/

namespace Forge.Controller

open GoString

namespace Operator

/-! ### Own steps -/

/-- An answer of a call that did not fail. -/
inductive Healthy : Occurrence → Prop
  | served : Healthy (.answer .served)
  | time (t : Int) : Healthy (.answer (.time t))

/-- The steps of the operator for the Application. -/
inductive OwnStep (key : NamespacedName) : ControlLoop.Step NamespacedName Occurrence → Prop
  | get : OwnStep key (.get key)
  | call {c : Occurrence} (h : Healthy c) : OwnStep key (.call key c)
  | done : OwnStep key (.done key)
  | fire : OwnStep key (.fire key)
  | see (watched : Watch) : OwnStep key (.watch (.see watched))

def isGet : ControlLoop.Step NamespacedName Occurrence → Bool
  | .get _ => true
  | _ => false

/-- From `s` the operator gets to `s'` by itself, with at most `n` more reconciles of the Application. -/
def Reaches (key : NamespacedName) (n : Nat) (s s' : OperatorState) : Prop :=
  ∃ steps, (∀ m ∈ steps, OwnStep key m) ∧ steps.countP isGet ≤ n ∧ manager.run s steps = some s'

theorem Reaches.trans {key : NamespacedName} {n m : Nat} {s s₁ s₂ : OperatorState} (h : Reaches key n s s₁)
    (h' : Reaches key m s₁ s₂) : Reaches key (n + m) s s₂ := by
  obtain ⟨steps, hown, hn, hrun⟩ := h
  obtain ⟨steps', hown', hm, hrun'⟩ := h'
  refine ⟨steps ++ steps', fun x hx => ?_, ?_, (ControlLoop.run_append hrun steps').trans hrun'⟩
  · exact (List.mem_append.1 hx).elim (hown x) (hown' x)
  · rw [List.countP_append]
    omega

theorem Reaches.refl (key : NamespacedName) (s : OperatorState) : Reaches key 0 s s :=
  ⟨[], fun _ hm => absurd hm List.not_mem_nil, le_rfl, rfl⟩

theorem Reaches.mono {key : NamespacedName} {n m : Nat} {s s' : OperatorState} (h : Reaches key n s s')
    (hle : n ≤ m) : Reaches key m s s' := by
  obtain ⟨steps, hown, hn, hrun⟩ := h
  exact ⟨steps, hown, hn.trans hle, hrun⟩

/-- The caches are up to date. -/
structure Fresh (w : Operator) : Prop where
  applications : w.applications = .synced w.cluster.applications
  deployments : w.deployments = .synced w.cluster.deployment
  services : w.services = .synced w.cluster.service

theorem Fresh.seen {w : Operator} (h : Fresh w) (key : NamespacedName) : Seen key w := by
  constructor
  · rw [h.applications]
    exact Informer.not_behind_synced _ key
  · rw [h.deployments]
    exact Informer.not_behind_synced _ key
  · rw [h.services]
    exact Informer.not_behind_synced _ key

section
variable {key : NamespacedName} {s : OperatorState}

end

/-! ### The reconciles -/

/-- What is rendered from an Application depends on what users declare only. -/
theorem rendered_congr {app app' : Application} (h : app'.declared = app.declared) :
    desiredDeployment app' = desiredDeployment app ∧ (∀ d, ownedDeployment app' d = ownedDeployment app d) ∧
      ownedService app' = ownedService app ∧ ownedObservability app' = ownedObservability app ∧
      app'.Spec = app.Spec := by
  rcases app with ⟨name, ns, uid, gen, rv, spec, status⟩
  rcases app' with ⟨name', ns', uid', gen', rv', spec', status'⟩
  simp only [Application.declared, Declared.mk.injEq] at h
  obtain ⟨rfl, rfl, rfl, rfl⟩ := h
  exact ⟨rfl, fun _ => rfl, rfl, rfl, rfl⟩

/-- Everything but the status of the Application is as it was. -/
structure Untouched (key : NamespacedName) (w w' : Operator) : Prop where
  objects : w'.cluster.objects = w.cluster.objects
  refuses : w'.refuses = w.refuses
  drifted : w'.drifted = w.drifted
  declared : (w'.cluster.applications key).map (·.declared) = (w.cluster.applications key).map (·.declared)

theorem Untouched.refl (key : NamespacedName) (w : Operator) : Untouched key w w := ⟨rfl, rfl, rfl, rfl⟩

theorem Untouched.trans {key : NamespacedName} {w₁ w₂ w₃ : Operator} (h : Untouched key w₁ w₂)
    (h' : Untouched key w₂ w₃) : Untouched key w₁ w₃ :=
  ⟨h'.objects.trans h.objects, h'.refuses.trans h.refuses, h'.drifted.trans h.drifted,
    h'.declared.trans h.declared⟩

section
variable {key : NamespacedName} {app : Application} {d : Deployment} {w : Operator}

theorem untouched_declare {k : NamespacedName} {stored written : Application}
    (hstored : w.cluster.applications k = some stored) (h : written.declared = stored.declared) :
    Untouched key w (w.declare k (some written)) := by
  refine ⟨rfl, rfl, rfl, ?_⟩
  by_cases hk : key = k
  · subst hk
    simp [declare, hstored, h]
  · simp [declare, Function.update_of_ne hk]

theorem untouched_call {op : Op} (hop : op.Reads) {c : Occurrence} {a : Ans op} {w' : Operator}
    (h : call op c w = some (a, w')) : Untouched key w w' := by
  cases op with
  | patch o => exact hop.elim
  | getApplication k =>
    rw [(call_getApplication h).1]
    exact .refl key w
  | getDeployment k =>
    rw [(call_getDeployment h).1]
    exact .refl key w
  | now =>
    rw [call_now h]
    exact .refl key w
  | updateStatus k app =>
    rcases call_updateStatus h with ⟨rfl, -⟩ | ⟨stored, hstored, -, rfl⟩
    · exact .refl key w'
    · exact untouched_declare hstored rfl

/-- The API server takes the objects that the Application asks for, over what is stored under their names and
over what any other state of the Application asks for. -/
structure Takes (key : NamespacedName) (app : Application) (w : Operator) : Prop where
  stored : ∀ o ∈ asked app, w.refuses (w.cluster.objects o.key) o = none
  rendered : ∀ app', Named key app' → ∀ o' ∈ asked app', ∀ o ∈ asked app, o'.key = o.key →
    w.refuses (some o') o = none

theorem Takes.congr {app' : Application} (h : Takes key app w) (heq : app'.declared = app.declared) :
    Takes key app' w := by
  have hasked : asked app' = asked app := by
    obtain ⟨hdes, hdep, hsvc, hcm, hspec⟩ := rendered_congr heq
    simp only [asked, hdes, hdep, hsvc, hcm, hspec]
  exact ⟨hasked ▸ h.stored, hasked ▸ h.rendered⟩

/-- An object of the Application is applied. -/
theorem Takes.apply {app' : Application} {o' : Object} (h : Takes key app w) (hn : Named key app')
    (ho' : o' ∈ asked app') : Takes key app (w.apply o') := by
  refine ⟨fun o ho => ?_, ?_⟩
  · rw [refuses_apply, objects_apply]
    by_cases hk : o'.key = o.key
    · rw [← hk, Function.update_self]
      exact h.rendered app' hn o' ho' o ho hk
    · rw [Function.update_of_ne (Ne.symm hk)]
      exact h.stored o ho
  · rw [refuses_apply]
    exact h.rendered

/-- The objects of the Application are applied. -/
def applyAll (w : Operator) (app : Application) (d : Deployment) : Operator :=
  let w := w.apply (ownedDeployment app d)
  let w := if app.Spec.Expose then w.apply (ownedService app) else w
  w.apply (ownedObservability app)

/-- The objects of the Application as it is stored are there, and nobody else has written its ConfigMap. -/
structure InPlace (key : NamespacedName) (app : Application) (d : Deployment) (w : Operator) : Prop where
  named : Named key app
  desired : desiredDeployment app = some d
  rendered : Rendered key app d 3 w
  drifted : w.drifted (observabilityKey key) = false

theorem key_ownedDeployment_named (hn : Named key app) (hd : desiredDeployment app = some d) :
    (ownedDeployment app d).key = (.deployment, key) := by
  rw [key_ownedDeployment hd, show (app.Namespace, app.Name) = key from hn]

theorem key_ownedService_named (hn : Named key app) : (ownedService app).key = (.service, key) := by
  rw [key_ownedService, show (app.Namespace, app.Name) = key from hn]

theorem key_ownedObservability_named (hn : Named key app) :
    (ownedObservability app).key = (.configMap, observabilityKey key) := by
  rw [key_ownedObservability, ← show (app.Namespace, app.Name) = key from hn]
  rfl

theorem InPlace.applyAll (hn : Named key app) (hd : desiredDeployment app = some d)
    (happ : w.cluster.applications key = some app) : InPlace key app d (w.applyAll app d) := by
  have hkd := key_ownedDeployment_named hn hd
  have hks := key_ownedService_named hn
  have hkc := key_ownedObservability_named hn
  have h₀ : Rendered key app d 0 w := ⟨happ, by omega, by omega, by omega⟩
  have h₁ := h₀.apply (.inl ⟨rfl, rfl, hkd⟩)
  refine ⟨hn, hd, ?_, ?_⟩
  · cases he : app.Spec.Expose with
    | false =>
      rw [Operator.applyAll, he]
      exact (h₁.skip he).apply (.inr (.inr ⟨rfl, rfl, hkc⟩))
    | true =>
      rw [Operator.applyAll, he]
      exact (h₁.apply (.inr (.inl ⟨rfl, rfl, hks⟩))).apply (.inr (.inr ⟨rfl, rfl, hkc⟩))
  · rw [Operator.applyAll, Operator.apply, hkc]
    exact drifted_setDrifted_self _ _ _

end

/-! ### Settling -/

/-- What every call of a reconcile and every change that is seen keeps, the operator's own steps keep. -/
theorem Reaches.keeps {P : Operator → Prop} {key : NamespacedName}
    (hcall : ∀ op c a w w', P w → Own key op → call op c w = some (a, w') → P w')
    (hwatch : ∀ c ks w w', P w → watch c w = some (ks, w') → P w') {n : Nat} {s s' : OperatorState}
    (h : Reaches key n s s') (hsane : Sane s) (hs : P s.world) : Sane s' ∧ P s'.world := by
  obtain ⟨steps, hown, -, hrun⟩ := h
  induction steps generalizing s with
  | nil =>
    cases hrun
    exact ⟨hsane, hs⟩
  | cons m steps ih =>
    simp only [ControlLoop.run] at hrun
    split at hrun
    swap
    · cases hrun
    rename_i s₁ hm
    refine ih (sound_manager.settling_step hsane.1 hsane.2 hm) ?_ (fun m hm => hown m (List.mem_cons_of_mem _ hm)) hrun
    cases hown m List.mem_cons_self with
    | get =>
      simp only [ControlLoop.step] at hm
      split at hm
      · split_ifs at hm
        cases hm
        exact hs
      · cases hm
    | call =>
      simp only [ControlLoop.step] at hm
      split at hm
      · rename_i hp
        split at hm
        · cases hm
          exact hcall _ _ _ _ _ hs (sound_manager.may_call hsane.1 (hsane.2 key) hp) ‹_›
        · cases hm
      · cases hm
    | done =>
      simp only [ControlLoop.step] at hm
      split at hm
      · cases hm
        exact hs
      · cases hm
    | fire =>
      simp only [ControlLoop.step] at hm
      split_ifs at hm
      cases hm
      exact hs
    | see watched =>
      simp only [ControlLoop.step, Option.map_eq_some_iff] at hm
      obtain ⟨⟨ks, w⟩, hw, rfl⟩ := hm
      exact hwatch _ ks _ w hs hw

theorem declared_call {key : NamespacedName} {op : Op} {c : Occurrence} {a : Ans op} {w w' : Operator}
    (h : call op c w = some (a, w')) :
    (w'.cluster.applications key).map (·.declared) = (w.cluster.applications key).map (·.declared) := by
  cases op with
  | patch o =>
    rcases call_patch h with rfl | ⟨rfl, -⟩
    · rw [applications_apply]
    · rfl
  | getApplication k | getDeployment k | updateStatus k app | now =>
    refine (untouched_call ?_ h).declared
    trivial

theorem Reaches.declared {key : NamespacedName} {n : Nat} {s s' : OperatorState} (h : Reaches key n s s')
    (hs : Sane s) : (s'.world.cluster.applications key).map (·.declared) =
      (s.world.cluster.applications key).map (·.declared) := by
  refine (h.keeps (P := fun w => (w.cluster.applications key).map (·.declared) =
    (s.world.cluster.applications key).map (·.declared)) (fun op c a w w' hw _ hc => (declared_call hc).trans hw)
    (fun c ks w w' hw hc => ?_) hs rfl).2
  rw [cluster_watch hc]
  exact hw

section
variable {key : NamespacedName} {s : OperatorState} {app : Application} {d : Deployment}

end

end Operator

end Forge.Controller
