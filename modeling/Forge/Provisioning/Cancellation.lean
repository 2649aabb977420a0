import Mathlib.Data.Nat.Find
import Forge.Provisioning.Rollback

/-!
# Cancelled provisioning runs

`saga.compensate` runs the compensations on the context of the workflow. Once that context is cancelled,
every activity executed on it returns a cancellation error without running (`Cancellable.call`), the
compensations too. So a run that is cancelled after an activity took effect and before the last one has
answered leaves what it has created so far, and these are the only runs that do
(`cancelled_run_clean_iff`).
-/

namespace Forge.Provisioning

open GoString

/-- The provisioner, and whether the context of the workflow is cancelled. -/
structure Cancellable where
  prov : SimulatedProvisioner
  cancelled : Bool

/-- Where the cancellation falls with respect to an activity: not before its answer, before its start, or
while it runs. In the last case the workflow no longer waits for it, and it may or may not take effect. -/
inductive Timing
  | ran
  | before
  | during (took : Bool)
deriving DecidableEq

/-- The activity takes effect. -/
def Timing.took : Timing → Bool
  | ran => true
  | before => false
  | during took => took

/-- The text of `temporal.CanceledError`. -/
def canceled : Err := .ext "canceled"

/-- An activity executed on the context of the workflow. It does not fail by itself other than as the
provisioner says. -/
def Cancellable.call : Env Activity (fun _ => Except Err GoString) Timing Cancellable := fun a t w =>
  if w.cancelled then some (.error canceled, w)
  else match t with
    | .ran => some ((a.run w.prov).1.mapError .ext, ⟨(a.run w.prov).2, false⟩)
    | .before => some (.error canceled, ⟨w.prov, true⟩)
    | .during took => some (.error canceled, ⟨if took then (a.run w.prov).2 else w.prov, true⟩)

/-- A run that ended well: with success and everything there, or with an error and nothing left. -/
def CleanEnd (inp : ProvisionTenantInput) (res : Except Err ProvisionTenantResult) (env : TenantEnv) : Prop :=
  (∃ out, res = .ok out) ∧ env = ⟨true, some inp.MaxServices, true, true⟩ ∨
    (∃ err, res = .error err) ∧ env = .nothing

/-! ### Activities before the cancellation -/

/-- The provisioner after these activities. -/
def runAll (p : SimulatedProvisioner) (l : List (Saga.Step Activity)) : SimulatedProvisioner :=
  l.foldl (fun p s => (s.op.run p).2) p

theorem completes_ran {p : SimulatedProvisioner} {l : List (Saga.Step Activity)}
    (h : ∀ s ∈ l, s.op.works p = true) :
    Saga.Completes Cancellable.call l (List.replicate l.length .ran) (l.map (·.op.result)) ⟨p, false⟩
      ⟨runAll p l, false⟩ := by
  induction l generalizing p with
  | nil => exact .nil _
  | cons s l ih =>
    simp only [List.forall_mem_cons] at h
    refine .cons ?_ (ih fun t ht => ?_)
    · simp [Cancellable.call, s.op.run_works p h.1, Except.mapError]
    · rw [s.op.works_run p]
      exact h.2 t ht

theorem works_runAll (p : SimulatedProvisioner) (l : List (Saga.Step Activity)) (a : Activity) :
    a.works (runAll p l) = a.works p := by
  induction l generalizing p with
  | nil => rfl
  | cons s l ih => exact (ih (s.op.run p).2).trans (s.op.works_run p a)

theorem tenant_runAll {p : SimulatedProvisioner} {slug : GoString} {l : List (Saga.Step Activity)}
    (h : ∀ s ∈ l, s.op.works p = true ∧ s.op.slug = slug) :
    (runAll p l).tenant slug = l.foldl (fun t s => s.op.effect t) (p.tenant slug) := by
  induction l generalizing p with
  | nil => rfl
  | cons s l ih =>
    simp only [List.forall_mem_cons] at h
    have hl : ∀ t ∈ l, t.op.works (s.op.run p).2 = true ∧ t.op.slug = slug := fun t ht => by
      rw [s.op.works_run p]
      exact h.2 t ht
    have hs := s.op.tenant_run p h.1.1 slug
    rw [if_pos h.1.2] at hs
    rw [List.foldl_cons, ← hs]
    exact ih hl

theorem steps_work (inp : ProvisionTenantInput) {p : SimulatedProvisioner} (hdns : p.FailRegisterDNS = false) :
    ∀ s ∈ inp.steps, s.op.works p = true ∧ s.op.slug = inp.Slug := by
  simp [ProvisionTenantInput.steps, Activity.works, Activity.slug, hdns]

/-! ### The cancellation -/

theorem call_cancelled {p : SimulatedProvisioner} (a : Activity) {t : Timing} (ht : t ≠ .ran) :
    Cancellable.call a t ⟨p, false⟩ =
      some (.error canceled, ⟨if t.took then (a.run p).2 else p, true⟩) := by
  rcases t with _ | _ | took
  · exact absurd rfl ht
  · rfl
  · rfl

theorem first_cancelled (f : Nat → Timing) :
    (∀ i < 5, f i = .ran) ∨ ∃ k < 5, (∀ i < k, f i = .ran) ∧ f k ≠ .ran := by
  by_cases h : ∃ k, f k ≠ .ran
  · have hmin : ∀ i < Nat.find h, f i = .ran := fun i hi => not_not.1 (Nat.find_min h hi)
    rcases Nat.lt_or_ge (Nat.find h) 5 with hk | hk
    · exact .inr ⟨Nat.find h, hk, hmin, Nat.find_spec h⟩
    · exact .inl fun i hi => hmin i (Nat.lt_of_lt_of_le hi hk)
  · exact .inl fun i _ => not_not.1 fun hi => h ⟨i, hi⟩

theorem map_range_ran {f : Nat → Timing} {k : Nat} (h : ∀ i < k, f i = .ran) :
    (List.range k).map f = List.replicate k .ran := by
  rw [List.eq_replicate_iff]
  refine ⟨by simp, fun t ht => ?_⟩
  obtain ⟨i, hi, rfl⟩ := List.mem_map.1 ht
  exact h i (List.mem_range.1 hi)

/-- A run that is not cancelled before its last answer. -/
theorem exec_ran (inp : ProvisionTenantInput) {p : SimulatedProvisioner} (hdns : p.FailRegisterDNS = false) :
    ∃ out w, (ProvisionTenantWorkflow inp).exec Cancellable.call (List.replicate 5 .ran) ⟨p, false⟩ =
        some (.ok out, w) ∧
      w.prov.tenant inp.Slug = inp.steps.foldl (fun t s => s.op.effect t) (p.tenant inp.Slug) := by
  have hdone := completes_ran fun s hs => (steps_work inp hdns s hs).1
  have hrun := Proc.exec_append (Saga.exec_run_done hdone [] []) (fun r => .ret (finish r)) []
  rw [List.append_nil, ← ProvisionTenantWorkflow_eq] at hrun
  exact ⟨_, _, hrun, tenant_runAll (steps_work inp hdns)⟩

/-- A run that is cancelled at its `k`-th activity. The compensations are executed and do not run. -/
theorem exec_cancelled (inp : ProvisionTenantInput) {p : SimulatedProvisioner} (hdns : p.FailRegisterDNS = false)
    {k : Nat} (hk : k < 5) {s : Saga.Step Activity} (hs : inp.steps[k]? = some s) {t : Timing} (ht : t ≠ .ran)
    {ts : List Timing} (hts : ts.length = k) :
    ∃ err w, (ProvisionTenantWorkflow inp).exec Cancellable.call (List.replicate k .ran ++ t :: ts) ⟨p, false⟩ =
        some (.error err, w) ∧
      w.prov.tenant inp.Slug =
        if t.took then s.op.effect ((inp.steps.take k).foldl (fun t s => s.op.effect t) (p.tenant inp.Slug))
        else (inp.steps.take k).foldl (fun t s => s.op.effect t) (p.tenant inp.Slug) := by
  obtain ⟨hlt, hget⟩ := List.getElem?_eq_some_iff.1 hs
  have hsteps : inp.steps = inp.steps.take k ++ s :: inp.steps.drop (k + 1) := by
    rw [← hget, ← List.drop_eq_getElem_cons hlt, List.take_append_drop]
  have htake : ∀ x ∈ inp.steps.take k, x.op.works p = true ∧ x.op.slug = inp.Slug := fun x hx =>
    steps_work inp hdns x (List.mem_of_mem_take hx)
  have hdone := completes_ran fun x hx => (htake x hx).1
  rw [List.length_take, Nat.min_eq_left hlt.le] at hdone
  have hlen : ts.length = (Saga.undos (inp.steps.take k) []).length := by
    rw [undos_take inp hk, hts]
    interval_cases k <;> rfl
  have hrun := Proc.exec_append
    (Saga.exec_run_failed hdone (call_cancelled s.op ht) (fun u c => ⟨_, rfl⟩) hlen (inp.steps.drop (k + 1)) [])
    (fun r => .ret (finish r)) []
  rw [List.append_nil, ← hsteps, ← ProvisionTenantWorkflow_eq] at hrun
  refine ⟨_, _, hrun, ?_⟩
  -- the activity that was running sees the provisioner after the completed ones
  obtain ⟨hworks, hslug⟩ := steps_work inp hdns s (List.mem_of_getElem? hs)
  have hworks' : s.op.works (runAll p (inp.steps.take k)) = true := (works_runAll p _ s.op).trans hworks
  dsimp only
  rw [← tenant_runAll htake]
  split
  · rw [s.op.tenant_run _ hworks', if_pos hslug]
  · rfl

/-- What is left when the compensations do not run. -/
theorem effects_nothing_iff {inp : ProvisionTenantInput} {k : Nat} (hk : k < 5) {s : Saga.Step Activity}
    (hs : inp.steps[k]? = some s) (b : Bool) :
    (if b then s.op.effect ((inp.steps.take k).foldl (fun t s => s.op.effect t) .nothing)
      else (inp.steps.take k).foldl (fun t s => s.op.effect t) .nothing) = .nothing ↔ k = 0 ∧ b = false := by
  interval_cases k <;> cases hs <;> cases b <;>
    simp [ProvisionTenantInput.steps, Activity.effect, TenantEnv.nothing]

/-- A run with activities that do not fail by themselves, cancelled or not at any point, ends. Starting
from nothing it ends with everything there and success or with nothing left and an error, exactly if the
cancellation comes before the first activity takes effect or not before the last one has answered. -/
theorem cancelled_run_clean_iff (inp : ProvisionTenantInput) (p : SimulatedProvisioner)
    (hnone : p.tenant inp.Slug = .nothing) (hdns : p.FailRegisterDNS = false) (f : Nat → Timing) :
    ∃ n res w, (ProvisionTenantWorkflow inp).exec Cancellable.call ((List.range n).map f) ⟨p, false⟩ =
        some (res, w) ∧
      (CleanEnd inp res (w.prov.tenant inp.Slug) ↔
        (∀ i < 5, f i = .ran) ∨ f 0 = .before ∨ f 0 = .during false) := by
  rcases first_cancelled f with hran | ⟨k, hk, hran, hcancel⟩
  · obtain ⟨out, w, hexec, hw⟩ := exec_ran inp hdns
    refine ⟨5, _, w, by rw [map_range_ran hran, hexec], fun _ => .inl hran, fun _ => .inl ⟨⟨out, rfl⟩, ?_⟩⟩
    rw [hw, hnone]
    rfl
  · obtain ⟨s, hs⟩ : ∃ s, inp.steps[k]? = some s := ⟨_, List.getElem?_eq_getElem hk⟩
    have hlen : (((List.range k).map (k + 1 + ·)).map f).length = k := by simp
    obtain ⟨err, w, hexec, hw⟩ := exec_cancelled inp hdns hk hs hcancel hlen
    refine ⟨k + 1 + k, .error err, w, ?_, ?_⟩
    · rw [List.range_add, List.map_append, List.range_succ, List.map_append, map_range_ran hran,
        List.append_assoc]
      exact hexec
    · -- the run has failed, so nothing may be left
      have hclean : CleanEnd inp (.error err) (w.prov.tenant inp.Slug) ↔ k = 0 ∧ (f k).took = false := by
        rw [← effects_nothing_iff hk hs, ← hnone, ← hw]
        simp [CleanEnd, hnone]
      rw [hclean]
      constructor
      · rintro ⟨rfl, htook⟩
        rcases hf : f 0 with _ | _ | took
        · exact absurd hf hcancel
        · exact .inr (.inl rfl)
        · rw [hf] at htook
          exact .inr (.inr (congrArg Timing.during htook))
      · intro h
        have htook : (f 0).took = false := by
          rcases h with h | h | h
          · exact absurd (h k hk) hcancel
          · rw [h]; rfl
          · rw [h]; rfl
        rcases Nat.eq_zero_or_pos k with rfl | hpos
        · exact ⟨rfl, htook⟩
        · rw [hran 0 hpos] at htook
          cases htook

/-- Cancelled while the namespace is being created, which does not take effect any more; and cancelled after the
last activity has answered. -/
theorem cancelled_run_clean_sample :
    NewSimulatedProvisioner.tenant "acme" = .nothing ∧
      (∃ n res w, (ProvisionTenantWorkflow ⟨"acme", 10⟩).exec Cancellable.call
          ((List.range n).map fun i => if i = 0 then .during false else .ran) ⟨NewSimulatedProvisioner, false⟩ =
            some (res, w) ∧
        CleanEnd ⟨"acme", 10⟩ res (w.prov.tenant "acme")) ∧
      ∃ n res w, (ProvisionTenantWorkflow ⟨"acme", 10⟩).exec Cancellable.call
          ((List.range n).map fun i => if i < 5 then .ran else .before) ⟨NewSimulatedProvisioner, false⟩ =
            some (res, w) ∧
        CleanEnd ⟨"acme", 10⟩ res (w.prov.tenant "acme") := by
  obtain ⟨n, res, w, hexec, hiff⟩ := cancelled_run_clean_iff ⟨"acme", 10⟩ NewSimulatedProvisioner rfl rfl
    fun i => if i = 0 then .during false else .ran
  obtain ⟨n', res', w', hexec', hiff'⟩ := cancelled_run_clean_iff ⟨"acme", 10⟩ NewSimulatedProvisioner rfl rfl
    fun i => if i < 5 then .ran else .before
  exact ⟨rfl, ⟨n, res, w, hexec, hiff.2 (.inr (.inr rfl))⟩, n', res', w', hexec', hiff'.2 (.inl fun i hi => if_pos hi)⟩

/-- Cancelled after the namespace was created: deleting it is the one compensation, and it does not run. -/
theorem cancelled_run_leaks_namespace :
    ∃ err w, (ProvisionTenantWorkflow ⟨"acme", 10⟩).exec Cancellable.call [.ran, .before, .ran]
        ⟨NewSimulatedProvisioner, false⟩ = some (.error err, w) ∧
      NewSimulatedProvisioner.tenant "acme" = .nothing ∧
      w.prov.tenant "acme" = ⟨true, none, false, false⟩ ∧
      ¬ CleanEnd ⟨"acme", 10⟩ (.error err) (w.prov.tenant "acme") := by
  obtain ⟨w, hexec, hw⟩ : ∃ w, (ProvisionTenantWorkflow ⟨"acme", 10⟩).exec Cancellable.call
        [.ran, .before, .ran] ⟨NewSimulatedProvisioner, false⟩ =
        some (.error (.wrap rolledBack canceled), w) ∧
      w.prov.tenant "acme" = ⟨true, none, false, false⟩ :=
    Proc.exec_observed (fun w : Cancellable => w.prov.tenant "acme") (by decide +kernel)
  refine ⟨_, w, hexec, rfl, hw, ?_⟩
  rw [hw]
  rintro (⟨⟨out, hout⟩, -⟩ | ⟨-, henv⟩)
  · cases hout
  · cases henv

end Forge.Provisioning
