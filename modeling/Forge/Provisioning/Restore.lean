import Forge.Provisioning.Rollback

/-!
# Rolling back over an existing environment

A forward activity overwrites what the tenant has and its compensation deletes it, so a compensation is the
inverse of its activity only where the tenant had nothing to overwrite. A run that fails without effect and
is rolled back completely therefore gives the provisioner back as it was exactly if the activities it
completed had found nothing (`rollback_restores_iff`). It never touches another tenant (`Elsewhere`).
-/

namespace Forge.Provisioning

open GoString

/-- The tenant does not have what the activity creates. -/
def Activity.missing (a : Activity) (t : TenantEnv) : Bool :=
  match a with
  | CreateNamespace _ => !t.namespc
  | ApplyQuota _ _ => t.quota.isNone
  | RegisterDNS _ => !t.dns
  | CreateSecretPath _ => !t.secret
  | _ => true

theorem SimulatedProvisioner.ext_tenant {p q : SimulatedProvisioner} (h : ∀ s, p.tenant s = q.tenant s)
    (hdns : p.FailRegisterDNS = q.FailRegisterDNS) : p = q := by
  obtain ⟨ns, quotas, dns, secrets, fail⟩ := p
  obtain ⟨ns', quotas', dns', secrets', fail'⟩ := q
  simp only [tenant, TenantEnv.mk.injEq] at h
  simp only [mk.injEq]
  exact ⟨funext fun s => (h s).1, funext fun s => (h s).2.1, funext fun s => (h s).2.2.1,
    funext fun s => (h s).2.2.2, hdns⟩

/-- Every other tenant has what it had. -/
def Elsewhere (p : SimulatedProvisioner) (slug : GoString) {Run : Type} (w : Temporal Run) : Prop :=
  ∀ s, s ≠ slug → w.prov.tenant s = p.tenant s

theorem Elsewhere.call {p : SimulatedProvisioner} {slug : GoString} {Run : Type} [DecidableEq Run] {r : Run}
    {a : Activity} {ts : List Attempt} {ans : Except Err GoString} {w w' : Temporal Run}
    (h : Elsewhere p slug w) (ha : a.slug = slug) (hc : Temporal.call r a ts w = some (ans, w')) :
    Elsewhere p slug w' := by
  intro s hs
  have hne : a.slug ≠ s := fun has => hs (has ▸ ha)
  rw [(Temporal.call_spec hc).2.tenant s, if_neg fun h => hne h.1]
  exact h s hs

theorem elsewhere_of_exec {p : SimulatedProvisioner} {Run : Type} [DecidableEq Run] {r : Run}
    {inp : ProvisionTenantInput} {outcomes : List (List Attempt)} {res : Except Err ProvisionTenantResult}
    {w : Temporal Run}
    (hexec : (ProvisionTenantWorkflow inp).exec (Temporal.call r) outcomes ⟨p, fun _ => []⟩ = some (res, w)) :
    Elsewhere p inp.Slug w :=
  (((uses_ProvisionTenantWorkflow inp).rg (R := Eq) (G := fun _ _ => True)
    (fun _ _ ha hI => ⟨trivial, fun _ _ _ hc => Elsewhere.call hI ha hc⟩) _).exec (fun _ => rfl)
    (fun _ _ => rfl) hexec).1

/-- The activities that succeed before the first one that does not. -/
theorem RolledBack.takeWhile {inp : ProvisionTenantInput} {p : SimulatedProvisioner}
    {outcomes : List (List Attempt)} {k : Nat} {done : List (Activity × List Attempt)}
    {x : Activity × List Attempt} {env : TenantEnv} (h : RolledBack inp p outcomes k done x env) :
    (inp.forward.zip outcomes).takeWhile (fun y => y.1.Succeeds p y.2) = done := by
  obtain ⟨rest, hzip⟩ := h.zip
  rw [hzip, List.takeWhile_append_of_pos h.succeed, List.takeWhile_cons_of_neg (by simp [h.fails]),
    List.append_nil]

theorem replay_skip {a : Activity} {b : Bool} {slug : GoString} (hb : a = .Finalize slug ∨ b = false)
    (t : TenantEnv) (xs ys : List (Activity × Bool)) : replay t (xs ++ (a, b) :: ys) = replay t (xs ++ ys) := by
  unfold replay
  rw [List.foldl_append, List.foldl_append, List.foldl_cons]
  congr 1
  rcases hb with rfl | rfl
  · exact ite_self _
  · rfl

/-- Completed activities and their compensations delete what they find. -/
theorem replay_eq_self_iff (inp : ProvisionTenantInput) {k : Nat} (hk : k < 5) (t : TenantEnv) :
    replay t ((inp.forward.take k).map (·, true) ++ (inp.compensations.take k).reverse.map (·, true)) = t ↔
    ∀ c ∈ inp.forward.take k, c.missing t = true := by
  obtain ⟨ns, quota, dns, secret⟩ := t
  interval_cases k <;>
    simp [replay, ProvisionTenantInput.forward, ProvisionTenantInput.compensations,
      ProvisionTenantInput.steps, Activity.effect, Activity.missing, @eq_comm _ none quota]

/-- A run that returned an error, failed without effect and whose compensations all succeeded leaves the
provisioner as it was, exactly if no activity it completed found its resource there. -/
theorem rollback_restores_iff {Run : Type} [DecidableEq Run] (r : Run) (inp : ProvisionTenantInput)
    (p : SimulatedProvisioner) {outcomes : List (List Attempt)} {err : Err} {w : Temporal Run}
    (hexec : (ProvisionTenantWorkflow inp).exec (Temporal.call r) outcomes ⟨p, fun _ => []⟩ =
      some (.error err, w))
    (hfail : NoLateFailure inp p outcomes)
    (hcomp : ∀ x ∈ w.history r, x.activity ∈ inp.compensations → x.ok = true) :
    w.prov = p ↔ ∀ y ∈ (inp.forward.zip outcomes).takeWhile (fun y => y.1.Succeeds p y.2),
      y.1.missing (p.tenant inp.Slug) = true := by
  obtain ⟨k, done, x, h⟩ := rolledBack_of_exec hexec hcomp
  have hwhole : w.prov = p ↔ w.prov.tenant inp.Slug = p.tenant inp.Slug := by
    refine ⟨fun hp => by rw [hp], fun hslug => SimulatedProvisioner.ext_tenant (fun s => ?_) ?_⟩
    · by_cases hs : s = inp.Slug
      · rw [hs, hslug]
      · exact elsewhere_of_exec hexec s hs
    · have hworks := ((Replays.start p inp.Slug r).exec hexec).works (.RegisterDNS inp.Slug)
      simpa [Activity.works] using hworks
  rw [hwhole, h.env_eq, replay_skip (hfail _ _ h.find_failing), replay_eq_self_iff inp h.lt, h.takeWhile,
    ← h.completed, List.forall_mem_map]

/-- A new tenant whose quota is refused. -/
theorem rollback_restores_sample :
    ∃ err w, (ProvisionTenantWorkflow ⟨"acme", 10⟩).exec (Temporal.call ())
        [[.ok], [.before "refused", .before "refused", .before "refused"], [.ok]]
        ⟨NewSimulatedProvisioner, fun _ => []⟩ = some (.error err, w) ∧ w.prov = NewSimulatedProvisioner := by
  obtain ⟨w, hexec, hhist⟩ := exec_quota_refused
  refine ⟨_, w, hexec, (rollback_restores_iff () ⟨"acme", 10⟩ _ hexec ?_ ?_).2 (by decide)⟩
  · rintro a ts ⟨⟩
    exact .inr rfl
  · rw [hhist]
    decide

/-- What a successful run leaves in an empty provisioner. -/
def acmeProvisioned : SimulatedProvisioner :=
  (⟨"acme", 10⟩ : ProvisionTenantInput).forward.foldl (fun p a => (a.run p).2) NewSimulatedProvisioner

/-- The tenant was provisioned before. The second run cannot set its quota, and the rollback deletes the
namespace of the first. -/
theorem rollback_deletes_existing :
    ((ProvisionTenantWorkflow ⟨"acme", 10⟩).exec (Temporal.call ()) [[.ok], [.ok], [.ok], [.ok], [.ok]]
        ⟨NewSimulatedProvisioner, fun _ => []⟩).map (fun x => (x.1.toBool, x.2.prov)) =
        some (true, acmeProvisioned) ∧
      ∃ err w, (ProvisionTenantWorkflow ⟨"acme", 20⟩).exec (Temporal.call ())
        [[.ok], [.before "refused", .before "refused", .before "refused"], [.ok]]
        ⟨acmeProvisioned, fun _ => []⟩ = some (.error err, w) ∧
      NoLateFailure ⟨"acme", 20⟩ acmeProvisioned
        [[.ok], [.before "refused", .before "refused", .before "refused"], [.ok]] ∧
      (∀ x ∈ w.history (), x.activity ∈ (⟨"acme", 20⟩ : ProvisionTenantInput).compensations → x.ok = true) ∧
      acmeProvisioned.namespaces "acme" = true ∧ w.prov.namespaces "acme" = false ∧ w.prov ≠ acmeProvisioned := by
  obtain ⟨w, hexec, hw⟩ : ∃ w, (ProvisionTenantWorkflow ⟨"acme", 20⟩).exec (Temporal.call ())
        [[.ok], [.before "refused", .before "refused", .before "refused"], [.ok]]
        ⟨acmeProvisioned, fun _ => []⟩ = some (.error (.wrap rolledBack (.ext "refused")), w) ∧
      (w.history (), w.prov.namespaces "acme") = ([⟨.CreateNamespace "acme", [.ok], .ok "tenant-acme"⟩,
        ⟨.ApplyQuota "acme" 20, [.before "refused", .before "refused", .before "refused"],
          .error (.ext "refused")⟩,
        ⟨.DeleteNamespace "acme", [.ok], .ok []⟩], false) :=
    Proc.exec_observed (fun w : Temporal Unit => (w.history (), w.prov.namespaces "acme")) (by decide +kernel)
  simp only [Prod.mk.injEq] at hw
  refine ⟨rfl, _, w, hexec, ?_, ?_, rfl, hw.2, fun hp => ?_⟩
  · rintro a ts ⟨⟩
    exact .inr rfl
  · rw [hw.1]
    decide
  · have hns := hw.2
    rw [hp] at hns
    cases hns

end Forge.Provisioning
