import Forge.Lib.Sprintf
import Forge.Platform.Apperr

/-!
# The provisioner and its activities (`provisioning/provisioner.go`, `activities.go`)

`SimulatedProvisioner` with its methods as functions that return the changed state; a map is the
function that looks a key up in it. An `Activity` is a call of one of the methods. What it does is seen
on the environment of its own slug (`Activity.effect`) and nowhere else (`Activity.tenant_run`).
-/

namespace Forge.Provisioning

open GoString

structure SimulatedProvisioner where
  namespaces : GoString → Bool
  quotas : GoString → Option Int
  dns : GoString → Bool
  secrets : GoString → Bool
  FailRegisterDNS : Bool

def dnsZone : GoString := "forge.example.com"

def NewSimulatedProvisioner : SimulatedProvisioner :=
  ⟨fun _ => false, fun _ => none, fun _ => false, fun _ => false, false⟩

namespace SimulatedProvisioner

variable (p : SimulatedProvisioner) (slug : GoString)

def CreateNamespace : Except GoString GoString × SimulatedProvisioner :=
  (.ok (str "tenant-" ++ slug), { p with namespaces := Function.update p.namespaces slug true })

def DeleteNamespace : SimulatedProvisioner :=
  { p with namespaces := Function.update p.namespaces slug false }

def ApplyQuota (maxServices : Int) : SimulatedProvisioner :=
  { p with quotas := Function.update p.quotas slug (some maxServices) }

def RemoveQuota : SimulatedProvisioner :=
  { p with quotas := Function.update p.quotas slug none }

def RegisterDNS : Except GoString GoString × SimulatedProvisioner :=
  if p.FailRegisterDNS then (.error (str "dns provider unavailable for " ++ Fmt.Quote slug), p)
  else (.ok (slug ++ str "." ++ dnsZone), { p with dns := Function.update p.dns slug true })

def DeregisterDNS : SimulatedProvisioner :=
  { p with dns := Function.update p.dns slug false }

def CreateSecretPath : SimulatedProvisioner :=
  { p with secrets := Function.update p.secrets slug true }

def DeleteSecretPath : SimulatedProvisioner :=
  { p with secrets := Function.update p.secrets slug false }

end SimulatedProvisioner

/-! ### Activities -/

inductive Activity
  | CreateNamespace (slug : GoString)
  | DeleteNamespace (slug : GoString)
  | ApplyQuota (slug : GoString) (maxServices : Int)
  | RemoveQuota (slug : GoString)
  | RegisterDNS (slug : GoString)
  | DeregisterDNS (slug : GoString)
  | CreateSecretPath (slug : GoString)
  | DeleteSecretPath (slug : GoString)
  | Finalize (slug : GoString)
deriving DecidableEq

/-- What the provisioner has for one slug. -/
structure TenantEnv where
  namespc : Bool
  quota : Option Int
  dns : Bool
  secret : Bool
deriving DecidableEq

def TenantEnv.nothing : TenantEnv := ⟨false, none, false, false⟩

def SimulatedProvisioner.tenant (p : SimulatedProvisioner) (slug : GoString) : TenantEnv :=
  ⟨p.namespaces slug, p.quotas slug, p.dns slug, p.secrets slug⟩

namespace Activity

def slug : Activity → GoString
  | CreateNamespace s | DeleteNamespace s | ApplyQuota s _ | RemoveQuota s | RegisterDNS s
  | DeregisterDNS s | CreateSecretPath s | DeleteSecretPath s | Finalize s => s

/-- The method of the provisioner; the result is empty where the method only returns an error. -/
def run (a : Activity) (p : SimulatedProvisioner) : Except GoString GoString × SimulatedProvisioner :=
  match a with
  | CreateNamespace s => p.CreateNamespace s
  | DeleteNamespace s => (.ok [], p.DeleteNamespace s)
  | ApplyQuota s maxServices => (.ok [], p.ApplyQuota s maxServices)
  | RemoveQuota s => (.ok [], p.RemoveQuota s)
  | RegisterDNS s => p.RegisterDNS s
  | DeregisterDNS s => (.ok [], p.DeregisterDNS s)
  | CreateSecretPath s => (.ok [], p.CreateSecretPath s)
  | DeleteSecretPath s => (.ok [], p.DeleteSecretPath s)
  | Finalize _ => (.ok [], p)

/-- The method does not return an error. -/
def works (a : Activity) (p : SimulatedProvisioner) : Bool :=
  match a with
  | RegisterDNS _ => !p.FailRegisterDNS
  | _ => true

def effect (a : Activity) (t : TenantEnv) : TenantEnv :=
  match a with
  | CreateNamespace _ => { t with namespc := true }
  | DeleteNamespace _ => { t with namespc := false }
  | ApplyQuota _ maxServices => { t with quota := some maxServices }
  | RemoveQuota _ => { t with quota := none }
  | RegisterDNS _ => { t with dns := true }
  | DeregisterDNS _ => { t with dns := false }
  | CreateSecretPath _ => { t with secret := true }
  | DeleteSecretPath _ => { t with secret := false }
  | Finalize _ => t

/-- What the activity returns when it works. -/
def result : Activity → GoString
  | CreateNamespace s => str "tenant-" ++ s
  | RegisterDNS s => s ++ str "." ++ dnsZone
  | _ => []

theorem effect_effect (a : Activity) (t : TenantEnv) : a.effect (a.effect t) = a.effect t := by
  cases a <;> rfl

variable (a : Activity) (p : SimulatedProvisioner)

theorem run_works (h : a.works p = true) : (a.run p).1 = .ok a.result := by
  cases a
  case RegisterDNS s =>
    have hf : p.FailRegisterDNS = false := by simpa [works] using h
    simp [run, SimulatedProvisioner.RegisterDNS, hf, result]
  all_goals rfl

theorem run_fails (h : a.works p = false) : (∃ e, (a.run p).1 = .error e) ∧ (a.run p).2 = p := by
  cases a
  case RegisterDNS s =>
    have hf : p.FailRegisterDNS = true := by simpa [works] using h
    simp [run, SimulatedProvisioner.RegisterDNS, hf]
  all_goals cases h

theorem works_run (b : Activity) : b.works (a.run p).2 = b.works p := by
  have hf : (a.run p).2.FailRegisterDNS = p.FailRegisterDNS := by
    cases a
    case RegisterDNS s =>
      simp only [run, SimulatedProvisioner.RegisterDNS]
      split <;> rfl
    all_goals rfl
  cases b
  case RegisterDNS s => exact congrArg (! ·) hf
  all_goals rfl

/-- An activity acts on the environment of its own slug. -/
theorem tenant_run (h : a.works p = true) (s : GoString) :
    (a.run p).2.tenant s = if a.slug = s then a.effect (p.tenant s) else p.tenant s := by
  have hup : ∀ {β : Type} (f : GoString → β) (s' : GoString) (b : β),
      Function.update f s' b s = if s' = s then b else f s := by
    intro β f s' b
    rw [Function.update_apply]
    simp only [eq_comm]
  by_cases hs : a.slug = s <;> cases a
  case pos.RegisterDNS | neg.RegisterDNS =>
    have hf : p.FailRegisterDNS = false := by simpa [works] using h
    simp only [slug] at hs
    simp [run, SimulatedProvisioner.RegisterDNS, hf, SimulatedProvisioner.tenant, hup, slug, effect, hs]
  all_goals
    simp only [slug] at hs
    simp [run, SimulatedProvisioner.CreateNamespace, SimulatedProvisioner.DeleteNamespace,
      SimulatedProvisioner.ApplyQuota, SimulatedProvisioner.RemoveQuota,
      SimulatedProvisioner.DeregisterDNS, SimulatedProvisioner.CreateSecretPath,
      SimulatedProvisioner.DeleteSecretPath, SimulatedProvisioner.tenant, hup, slug, effect, hs]

end Activity

end Forge.Provisioning
