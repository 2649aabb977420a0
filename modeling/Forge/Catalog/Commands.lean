import Forge.Catalog.Repository

/-!
# The commands of the catalog (`catalog/app/commands.go`)

`mutate` takes what to do with the loaded aggregate as a `Mutation`: the closures of the three
mutating commands read the clock when `mutate` calls them.
-/

namespace Forge.Catalog

variable [UuidLib]

structure RegisterServiceInput where
  TenantID : GoString
  Name : GoString
  Description : GoString
  Tier : Int
  Repository : GoString
  OwningTeam : GoString
  OnCallRef : GoString
deriving DecidableEq

structure ChangeOwnershipInput where
  ServiceID : GoString
  OwningTeam : GoString
  OnCallRef : GoString
  ExpectedVersion : Int
deriving DecidableEq

structure ChangeLifecycleInput where
  ServiceID : GoString
  Lifecycle : GoString
  ExpectedVersion : Int
deriving DecidableEq

structure RetireServiceInput where
  ServiceID : GoString
  ExpectedVersion : Int
deriving DecidableEq

omit [UuidLib] in
/-- `PullEvents` gives the recorded events and forgets them. -/
def Service.PullEvents (s : Service) : List Event × Service := (s.events, { s with events := [] })

omit [UuidLib] in
def expectedVersionOr (provided current : Int) : Int := if provided > 0 then provided else current

/-- The part of `RegisterService` inside the transaction. -/
def registerTx (svc : Service) : M Service := do
  match ← ExceptT.lift (FindByTenantAndName .tx svc.tenantID svc.name).run with
  | .ok _ => throw ErrNameConflict
  | .error e =>
    if e ≠ ErrServiceNotFound then throw e
    else
      Insert svc
      let (events, svc) := svc.PullEvents
      Append events
      return svc

def RegisterService (inp : RegisterServiceInput) : M Service := do
  let tenantID ← M.ofExcept (TenantIDFromString inp.TenantID)
  let name ← M.ofExcept (NewServiceName inp.Name)
  let tier ← M.ofExcept (NewTier inp.Tier)
  let ownership ← M.ofExcept (NewOwnership inp.OwningTeam inp.OnCallRef)
  let id ← M.perform .newID
  let now ← M.perform .now
  Execute (registerTx
    (Register ⟨id⟩ tenantID name inp.Description tier inp.Repository ownership now))

/-- The values of a registration, if they are valid. -/
def RegisterServiceInput.parse (inp : RegisterServiceInput) :
    Except Err (Catalog.TenantID × ServiceName × Catalog.Tier × Ownership) := do
  let tenantID ← TenantIDFromString inp.TenantID
  let name ← NewServiceName inp.Name
  let tier ← NewTier inp.Tier
  let ownership ← NewOwnership inp.OwningTeam inp.OnCallRef
  return (tenantID, name, tier, ownership)

/-- A registration checks its inputs, draws an id, reads the clock and then runs its transaction. -/
theorem RegisterService_eq (inp : RegisterServiceInput) :
    RegisterService inp = M.ofExcept inp.parse >>= fun x => M.perform .newID >>= fun id =>
      M.perform .now >>= fun now => Execute (registerTx
        (Register ⟨id⟩ x.1 x.2.1 inp.Description x.2.2.1 inp.Repository x.2.2.2 now)) := by
  simp only [RegisterService, RegisterServiceInput.parse]
  cases TenantIDFromString inp.TenantID with
  | error e => rfl
  | ok tenantID => cases NewServiceName inp.Name with
    | error e => rfl
    | ok name => cases NewTier inp.Tier with
      | error e => rfl
      | ok tier => cases NewOwnership inp.OwningTeam inp.OnCallRef <;> rfl

/-- The part of `mutate` inside the transaction. -/
def mutateTx (id : ServiceID) (expectedVersion : Int) (m : Mutation) : M Service := do
  let svc ← FindByID .tx id
  let current := svc.version
  let now ← M.perform .now
  let svc ← M.ofExcept (m.apply now svc)
  Update svc (expectedVersionOr expectedVersion current)
  let (events, svc) := svc.PullEvents
  Append events
  return svc

def mutate (id : ServiceID) (expectedVersion : Int) (m : Mutation) : M Service :=
  Execute (mutateTx id expectedVersion m)

def ChangeOwnership (inp : ChangeOwnershipInput) : M Service := do
  let id ← M.ofExcept (ServiceIDFromString inp.ServiceID)
  let ownership ← M.ofExcept (NewOwnership inp.OwningTeam inp.OnCallRef)
  mutate id inp.ExpectedVersion (.changeOwnership ownership)

def ChangeLifecycle (inp : ChangeLifecycleInput) : M Service := do
  let id ← M.ofExcept (ServiceIDFromString inp.ServiceID)
  let lifecycle ← M.ofExcept (ParseLifecycle inp.Lifecycle)
  mutate id inp.ExpectedVersion (.changeLifecycle lifecycle)

def RetireService (inp : RetireServiceInput) : M Service := do
  let id ← M.ofExcept (ServiceIDFromString inp.ServiceID)
  mutate id inp.ExpectedVersion .retire

/-- The mutating commands. -/
inductive Command
  | changeOwnership (inp : ChangeOwnershipInput)
  | changeLifecycle (inp : ChangeLifecycleInput)
  | retire (inp : RetireServiceInput)
deriving DecidableEq

namespace Command

def run : Command → M Service
  | changeOwnership inp => ChangeOwnership inp
  | changeLifecycle inp => ChangeLifecycle inp
  | retire inp => RetireService inp

omit [UuidLib] in
def ExpectedVersion : Command → Int
  | changeOwnership inp => inp.ExpectedVersion
  | changeLifecycle inp => inp.ExpectedVersion
  | retire inp => inp.ExpectedVersion

/-- What the inputs of a mutating command ask for: a service and what to do with it. -/
def parse : Command → Except Err (ServiceID × Mutation)
  | changeOwnership inp => do
    let id ← ServiceIDFromString inp.ServiceID
    let ownership ← NewOwnership inp.OwningTeam inp.OnCallRef
    return (id, .changeOwnership ownership)
  | changeLifecycle inp => do
    let id ← ServiceIDFromString inp.ServiceID
    let lifecycle ← ParseLifecycle inp.Lifecycle
    return (id, .changeLifecycle lifecycle)
  | retire inp => do
    let id ← ServiceIDFromString inp.ServiceID
    return (id, .retire)

/-- Every mutating command checks its inputs and then mutates. -/
theorem run_eq (c : Command) :
    c.run = M.ofExcept c.parse >>= fun x => mutate x.1 c.ExpectedVersion x.2 := by
  cases c with
  | changeOwnership inp =>
    simp only [run, ChangeOwnership, parse, ExpectedVersion]
    cases ServiceIDFromString inp.ServiceID with
    | error e => rfl
    | ok id => cases NewOwnership inp.OwningTeam inp.OnCallRef <;> rfl
  | changeLifecycle inp =>
    simp only [run, ChangeLifecycle, parse, ExpectedVersion]
    cases ServiceIDFromString inp.ServiceID with
    | error e => rfl
    | ok id => cases ParseLifecycle inp.Lifecycle <;> rfl
  | retire inp =>
    simp only [run, RetireService, parse, ExpectedVersion]
    cases ServiceIDFromString inp.ServiceID <;> rfl

/-- Only `ChangeOwnership` asks for a change of ownership. -/
theorem ownership_of_parse {c : Command} {id : ServiceID} {m : Mutation} (h : c.parse = .ok (id, m)) :
    (∃ inp, c = changeOwnership inp) ↔ ∃ o, m = .changeOwnership o := by
  cases c with
  | changeOwnership inp =>
    simp only [parse] at h
    cases hid : ServiceIDFromString inp.ServiceID with
    | error e => rw [hid] at h; cases h
    | ok id' =>
      rw [hid] at h
      cases ho : NewOwnership inp.OwningTeam inp.OnCallRef <;> rw [ho] at h <;> cases h
      exact ⟨fun _ => ⟨_, rfl⟩, fun _ => ⟨inp, rfl⟩⟩
  | changeLifecycle inp =>
    simp only [parse] at h
    cases hid : ServiceIDFromString inp.ServiceID with
    | error e => rw [hid] at h; cases h
    | ok id' =>
      rw [hid] at h
      cases hl : ParseLifecycle inp.Lifecycle <;> rw [hl] at h <;> cases h
      exact ⟨nofun, nofun⟩
  | retire inp =>
    simp only [parse] at h
    cases hid : ServiceIDFromString inp.ServiceID <;> rw [hid] at h <;> cases h
    exact ⟨nofun, nofun⟩

end Command

end Forge.Catalog
