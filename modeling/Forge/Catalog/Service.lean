import Forge.Catalog.Values

/-!
# The service aggregate (`catalog/domain/service.go`, `events.go`)

`Service` with its methods as functions that return the changed aggregate. `Mutation.apply` is the
closure the three mutating commands hand to `Commands.mutate`. `Mutation.apply_cases` says once what
such a closure can do: leave the aggregate as it is, or raise the version by one, set `updatedAt`
and record exactly one event (`Service.Changed`).
-/

namespace Forge.Catalog

/-- Nanoseconds since the Unix epoch (`time.Time` in UTC). -/
abbrev Time := Int

inductive Event
  | ServiceRegistered (id : GoString) (at_ : Time) (TenantID Name : GoString) (Tier : Int)
  | ServiceOwnershipChanged (id : GoString) (at_ : Time) (PreviousTeam NewTeam : GoString)
  | ServiceLifecycleChanged (id : GoString) (at_ : Time) (From To : GoString)
  | ServiceRetired (id : GoString) (at_ : Time)
deriving DecidableEq, Repr

namespace Event

def EventType : Event → GoString
  | ServiceRegistered .. => "catalog.service.registered"
  | ServiceOwnershipChanged .. => "catalog.service.ownership_changed"
  | ServiceLifecycleChanged .. => "catalog.service.lifecycle_changed"
  | ServiceRetired .. => "catalog.service.retired"

def AggregateID : Event → GoString
  | ServiceRegistered id .. => id
  | ServiceOwnershipChanged id .. => id
  | ServiceLifecycleChanged id .. => id
  | ServiceRetired id _ => id

def OccurredAt : Event → Time
  | ServiceRegistered _ t .. => t
  | ServiceOwnershipChanged _ t .. => t
  | ServiceLifecycleChanged _ t .. => t
  | ServiceRetired _ t => t

end Event

structure Service where
  id : ServiceID
  tenantID : TenantID
  name : ServiceName
  description : GoString
  tier : Tier
  lifecycle : Lifecycle
  repository : GoString
  ownership : Ownership
  version : Int
  createdAt : Time
  updatedAt : Time
  events : List Event
deriving DecidableEq

def Register (id : ServiceID) (tenantID : TenantID) (name : ServiceName) (description : GoString)
    (tier : Tier) (repository : GoString) (ownership : Ownership) (now : Time) : Service where
  id := id
  tenantID := tenantID
  name := name
  description := description
  tier := tier
  lifecycle := .experimental
  repository := repository
  ownership := ownership
  version := 1
  createdAt := now
  updatedAt := now
  events := [.ServiceRegistered id.String now tenantID.String name.v tier.v]

namespace Service

def touch (s : Service) (now : Time) : Service :=
  { s with version := s.version + 1, updatedAt := now }

def record (s : Service) (e : Event) : Service := { s with events := s.events ++ [e] }

def ChangeOwnership (s : Service) (o : Ownership) (now : Time) : Except Err Service :=
  if s.lifecycle = .retired then .error ErrAlreadyRetired
  else if s.lifecycle = .production ∧ ¬ o.hasOnCall then .error ErrOnCallRequired
  else .ok (({ s with ownership := o }.touch now).record
    (.ServiceOwnershipChanged s.id.String now s.ownership.OwningTeam o.OwningTeam))

def ChangeLifecycle (s : Service) (target : Lifecycle) (now : Time) : Except Err Service :=
  if s.lifecycle = target then .ok s
  else if ¬ s.lifecycle.canTransitionTo target then .error ErrIllegalTransition
  else if target = .production ∧ ¬ s.ownership.hasOnCall then .error ErrOnCallRequired
  else .ok (({ s with lifecycle := target }.touch now).record
    (.ServiceLifecycleChanged s.id.String now s.lifecycle.text target.text))

def Retire (s : Service) (now : Time) : Except Err Service :=
  if s.lifecycle = .retired then .ok s
  else .ok (({ s with lifecycle := .retired }.touch now).record (.ServiceRetired s.id.String now))

/-- `s'` is `s` after a change of its ownership or its lifecycle that recorded the event `e`. -/
structure Changed (s s' : Service) (now : Time) (e : Event) : Prop where
  id : s'.id = s.id
  tenantID : s'.tenantID = s.tenantID
  name : s'.name = s.name
  description : s'.description = s.description
  tier : s'.tier = s.tier
  repository : s'.repository = s.repository
  createdAt : s'.createdAt = s.createdAt
  version : s'.version = s.version + 1
  updatedAt : s'.updatedAt = now
  events : s'.events = s.events ++ [e]
  not_retired : s.lifecycle ≠ .retired
  /-- Production needs an on-call reference. -/
  onCall : s'.lifecycle = .production → s'.ownership.hasOnCall = true
  /-- The event says what was changed. -/
  event : (s'.lifecycle = s.lifecycle ∧
      e = .ServiceOwnershipChanged s.id.String now s.ownership.OwningTeam s'.ownership.OwningTeam) ∨
    (s'.ownership = s.ownership ∧ s.lifecycle.canTransitionTo s'.lifecycle = true ∧
      (e = .ServiceLifecycleChanged s.id.String now s.lifecycle.text s'.lifecycle.text ∨
        (s'.lifecycle = .retired ∧ e = .ServiceRetired s.id.String now)))

theorem Changed.aggregateID {s s' : Service} {now : Time} {e : Event} (h : s.Changed s' now e) :
    e.AggregateID = s.id.String := by
  rcases h.event with ⟨-, rfl⟩ | ⟨-, -, rfl | ⟨-, rfl⟩⟩ <;> rfl

end Service

/-- A newly registered service, for examples. -/
def Service.sample : Service :=
  Register ⟨⟨1⟩⟩ ⟨⟨2⟩⟩ ⟨"api", by decide, by decide⟩ [] ⟨1, by decide, by decide⟩ []
    ⟨"core", [], by decide, by decide, by decide⟩ 0

/-- What a mutating command asks of the loaded aggregate. -/
inductive Mutation
  | changeOwnership (o : Ownership)
  | changeLifecycle (target : Lifecycle)
  | retire
deriving DecidableEq

namespace Mutation

def apply (m : Mutation) (now : Time) (s : Service) : Except Err Service :=
  match m with
  | changeOwnership o => s.ChangeOwnership o now
  | changeLifecycle target => s.ChangeLifecycle target now
  | retire => s.Retire now

/-- What a mutation that is not refused does. -/
theorem apply_cases {m : Mutation} {now : Time} {s s' : Service} (h : m.apply now s = .ok s') :
    s' = s ∨ ∃ e, s.Changed s' now e := by
  cases m with
  | changeOwnership o =>
    simp only [apply, Service.ChangeOwnership] at h
    split_ifs at h with h₁ h₂
    cases h
    refine .inr ⟨_, ⟨rfl, rfl, rfl, rfl, rfl, rfl, rfl, rfl, rfl, rfl, h₁, fun hp => ?_, .inl ⟨rfl, rfl⟩⟩⟩
    by_contra ho
    exact h₂ ⟨hp, ho⟩
  | changeLifecycle target =>
    simp only [apply, Service.ChangeLifecycle] at h
    split_ifs at h with h₁ h₂ h₃
    · exact .inl (Except.ok.inj h).symm
    · cases h
      have htr : s.lifecycle.canTransitionTo target = true := h₂
      refine .inr ⟨_, ⟨rfl, rfl, rfl, rfl, rfl, rfl, rfl, rfl, rfl, rfl, fun hr => ?_, fun hp => ?_,
        .inr ⟨rfl, htr, .inl rfl⟩⟩⟩
      · rw [hr, Lifecycle.retired_canTransitionTo] at htr; cases htr
      · by_contra ho
        exact h₃ ⟨hp, ho⟩
  | retire =>
    simp only [apply, Service.Retire] at h
    split_ifs at h with h₁
    · exact .inl (Except.ok.inj h).symm
    · cases h
      exact .inr ⟨_, ⟨rfl, rfl, rfl, rfl, rfl, rfl, rfl, rfl, rfl, rfl, h₁, nofun,
        .inr ⟨rfl, Lifecycle.canTransitionTo_retired h₁, .inr ⟨rfl, rfl⟩⟩⟩⟩

/-- Only a change of ownership sets the owner, and it is never without effect. -/
theorem ownership_of_apply {m : Mutation} {now : Time} {s s' : Service} (h : m.apply now s = .ok s') :
    (∃ o, m = .changeOwnership o ∧ s' ≠ s) ∨ ((∀ o, m ≠ .changeOwnership o) ∧ s'.ownership = s.ownership) := by
  cases m with
  | changeOwnership o =>
    simp only [apply, Service.ChangeOwnership] at h
    split_ifs at h
    cases h
    refine .inl ⟨o, rfl, fun e => ?_⟩
    have hv : s.version + 1 = s.version := congrArg Service.version e
    omega
  | changeLifecycle target =>
    simp only [apply, Service.ChangeLifecycle] at h
    split_ifs at h <;> cases h <;> exact .inr ⟨nofun, rfl⟩
  | retire =>
    simp only [apply, Service.Retire] at h
    split_ifs at h <;> cases h <;> exact .inr ⟨nofun, rfl⟩

/-- Whether a mutation is refused does not depend on the time. -/
theorem apply_error {m : Mutation} {now : Time} {s : Service} {e : Err} (h : m.apply now s = .error e)
    (now' : Time) : m.apply now' s = .error e := by
  cases m with
  | changeOwnership o =>
    simp only [apply, Service.ChangeOwnership] at h ⊢
    split_ifs at h ⊢ <;> exact h
  | changeLifecycle target =>
    simp only [apply, Service.ChangeLifecycle] at h ⊢
    split_ifs at h ⊢ <;> exact h
  | retire =>
    simp only [apply, Service.Retire] at h
    split_ifs at h

theorem id_of_apply {m : Mutation} {now : Time} {s s' : Service} (h : m.apply now s = .ok s') :
    s'.id = s.id := by
  rcases apply_cases h with rfl | ⟨e, hc⟩
  · rfl
  · exact hc.id

/-- The events a mutation records are about its aggregate. -/
theorem aggregateID_of_apply {m : Mutation} {now : Time} {s s' : Service} (h : m.apply now s = .ok s')
    (hs : s.events = []) : ∀ e ∈ s'.events, e.AggregateID = s.id.String := by
  rcases apply_cases h with rfl | ⟨e, hc⟩
  · simp [hs]
  · intro e' he'
    rw [hc.events, hs, List.nil_append, List.mem_singleton] at he'
    exact he' ▸ hc.aggregateID

end Mutation

end Forge.Catalog
