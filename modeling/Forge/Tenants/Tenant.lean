import Forge.Catalog.Service
import Forge.Tenants.Values

/-!
# The tenant aggregate (`tenant/domain/tenant.go`, `events.go`)

The two mutations change the status or the quota; name, slug, plan and creation time stay as they were
created (`Mutation.kept_of_apply`).
-/

namespace Forge.Tenants

open Catalog (Time)

inductive Event
  | TenantCreated (id : GoString) (at_ : Time) (Name Slug Plan : GoString)
  | TenantStatusChanged (id : GoString) (at_ : Time) (From To : GoString)
  | TenantQuotaUpdated (id : GoString) (at_ : Time) (MaxServices : Int)
deriving DecidableEq, Repr

namespace Event

def EventType : Event → GoString
  | TenantCreated .. => "tenant.created"
  | TenantStatusChanged .. => "tenant.status_changed"
  | TenantQuotaUpdated .. => "tenant.quota_updated"

def AggregateID : Event → GoString
  | TenantCreated id .. => id
  | TenantStatusChanged id .. => id
  | TenantQuotaUpdated id .. => id

def OccurredAt : Event → Time
  | TenantCreated _ t .. => t
  | TenantStatusChanged _ t .. => t
  | TenantQuotaUpdated _ t _ => t

end Event

/-- The exported fields of an event. -/
inductive EventData
  | created (Name Slug Plan : GoString)
  | statusChanged (From To : GoString)
  | quotaUpdated (MaxServices : Int)
deriving DecidableEq, Repr

def Event.data : Event → EventData
  | .TenantCreated _ _ name slug plan => .created name slug plan
  | .TenantStatusChanged _ _ source target => .statusChanged source target
  | .TenantQuotaUpdated _ _ maxServices => .quotaUpdated maxServices

structure Envelope where
  EventType : GoString
  AggregateID : GoString
  Data : EventData
deriving DecidableEq, Repr

def Event.envelope (e : Event) : Envelope := ⟨e.EventType, e.AggregateID, e.data⟩

structure Tenant where
  id : TenantID
  name : TenantName
  slug : Slug
  plan : Plan
  status : Status
  quota : Quota
  version : Int
  createdAt : Time
  updatedAt : Time
  events : List Event
deriving DecidableEq

def Create (id : TenantID) (name : TenantName) (slug : Slug) (plan : Plan) (quota : Quota) (now : Time) :
    Tenant where
  id := id
  name := name
  slug := slug
  plan := plan
  status := .active
  quota := quota
  version := 1
  createdAt := now
  updatedAt := now
  events := [.TenantCreated id.String now name.v slug.v plan.text]

def Reconstitute (id : TenantID) (name : TenantName) (slug : Slug) (plan : Plan) (status : Status)
    (quota : Quota) (version : Int) (createdAt updatedAt : Time) : Tenant :=
  ⟨id, name, slug, plan, status, quota, version, createdAt, updatedAt, []⟩

namespace Tenant

def touch (t : Tenant) (now : Time) : Tenant := { t with version := t.version + 1, updatedAt := now }

def record (t : Tenant) (e : Event) : Tenant := { t with events := t.events ++ [e] }

def ChangeStatus (t : Tenant) (target : Status) (now : Time) : Except Err Tenant :=
  if t.status = target then .ok t
  else if ¬ t.status.canTransitionTo target then .error ErrIllegalTransition
  else .ok (({ t with status := target }.touch now).record
    (.TenantStatusChanged t.id.String now t.status.text target.text))

def UpdateQuota (t : Tenant) (q : Quota) (now : Time) : Except Err Tenant :=
  if t.status = .archived then .error ErrArchived
  else .ok (({ t with quota := q }.touch now).record
    (.TenantQuotaUpdated t.id.String now q.MaxServices))

/-- `PullEvents` gives the recorded events and forgets them. -/
def PullEvents (t : Tenant) : List Event × Tenant := (t.events, { t with events := [] })

end Tenant

/-- What a mutating command asks of the loaded aggregate. -/
inductive Mutation
  | changeStatus (target : Status)
  | updateQuota (q : Quota)
deriving DecidableEq

namespace Mutation

def apply (m : Mutation) (now : Time) (t : Tenant) : Except Err Tenant :=
  match m with
  | changeStatus target => t.ChangeStatus target now
  | updateQuota q => t.UpdateQuota q now

/-- What a mutation keeps of the aggregate. -/
structure Kept (t t' : Tenant) : Prop where
  id : t'.id = t.id
  name : t'.name = t.name
  slug : t'.slug = t.slug
  plan : t'.plan = t.plan
  createdAt : t'.createdAt = t.createdAt

theorem kept_of_apply {m : Mutation} {now : Time} {t t' : Tenant} (h : m.apply now t = .ok t') : Kept t t' := by
  cases m with
  | changeStatus target =>
    simp only [apply, Tenant.ChangeStatus] at h
    split_ifs at h <;> cases h <;> exact ⟨rfl, rfl, rfl, rfl, rfl⟩
  | updateQuota q =>
    simp only [apply, Tenant.UpdateQuota] at h
    split_ifs at h
    cases h
    exact ⟨rfl, rfl, rfl, rfl, rfl⟩

end Mutation

end Forge.Tenants
