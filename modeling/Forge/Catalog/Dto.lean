import Forge.Catalog.Service

/-!
# Representations (`catalog/api/dto.go`, `catalog/adapters/postgres/outbox.go`)

What leaves the catalog as JSON, as the fields the encoder writes: the body of an answer
(`ServiceResponse`) and the payload of an outbox row (`Envelope`). The embedded `base` of an event
has no exported field, so its id and time are not part of the payload's data.
-/

namespace Forge.Catalog

structure OwnershipDTO where
  OwningTeam : GoString
  OnCallRef : GoString
deriving DecidableEq, Repr

structure ServiceResponse where
  ID : GoString
  TenantID : GoString
  Name : GoString
  Description : GoString
  Tier : Int
  Lifecycle : GoString
  Repository : GoString
  Ownership : OwnershipDTO
  Version : Int
  CreatedAt : Time
  UpdatedAt : Time
deriving DecidableEq, Repr

def toResponse (s : Service) : ServiceResponse where
  ID := s.id.String
  TenantID := s.tenantID.String
  Name := s.name.v
  Description := s.description
  Tier := s.tier.v
  Lifecycle := s.lifecycle.text
  Repository := s.repository
  Ownership := ⟨s.ownership.OwningTeam, s.ownership.OnCallRef⟩
  Version := s.version
  CreatedAt := s.createdAt
  UpdatedAt := s.updatedAt

inductive EventData
  | registered (TenantID Name : GoString) (Tier : Int)
  | ownershipChanged (PreviousTeam NewTeam : GoString)
  | lifecycleChanged (From To : GoString)
  | retired
deriving DecidableEq, Repr

def Event.data : Event → EventData
  | .ServiceRegistered _ _ tenantID name tier => .registered tenantID name tier
  | .ServiceOwnershipChanged _ _ previousTeam newTeam => .ownershipChanged previousTeam newTeam
  | .ServiceLifecycleChanged _ _ source target => .lifecycleChanged source target
  | .ServiceRetired .. => .retired

structure Envelope where
  EventType : GoString
  AggregateID : GoString
  Data : EventData
deriving DecidableEq, Repr

def Event.envelope (e : Event) : Envelope := ⟨e.EventType, e.AggregateID, e.data⟩

end Forge.Catalog
