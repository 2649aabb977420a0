import Forge.Catalog.Dto
import Forge.Lib.Json

/-!
# The database tables and the statements of the code (`migrations/0001_catalog.up.sql`)

`Tables` is the committed content of the four tables. A statement (`Stmt`) read on a state of the
tables either fails or gives its answer together with the row changes it makes (`Stmt.plan`): it fails
at once if the database does not take one of the texts it sends (`Stmt.Taken`). A transaction keeps
these `Write`s and they are applied when it commits. A `Write` names the rows it
changes by their keys (`Write.keys`), which is what row locks and unique indexes are held on.
-/

namespace Forge

open Catalog

/-- Microseconds since the Unix epoch (`TIMESTAMPTZ`). -/
abbrev Timestamptz := Int

/-- A time as the driver sends it: the digits below a microsecond are cut off. -/
def pgTime (t : Time) : Timestamptz := t / 1000

/-- A stored time as the driver reads it. -/
def goTime (t : Timestamptz) : Time := t * 1000

@[simp] theorem pgTime_goTime (t : Timestamptz) : pgTime (goTime t) = t :=
  Int.mul_ediv_cancel t (by decide)

theorem pgTime_mono {t t' : Time} (h : t ≤ t') : pgTime t ≤ pgTime t' :=
  Int.ediv_le_ediv (by decide) h

structure ServiceRow where
  id : UUID
  tenant_id : UUID
  name : GoString
  description : GoString
  tier : Int
  lifecycle : GoString
  repository_url : GoString
  owning_team : GoString
  on_call_ref : GoString
  version : Int
  created_at : Timestamptz
  updated_at : Timestamptz
deriving DecidableEq, Repr

/-- The columns the `UPDATE` of a service sets. -/
structure ServiceCols where
  description : GoString
  tier : Int
  lifecycle : GoString
  repository_url : GoString
  owning_team : GoString
  on_call_ref : GoString
  version : Int
  updated_at : Timestamptz
deriving DecidableEq, Repr

def ServiceRow.set (r : ServiceRow) (c : ServiceCols) : ServiceRow :=
  { r with
    description := c.description, tier := c.tier, lifecycle := c.lifecycle,
    repository_url := c.repository_url, owning_team := c.owning_team,
    on_call_ref := c.on_call_ref, version := c.version, updated_at := c.updated_at }

structure HistoryRow where
  id : UUID
  service_id : UUID
  owning_team : GoString
  on_call_ref : GoString
  valid_from : Timestamptz
  valid_to : Option Timestamptz
deriving DecidableEq, Repr

structure OutboxRow where
  id : UUID
  aggregate_id : UUID
  event_type : GoString
  payload : Envelope
  occurred_at : Timestamptz
  published_at : Option Timestamptz
  created_at : Timestamptz
deriving DecidableEq, Repr

structure IdemRow where
  id : UUID
  idem_key : GoString
  request_hash : GoString
  response_status : Nat
  response_body : ServiceResponse
deriving DecidableEq, Repr

structure Tables where
  services : List ServiceRow
  history : List HistoryRow
  outbox : List OutboxRow
  idem : List IdemRow
deriving DecidableEq, Repr

namespace Tables

def empty : Tables := ⟨[], [], [], []⟩

def service (t : Tables) (id : UUID) : Option ServiceRow := t.services.find? (·.id = id)

def serviceByName (t : Tables) (tenant : UUID) (name : GoString) : Option ServiceRow :=
  t.services.find? fun r => r.tenant_id = tenant ∧ r.name = name

def outboxRow (t : Tables) (id : UUID) : Option OutboxRow := t.outbox.find? (·.id = id)

def idemRow (t : Tables) (key : GoString) : Option IdemRow := t.idem.find? (·.idem_key = key)

end Tables

/-! ### Row changes -/

/-- What a lock is held on: a row, or an entry of a unique index. -/
inductive Key
  | service (id : UUID)
  | serviceName (tenant : UUID) (name : GoString)
  | history (id : UUID)
  | outbox (id : UUID)
  | idem (key : GoString)
deriving DecidableEq

inductive Write
  | insertService (r : ServiceRow)
  | setService (id : UUID) (c : ServiceCols)
  | insertHistory (r : HistoryRow)
  | closeHistory (ids : List UUID) (valid_to : Timestamptz)
  | insertOutbox (r : OutboxRow)
  | setPublished (ids : List UUID) (published_at : Timestamptz)
  | insertIdem (r : IdemRow)
deriving DecidableEq

namespace Write

def keys : Write → List Key
  | insertService r => [.service r.id, .serviceName r.tenant_id r.name]
  | setService id _ => [.service id]
  | insertHistory r => [.history r.id]
  | closeHistory ids _ => ids.map .history
  | insertOutbox r => [.outbox r.id]
  | setPublished ids _ => ids.map .outbox
  | insertIdem r => [.idem r.idem_key]

def apply (t : Tables) : Write → Tables
  | insertService r => { t with services := t.services ++ [r] }
  | setService id c =>
    { t with services := t.services.map fun r => if r.id = id then r.set c else r }
  | insertHistory r => { t with history := t.history ++ [r] }
  | closeHistory ids valid_to => { t with
    history := t.history.map fun h => if h.id ∈ ids then { h with valid_to := some valid_to } else h }
  | insertOutbox r => { t with outbox := t.outbox ++ [r] }
  | setPublished ids published_at => { t with
    outbox := t.outbox.map fun o => if o.id ∈ ids then { o with published_at := some published_at } else o }
  | insertIdem r => { t with idem := t.idem ++ [r] }

end Write

/-- `t` and `t'` have the same under the key `k`: the same row, or for an entry of the index on
`(tenant_id, name)` both or neither have one. -/
def Tables.Agree (t t' : Tables) : Key → Prop
  | .service id => t'.service id = t.service id
  | .serviceName tenant name => (t'.serviceByName tenant name).isSome = (t.serviceByName tenant name).isSome
  | .history id => t'.history.find? (·.id = id) = t.history.find? (·.id = id)
  | .outbox id => t'.outboxRow id = t.outboxRow id
  | .idem key => t'.idemRow key = t.idemRow key

namespace Tables.Agree

theorem refl (t : Tables) (k : Key) : t.Agree t k := by cases k <;> rfl

theorem trans {t t' t'' : Tables} {k : Key} (h : t.Agree t' k) (h' : t'.Agree t'' k) :
    t.Agree t'' k := by
  cases k <;> exact Eq.trans h' h

end Tables.Agree

/-! What is left of a row when a table is extended or updated elsewhere. -/

section
variable {α : Type} {l : List α} {p : α → Bool}

theorem find?_append_of_not {a : α} (h : p a = false) : (l ++ [a]).find? p = l.find? p := by
  simp [List.find?_append, h]

theorem find?_map_of_eq {f : α → α} (hp : ∀ a, p (f a) = p a) :
    (l.map f).find? p = (l.find? p).map f := by
  rw [List.find?_map]
  congr 1
  exact congrArg (List.find? · l) (funext hp)

theorem find?_map_of_fixed {f : α → α} (hp : ∀ a, p (f a) = p a) (hf : ∀ a, p a = true → f a = a) :
    (l.map f).find? p = l.find? p := by
  rw [find?_map_of_eq hp]
  cases h : l.find? p with
  | none => rfl
  | some a => exact congrArg some (hf a (List.find?_some h))

end

/-- A row change leaves alone what is not under its keys. -/
theorem Write.agree_apply {w : Write} {k : Key} (h : k ∉ w.keys) (t : Tables) : t.Agree (w.apply t) k := by
  cases w with
  | insertService r =>
    cases k with
    | service id =>
      have hne : r.id ≠ id := fun e => h (by simp [keys, e])
      exact find?_append_of_not (by simpa using hne)
    | serviceName tenant name =>
      have hne : ¬ (r.tenant_id = tenant ∧ r.name = name) := fun e => h (by simp [keys, e])
      exact congrArg Option.isSome (find?_append_of_not (decide_eq_false hne))
    | _ => rfl
  | setService id c =>
    cases k with
    | service id' =>
      refine find?_map_of_fixed (fun r => by split <;> rfl) (fun r hr => if_neg fun e => h ?_)
      simp [keys, ← e, of_decide_eq_true hr]
    | serviceName tenant name =>
      refine (congrArg Option.isSome (find?_map_of_eq fun r => ?_)).trans Option.isSome_map
      split <;> rfl
    | _ => rfl
  | insertHistory r =>
    cases k with
    | history id => exact find?_append_of_not (by simpa using fun e => h (by simp [keys, e]))
    | _ => rfl
  | closeHistory ids valid_to =>
    cases k with
    | history id =>
      refine find?_map_of_fixed (fun r => by split <;> rfl) (fun r hr => if_neg fun e => h ?_)
      exact List.mem_map.2 ⟨r.id, e, congrArg Key.history (of_decide_eq_true hr)⟩
    | _ => rfl
  | insertOutbox r =>
    cases k with
    | outbox id => exact find?_append_of_not (by simpa using fun e => h (by simp [keys, e]))
    | _ => rfl
  | setPublished ids published_at =>
    cases k with
    | outbox id =>
      refine find?_map_of_fixed (fun r => by split <;> rfl) (fun r hr => if_neg fun e => h ?_)
      exact List.mem_map.2 ⟨r.id, e, congrArg Key.outbox (of_decide_eq_true hr)⟩
    | _ => rfl
  | insertIdem r =>
    cases k with
    | idem key => exact find?_append_of_not (by simpa using fun e => h (by simp [keys, e]))
    | _ => rfl

/-! ### Texts -/

/-- A database in UTF-8 takes a text if it is valid and has no NUL byte. -/
def TextOk (s : GoString) : Prop := Json.ValidString s = true ∧ 0x00 ∉ s

instance (s : GoString) : Decidable (TextOk s) := by unfold TextOk; infer_instance

theorem TextOk.of_plain {s : GoString} (h : Json.Plain s) : TextOk s := by
  refine ⟨Json.validString_plain h, fun h0 => ?_⟩
  have := h 0x00 h0
  revert this
  decide

def ServiceCols.texts (c : ServiceCols) : List GoString :=
  [c.description, c.lifecycle, c.repository_url, c.owning_team, c.on_call_ref]

namespace Catalog

/-! The texts of the documents that are stored as `JSONB`. -/

def ServiceResponse.texts (r : ServiceResponse) : List GoString :=
  [r.ID, r.TenantID, r.Name, r.Description, r.Lifecycle, r.Repository, r.Ownership.OwningTeam,
    r.Ownership.OnCallRef]

def EventData.texts : EventData → List GoString
  | registered tenantID name _ => [tenantID, name]
  | ownershipChanged previousTeam newTeam => [previousTeam, newTeam]
  | lifecycleChanged source target => [source, target]
  | retired => []

def Envelope.texts (e : Envelope) : List GoString := e.EventType :: e.AggregateID :: e.Data.texts

end Catalog

/-! ### Statements -/

inductive Stmt
  | selectService (id : UUID)
  | selectServiceByName (tenant : UUID) (name : GoString)
  | insertService (r : ServiceRow)
  | updateService (id : UUID) (expectedVersion : Int) (c : ServiceCols)
  | insertHistory (r : HistoryRow)
  | closeOwnership (service_id : UUID) (valid_to : Timestamptz) (team onCall : GoString)
  | openOwnership (r : HistoryRow)
  | insertOutbox (id : UUID) (aggregate_id event_type : GoString) (payload : Envelope)
      (occurred_at : Timestamptz)
  | markPublished (ids : List GoString)
  | selectIdem (key : GoString)
  | insertIdem (r : IdemRow)

namespace Stmt

/-- The answer of a statement: the row found, the number of rows affected, or nothing. -/
abbrev Ans : Stmt → Type
  | selectService _ => Option ServiceRow
  | selectServiceByName .. => Option ServiceRow
  | updateService .. => Nat
  | selectIdem _ => Option IdemRow
  | _ => Unit

/-- The `CHECK` constraints of `catalog_services`. -/
def Checked (r : ServiceRow) : Prop :=
  (1 ≤ r.tier ∧ r.tier ≤ 4) ∧ (r.lifecycle = str "experimental" ∨ r.lifecycle = str "production" ∨
    r.lifecycle = str "deprecated" ∨ r.lifecycle = str "retired")

instance (r : ServiceRow) : Decidable (Checked r) := by unfold Checked; infer_instance

/-- `INSERT INTO catalog_ownership_history`, with its primary and foreign keys. -/
def planHistory (t : Tables) (r : HistoryRow) : Except PgError (List Write) :=
  if t.history.any (·.id = r.id) then .error .uniqueViolation
  else if t.service r.service_id = none then .error .other
  else .ok [.insertHistory r]

/-- The open intervals of a service whose owner is not `(team, onCall)`. -/
def stale (service_id : UUID) (team onCall : GoString) (h : HistoryRow) : Bool :=
  h.service_id = service_id ∧ h.valid_to = none ∧ ¬ (h.owning_team = team ∧ h.on_call_ref = onCall)

/-- The open intervals of a service whose owner is `(team, onCall)`. -/
def current (service_id : UUID) (team onCall : GoString) (h : HistoryRow) : Bool :=
  h.service_id = service_id ∧ h.valid_to = none ∧ h.owning_team = team ∧ h.on_call_ref = onCall

/-- The parameters of a statement that are sent as texts. -/
def texts : Stmt → List GoString
  | selectServiceByName _ name => [name]
  | insertService r => [r.name, r.description, r.lifecycle, r.repository_url, r.owning_team, r.on_call_ref]
  | updateService _ _ c => c.texts
  | insertHistory r => [r.owning_team, r.on_call_ref]
  | closeOwnership _ _ team onCall => [team, onCall]
  | openOwnership r => [r.owning_team, r.on_call_ref]
  | insertOutbox _ aggregate_id event_type _ _ => [aggregate_id, event_type]
  | markPublished ids => ids
  | selectIdem key => [key]
  | insertIdem r => [r.idem_key, r.request_hash]
  | selectService _ => []

/-- The texts in the JSON documents among the parameters. -/
def jsonTexts : Stmt → List GoString
  | insertOutbox _ _ _ payload _ => payload.texts
  | insertIdem r => r.response_body.texts
  | _ => []

/-- The database takes the parameters. In a document `json.Marshal` has replaced what is not valid
UTF-8, and has escaped a NUL as `\u0000`, which `jsonb` refuses. -/
def Taken (q : Stmt) : Prop := (∀ s ∈ q.texts, TextOk s) ∧ ∀ s ∈ q.jsonTexts, 0x00 ∉ s

instance (q : Stmt) : Decidable q.Taken := by unfold Taken; infer_instance

/-- A statement whose parameters are taken, read on the tables `t`, in a transaction that began at
`now`. -/
def eval (now : Timestamptz) (t : Tables) : (q : Stmt) → Except PgError (q.Ans × List Write)
  | selectService id => .ok (t.service id, [])
  | selectServiceByName tenant name => .ok (t.serviceByName tenant name, [])
  | insertService r =>
    if t.services.any fun r' => r'.id = r.id ∨ (r'.tenant_id = r.tenant_id ∧ r'.name = r.name) then
      .error .uniqueViolation
    else if Checked r then .ok ((), [.insertService r])
    else .error .other
  | updateService id expectedVersion c => match t.service id with
    | some r =>
      if r.version = expectedVersion then
        if Checked (r.set c) then .ok (1, [.setService id c]) else .error .other
      else .ok (0, [])
    | none => .ok (0, [])
  | insertHistory r => (planHistory t r).map ((), ·)
  | closeOwnership service_id valid_to team onCall =>
    .ok ((), [.closeHistory ((t.history.filter (stale service_id team onCall)).map (·.id)) valid_to])
  | openOwnership r =>
    if t.history.any (current r.service_id r.owning_team r.on_call_ref) then .ok ((), [])
    else (planHistory t r).map ((), ·)
  | insertOutbox id aggregate_id event_type payload occurred_at =>
    -- `aggregate_id` is cast to uuid; the code only sends canonical text
    match UuidLib.canonical.Parse aggregate_id with
    | some u =>
      if t.outbox.any (·.id = id) then .error .uniqueViolation
      else .ok ((), [.insertOutbox ⟨id, u, event_type, payload, occurred_at, none, now⟩])
    | none => .error .other
  | markPublished ids =>
    .ok ((), [.setPublished ((t.outbox.filter (·.id.String ∈ ids)).map (·.id)) now])
  | selectIdem key => .ok (t.idemRow key, [])
  | insertIdem r =>
    if t.idem.any (·.idem_key = r.idem_key) then .ok ((), [])
    else if t.idem.any (·.id = r.id) then .error .uniqueViolation
    else .ok ((), [.insertIdem r])

/-- A statement read on the tables `t`, in a transaction that began at `now`. -/
def plan (now : Timestamptz) (t : Tables) (q : Stmt) : Except PgError (q.Ans × List Write) :=
  if q.Taken then q.eval now t else .error .other

section
variable {q : Stmt} {now : Timestamptz} {t : Tables}

theorem plan_of_taken (h : q.Taken) : q.plan now t = q.eval now t := if_pos h

/-- A statement that is carried out had its parameters taken. -/
theorem plan_ok {x : q.Ans × List Write} (h : q.plan now t = .ok x) : q.Taken ∧ q.eval now t = .ok x := by
  simp only [plan] at h
  split at h
  · exact ⟨‹_›, h⟩
  · cases h

end

end Stmt

end Forge
