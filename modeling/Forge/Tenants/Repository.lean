import Forge.Platform.Postgres
import Forge.Tenants.Tenant

/-!
# The Postgres adapter of the tenant module (`tenant/adapters/postgres`, `migrations/0002_tenant.up.sql`)

The tables `tenants` and `outbox_events` and the statements on them, on a database that answers every
statement. A statement is refused for a value reason if a text is not storable, a number does not fit its
column or a `CHECK` fails (`Fits`), and otherwise only by a unique index. Code inside a transaction is in `Tx`,
which forgets its changes when it fails; `Execute` makes a command of it.
-/

namespace Forge.Tenants

open Catalog (Time)

/-! ### Tables -/

structure TenantRow where
  id : UUID
  name : GoString
  slug : GoString
  plan : GoString
  status : GoString
  max_services : Int
  version : Int
  created_at : Timestamptz
  updated_at : Timestamptz
deriving DecidableEq, Repr

structure TenantCols where
  name : GoString
  plan : GoString
  status : GoString
  max_services : Int
  version : Int
  updated_at : Timestamptz
deriving DecidableEq, Repr

def TenantRow.set (r : TenantRow) (c : TenantCols) : TenantRow :=
  { r with
    name := c.name, plan := c.plan, status := c.status, max_services := c.max_services,
    version := c.version, updated_at := c.updated_at }

structure OutboxRow where
  id : UUID
  aggregate_id : UUID
  event_type : GoString
  payload : Envelope
  occurred_at : Timestamptz
deriving DecidableEq, Repr

structure Db where
  tenants : List TenantRow
  outbox : List OutboxRow
deriving DecidableEq, Repr

/-- The range of an `INTEGER` column. -/
def Int4 (n : Int) : Prop := -2147483648 ≤ n ∧ n ≤ 2147483647

instance (n : Int) : Decidable (Int4 n) := by unfold Int4; infer_instance

/-- The values of a row suit their columns and pass the `CHECK`s. The version is an `int64` and its column a
`BIGINT`. -/
def Fits (r : TenantRow) : Prop :=
  (TextOk r.name ∧ TextOk r.slug) ∧ Int4 r.max_services ∧ 0 ≤ r.max_services ∧
    (r.plan = str "free" ∨ r.plan = str "standard" ∨ r.plan = str "enterprise") ∧
    (r.status = str "active" ∨ r.status = str "suspended" ∨ r.status = str "archived")

instance (r : TenantRow) : Decidable (Fits r) := by unfold Fits; infer_instance

/-- No text of the payload has a NUL, which `jsonb` refuses. -/
def EventData.JsonbOk : EventData → Prop
  | created name slug plan => 0x00 ∉ name ∧ 0x00 ∉ slug ∧ 0x00 ∉ plan
  | statusChanged source target => 0x00 ∉ source ∧ 0x00 ∉ target
  | quotaUpdated _ => True

instance (d : EventData) : Decidable d.JsonbOk := by
  cases d <;> unfold EventData.JsonbOk <;> infer_instance

/-! ### Statements -/

/-- A statement: its answer and the tables it leaves. -/
abbrev Stmt (α : Type) := Db → Except PgError (α × Db)

def insertTenantStmt (r : TenantRow) : Stmt Unit := fun db =>
  if ¬ Fits r then .error .other
  else if db.tenants.any fun r' => r'.id = r.id ∨ r'.slug = r.slug then .error .uniqueViolation
  else .ok ((), { db with tenants := db.tenants ++ [r] })

/-- `UPDATE tenants … WHERE id = … AND version = …`: the number of rows. -/
def updateTenantStmt (id : UUID) (expectedVersion : Int) (c : TenantCols) : Stmt Nat := fun db =>
  -- the parameters are encoded before any row is looked at
  if ¬ (TextOk c.name ∧ Int4 c.max_services) then .error .other
  else match db.tenants.find? (·.id = id) with
    | some r =>
      if r.version = expectedVersion then
        if Fits (r.set c) then
          .ok (1, { db with tenants := db.tenants.map fun r => if r.id = id then r.set c else r })
        else .error .other
      else .ok (0, db)
    | none => .ok (0, db)

def selectTenantStmt (p : TenantRow → Bool) : Stmt (Option TenantRow) := fun db => .ok (db.tenants.find? p, db)

def insertOutboxStmt (id : UUID) (aggregate_id event_type : GoString) (payload : Envelope)
    (occurred_at : Timestamptz) : Stmt Unit := fun db =>
  -- `aggregate_id` is cast to uuid; the code only sends canonical text
  match UuidLib.canonical.Parse aggregate_id with
  | some u =>
    if ¬ payload.Data.JsonbOk then .error .other
    else if db.outbox.any (·.id = id) then .error .uniqueViolation
    else .ok ((), { db with outbox := db.outbox ++ [⟨id, u, event_type, payload, occurred_at⟩] })
  | none => .error .other

abbrev Tx := StateT Db (Except Err)

def Tx.exec {α : Type} (q : Stmt α) (onErr : PgError → Err) : Tx α := fun db =>
  match q db with
  | .ok x => .ok x
  | .error e => .error (onErr e)

def Tx.ofExcept {α : Type} (x : Except Err α) : Tx α := fun db => x.map (·, db)

section
variable {α : Type} {db : Db} {y : α × Db}

theorem Tx.run_exec_ok {q : Stmt α} {onErr : PgError → Err} :
    (Tx.exec q onErr).run db = .ok y ↔ q db = .ok y := by
  show (match q db with | .ok x => Except.ok x | .error e => .error (onErr e)) = _ ↔ _
  cases q db <;> simp

theorem Tx.run_exec_of_ok {q : Stmt α} (onErr : PgError → Err) (h : q db = .ok y) : (Tx.exec q onErr).run db = .ok y :=
  Tx.run_exec_ok.2 h

theorem Tx.run_ofExcept_ok {x : Except Err α} {a : α} {db' : Db} :
    (Tx.ofExcept x).run db = .ok (a, db') ↔ x = .ok a ∧ db' = db := by
  show x.map (·, db) = _ ↔ _
  cases x <;> simp [Except.map, eq_comm]

theorem Tx.run_ofExcept_of_ok {x : Except Err α} {a : α} (db : Db) (h : x = .ok a) :
    (Tx.ofExcept x).run db = .ok (a, db) :=
  Tx.run_ofExcept_ok.2 ⟨h, rfl⟩

end

/-! ### Rows and aggregates -/

def insertRow (t : Tenant) : TenantRow where
  id := t.id.v
  name := t.name.v
  slug := t.slug.v
  plan := t.plan.text
  status := t.status.text
  max_services := t.quota.MaxServices
  version := t.version
  created_at := pgTime t.createdAt
  updated_at := pgTime t.updatedAt

def updateCols (t : Tenant) : TenantCols where
  name := t.name.v
  plan := t.plan.text
  status := t.status.text
  max_services := t.quota.MaxServices
  version := t.version
  updated_at := pgTime t.updatedAt

def corrupt {α : Type} : Except Err α → Except Err α :=
  Except.mapError (.caused .Internal "DATA_CORRUPTION" "stored tenant data is invalid")

@[simp] theorem corrupt_ok {α : Type} (a : α) : corrupt (.ok a) = .ok a := rfl

/-- The aggregate as it is loaded back: times are cut to microseconds, and there are no events. -/
def Tenant.loaded (t : Tenant) : Tenant :=
  { t with createdAt := goTime (pgTime t.createdAt), updatedAt := goTime (pgTime t.updatedAt), events := [] }

/-- Writing the columns of a changed aggregate leaves its row. -/
theorem Mutation.Kept.set {t t' : Tenant} (h : Kept t t') : (insertRow t).set (updateCols t') = insertRow t' := by
  simp [insertRow, TenantRow.set, updateCols, h.id, h.slug, h.createdAt]

section
variable [UuidLib]

def scanTenant : Option TenantRow → Except Err Tenant
  | none => .error ErrTenantNotFound
  | some r => do
    let tid ← corrupt (TenantIDFromString r.id.String)
    let tname ← corrupt (NewTenantName r.name)
    let tslug ← corrupt (NewSlug r.slug)
    let tplan ← corrupt (ParsePlan r.plan)
    let tstatus ← corrupt (ParseStatus r.status)
    let tquota ← corrupt (NewQuota r.max_services)
    return Reconstitute tid tname tslug tplan tstatus tquota r.version (goTime r.created_at) (goTime r.updated_at)

theorem scanTenant_insertRow (t : Tenant) : scanTenant (some (insertRow t)) = .ok t.loaded := by
  simp [scanTenant, insertRow, Reconstitute, Tenant.loaded, bind, Except.bind, pure, Except.pure]

/-! ### Repository -/

/-- What `Insert` makes of an error of its statement. -/
def insertErr : PgError → Err
  | .uniqueViolation => ErrSlugConflict
  | .other => wrapPg "insert tenant" .other

omit [UuidLib] in
def Insert (t : Tenant) : Tx Unit := Tx.exec (insertTenantStmt (insertRow t)) insertErr

def FindByID (id : TenantID) : Tx Tenant := do
  let row ← Tx.exec (selectTenantStmt (·.id = id.v)) (wrapPg "scan tenant")
  Tx.ofExcept (scanTenant row)

def FindBySlug (slug : Slug) : Tx Tenant := do
  let row ← Tx.exec (selectTenantStmt (·.slug = slug.v)) (wrapPg "scan tenant")
  Tx.ofExcept (scanTenant row)

def Update (t : Tenant) (expectedVersion : Int) : Tx Unit := do
  let n ← Tx.exec (updateTenantStmt t.id.v expectedVersion (updateCols t)) (wrapPg "update tenant")
  if n = 0 then
    match (FindByID t.id).run (← get) with
    | .error e => throw (if e.Is ErrTenantNotFound then ErrTenantNotFound else ErrVersionConflict)
    | .ok _ => throw ErrVersionConflict

end

/-- `Outbox.Append`; `newID` are the ids of the rows. -/
def Append (newID : Nat → UUID) : List Event → Tx Unit
  | [] => pure ()
  | e :: events => do
    Tx.exec (insertOutboxStmt (newID 0) e.AggregateID e.EventType e.envelope (pgTime e.OccurredAt))
      (wrapPg "append outbox event")
    Append (fun i => newID (i + 1)) events

/-- A command: what it returns, and the tables after it. -/
abbrev Cmd := ExceptT Err (StateM Db)

/-- `Store.Execute`: `fn` in a transaction, rolled back if it returns an error. -/
def Execute {α : Type} (fn : Tx α) : Cmd α := ExceptT.mk fun db =>
  match fn.run db with
  | .ok (a, db') => (.ok a, db')
  | .error e => (.error e, db)

end Forge.Tenants
