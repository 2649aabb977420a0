import Forge.Tenants.Repository

/-!
# The commands of the tenant module (`tenant/app/commands.go`)

What a command does to the tables is said once (`Effect`): nothing, or one new row, or one row written anew from
an aggregate that was loaded from it. Every row that any commands leave therefore is the row of an aggregate
(`Stored`, `runAll_stored`) and loads back.
-/

namespace Forge.Tenants

open Catalog (Time)

structure CreateTenantInput where
  Name : GoString
  Slug : GoString
  Plan : GoString
  MaxServices : Int
deriving DecidableEq

structure ChangeStatusInput where
  TenantID : GoString
  Status : GoString
  ExpectedVersion : Int
deriving DecidableEq

structure UpdateQuotaInput where
  TenantID : GoString
  MaxServices : Int
  ExpectedVersion : Int
deriving DecidableEq

/-- The clock and the new ids of one command. -/
structure Supply where
  now : Time
  newTenantID : UUID
  newEventID : Nat → UUID

def Cmd.ofExcept {α : Type} (x : Except Err α) : Cmd α := ExceptT.mk (pure x)

def expectedVersionOr (provided current : Int) : Int := if provided > 0 then provided else current

section
variable [UuidLib]

/-- The part of `CreateTenant` inside the transaction. -/
def createTx (newID : Nat → UUID) (tenant : Tenant) : Tx Tenant := do
  match (FindBySlug tenant.slug).run (← get) with
  | .ok _ => throw ErrSlugConflict
  | .error e =>
    if e ≠ ErrTenantNotFound then throw e
    else
      Insert tenant
      let (events, tenant) := tenant.PullEvents
      Append newID events
      return tenant

def CreateTenant (s : Supply) (inp : CreateTenantInput) : Cmd Tenant := do
  let name ← Cmd.ofExcept (NewTenantName inp.Name)
  let slug ← Cmd.ofExcept (NewSlug inp.Slug)
  let plan ← Cmd.ofExcept (ParsePlan inp.Plan)
  let quota ← Cmd.ofExcept (NewQuota inp.MaxServices)
  Execute (createTx s.newEventID (Create ⟨s.newTenantID⟩ name slug plan quota s.now))

/-- The part of `mutate` inside the transaction. -/
def mutateTx (s : Supply) (id : TenantID) (expectedVersion : Int) (m : Mutation) : Tx Tenant := do
  let tenant ← FindByID id
  let current := tenant.version
  let tenant ← Tx.ofExcept (m.apply s.now tenant)
  Update tenant (expectedVersionOr expectedVersion current)
  let (events, tenant) := tenant.PullEvents
  Append s.newEventID events
  return tenant

def mutate (s : Supply) (id : TenantID) (expectedVersion : Int) (m : Mutation) : Cmd Tenant :=
  Execute (mutateTx s id expectedVersion m)

def ChangeStatus (s : Supply) (inp : ChangeStatusInput) : Cmd Tenant := do
  let id ← Cmd.ofExcept (TenantIDFromString inp.TenantID)
  let status ← Cmd.ofExcept (ParseStatus inp.Status)
  mutate s id inp.ExpectedVersion (.changeStatus status)

def UpdateQuota (s : Supply) (inp : UpdateQuotaInput) : Cmd Tenant := do
  let id ← Cmd.ofExcept (TenantIDFromString inp.TenantID)
  let quota ← Cmd.ofExcept (NewQuota inp.MaxServices)
  mutate s id inp.ExpectedVersion (.updateQuota quota)

inductive Command
  | create (inp : CreateTenantInput)
  | changeStatus (inp : ChangeStatusInput)
  | updateQuota (inp : UpdateQuotaInput)
deriving DecidableEq

def Command.run (s : Supply) : Command → Cmd Tenant
  | create inp => CreateTenant s inp
  | changeStatus inp => ChangeStatus s inp
  | updateQuota inp => UpdateQuota s inp

/-- Commands one after another, whatever each of them returns. -/
def runAll (db : Db) : List (Supply × Command) → Db
  | [] => db
  | (s, c) :: cs => runAll ((c.run s).run db).2 cs

end

/-! ### Stored rows -/

/-- The tables as the commands leave them. -/
structure Stored (db : Db) : Prop where
  rows : ∀ r ∈ db.tenants, Fits r ∧ ∃ t, insertRow t = r
  ids : (db.tenants.map (·.id)).Nodup
  slugs : (db.tenants.map (·.slug)).Nodup

/-- What a command does to the tables. -/
inductive Effect (db : Db) : Db → Prop
  | none : Effect db db
  | insert {t : Tenant} {outbox : List OutboxRow} (hfits : Fits (insertRow t))
      (hnew : ∀ r ∈ db.tenants, r.id ≠ t.id.v ∧ r.slug ≠ t.slug.v) :
      Effect db ⟨db.tenants ++ [insertRow t], outbox⟩
  | update {t t' : Tenant} {outbox : List OutboxRow} (hrow : db.tenants.find? (·.id = t.id.v) = some (insertRow t))
      (hkept : Mutation.Kept t t') (hfits : Fits (insertRow t')) :
      Effect db ⟨db.tenants.map fun r => if r.id = t.id.v then r.set (updateCols t') else r, outbox⟩

theorem Effect.stored {db db' : Db} (h : Effect db db') (hdb : Stored db) : Stored db' := by
  cases h with
  | none => exact hdb
  | @insert t outbox hfits hnew =>
    constructor
    · intro r hr
      rcases List.mem_append.1 hr with hr | hr
      · exact hdb.rows r hr
      · rw [List.mem_singleton.1 hr]
        exact ⟨hfits, t, rfl⟩
    · rw [List.map_append, List.nodup_append']
      refine ⟨hdb.ids, by simp, ?_⟩
      simpa [List.disjoint_left, insertRow] using fun r hr => (hnew r hr).1
    · rw [List.map_append, List.nodup_append']
      refine ⟨hdb.slugs, by simp, ?_⟩
      simpa [List.disjoint_left, insertRow] using fun r hr => (hnew r hr).2
  | @update t t' outbox hrow hkept hfits =>
    have hmap : ∀ {β : Type} (g : TenantRow → β), (∀ r c, g (TenantRow.set r c) = g r) →
        (db.tenants.map fun r => if r.id = t.id.v then r.set (updateCols t') else r).map g = db.tenants.map g := by
      intro β g hg
      rw [List.map_map]
      refine List.map_congr_left fun r _ => ?_
      simp only [Function.comp_apply]
      split
      · exact hg r _
      · rfl
    refine ⟨fun r hr => ?_, ?_, ?_⟩
    · obtain ⟨r, hmem, rfl⟩ := List.mem_map.1 hr
      split
      · rename_i hid
        -- ids are unique, so this is the row the aggregate was loaded from
        have hr : r = insertRow t := List.inj_on_of_nodup_map hdb.ids hmem (List.mem_of_find?_eq_some hrow) hid
        rw [hr, hkept.set]
        exact ⟨hfits, t', rfl⟩
      · exact hdb.rows r hmem
    · show (List.map _ _).Nodup
      rw [hmap _ fun _ _ => rfl]
      exact hdb.ids
    · show (List.map _ _).Nodup
      rw [hmap _ fun _ _ => rfl]
      exact hdb.slugs

/-! ### What the commands do -/

theorem tenants_of_Append {newID : Nat → UUID} {events : List Event} {db db' : Db}
    (h : (Append newID events).run db = .ok ((), db')) : db'.tenants = db.tenants := by
  induction events generalizing newID db with
  | nil =>
    cases h
    rfl
  | cons e events ih =>
    simp only [Append, StateT.run_bind, bind_eq_ok, Tx.run_exec_ok] at h
    obtain ⟨⟨_, db₁⟩, hstmt, happend⟩ := h
    rw [ih happend]
    unfold insertOutboxStmt at hstmt
    split at hstmt
    · split_ifs at hstmt
      cases hstmt
      rfl
    · cases hstmt

section
variable [UuidLib]

theorem createTx_effect {newID : Nat → UUID} {tenant t : Tenant} {db db' : Db}
    (h : (createTx newID tenant).run db = .ok (t, db')) : Effect db db' := by
  unfold createTx at h
  simp only [StateT.run_bind, StateT.run_get, pure_bind] at h
  split at h
  · cases h
  split_ifs at h
  · cases h
  simp only [StateT.run_bind, bind_eq_ok, Insert, Tx.run_exec_ok] at h
  obtain ⟨⟨_, db₁⟩, hinsert, ⟨_, db₂⟩, happend, hret⟩ := h
  cases hret
  have htenants := tenants_of_Append happend
  unfold insertTenantStmt at hinsert
  split_ifs at hinsert with hfits hnew
  cases hinsert
  obtain ⟨tenants, outbox⟩ := db₂
  cases htenants
  refine .insert hfits fun r hr => ?_
  constructor
  · intro hid
    exact hnew (List.any_eq_true.2 ⟨r, hr, by simp [insertRow, hid]⟩)
  · intro hslug
    exact hnew (List.any_eq_true.2 ⟨r, hr, by simp [insertRow, hslug]⟩)

/-- `Update` returns only if it has written the row. -/
theorem Update_ok {t : Tenant} {ev : Int} {db db' : Db} (h : (Update t ev).run db = .ok ((), db')) :
    ∃ r, db.tenants.find? (·.id = t.id.v) = some r ∧ r.version = ev ∧ Fits (r.set (updateCols t)) ∧
      db' = { db with tenants := db.tenants.map fun r => if r.id = t.id.v then r.set (updateCols t) else r } := by
  simp only [Update, StateT.run_bind, bind_eq_ok, Tx.run_exec_ok] at h
  obtain ⟨⟨n, db₁⟩, hupdate, hrest⟩ := h
  have hn : n ≠ 0 := by
    rintro rfl
    simp only [if_true, StateT.run_bind, StateT.run_get, pure_bind] at hrest
    split at hrest <;> cases hrest
  simp only [hn, if_false] at hrest
  cases hrest
  unfold updateTenantStmt at hupdate
  split_ifs at hupdate
  split at hupdate
  · rename_i r hr
    split_ifs at hupdate with hversion hfits
    · cases hupdate
      exact ⟨r, hr, hversion, hfits, rfl⟩
    · cases hupdate
      exact absurd rfl hn
  · cases hupdate
    exact absurd rfl hn

omit [UuidLib] in
theorem insertRow_loaded (t : Tenant) : insertRow t.loaded = insertRow t := by
  simp [insertRow, Tenant.loaded]

/-- The steps of a mutation that returns. -/
theorem mutateTx_ok {s : Supply} {id : TenantID} {ev : Int} {m : Mutation} {t : Tenant} {db db' : Db}
    (h : (mutateTx s id ev m).run db = .ok (t, db')) :
    ∃ t₀ t₁ db₁, scanTenant (db.tenants.find? (·.id = id.v)) = .ok t₀ ∧ m.apply s.now t₀ = .ok t₁ ∧
      (Update t₁ (expectedVersionOr ev t₀.version)).run db = .ok ((), db₁) ∧
      (Append s.newEventID t₁.events).run db₁ = .ok ((), db') ∧ t = { t₁ with events := [] } := by
  simp only [mutateTx, StateT.run_bind, bind_eq_ok, Tx.run_ofExcept_ok, Prod.exists, FindByID, Tx.run_exec_ok] at h
  obtain ⟨t₀, db₀, ⟨row, db₁, hselect, hscan, rfl⟩, t₁, db₂, ⟨happly, rfl⟩, _, db₃, hupdate, _, db₄, happend,
    hret⟩ := h
  cases hselect
  cases hret
  exact ⟨t₀, t₁, db₃, hscan, happly, hupdate, happend, rfl⟩

theorem mutateTx_effect {s : Supply} {id : TenantID} {ev : Int} {m : Mutation} {t : Tenant} {db db' : Db}
    (hdb : Stored db) (h : (mutateTx s id ev m).run db = .ok (t, db')) : Effect db db' := by
  obtain ⟨t₀, t₁, db₁, hscan, happly, hupdate, happend, rfl⟩ := mutateTx_ok h
  cases hrow : db.tenants.find? (·.id = id.v) with
  | none =>
    rw [hrow] at hscan
    cases hscan
  | some r =>
    obtain ⟨-, t₂, rfl⟩ := hdb.rows r (List.mem_of_find?_eq_some hrow)
    have hid : (insertRow t₂).id = id.v := by simpa using List.find?_some hrow
    rw [hrow, scanTenant_insertRow] at hscan
    cases hscan
    have hkept := Mutation.kept_of_apply happly
    obtain ⟨r, hr, -, hfits, rfl⟩ := Update_ok hupdate
    rw [show t₁.id.v = t₂.loaded.id.v by rw [hkept.id]] at hr happend
    rw [← hid, ← insertRow_loaded] at hrow
    cases hr.symm.trans hrow
    rw [hkept.set] at hfits
    have htenants := tenants_of_Append happend
    obtain ⟨tenants, outbox⟩ := db'
    cases htenants
    exact .update hrow hkept hfits

omit [UuidLib] in
theorem Execute_effect {fn : Tx Tenant} {db : Db} (h : ∀ t db', fn.run db = .ok (t, db') → Effect db db') :
    Effect db ((Execute fn).run db).2 := by
  simp only [Execute, ExceptT.run_mk]
  split
  · exact h _ _ ‹_›
  · exact .none

theorem Command.run_effect {db : Db} (hdb : Stored db) (s : Supply) (c : Command) :
    Effect db ((c.run s).run db).2 := by
  cases c with
  | create inp =>
    simp only [Command.run, CreateTenant]
    cases NewTenantName inp.Name with
    | error e => exact .none
    | ok name => cases NewSlug inp.Slug with
      | error e => exact .none
      | ok slug => cases ParsePlan inp.Plan with
        | error e => exact .none
        | ok plan => cases NewQuota inp.MaxServices with
          | error e => exact .none
          | ok quota => exact Execute_effect fun t db' h => createTx_effect h
  | changeStatus inp =>
    simp only [Command.run, ChangeStatus]
    cases TenantIDFromString inp.TenantID with
    | error e => exact .none
    | ok id => cases ParseStatus inp.Status with
      | error e => exact .none
      | ok status => exact Execute_effect fun t db' h => mutateTx_effect hdb h
  | updateQuota inp =>
    simp only [Command.run, UpdateQuota]
    cases TenantIDFromString inp.TenantID with
    | error e => exact .none
    | ok id => cases NewQuota inp.MaxServices with
      | error e => exact .none
      | ok quota => exact Execute_effect fun t db' h => mutateTx_effect hdb h

/-- Whatever commands are run on stored tables, all rows can be loaded back. -/
theorem runAll_stored {db : Db} (hdb : Stored db) (cs : List (Supply × Command)) : Stored (runAll db cs) := by
  induction cs generalizing db with
  | nil => exact hdb
  | cons c cs ih => exact ih ((Command.run_effect hdb c.1 c.2).stored hdb)

end

end Forge.Tenants
