import Forge.Tenants.Listing

/-!
# Values that are accepted and values that are stored

The constructors of `values.go` and the columns of `0002_tenant.up.sql` are two definitions of what a valid
tenant is. They agree on slugs, plans and status, but `NewQuota` has no upper bound and `NewTenantName` does not
look at the bytes (`fits_insertRow_iff`). Where nothing but a value can make a command fail, it stores the
tenant exactly if the quota is in the range of an `INTEGER` and the name is a text of the database
(`accepted_storable_iff`).
-/

namespace Forge.Tenants

open Catalog (plain_of_nameOk)

/-- What the columns ask of a tenant beyond its constructors. -/
theorem fits_insertRow_iff (t : Tenant) :
    Fits (insertRow t) ↔ TextOk t.name.v ∧ t.quota.MaxServices ≤ 2147483647 := by
  have hslug : TextOk t.slug.v := .of_plain (plain_of_nameOk t.slug.slugOk)
  have hquota := t.quota.nonneg
  have hplan : t.plan.text = str "free" ∨ t.plan.text = str "standard" ∨ t.plan.text = str "enterprise" := by
    cases t.plan <;> decide
  have hstatus : t.status.text = str "active" ∨ t.status.text = str "suspended" ∨
      t.status.text = str "archived" := by
    cases t.status <;> decide
  simp only [Fits, insertRow, Int4, hslug, hplan, hstatus, and_true]
  constructor
  · rintro ⟨hname, ⟨-, hle⟩, -⟩
    exact ⟨hname, hle⟩
  · rintro ⟨hname, hle⟩
    exact ⟨hname, ⟨by omega, hle⟩, hquota⟩

/-! ### Appending one event -/

theorem Append_one (newID : Nat → UUID) {e : Event} {u : UUID} (db : Db) (hid : e.AggregateID = u.String)
    (hdata : e.data.JsonbOk) (hnew : ∀ r ∈ db.outbox, r.id ≠ newID 0) :
    ∃ outbox, (Append newID [e]).run db = .ok ((), ⟨db.tenants, outbox⟩) := by
  have hany : ¬ (db.outbox.any (·.id = newID 0)) = true := by simpa using hnew
  have hdata : e.envelope.Data.JsonbOk := hdata
  have hstmt : insertOutboxStmt (newID 0) e.AggregateID e.EventType e.envelope (pgTime e.OccurredAt) db =
      .ok ((), ⟨db.tenants, db.outbox ++ [⟨newID 0, u, e.EventType, e.envelope, pgTime e.OccurredAt⟩]⟩) := by
    simp only [insertOutboxStmt, hid, UuidLib.canonical.parse_String, hdata, not_true, if_false, if_neg hany]
  have hexec := Tx.run_exec_of_ok (wrapPg "append outbox event") hstmt
  refine ⟨db.outbox ++ [⟨newID 0, u, e.EventType, e.envelope, pgTime e.OccurredAt⟩], ?_⟩
  simp only [Append, StateT.run_bind, hexec, ok_bind]
  rfl

section
variable [UuidLib]

/-- The command returned `t`, its row suits the columns, and `FindByID` finds it. -/
def StoredAs (t : Tenant) (result : Except Err Tenant × Db) : Prop :=
  Fits (insertRow t) ∧ result.1 = .ok t ∧ (FindByID t.id).run result.2 = .ok (t.loaded, result.2)

theorem FindByID_ok {id : TenantID} {t : Tenant} {db : Db}
    (h : db.tenants.find? (·.id = id.v) = some (insertRow t)) : (FindByID id).run db = .ok (t.loaded, db) := by
  have hselect := Tx.run_exec_of_ok (wrapPg "scan tenant")
    (show selectTenantStmt (·.id = id.v) db = .ok (some (insertRow t), db) by rw [selectTenantStmt, h])
  have hscan := Tx.run_ofExcept_of_ok db (scanTenant_insertRow t)
  simp only [FindByID, StateT.run_bind, hselect, ok_bind, hscan]

/-! ### Creating a tenant -/

/-- Nothing but a value can make the creation fail: the slug and the new ids are not in use. -/
structure Free (db : Db) (s : Supply) (slug : Slug) : Prop where
  slug : ∀ r ∈ db.tenants, r.slug ≠ slug.v
  id : ∀ r ∈ db.tenants, r.id ≠ s.newTenantID
  event : ∀ r ∈ db.outbox, r.id ≠ s.newEventID 0

section
variable {db : Db} {s : Supply} {tenant : Tenant}

theorem FindBySlug_free (h : ∀ r ∈ db.tenants, r.slug ≠ tenant.slug.v) :
    (FindBySlug tenant.slug).run db = .error ErrTenantNotFound := by
  have hnone : db.tenants.find? (·.slug = tenant.slug.v) = none := by
    simpa using h
  have hselect := Tx.run_exec_of_ok (wrapPg "scan tenant")
    (show selectTenantStmt (·.slug = tenant.slug.v) db = .ok (none, db) by rw [selectTenantStmt, hnone])
  simp only [FindBySlug, StateT.run_bind, hselect, ok_bind]
  rfl

theorem createTx_eq {newID : Nat → UUID} (h : ∀ r ∈ db.tenants, r.slug ≠ tenant.slug.v) :
    (createTx newID tenant).run db = (do
      let x ← (Insert tenant).run db
      let y ← (Append newID tenant.events).run x.2
      return ({ tenant with events := [] }, y.2)) := by
  simp only [createTx, StateT.run_bind, StateT.run_get, pure_bind, FindBySlug_free h, ne_eq, not_true, if_false]
  rfl

theorem CreateTenant_eq {inp : CreateTenantInput} {name : TenantName} {slug : Slug} {plan : Plan} {quota : Quota}
    (hname : NewTenantName inp.Name = .ok name) (hslug : NewSlug inp.Slug = .ok slug)
    (hplan : ParsePlan inp.Plan = .ok plan) (hquota : NewQuota inp.MaxServices = .ok quota) :
    (CreateTenant s inp).run db =
      (Execute (createTx s.newEventID (Create ⟨s.newTenantID⟩ name slug plan quota s.now))).run db := by
  simp only [CreateTenant, hname, hslug, hplan, hquota]
  rfl

omit [UuidLib] in
theorem Insert_ok (hfits : Fits (insertRow tenant))
    (hnew : ∀ r ∈ db.tenants, r.id ≠ tenant.id.v ∧ r.slug ≠ tenant.slug.v) :
    (Insert tenant).run db = .ok ((), { db with tenants := db.tenants ++ [insertRow tenant] }) := by
  have hany : ¬ (db.tenants.any fun r => r.id = (insertRow tenant).id ∨ r.slug = (insertRow tenant).slug) = true := by
    simp only [List.any_eq_true, decide_eq_true_eq, not_exists, not_and, not_or]
    exact hnew
  exact Tx.run_exec_ok.2 (by simp only [insertTenantStmt, hfits, not_true, if_false, if_neg hany])

theorem createTx_ok (hfits : Fits (insertRow tenant)) (hslug : ∀ r ∈ db.tenants, r.slug ≠ tenant.slug.v)
    (hid : ∀ r ∈ db.tenants, r.id ≠ tenant.id.v) {newID : Nat → UUID} (hevent : ∀ r ∈ db.outbox, r.id ≠ newID 0)
    {e : Event} (hevents : tenant.events = [e]) (haggregate : e.AggregateID = tenant.id.v.String)
    (hdata : e.data.JsonbOk) :
    ∃ outbox, (createTx newID tenant).run db =
      .ok ({ tenant with events := [] }, ⟨db.tenants ++ [insertRow tenant], outbox⟩) := by
  obtain ⟨outbox, happend⟩ := Append_one newID { db with tenants := db.tenants ++ [insertRow tenant] }
    haggregate hdata hevent
  refine ⟨outbox, (createTx_eq hslug).trans ?_⟩
  rw [Insert_ok hfits fun r hr => ⟨hid r hr, hslug r hr⟩, hevents, ok_bind, happend, ok_bind]
  rfl

theorem create_storedAs_iff {name : TenantName} {slug : Slug} {plan : Plan} {quota : Quota} (hfree : Free db s slug) :
    StoredAs { Create ⟨s.newTenantID⟩ name slug plan quota s.now with events := [] }
        ((Execute (createTx s.newEventID (Create ⟨s.newTenantID⟩ name slug plan quota s.now))).run db) ↔
      TextOk name.v ∧ quota.MaxServices ≤ 2147483647 := by
  let tenant := Create ⟨s.newTenantID⟩ name slug plan quota s.now
  have hfits : Fits (insertRow tenant) ↔ TextOk name.v ∧ quota.MaxServices ≤ 2147483647 :=
    fits_insertRow_iff tenant
  rw [← hfits]
  refine ⟨fun h => h.1, fun hf => ?_⟩
  have hdata : (Event.TenantCreated tenant.id.String s.now name.v slug.v plan.text).data.JsonbOk :=
    ⟨(hfits.1 hf).1.2, (TextOk.of_plain (plain_of_nameOk slug.slugOk)).2, by cases plan <;> decide⟩
  obtain ⟨outbox, htx⟩ := createTx_ok hf hfree.slug hfree.id hfree.event rfl rfl hdata
  have hrun : (Execute (createTx s.newEventID tenant)).run db =
      (.ok { tenant with events := [] }, ⟨db.tenants ++ [insertRow tenant], outbox⟩) := by
    simp only [Execute, ExceptT.run_mk, htx]
  have hnone : db.tenants.find? (·.id = s.newTenantID) = none := by simpa using hfree.id
  rw [hrun]
  refine ⟨hf, rfl, FindByID_ok ?_⟩
  show (db.tenants ++ [insertRow tenant]).find? (·.id = s.newTenantID) = some (insertRow tenant)
  rw [List.find?_append, hnone, Option.none_or]
  exact List.find?_cons_of_pos (decide_eq_true rfl)

end

/-! ### Changing a quota -/

section
variable {db : Db} {s : Supply} {t : Tenant} {ev : Int}

/-- Nothing but a value can make the change fail: `t` is stored, is not archived and has the expected version,
and the id of the event is not in use. -/
structure Changeable (db : Db) (s : Supply) (t : Tenant) (ev : Int) : Prop where
  row : db.tenants.find? (·.id = t.id.v) = some (insertRow t)
  status : t.status ≠ .archived
  version : expectedVersionOr ev t.version = t.version
  event : ∀ r ∈ db.outbox, r.id ≠ s.newEventID 0

def withQuota (s : Supply) (t : Tenant) (q : Quota) : Tenant := { t.loaded with quota := q }.touch s.now

omit [UuidLib] in
theorem apply_updateQuota (h : t.status ≠ .archived) (q : Quota) : (Mutation.updateQuota q).apply s.now t.loaded =
    .ok ((withQuota s t q).record (.TenantQuotaUpdated t.id.String s.now q.MaxServices)) :=
  if_neg h

/-- The rows after the row of `t'` is written. -/
abbrev rowsWith (t' : Tenant) (tenants : List TenantRow) : List TenantRow :=
  tenants.map fun r => if r.id = t'.id.v then r.set (updateCols t') else r

section
variable {t' : Tenant} (hrow : db.tenants.find? (·.id = t.id.v) = some (insertRow t)) (hkept : Mutation.Kept t.loaded t')
include hrow hkept

/-- The row of a tenant whose new values suit the columns is written. -/
theorem Update_of_fits (hfits : Fits (insertRow t')) :
    (Update t' t.version).run db = .ok ((), ⟨rowsWith t' db.tenants, db.outbox⟩) := by
  have hfind : db.tenants.find? (·.id = t'.id.v) = some (insertRow t) := by rw [hkept.id]; exact hrow
  have hset : (insertRow t).set (updateCols t') = insertRow t' := by rw [← insertRow_loaded t, hkept.set]
  have hparams : TextOk (updateCols t').name ∧ Int4 (updateCols t').max_services := ⟨hfits.1.1, hfits.2.1⟩
  have hversion : (insertRow t).version = t.version := rfl
  have hstmt : updateTenantStmt t'.id.v t.version (updateCols t') db =
      .ok (1, ⟨rowsWith t' db.tenants, db.outbox⟩) := by
    simp only [updateTenantStmt, hparams, and_self, not_true, if_false, hfind, hversion, if_true, hset, hfits]
  have hexec := Tx.run_exec_of_ok (wrapPg "update tenant") hstmt
  simp only [Update, StateT.run_bind, hexec, ok_bind, one_ne_zero, if_false]
  rfl

omit [UuidLib] in
theorem find_rowsWith : (rowsWith t' db.tenants).find? (·.id = t'.id.v) = some (insertRow t') := by
  have hcomp : ((fun r : TenantRow => decide (r.id = t'.id.v)) ∘
      fun r => if r.id = t'.id.v then r.set (updateCols t') else r) = fun r => decide (r.id = t'.id.v) := by
    funext r
    simp only [Function.comp_apply]
    split <;> rfl
  have hfind : db.tenants.find? (·.id = t'.id.v) = some (insertRow t) := by rw [hkept.id]; exact hrow
  have hid : (insertRow t).id = t'.id.v := by rw [hkept.id]; rfl
  rw [List.find?_map, hcomp, hfind, Option.map_some, if_pos hid, ← insertRow_loaded t, hkept.set]

end

/-- A mutation whose new values suit the columns is stored, with its event. -/
theorem mutateTx_of_fits {m : Mutation} {t' : Tenant} {e : Event} (h : Changeable db s t ev)
    (happly : m.apply s.now t.loaded = .ok t') (hfits : Fits (insertRow t')) (hevents : t'.events = [e])
    (haggregate : e.AggregateID = t.id.v.String) (hdata : e.data.JsonbOk) :
    ∃ outbox, (mutateTx s t.id ev m).run db = .ok ({ t' with events := [] }, ⟨rowsWith t' db.tenants, outbox⟩) := by
  obtain ⟨outbox, happend⟩ := Append_one s.newEventID ⟨rowsWith t' db.tenants, db.outbox⟩
    haggregate hdata h.event
  have hupdate := Update_of_fits h.row (Mutation.kept_of_apply happly) hfits
  have hversion : expectedVersionOr ev t.loaded.version = t.version := h.version
  have happly := Tx.run_ofExcept_of_ok db happly
  refine ⟨outbox, ?_⟩
  simp only [mutateTx, StateT.run_bind, FindByID_ok h.row, ok_bind, happly, hversion, hupdate, Tenant.PullEvents,
    hevents, happend]
  rfl

theorem quota_storedAs_iff (hdb : Stored db) (h : Changeable db s t ev) (q : Quota) :
    StoredAs (withQuota s t q) ((Execute (mutateTx s t.id ev (.updateQuota q))).run db) ↔
      q.MaxServices ≤ 2147483647 := by
  have hname : TextOk t.name.v := (hdb.rows _ (List.mem_of_find?_eq_some h.row)).1.1.1
  have hfits : Fits (insertRow (withQuota s t q)) ↔ q.MaxServices ≤ 2147483647 :=
    (fits_insertRow_iff _).trans (and_iff_right hname)
  rw [← hfits]
  refine ⟨fun hs => hs.1, fun hf => ?_⟩
  have happly := apply_updateQuota (s := s) h.status q
  obtain ⟨outbox, htx⟩ := mutateTx_of_fits h happly hf rfl rfl trivial
  have hrun : (Execute (mutateTx s t.id ev (.updateQuota q))).run db =
      (.ok (withQuota s t q), ⟨rowsWith (withQuota s t q) db.tenants, outbox⟩) := by
    simp only [Execute, ExceptT.run_mk, htx]
    rfl
  have hfind := find_rowsWith h.row (Mutation.kept_of_apply happly)
  rw [hrun]
  exact ⟨hf, rfl, FindByID_ok hfind⟩

theorem UpdateQuota_eq {inp : UpdateQuotaInput} {id : TenantID} {quota : Quota}
    (hid : TenantIDFromString inp.TenantID = .ok id) (hquota : NewQuota inp.MaxServices = .ok quota) :
    (UpdateQuota s inp).run db = (Execute (mutateTx s id inp.ExpectedVersion (.updateQuota quota))).run db := by
  simp only [UpdateQuota, hid, hquota]
  rfl

end

/-! ### Both commands -/

/-- Where nothing but a value can make them fail, accepted inputs are stored and loaded back exactly if the
quota is in the range of its column and, for a new tenant, the name is a text of the database. -/
theorem accepted_storable_iff {db : Db} (hdb : Stored db) (s : Supply) :
    (∀ {inp : CreateTenantInput} {name : TenantName} {slug : Slug} {plan : Plan} {quota : Quota},
      NewTenantName inp.Name = .ok name → NewSlug inp.Slug = .ok slug → ParsePlan inp.Plan = .ok plan →
      NewQuota inp.MaxServices = .ok quota → Free db s slug →
      (StoredAs { Create ⟨s.newTenantID⟩ name slug plan quota s.now with events := [] }
          ((CreateTenant s inp).run db) ↔
        TextOk name.v ∧ inp.MaxServices ≤ 2147483647)) ∧
    ∀ {inp : UpdateQuotaInput} {t : Tenant} {quota : Quota},
      TenantIDFromString inp.TenantID = .ok t.id → NewQuota inp.MaxServices = .ok quota →
      Changeable db s t inp.ExpectedVersion →
      (StoredAs (withQuota s t quota) ((UpdateQuota s inp).run db) ↔ inp.MaxServices ≤ 2147483647) := by
  constructor
  · intro inp name slug plan quota hname hslug hplan hquota hfree
    rw [CreateTenant_eq hname hslug hplan hquota, ← MaxServices_of_NewQuota hquota]
    exact create_storedAs_iff hfree
  · intro inp t quota hid hquota h
    rw [UpdateQuota_eq hid hquota, ← MaxServices_of_NewQuota hquota]
    exact quota_storedAs_iff hdb h quota

end

/-! ### Quotas around the bound -/

def Supply.sample : Supply := ⟨0, ⟨3⟩, fun i => ⟨i⟩⟩

def createInput (maxServices : Int) : CreateTenantInput := ⟨"Gamma Inc", "gamma", "free", maxServices⟩

def quotaInput (maxServices : Int) : UpdateQuotaInput := ⟨Tenant.sample.id.String, maxServices, 1⟩

theorem accepted_storable_sample : letI := UuidLib.canonical
    (∃ t, StoredAs t ((CreateTenant .sample (createInput 2147483647)).run twoTenants)) ∧
      ∃ t, StoredAs t ((UpdateQuota .sample (quotaInput 2147483647)).run twoTenants) := by
  let := UuidLib.canonical
  obtain ⟨hcreate, hquota⟩ := accepted_storable_iff twoTenants_stored .sample
  constructor
  · refine ⟨_, (@hcreate (createInput 2147483647) ⟨"Gamma Inc", by decide, by decide, by decide⟩
      ⟨"gamma", by decide, by decide⟩ .free ⟨2147483647, by decide⟩ ?_ ?_ rfl ?_ ?_).2 ?_⟩
    · decide +kernel
    · decide +kernel
    · decide +kernel
    · exact ⟨by decide +kernel, by decide +kernel, by decide +kernel⟩
    · decide +kernel
  · refine ⟨_, (@hquota (quotaInput 2147483647) .sample ⟨2147483647, by decide⟩ ?_ ?_ ?_).2 ?_⟩
    · exact TenantIDFromString_String _
    · decide +kernel
    · exact ⟨by decide +kernel, by decide, by decide, by decide⟩
    · decide

/-- One service more is accepted by `NewQuota` and refused by the column. -/
theorem quota_out_of_range : letI := UuidLib.canonical
    (NewQuota 2147483648).isOk = true ∧
    (∃ e, ((CreateTenant .sample (createInput 2147483648)).run twoTenants).1 = .error e ∧ apperr.HTTPStatus e = 500) ∧
    ∃ e, ((UpdateQuota .sample (quotaInput 2147483648)).run twoTenants).1 = .error e ∧ apperr.HTTPStatus e = 500 := by
  refine ⟨by decide, ⟨wrapPg "insert tenant" .other, ?_, rfl⟩, wrapPg "update tenant" .other, ?_, rfl⟩
  · decide +kernel
  · decide +kernel

end Forge.Tenants
