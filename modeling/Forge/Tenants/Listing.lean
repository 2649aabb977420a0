import Forge.Catalog.ListRequest
import Forge.Tenants.Commands

/-!
# Listing tenants (`tenant/adapters/postgres/repository.go`, `tenant/app/queries.go`, `tenant/api/handlers.go`)

The cursor of this listing has a field for the order, as that of the catalog has, but `encodeCursor` does not
set it and `decodeCursor` does not look at it: a cursor is accepted for either order (`decodeCursor_encodeCursor`).
-/

namespace Forge.Tenants

open GoString
open Catalog (SortOrder parseLimit parseOptional parseOrder ErrMalformedCursor plain_String)

/-! ### Filters and cursors -/

structure ListFilter where
  Status : Option Tenants.Status
  Plan : Option Tenants.Plan
  Order : SortOrder
  Limit : Int
  Cursor : GoString

/-- The `WHERE` clauses on status and plan. -/
def ListFilter.Matches (f : ListFilter) (r : TenantRow) : Prop :=
  (∀ s ∈ f.Status, r.status = s.text) ∧ ∀ p ∈ f.Plan, r.plan = p.text

instance (f : ListFilter) (r : TenantRow) : Decidable (f.Matches r) := by
  unfold ListFilter.Matches
  infer_instance

structure cursor where
  CreatedAt : GoString
  ID : GoString
  Order : GoString
deriving DecidableEq

def cursorFields : List GoString := ["c", "id", "o"]

def encodeCursor (t : Tenant) : GoString :=
  Base64.EncodeToString (Json.marshalStrings
    (cursorFields.zip [GoTime.RFC3339Nano t.createdAt, t.id.String, []]))

def decodeCursor (encoded : GoString) (_order : SortOrder) : Except Err cursor :=
  match (Base64.DecodeString encoded).bind (Json.unmarshalStrings cursorFields) with
  | some [c, id, o] => .ok ⟨c, id, o⟩
  | _ => .error ErrMalformedCursor

theorem unmarshal_cursor {c id : GoString} (hc : Json.Plain c) (hid : Json.Plain id) :
    Json.unmarshalStrings cursorFields (Json.marshalStrings (cursorFields.zip [c, id, []])) = some [c, id, []] := by
  have hnames : ∀ name ∈ cursorFields, Json.Plain name := by simp only [Json.Plain]; decide +kernel
  refine Json.unmarshalStrings_zip rfl (by simp [cursorFields]) hnames (fun v hv => ?_) (by decide)
  simp only [List.mem_cons, List.not_mem_nil, or_false] at hv
  rcases hv with rfl | rfl | rfl
  · exact hc
  · exact hid
  · simp [Json.Plain]

theorem decodeCursor_encodeCursor (t : Tenant) (order : SortOrder) :
    decodeCursor (encodeCursor t) order = .ok ⟨GoTime.RFC3339Nano t.createdAt, t.id.String, []⟩ := by
  have hid : Json.Plain t.id.String := plain_String t.id.v
  simp [decodeCursor, encodeCursor, Base64.DecodeString_EncodeToString,
    unmarshal_cursor (GoTime.plain_RFC3339Nano t.createdAt) hid]

theorem encodeCursor_ne_nil (t : Tenant) : encodeCursor t ≠ [] :=
  Base64.EncodeToString_ne_nil (by simp [Json.marshalStrings])

theorem decodeCursor_error {encoded : GoString} {order : SortOrder} {e : Err}
    (h : decodeCursor encoded order = .error e) : ∃ message, e = apperr.Validation "INVALID_CURSOR" message := by
  unfold decodeCursor at h
  split at h
  · cases h
  · cases h
    exact ⟨_, rfl⟩

/-! ### Pages -/

abbrev SortKey := Timestamptz ×ₗ UUID

def key (r : TenantRow) : SortKey := toLex (r.created_at, r.id)

/-- The order of the listing: ascending or descending in both columns. -/
abbrev ListFilter.order (f : ListFilter) : LinearOrder SortKey :=
  if f.Order = .desc then OrderDual.instLinearOrder SortKey else inferInstance

section
variable [Postgres]

/-- The cursor's texts, cast to the types of the columns. -/
def castCursor (cur : cursor) : Option SortKey := do
  let created ← Postgres.castTimestamptz cur.CreatedAt
  let id ← Postgres.castUuid cur.ID
  return toLex (created, id)

/-- The position a listing with this filter begins at. -/
def ListFilter.after (f : ListFilter) : Except Err (Option SortKey) :=
  if f.Cursor ≠ [] then do
    let cur ← decodeCursor f.Cursor f.Order
    match castCursor cur with
    | some k => return some k
    | none => throw (.pg .other) -- from `rows.Err`
  else return none

/-- The matching rows the listing has not passed, in its order. -/
def ListFilter.remaining (f : ListFilter) (after : Option SortKey) (tenants : List TenantRow) : List TenantRow :=
  @Keyset.ordered _ _ f.order key after (tenants.filter f.Matches)

variable [UuidLib]

/-- `Repository.List` on the rows of `tenants`; `ListTenants` calls it with a positive limit. -/
def RepositoryList (tenants : List TenantRow) (f : ListFilter) : Except Err (List Tenant × GoString) := do
  let after ← f.after
  let limit := f.Limit.toNat
  let rows := @Keyset.select _ _ f.order key after (limit + 1) (tenants.filter f.Matches)
  let tenants ← rows.mapM fun r => scanTenant (some r)
  if limit < tenants.length then
    return (tenants.take limit, (tenants[limit - 1]?.map encodeCursor).getD [])
  else
    return (tenants, [])

end

set_option linter.dupNamespace false in
structure ListResult where
  Tenants : List Tenant
  NextCursor : GoString

def ListFilter.withDefaults (f : ListFilter) : ListFilter :=
  { f with
    Limit := if f.Limit ≤ 0 ∨ f.Limit > 200 then 50 else f.Limit
    Order := if f.Order = .unset then .desc else f.Order }

theorem ListFilter.withDefaults_pos (f : ListFilter) : 0 < f.withDefaults.Limit.toNat := by
  simp only [ListFilter.withDefaults]
  split <;> omega

section
variable [Postgres] [UuidLib]

def ListTenants (tenants : List TenantRow) (f : ListFilter) : Except Err ListResult := do
  let (tenants, next) ← RepositoryList tenants f.withDefaults
  return ⟨tenants, next⟩

omit [Postgres] in
theorem scan_all (rows : List TenantRow) (h : ∀ r ∈ rows, ∃ t, insertRow t = r) :
    ∃ ts, (rows.mapM fun r => scanTenant (some r)) = .ok ts ∧ ts.map insertRow = rows := by
  induction rows with
  | nil => exact ⟨[], rfl, rfl⟩
  | cons r rows ih =>
    obtain ⟨⟨t, rfl⟩, hstored⟩ := List.forall_mem_cons.1 h
    obtain ⟨ts, hts, hrows⟩ := ih hstored
    refine ⟨t.loaded :: ts, ?_, by rw [List.map_cons, insertRow_loaded, hrows]⟩
    rw [List.mapM_cons, scanTenant_insertRow, hts]
    rfl

/-- With a position to begin at, the listing of stored rows returns the next rows, and a cursor if there are
more of them. -/
theorem RepositoryList_ok {db : Db} (hdb : Stored db) {f : ListFilter} {after : Option SortKey}
    (hafter : f.after = .ok after) : ∃ ts : List Tenant,
      ts.map insertRow = (f.remaining after db.tenants).take (f.Limit.toNat + 1) ∧
      RepositoryList db.tenants f = .ok (if f.Limit.toNat < ts.length then
        (ts.take f.Limit.toNat, (ts[f.Limit.toNat - 1]?.map encodeCursor).getD []) else (ts, [])) := by
  obtain ⟨ts, hts, hrows⟩ := scan_all (@Keyset.select _ _ f.order key after (f.Limit.toNat + 1)
    (db.tenants.filter f.Matches)) fun r hr => by
      have hr := ((@Keyset.mem_ordered _ _ f.order key _ _ r).1 (List.mem_of_mem_take hr)).1
      exact (hdb.rows r (List.mem_filter.1 hr).1).2
  refine ⟨ts, hrows, ?_⟩
  simp only [RepositoryList, hafter, ok_bind, hts]
  split <;> rfl

end

/-! ### Cursors and orders -/

def other (order : SortOrder) : SortOrder := if order = .asc then .desc else .asc

/-- The returned cursor, if there is one, is accepted in its order, with the time and the id of the last tenant
of the page, and refused in the other. -/
def BoundTo (order : SortOrder) (res : ListResult) : Prop :=
  res.NextCursor ≠ [] → ∃ last, res.Tenants.getLast? = some last ∧
    (∃ cur, decodeCursor res.NextCursor order = .ok cur ∧
      cur.CreatedAt = GoTime.RFC3339Nano last.createdAt ∧ cur.ID = last.id.String) ∧
    ∃ message, decodeCursor res.NextCursor (other order) = .error (apperr.Validation "INVALID_CURSOR" message)

theorem not_boundTo {order : SortOrder} {res : ListResult} {t : Tenant} (h : res.NextCursor = encodeCursor t) :
    ¬ BoundTo order res := by
  intro hbound
  obtain ⟨last, -, -, message, herr⟩ := hbound (h ▸ encodeCursor_ne_nil t)
  rw [h, decodeCursor_encodeCursor] at herr
  cases herr

section
variable [Postgres] [UuidLib] {db : Db} {f : ListFilter} {after : Option SortKey}

/-- With more rows left than the limit, the page ends in the tenant its cursor is made of. -/
theorem ListTenants_more (hdb : Stored db) (hafter : f.withDefaults.after = .ok after)
    (hmore : f.withDefaults.Limit.toNat < (f.withDefaults.remaining after db.tenants).length) :
    ∃ ts last, ListTenants db.tenants f = .ok ⟨ts, encodeCursor last⟩ ∧ ts.getLast? = some last := by
  obtain ⟨ts, hrows, hlist⟩ := RepositoryList_ok hdb hafter
  have hpos := f.withDefaults_pos
  have hlen := congrArg List.length hrows
  rw [List.length_map, List.length_take] at hlen
  have hget : ts[f.withDefaults.Limit.toNat - 1]? = some ts[f.withDefaults.Limit.toNat - 1] :=
    List.getElem?_eq_getElem (by omega)
  rw [if_pos (by omega), hget] at hlist
  refine ⟨ts.take f.withDefaults.Limit.toNat, ts[f.withDefaults.Limit.toNat - 1], ?_, ?_⟩
  · simp only [ListTenants, hlist, ok_bind]
    rfl
  · rw [List.getLast?_take, if_neg (by omega), hget]
    rfl

theorem ListTenants_last (hdb : Stored db) (hafter : f.withDefaults.after = .ok after)
    (hlast : (f.withDefaults.remaining after db.tenants).length ≤ f.withDefaults.Limit.toNat) :
    ∃ ts, ListTenants db.tenants f = .ok ⟨ts, []⟩ := by
  obtain ⟨ts, hrows, hlist⟩ := RepositoryList_ok hdb hafter
  have hlen := congrArg List.length hrows
  rw [List.length_map, List.length_take] at hlen
  rw [if_neg (by omega)] at hlist
  refine ⟨ts, ?_⟩
  simp only [ListTenants, hlist, ok_bind]
  rfl

/-- Every cursor the listing returns stands for the last tenant of its page, in whatever order it is used; so
a listing keeps its cursor to its order only if there is no next page. -/
theorem cursor_bound_iff (hdb : Stored db) (hafter : f.withDefaults.after = .ok after) :
    ∃ res, ListTenants db.tenants f = .ok res ∧
      (res.NextCursor ≠ [] → ∃ last, res.Tenants.getLast? = some last ∧
        ∀ order, decodeCursor res.NextCursor order = .ok ⟨GoTime.RFC3339Nano last.createdAt, last.id.String, []⟩) ∧
      (BoundTo f.withDefaults.Order res ↔
        (f.withDefaults.remaining after db.tenants).length ≤ f.withDefaults.Limit.toNat) := by
  by_cases hlast : (f.withDefaults.remaining after db.tenants).length ≤ f.withDefaults.Limit.toNat
  · obtain ⟨ts, hlist⟩ := ListTenants_last hdb hafter hlast
    exact ⟨_, hlist, fun hne => absurd rfl hne, fun _ => hlast, fun _ hne => absurd rfl hne⟩
  · obtain ⟨ts, last, hlist, hts⟩ := ListTenants_more hdb hafter (by omega)
    refine ⟨_, hlist, fun _ => ⟨last, hts, decodeCursor_encodeCursor last⟩, ?_⟩
    constructor
    · intro hbound
      exact absurd hbound (not_boundTo rfl)
    · intro hle
      exact absurd hle hlast

end

/-! ### A listing of two tenants -/

def Tenant.sample : Tenant :=
  (Create ⟨⟨1⟩⟩ ⟨"Acme Corp", by decide, by decide, by decide⟩ ⟨"acme", by decide, by decide⟩ .standard
    ⟨10, by decide⟩ 0).loaded

def Tenant.sampleBeta : Tenant :=
  { Tenant.sample with id := ⟨⟨2⟩⟩, slug := ⟨"beta", by decide, by decide⟩ }

def twoTenants : Db := ⟨[insertRow .sample, insertRow .sampleBeta], []⟩

theorem twoTenants_stored : Stored twoTenants := by
  constructor
  · intro r hr
    simp only [twoTenants, List.mem_cons, List.not_mem_nil, or_false] at hr
    rcases hr with rfl | rfl
    · exact ⟨by decide +kernel, _, rfl⟩
    · exact ⟨by decide +kernel, _, rfl⟩
  · decide +kernel
  · decide +kernel

def newestTenant : ListFilter := ⟨none, none, .desc, 1, []⟩

theorem cursor_bound_sample : letI := UuidLib.canonical; letI := Postgres.bytewise [0]
    Stored twoTenants ∧ newestTenant.withDefaults.after = .ok none ∧
      ∃ res, ListTenants twoTenants.tenants newestTenant = .ok res ∧
        (BoundTo .desc res ↔ (newestTenant.remaining none twoTenants.tenants).length ≤ 1) := by
  let := UuidLib.canonical
  let := Postgres.bytewise [0]
  obtain ⟨res, hlist, -, hbound⟩ := cursor_bound_iff twoTenants_stored
    (show newestTenant.withDefaults.after = .ok none from rfl)
  exact ⟨twoTenants_stored, rfl, res, hlist, hbound⟩

/-- The cursor of the first page, newest first, is accepted for the oldest first. -/
theorem cursor_reversed : letI := UuidLib.canonical; letI := Postgres.bytewise [0]
    ∃ res, ListTenants twoTenants.tenants newestTenant = .ok res ∧ ¬ BoundTo .desc res ∧
      ∃ cur, decodeCursor res.NextCursor .asc = .ok cur := by
  let := UuidLib.canonical
  let := Postgres.bytewise [0]
  have hlen := @Keyset.length_ordered_none _ _ newestTenant.order key (twoTenants.tenants.filter newestTenant.Matches)
  have hmore : 1 < (newestTenant.remaining none twoTenants.tenants).length := by
    rw [ListFilter.remaining, hlen]
    decide +kernel
  obtain ⟨ts, last, hlist, -⟩ := ListTenants_more twoTenants_stored
    (show newestTenant.withDefaults.after = .ok none from rfl) hmore
  exact ⟨_, hlist, not_boundTo rfl, _, decodeCursor_encodeCursor last .asc⟩

end Forge.Tenants
