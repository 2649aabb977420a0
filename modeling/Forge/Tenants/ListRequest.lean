import Forge.Tenants.Listing

/-!
# Requests for a list of tenants (`tenant/api/handlers.go`, `List` and `parseListFilter`)

The parameters are parsed as those of the catalog are. Any JSON object is a cursor here, the empty one too:
`decodeCursor` compares nothing, and what the query cannot cast is an internal error. `cursor_answered_iff`
says for both lists which cursors are answered as they should be.
-/

namespace Forge.Tenants

open GoString
open Catalog (parseLimit parseOptional parseOrder Time)

/-- What `q.Get` finds for the parameters of a list request; `[]` is an absent one. -/
structure ListQuery where
  limit : GoString
  status : GoString
  plan : GoString
  order : GoString
  cursor : GoString

def parseListFilter (q : ListQuery) : Except Err ListFilter := do
  let limit ← parseLimit q.limit
  let status ← parseOptional ParseStatus q.status
  let plan ← parseOptional ParsePlan q.plan
  let order ← parseOrder q.order
  return ⟨status, plan, order, limit, q.cursor⟩

structure TenantResponse where
  ID : GoString
  Name : GoString
  Slug : GoString
  Plan : GoString
  Status : GoString
  MaxServices : Int
  Version : Int
  CreatedAt : Time
  UpdatedAt : Time
deriving DecidableEq

def toResponse (t : Tenant) : TenantResponse where
  ID := t.id.String
  Name := t.name.v
  Slug := t.slug.v
  Plan := t.plan.text
  Status := t.status.text
  MaxServices := t.quota.MaxServices
  Version := t.version
  CreatedAt := t.createdAt
  UpdatedAt := t.updatedAt

section
variable [Postgres]

/-- `Handlers.List` on the rows of `tenants`. -/
def Handlers.List [UuidLib] (tenants : List TenantRow) (q : ListQuery) : Except Err (httpx.Page TenantResponse) := do
  let filter ← parseListFilter q
  let result ← ListTenants tenants filter
  return ⟨result.Tenants.map toResponse, result.NextCursor⟩

/-! ### Which requests are answered -/

/-- The cursor is absent, or refused, or the query can cast its texts. -/
def ListFilter.Castable (f : ListFilter) : Prop :=
  f.Cursor ≠ [] → ∀ cur, decodeCursor f.Cursor f.Order = .ok cur →
    (Postgres.castTimestamptz cur.CreatedAt).isSome ∧ (Postgres.castUuid cur.ID).isSome

theorem castCursor_isSome (cur : cursor) : (castCursor cur).isSome ↔
    (Postgres.castTimestamptz cur.CreatedAt).isSome ∧ (Postgres.castUuid cur.ID).isSome := by
  unfold castCursor
  cases Postgres.castTimestamptz cur.CreatedAt <;> cases Postgres.castUuid cur.ID <;> simp

/-- The query has a position to begin at, or the cursor is refused, exactly if its texts can be cast. -/
theorem ListFilter.after_answered (f : ListFilter) :
    (Answered f.after ↔ f.Castable) ∧ (¬ Answered f.after → ∃ e, f.after = .error e ∧ apperr.HTTPStatus e = 500) := by
  unfold ListFilter.Castable
  by_cases hc : f.Cursor = []
  · have hanswered : Answered f.after := .inl ⟨none, by rw [ListFilter.after, if_neg (by simp [hc])]; rfl⟩
    simp [hc, hanswered]
  simp only [hc, ne_eq, not_false_eq_true, forall_const, ← castCursor_isSome]
  apply answered_cast
  · intro e hd
    exact ⟨by rw [ListFilter.after, if_pos hc, hd, error_bind], decodeCursor_error hd⟩
  · intro cur hd k hk
    rw [ListFilter.after, if_pos hc, hd, ok_bind, hk]
    rfl
  · intro cur hd hk
    rw [ListFilter.after, if_pos hc, hd, ok_bind, hk]
    exact ⟨_, rfl, rfl⟩

/-- The order does not matter to `decodeCursor`, so the defaults leave the condition alone. -/
theorem ListFilter.castable_withDefaults (f : ListFilter) : f.withDefaults.Castable ↔ f.Castable := Iff.rfl

variable [UuidLib]

/-- Over stored rows, a request with valid parameters returns a page or refuses the cursor exactly if the
query can cast it; every other is an internal error. -/
theorem List_answered_iff {db : Db} (hdb : Stored db) {q : ListQuery} {f : ListFilter}
    (hq : parseListFilter q = .ok f) :
    (Answered (Handlers.List db.tenants q) ↔ f.Castable) ∧
      (¬ f.Castable → ∃ e, Handlers.List db.tenants q = .error e ∧ apperr.HTTPStatus e = 500) := by
  have hlist : Handlers.List db.tenants q = RepositoryList db.tenants f.withDefaults >>= fun res =>
      .ok ⟨res.1.map toResponse, res.2⟩ := by
    simp only [Handlers.List, hq, ok_bind, ListTenants]
    cases RepositoryList db.tenants f.withDefaults <;> rfl
  obtain ⟨hiff, hfails⟩ := f.withDefaults.after_answered
  rw [f.castable_withDefaults] at hiff
  obtain ⟨hrun, hrunFails⟩ := answered_list f.withDefaults.after (Handlers.List db.tenants q)
    (fun after hafter => by
      obtain ⟨ts, -, hres⟩ := RepositoryList_ok hdb hafter
      exact ⟨_, by rw [hlist, hres, ok_bind]⟩)
    (fun e he => by
      rw [hlist, RepositoryList, he, error_bind, error_bind])
  refine ⟨hrun.trans hiff, fun hne => hrunFails (hfails ?_)⟩
  rwa [hiff]

/-- For every cursor and otherwise valid parameters, both lists return a page or refuse the cursor exactly if
it is absent, refused by `decodeCursor` or made of texts that the query can cast. Every other cursor is an
internal error. -/
theorem cursor_answered_iff {services : List ServiceRow} (hservices : ∀ r ∈ services, Catalog.Stored r)
    {db : Db} (hdb : Stored db) {cq : Catalog.ListQuery} {cf : Catalog.ListFilter}
    (hcq : Catalog.parseListFilter cq = .ok cf) {tq : ListQuery} {tf : ListFilter} (htq : parseListFilter tq = .ok tf) :
    ((Answered (Catalog.Handlers.List services cq) ↔ cf.Castable) ∧
      (¬ cf.Castable → ∃ e, Catalog.Handlers.List services cq = .error e ∧ apperr.HTTPStatus e = 500)) ∧
    (Answered (Handlers.List db.tenants tq) ↔ tf.Castable) ∧
      (¬ tf.Castable → ∃ e, Handlers.List db.tenants tq = .error e ∧ apperr.HTTPStatus e = 500) :=
  ⟨Catalog.List_answered_iff hservices hcq, List_answered_iff hdb htq⟩

end

/-! ### Two requests -/

def catalogRequest (cursor : GoString) : Catalog.ListQuery := ⟨[], [], [], [], [], [], cursor⟩

def tenantRequest (cursor : GoString) : ListQuery := ⟨[], [], [], [], cursor⟩

/-- The base64 of the empty object. -/
def emptyObject : GoString := "e30"

/-- In the catalog the empty object is refused, for it has no sort; for the tenants the cursor of a stored
tenant is answered. -/
theorem cursor_answered_sample : letI := UuidLib.canonical; letI := Postgres.bytewise [0]
    Answered (Catalog.Handlers.List [] (catalogRequest emptyObject)) ∧
      Answered (Handlers.List twoTenants.tenants (tenantRequest (encodeCursor .sample))) := by
  let := UuidLib.canonical
  let := Postgres.bytewise [0]
  obtain ⟨⟨hcatalog, -⟩, htenants, -⟩ := cursor_answered_iff
    (show ∀ r ∈ ([] : List ServiceRow), Catalog.Stored r from nofun) twoTenants_stored
    (show Catalog.parseListFilter (catalogRequest emptyObject) = .ok _ from rfl)
    (show parseListFilter (tenantRequest (encodeCursor .sample)) = .ok _ from rfl)
  refine ⟨hcatalog.2 fun _ cur hcur => ?_, htenants.2 fun _ cur hcur => ?_⟩
  · cases hcur
  · cases (decodeCursor_encodeCursor _ _).symm.trans hcur
    decide +kernel

/-- The empty object is an internal error for the tenants, and in the catalog a cursor of the right sort and
order whose value is no time. -/
theorem cursor_uncastable : letI := UuidLib.canonical; letI := Postgres.bytewise [0]
    (∃ e, Handlers.List twoTenants.tenants (tenantRequest emptyObject) = .error e ∧ apperr.HTTPStatus e = 500 ∧
      ¬ Answered (Handlers.List twoTenants.tenants (tenantRequest emptyObject))) ∧
    ∃ e, Catalog.Handlers.List [] (catalogRequest "eyJzIjoiY3JlYXRlZF9hdCIsIm8iOiJkZXNjIiwidiI6IngiLCJpZCI6IiJ9") = .error e ∧
      apperr.HTTPStatus e = 500 := by
  let := UuidLib.canonical
  let := Postgres.bytewise [0]
  refine ⟨⟨_, rfl, rfl, ?_⟩, _, rfl, rfl⟩
  intro h
  exact h.status rfl rfl

end Forge.Tenants
