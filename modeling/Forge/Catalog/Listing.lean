import Mathlib.Data.Prod.Lex
import Mathlib.Data.Sum.Order
import Forge.Lib.Base64
import Forge.Lib.Keyset
import Forge.Platform.Postgres
import Forge.Catalog.Repository

/-!
# Listing services (`catalog/adapters/postgres/repository.go`, `catalog/app/queries.go`)

`Repository.List` reads one page from the committed rows of `catalog_services`. A cursor is the JSON of the
last row's sort value and id in base64; the query casts its texts to the types of the columns.
-/

namespace Forge

namespace Catalog

open GoString

/-! ### Filters -/

/-- `SortField`; the empty string is the unset one. -/
inductive SortField
  | unset | createdAt | name
deriving DecidableEq

inductive SortOrder
  | unset | asc | desc
deriving DecidableEq

def SortField.text : SortField → GoString
  | .unset => ""
  | .createdAt => "created_at"
  | .name => "name"

def SortOrder.text : SortOrder → GoString
  | .unset => ""
  | .asc => "asc"
  | .desc => "desc"

structure ListFilter where
  TenantID : Option Catalog.TenantID
  Lifecycle : Option Catalog.Lifecycle
  Tier : Option Catalog.Tier
  SortBy : SortField
  Order : SortOrder
  Limit : Int
  Cursor : GoString

/-- The `WHERE` clauses on tenant, lifecycle and tier. -/
def ListFilter.Matches (f : ListFilter) (r : ServiceRow) : Prop :=
  (∀ t ∈ f.TenantID, r.tenant_id = t.v) ∧ (∀ l ∈ f.Lifecycle, r.lifecycle = l.text) ∧
    ∀ t ∈ f.Tier, r.tier = t.v

instance (f : ListFilter) (r : ServiceRow) : Decidable (f.Matches r) := by
  unfold ListFilter.Matches
  infer_instance

/-- Each of the three is not asked for, or equal. -/
theorem ListFilter.matches_iff (f : ListFilter) (r : ServiceRow) : f.Matches r ↔
    (f.TenantID = none ∨ f.TenantID.map (·.v) = some r.tenant_id) ∧
    (f.Lifecycle = none ∨ f.Lifecycle.map (·.text) = some r.lifecycle) ∧
    (f.Tier = none ∨ f.Tier.map (·.v) = some r.tier) := by
  obtain ⟨tenant, lifecycle, tier, _, _, _, _⟩ := f
  cases tenant <;> cases lifecycle <;> cases tier <;> simp [ListFilter.Matches, eq_comm]

/-! ### Cursors -/

structure cursor where
  SortBy : GoString
  Order : GoString
  Value : GoString
  ID : GoString

def cursorFields : List GoString := ["s", "o", "v", "id"]

/-- The sort value of a service, as text. -/
def ListFilter.valueText (f : ListFilter) (s : Service) : GoString :=
  if f.SortBy = .name then s.name.v else GoTime.RFC3339Nano s.createdAt

def encodeCursor (f : ListFilter) (s : Service) : GoString :=
  Base64.EncodeToString (Json.marshalStrings
    (cursorFields.zip [f.SortBy.text, f.Order.text, f.valueText s, s.id.String]))

def ErrMalformedCursor : Err := apperr.Validation "INVALID_CURSOR" "cursor is malformed"

def ErrCursorMismatch : Err :=
  apperr.Validation "INVALID_CURSOR" "cursor does not match the requested sort or order"

def decodeCursor (encoded : GoString) (sort : SortField) (order : SortOrder) : Except Err cursor :=
  match (Base64.DecodeString encoded).bind (Json.unmarshalStrings cursorFields) with
  | some [s, o, v, id] =>
    if s ≠ sort.text ∨ o ≠ order.text then .error ErrCursorMismatch else .ok ⟨s, o, v, id⟩
  | _ => .error ErrMalformedCursor

section
open Json

theorem unmarshal_encodeCursor (f : ListFilter) (s : Service) :
    (Base64.DecodeString (encodeCursor f s)).bind (unmarshalStrings cursorFields) =
      some [f.SortBy.text, f.Order.text, f.valueText s, s.id.String] := by
  have hvalue : Plain (f.valueText s) := by
    unfold ListFilter.valueText
    split
    · exact plain_of_nameOk s.name.nameOk
    · exact GoTime.plain_RFC3339Nano s.createdAt
  have hsort : Plain f.SortBy.text := by
    cases f.SortBy <;> simp only [SortField.text, Plain] <;> decide +kernel
  have horder : Plain f.Order.text := by
    cases f.Order <;> simp only [SortOrder.text, Plain] <;> decide +kernel
  have hnames : ∀ name ∈ cursorFields, Plain name := by simp only [Plain]; decide +kernel
  rw [encodeCursor, Base64.DecodeString_EncodeToString]
  refine unmarshalStrings_zip rfl (by simp [cursorFields]) hnames (fun v hv => ?_) (by decide)
  simp only [List.mem_cons, List.not_mem_nil, or_false] at hv
  rcases hv with rfl | rfl | rfl | rfl
  · exact hsort
  · exact horder
  · exact hvalue
  · exact plain_String s.id.v

theorem decodeCursor_encodeCursor (f : ListFilter) (s : Service) :
    decodeCursor (encodeCursor f s) f.SortBy f.Order =
      .ok ⟨f.SortBy.text, f.Order.text, f.valueText s, s.id.String⟩ := by
  simp [decodeCursor, unmarshal_encodeCursor]

theorem encodeCursor_ne_nil (f : ListFilter) (s : Service) : encodeCursor f s ≠ [] :=
  Base64.EncodeToString_ne_nil (by simp [marshalStrings])

end

/-! ### Pages -/

section
variable [Postgres]

/-- A value of the sort column, and an id. -/
abbrev SortKey := (Timestamptz ⊕ₗ Text) ×ₗ UUID

def ListFilter.key (f : ListFilter) (r : ServiceRow) : SortKey :=
  toLex (if f.SortBy = .name then toLex (.inr ⟨r.name⟩) else toLex (.inl r.created_at), r.id)

/-- The order of the listing: ascending or descending in both columns. -/
abbrev ListFilter.order (f : ListFilter) : LinearOrder SortKey :=
  if f.Order = .desc then OrderDual.instLinearOrder SortKey else inferInstance

theorem ListFilter.order_lt_iff (f : ListFilter) (k k' : SortKey) :
    f.order.lt k k' ↔ if f.Order = .desc then k' < k else k < k' := by
  by_cases h : f.Order = .desc
  · have horder : f.order = OrderDual.instLinearOrder SortKey := if_pos h
    rw [horder, if_pos h]
    rfl
  · have horder : f.order = (inferInstance : LinearOrder SortKey) := if_neg h
    rw [horder, if_neg h]

/-- Ascending is by the name or by the time of creation, and by the id among equals. -/
theorem ListFilter.key_lt_key_iff (f : ListFilter) (r r' : ServiceRow) : f.key r < f.key r' ↔
    if f.SortBy = .name then Text.mk r.name < Text.mk r'.name ∨ r.name = r'.name ∧ r.id < r'.id
    else r.created_at < r'.created_at ∨ r.created_at = r'.created_at ∧ r.id < r'.id := by
  unfold ListFilter.key
  rw [Prod.Lex.toLex_lt_toLex]
  split <;> simp

/-- The cursor's texts, cast to the types of the columns. -/
def ListFilter.castCursor (f : ListFilter) (cur : cursor) : Option SortKey := do
  let id ← Postgres.castUuid cur.ID
  if f.SortBy = .name then return toLex (toLex (.inr (← castText cur.Value)), id)
  else return toLex (toLex (.inl (← Postgres.castTimestamptz cur.Value)), id)

/-- The position a listing with this filter begins at. -/
def ListFilter.after (f : ListFilter) : Except Err (Option SortKey) :=
  if f.Cursor ≠ [] then do
    let cur ← decodeCursor f.Cursor f.SortBy f.Order
    match f.castCursor cur with
    | some k => return some k
    | none => throw (.pg .other) -- from `rows.Err`, the server casts the arguments when it runs the query
  else return none

theorem ListFilter.after_of_cast {f : ListFilter} {cur : cursor} {k : SortKey} (hne : f.Cursor ≠ [])
    (hdecode : decodeCursor f.Cursor f.SortBy f.Order = .ok cur) (hcast : f.castCursor cur = some k) :
    f.after = .ok (some k) := by
  simp only [ListFilter.after, hne, ne_eq, not_false_eq_true, if_true, hdecode, hcast, bind, Except.bind]
  rfl

variable [UuidLib]

/-- `Repository.List` on the rows of `catalog_services`; `ListServices` calls it with a positive limit. -/
def RepositoryList (services : List ServiceRow) (f : ListFilter) : Except Err (List Service × GoString) := do
  let after ← f.after
  let limit := f.Limit.toNat
  let rows := @Keyset.select _ _ f.order f.key after (limit + 1) (services.filter f.Matches)
  let services ← rows.mapM fun r => scanService (some r)
  if limit < services.length then
    return (services.take limit, (services[limit - 1]?.map (encodeCursor f)).getD [])
  else
    return (services, [])

omit [Postgres] in
theorem scan_all (rows : List ServiceRow) (h : ∀ r ∈ rows, Stored r) :
    ∃ ss, (rows.mapM fun r => scanService (some r)) = .ok ss ∧ ss.map insertRow = rows ∧
      ∀ s ∈ ss, s.createdAt = goTime (insertRow s).created_at := by
  induction rows with
  | nil => exact ⟨[], rfl, rfl, by simp⟩
  | cons r rows ih =>
    obtain ⟨⟨s, rfl⟩, hstored⟩ := List.forall_mem_cons.1 h
    obtain ⟨ss, hss, hrows, htimes⟩ := ih hstored
    refine ⟨{ s with
      createdAt := goTime (pgTime s.createdAt), updatedAt := goTime (pgTime s.updatedAt), events := [] } :: ss,
      ?_, ?_, List.forall_mem_cons.2 ⟨?_, htimes⟩⟩
    · rw [List.mapM_cons, scanService_insertRow, hss]
      rfl
    · simp [hrows, insertRow]
    · simp [insertRow]

/-- With a position to begin at, the listing of stored rows returns a page. -/
theorem RepositoryList_ok {services : List ServiceRow} (h : ∀ r ∈ services, Stored r) {f : ListFilter}
    {after : Option SortKey} (hafter : f.after = .ok after) : ∃ res, RepositoryList services f = .ok res := by
  obtain ⟨ss, hss, -⟩ := scan_all (@Keyset.select _ _ f.order f.key after (f.Limit.toNat + 1)
    (services.filter f.Matches)) fun r hr => by
      have hr := ((@Keyset.mem_ordered _ _ f.order f.key _ _ r).1 (List.mem_of_mem_take hr)).1
      exact h r (List.mem_filter.1 hr).1
  simp only [RepositoryList, hafter, bind, Except.bind, hss]
  split <;> exact ⟨_, rfl⟩

structure ListResult where
  Services : List Service
  NextCursor : GoString

def ListFilter.withDefaults (f : ListFilter) : ListFilter :=
  { f with
    Limit := if f.Limit ≤ 0 ∨ f.Limit > 200 then 50 else f.Limit
    SortBy := if f.SortBy = .unset then .createdAt else f.SortBy
    Order := if f.Order = .unset then .desc else f.Order }

def ListServices (services : List ServiceRow) (f : ListFilter) : Except Err ListResult := do
  let (services, next) ← RepositoryList services f.withDefaults
  return ⟨services, next⟩

end

end Catalog

end Forge
