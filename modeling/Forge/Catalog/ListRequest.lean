import Forge.Catalog.Handlers
import Forge.Catalog.Listing

/-!
# Requests for a list of services (`catalog/api/handlers.go`, `List` and `parseListFilter`)

The query parameters become a `ListFilter` whose sort and order are always set. A cursor goes through base64,
JSON, the comparison with the requested sort and order, and last the casts of the query. The first three
answer INVALID_CURSOR; what passes them and cannot be cast fails as an internal error, so a request is answered
as it should be exactly if its cursor is `Castable` (`List_answered_iff`).
-/

namespace Forge

namespace httpx

structure Page (T : Type) where
  Items : List T
  NextCursor : GoString
deriving DecidableEq

end httpx

/-- A listing returned a page, or refused the cursor. -/
def Answered {α : Type} (r : Except Err α) : Prop :=
  (∃ page, r = .ok page) ∨ ∃ message, r = .error (apperr.Validation "INVALID_CURSOR" message)

/-- A refused cursor is no internal error. -/
theorem Answered.status {α : Type} {r : Except Err α} (h : Answered r) {e : Err} (he : r = .error e) :
    apperr.HTTPStatus e ≠ 500 := by
  rcases h with ⟨page, rfl⟩ | ⟨message, rfl⟩
  · cases he
  · cases he
    simp [apperr.Validation, apperr.HTTPStatus, apperr.Kind.status]

/-- The cursor is decoded, or refused, and then cast by the query. -/
theorem answered_cast {γ κ : Type} {decoded : Except Err γ} {cast : γ → Option κ} {start : Except Err (Option κ)}
    (hrefused : ∀ e, decoded = .error e → start = .error e ∧ ∃ message, e = apperr.Validation "INVALID_CURSOR" message)
    (hcast : ∀ cur, decoded = .ok cur → ∀ k, cast cur = some k → start = .ok (some k))
    (hfail : ∀ cur, decoded = .ok cur → cast cur = none → ∃ e, start = .error e ∧ apperr.HTTPStatus e = 500) :
    (Answered start ↔ ∀ cur, decoded = .ok cur → (cast cur).isSome) ∧
      (¬ Answered start → ∃ e, start = .error e ∧ apperr.HTTPStatus e = 500) := by
  cases hd : decoded with
  | error e =>
    obtain ⟨hstart, message, he⟩ := hrefused e hd
    have hanswered : Answered start := .inr ⟨message, by rw [hstart, he]⟩
    exact ⟨⟨fun _ => nofun, fun _ => hanswered⟩, fun hne => absurd hanswered hne⟩
  | ok cur =>
    simp only [Except.ok.injEq, forall_eq']
    cases hc : cast cur with
    | some k =>
      have hanswered : Answered start := .inl ⟨_, hcast cur hd k hc⟩
      exact ⟨⟨fun _ => rfl, fun _ => hanswered⟩, fun hne => absurd hanswered hne⟩
    | none =>
      obtain ⟨e, hstart, he⟩ := hfail cur hd hc
      refine ⟨⟨fun hanswered => absurd he (hanswered.status hstart), nofun⟩, fun _ => ⟨e, hstart, he⟩⟩

/-- A listing that has a position to begin at returns a page, so it is answered exactly if its cursor is. -/
theorem answered_list {α κ : Type} (start : Except Err κ) (list : Except Err α)
    (hok : ∀ k, start = .ok k → ∃ page, list = .ok page) (herr : ∀ e, start = .error e → list = .error e) :
    (Answered list ↔ Answered start) ∧
      ((∃ e, start = .error e ∧ apperr.HTTPStatus e = 500) → ∃ e, list = .error e ∧ apperr.HTTPStatus e = 500) := by
  cases hs : start with
  | ok k =>
    obtain ⟨page, hpage⟩ := hok k hs
    exact ⟨⟨fun _ => .inl ⟨k, rfl⟩, fun _ => .inl ⟨page, hpage⟩⟩, by simp⟩
  | error e =>
    rw [herr e hs]
    simp [Answered]

namespace Catalog

open GoString

/-! ### Parameters -/

/-- What `q.Get` finds for the parameters of a list request; `[]` is an absent one. -/
structure ListQuery where
  limit : GoString
  tenantId : GoString
  lifecycle : GoString
  tier : GoString
  sort : GoString
  order : GoString
  cursor : GoString

def ErrInvalidLimit : Err := apperr.Validation "INVALID_LIMIT" "limit must be a positive integer"
def ErrInvalidSort : Err := apperr.Validation "INVALID_SORT" "sort must be created_at or name"
def ErrInvalidOrder : Err := apperr.Validation "INVALID_ORDER" "order must be asc or desc"

def parseLimit (v : GoString) : Except Err Int :=
  if v = [] then .ok 50
  else match Atoi v with
    | some n => if n < 1 then .error ErrInvalidLimit else .ok n
    | none => .error ErrInvalidLimit

def parseOptional {α : Type} (parse : GoString → Except Err α) (v : GoString) : Except Err (Option α) :=
  if v = [] then .ok none else (parse v).map some

def parseTier (v : GoString) : Except Err Tier :=
  match Atoi v with
  | some n => NewTier n
  | none => .error ErrInvalidTier

def parseSort (v : GoString) : Except Err SortField :=
  if v = [] ∨ v = str "created_at" then .ok .createdAt
  else if v = str "name" then .ok .name
  else .error ErrInvalidSort

def parseOrder (v : GoString) : Except Err SortOrder :=
  if v = [] ∨ v = str "desc" then .ok .desc
  else if v = str "asc" then .ok .asc
  else .error ErrInvalidOrder

def parseListFilter [UuidLib] (q : ListQuery) : Except Err ListFilter := do
  let limit ← parseLimit q.limit
  let tenantID ← parseOptional TenantIDFromString q.tenantId
  let lifecycle ← parseOptional ParseLifecycle q.lifecycle
  let tier ← parseOptional parseTier q.tier
  let sort ← parseSort q.sort
  let order ← parseOrder q.order
  return ⟨tenantID, lifecycle, tier, sort, order, limit, q.cursor⟩

/-- `Handlers.List` on the rows of `catalog_services`. -/
def Handlers.List [UuidLib] [Postgres] (services : List ServiceRow) (q : ListQuery) :
    Except Err (httpx.Page ServiceResponse) := do
  let filter ← parseListFilter q
  let result ← ListServices services filter
  return ⟨result.Services.map toResponse, result.NextCursor⟩

/-! ### Cursors -/

theorem SortField.text_inj {s s' : SortField} (h : s.text = s'.text) : s = s' := by
  revert h
  cases s <;> cases s' <;> decide

theorem SortOrder.text_inj {o o' : SortOrder} (h : o.text = o'.text) : o = o' := by
  revert h
  cases o <;> cases o' <;> decide

/-- A cursor is decoded for the sort and order it was made for, to the sort value and the id of its service,
and refused for every other. Every byte string survives base64, whatever its length. -/
theorem cursor_round_trip (f : ListFilter) (s : Service) (sort : SortField) (order : SortOrder) :
    ((∃ cur, decodeCursor (encodeCursor f s) sort order = .ok cur) ↔ sort = f.SortBy ∧ order = f.Order) ∧
    (∀ cur, decodeCursor (encodeCursor f s) sort order = .ok cur →
      cur.Value = (if f.SortBy = .name then s.name.v else GoTime.RFC3339Nano s.createdAt) ∧
      cur.ID = s.id.String) ∧
    (∀ e, decodeCursor (encodeCursor f s) sort order = .error e → e = ErrCursorMismatch) ∧
    ∀ b, Base64.DecodeString (Base64.EncodeToString b) = some b := by
  have hdecode : decodeCursor (encodeCursor f s) sort order = if sort = f.SortBy ∧ order = f.Order then
      .ok ⟨f.SortBy.text, f.Order.text, f.valueText s, s.id.String⟩ else .error ErrCursorMismatch := by
    by_cases h : sort = f.SortBy ∧ order = f.Order
    · obtain ⟨rfl, rfl⟩ := h
      rw [if_pos ⟨rfl, rfl⟩]
      exact decodeCursor_encodeCursor f s
    · have hne : f.SortBy.text ≠ sort.text ∨ f.Order.text ≠ order.text := by
        by_contra hboth
        simp only [not_or, ne_eq, not_not] at hboth
        exact h ⟨(SortField.text_inj hboth.1).symm, (SortOrder.text_inj hboth.2).symm⟩
      rw [if_neg h, decodeCursor, unmarshal_encodeCursor]
      exact if_pos hne
  rw [hdecode]
  refine ⟨?_, ?_, ?_, Base64.DecodeString_EncodeToString⟩
  · split <;> simp_all
  · intro cur hcur
    split at hcur
    · cases hcur
      exact ⟨rfl, rfl⟩
    · cases hcur
  · intro e he
    split at he
    · cases he
    · cases he
      rfl

/-! ### Which requests are answered -/

theorem decodeCursor_error {encoded : GoString} {sort : SortField} {order : SortOrder} {e : Err}
    (h : decodeCursor encoded sort order = .error e) : ∃ message, e = apperr.Validation "INVALID_CURSOR" message := by
  unfold decodeCursor at h
  split at h
  · split at h
    · cases h
      exact ⟨_, rfl⟩
    · cases h
  · cases h
    exact ⟨_, rfl⟩

variable [Postgres]

/-- The cursor is absent, or refused, or the query can cast its texts. -/
def ListFilter.Castable (f : ListFilter) : Prop :=
  f.Cursor ≠ [] → ∀ cur, decodeCursor f.Cursor f.SortBy f.Order = .ok cur →
    (Postgres.castUuid cur.ID).isSome ∧
      if f.SortBy = .name then TextOk cur.Value else (Postgres.castTimestamptz cur.Value).isSome

theorem ListFilter.castCursor_isSome (f : ListFilter) (cur : cursor) :
    (f.castCursor cur).isSome ↔ (Postgres.castUuid cur.ID).isSome ∧
      if f.SortBy = .name then TextOk cur.Value else (Postgres.castTimestamptz cur.Value).isSome := by
  unfold ListFilter.castCursor
  cases Postgres.castUuid cur.ID with
  | none => simp
  | some id =>
    by_cases hsort : f.SortBy = .name
    · by_cases htext : TextOk cur.Value <;> simp [hsort, castText, htext]
    · cases Postgres.castTimestamptz cur.Value <;> simp [hsort]

/-- The query has a position to begin at, or the cursor is refused, exactly if its texts can be cast. -/
theorem ListFilter.after_answered (f : ListFilter) :
    (Answered f.after ↔ f.Castable) ∧ (¬ Answered f.after → ∃ e, f.after = .error e ∧ apperr.HTTPStatus e = 500) := by
  unfold ListFilter.Castable
  by_cases hc : f.Cursor = []
  · have hanswered : Answered f.after := .inl ⟨none, by rw [ListFilter.after, if_neg (by simp [hc])]; rfl⟩
    simp [hc, hanswered]
  simp only [hc, ne_eq, not_false_eq_true, forall_const, ← f.castCursor_isSome]
  apply answered_cast
  · intro e hd
    exact ⟨by rw [ListFilter.after, if_pos hc, hd, error_bind], decodeCursor_error hd⟩
  · intro cur hd k hk
    rw [ListFilter.after, if_pos hc, hd, ok_bind, hk]
    rfl
  · intro cur hd hk
    rw [ListFilter.after, if_pos hc, hd, ok_bind, hk]
    exact ⟨_, rfl, rfl⟩

variable [UuidLib]

omit [Postgres] in
/-- A parsed filter has its sort and order, so the defaults leave them alone. -/
theorem withDefaults_of_parse {q : ListQuery} {f : ListFilter} (h : parseListFilter q = .ok f) :
    f.withDefaults.SortBy = f.SortBy ∧ f.withDefaults.Order = f.Order ∧ f.withDefaults.Cursor = f.Cursor := by
  simp only [parseListFilter, bind_eq_ok] at h
  obtain ⟨limit, -, tenantID, -, lifecycle, -, tier, -, sort, hsort, order, horder, hf⟩ := h
  cases hf
  have hs : sort ≠ .unset := by
    rintro rfl
    unfold parseSort at hsort
    split_ifs at hsort <;> cases hsort
  have ho : order ≠ .unset := by
    rintro rfl
    unfold parseOrder at horder
    split_ifs at horder <;> cases horder
  simp [ListFilter.withDefaults, hs, ho]

/-- Over stored rows, a request with valid parameters returns a page or refuses the cursor exactly if the
query can cast it; every other is an internal error. -/
theorem List_answered_iff {services : List ServiceRow} (hrows : ∀ r ∈ services, Stored r) {q : ListQuery}
    {f : ListFilter} (hq : parseListFilter q = .ok f) :
    (Answered (Handlers.List services q) ↔ f.Castable) ∧
      (¬ f.Castable → ∃ e, Handlers.List services q = .error e ∧ apperr.HTTPStatus e = 500) := by
  obtain ⟨hsort, horder, hcursor⟩ := withDefaults_of_parse hq
  have hcast : f.withDefaults.Castable ↔ f.Castable := by
    simp only [ListFilter.Castable, hsort, horder, hcursor]
  have hlist : Handlers.List services q = RepositoryList services f.withDefaults >>= fun res =>
      .ok ⟨res.1.map toResponse, res.2⟩ := by
    simp only [Handlers.List, hq, ok_bind, ListServices]
    cases RepositoryList services f.withDefaults <;> rfl
  obtain ⟨hiff, hfails⟩ := f.withDefaults.after_answered
  obtain ⟨hrun, hrunFails⟩ := answered_list f.withDefaults.after (Handlers.List services q)
    (fun after hafter => by
      obtain ⟨res, hres⟩ := RepositoryList_ok hrows hafter
      exact ⟨_, by rw [hlist, hres, ok_bind]⟩)
    (fun e he => by
      rw [hlist, RepositoryList, he, error_bind, error_bind])
  refine ⟨hrun.trans (hiff.trans hcast), fun hne => hrunFails (hfails ?_)⟩
  rwa [hiff, hcast]

end Catalog

end Forge
