import Mathlib.Data.List.Range
import Mathlib.Logic.Relation
import Forge.Catalog.CommandTx
import Forge.Catalog.Listing

/-!
# Paging through the catalog

A client asks for the first page and then for the page after each returned cursor, while services are
inserted and updated in between. Because a cursor decodes to the key of the row it was made from
(`after_encodeCursor`), each request is a page of `Keyset` on the rows of its moment (`ListServices_isPage`),
and the client's requests are a `Keyset.Traversal` (`traverse_lists`).
-/

namespace Forge.Catalog

/-- The filter of the request for another page. -/
def ListFilter.withCursor (f : ListFilter) (cursor : GoString) : ListFilter := { f with Cursor := cursor }

theorem ListFilter.withDefaults_pos (f : ListFilter) : 0 < f.withDefaults.Limit.toNat := by
  simp only [ListFilter.withDefaults]
  split <;> omega

/-- What an update never changes, from which every sort key is made. -/
def identity (r : ServiceRow) : UUID × GoString × Timestamptz := (r.id, r.name, r.created_at)

theorem key_eq_of_identity (f : ListFilter) {r r' : ServiceRow} (h : identity r = identity r') :
    f.key r = f.key r' := by
  obtain ⟨hid, hname, htime⟩ : r.id = r'.id ∧ r.name = r'.name ∧ r.created_at = r'.created_at := by
    simpa [identity] using h
  rw [ListFilter.key, ListFilter.key, hid, hname, htime]

variable [Postgres]

/-- A row as the code stores it, whose creation time survives the text of a cursor. -/
structure Listed (r : ServiceRow) : Prop where
  stored : Stored r
  survives : Postgres.castTimestamptz (GoTime.RFC3339Nano (goTime r.created_at)) = some r.created_at

/-- A returned cursor stands for the key of the row it was made from. -/
theorem after_encodeCursor (f : ListFilter) {s : Service} (h : Listed (insertRow s))
    (ht : s.createdAt = goTime (insertRow s).created_at) :
    (f.withCursor (encodeCursor f s)).after = .ok (some (f.key (insertRow s))) := by
  have hcast : f.castCursor ⟨f.SortBy.text, f.Order.text, f.valueText s, s.id.String⟩ =
      some (f.key (insertRow s)) := by
    simp only [ListFilter.castCursor, ServiceID.String, Postgres.castUuid_String]
    by_cases hsort : f.SortBy = .name
    · have htext : castText s.name.v = some ⟨s.name.v⟩ := if_pos (TextOk.of_plain (plain_of_nameOk s.name.nameOk))
      simp [hsort, ListFilter.key, ListFilter.valueText, insertRow, htext]
    · simp only [hsort, ListFilter.valueText, ht, h.survives, ListFilter.key, if_false]
      rfl
  exact ListFilter.after_of_cast (encodeCursor_ne_nil f s) (decodeCursor_encodeCursor f s) hcast

/-- The rows of a listing with the filter `f`. -/
def ListFilter.rows (f : ListFilter) (t : Tables) : List ServiceRow := t.services.filter f.Matches

abbrev ListFilter.IsPage (f : ListFilter) := @Keyset.IsPage ServiceRow SortKey f.order f.key

/-- Distinct ids, and rows that the code can read back. -/
structure Listable (t : Tables) : Prop where
  ids : (t.services.map (·.id)).Nodup
  listed : ∀ r ∈ t.services, Listed r

theorem Listable.keys {t : Tables} (h : Listable t) (f : ListFilter) : ((f.rows t).map f.key).Nodup := by
  have hids : ((f.rows t).map (·.id)).Nodup := h.ids.sublist (List.filter_sublist.map _)
  -- the id is the last column of the key
  exact .of_map (fun k : SortKey => (ofLex k).2) (by simpa [Function.comp_def, ListFilter.key] using hids)

/-! ### What stays the same -/

/-- What is committed between two requests: services are inserted, if `inserts` allows it, and updated. -/
inductive RowChange (inserts : Bool) (t : Tables) : Tables → Prop
  | insert (s : Service) (hallowed : inserts = true) (hid : s.id.v ∉ t.services.map (·.id))
      (hlisted : Listed (insertRow s)) : RowChange inserts t (Write.apply t (.insertService (insertRow s)))
  | update (s : Service) : RowChange inserts t (Write.apply t (.setService s.id.v (updateCols s)))
  | other {t' : Tables} (h : t'.services = t.services) : RowChange inserts t t'

abbrev Evolves (inserts : Bool) : Tables → Tables → Prop := Relation.ReflTransGen (RowChange inserts)

theorem RowChange.identities {inserts : Bool} {t t' : Tables} (h : RowChange inserts t t') :
    ∃ new, t'.services.map identity = t.services.map identity ++ new ∧ (inserts = false → new = []) := by
  cases h with
  | insert s hallowed => exact ⟨[identity (insertRow s)], by simp [Write.apply], by simp [hallowed]⟩
  | update s =>
    refine ⟨[], ?_, fun _ => rfl⟩
    rw [List.append_nil, Write.apply, List.map_map]
    refine List.map_congr_left fun r _ => ?_
    simp only [Function.comp_apply]
    split <;> rfl
  | other h => exact ⟨[], by rw [h, List.append_nil], fun _ => rfl⟩

theorem Evolves.identities {inserts : Bool} {t t' : Tables} (h : Evolves inserts t t') :
    ∃ new, t'.services.map identity = t.services.map identity ++ new ∧ (inserts = false → new = []) := by
  induction h with
  | refl => exact ⟨[], (List.append_nil _).symm, fun _ => rfl⟩
  | tail _ h ih =>
    obtain ⟨new, he, hnew⟩ := ih
    obtain ⟨new', he', hnew'⟩ := h.identities
    exact ⟨new ++ new', by rw [he', he, List.append_assoc], fun hi => by rw [hnew hi, hnew' hi]; rfl⟩

theorem RowChange.listable {inserts : Bool} {t t' : Tables} (h : RowChange inserts t t') (ht : Listable t) :
    Listable t' := by
  cases h with
  | insert s _ hid hlisted =>
    refine ⟨?_, fun r hr => ?_⟩
    · rw [Write.apply, List.map_append, List.nodup_append']
      exact ⟨ht.ids, by simp, by simpa [insertRow] using hid⟩
    · rcases List.mem_append.1 hr with hr | hr
      · exact ht.listed r hr
      · rw [List.mem_singleton.1 hr]
        exact hlisted
  | update s =>
    refine ⟨?_, fun r hr => ?_⟩
    · have hids : (Write.apply t (.setService s.id.v (updateCols s))).services.map (·.id) =
          t.services.map (·.id) := by
        rw [Write.apply, List.map_map]
        refine List.map_congr_left fun r _ => ?_
        simp only [Function.comp_apply]
        split <;> rfl
      exact hids ▸ ht.ids
    · obtain ⟨r, hmem, rfl⟩ := List.mem_map.1 hr
      have hlisted := ht.listed r hmem
      split
      · exact ⟨hlisted.stored.set s, hlisted.survives⟩
      · exact hlisted
  | other h => exact ⟨h ▸ ht.ids, h ▸ ht.listed⟩

theorem Evolves.listable {inserts : Bool} {t t' : Tables} (h : Evolves inserts t t') (ht : Listable t) :
    Listable t' := by
  induction h with
  | refl => exact ht
  | tail _ h ih => exact h.listable ih

theorem evolves_insertService {s : Service} {now : Timestamptz} {t : Tables} {ws : List Write}
    (h : (Stmt.insertService (insertRow s)).plan now t = .ok ((), ws)) (hs : Listed (insertRow s)) :
    Evolves true t (ws.foldl Write.apply t) := by
  replace h := (Stmt.plan_ok h).2
  simp only [Stmt.eval] at h
  split at h
  · cases h
  · rename_i hnew
    split at h <;> cases h
    refine .single (.insert s rfl (fun hid => hnew ?_) hs)
    obtain ⟨r, hr, he⟩ := List.mem_map.1 hid
    exact List.any_eq_true.2 ⟨r, hr, decide_eq_true (.inl he)⟩

theorem evolves_updateStmt {s : Service} {ev : Int} {now : Timestamptz} {t : Tables} {n : Nat}
    {ws : List Write} (h : (updateStmt s ev).plan now t = .ok (n, ws)) :
    Evolves false t (ws.foldl Write.apply t) := by
  by_cases hn : n = 0
  · subst hn
    replace h := (Stmt.plan_ok h).2
    simp only [Stmt.eval] at h
    split at h
    · split at h
      · split at h <;> cases h
      · cases h
        exact .refl
    · cases h
      exact .refl
  · obtain ⟨-, -, -, rfl⟩ := plan_updateStmt h hn
    exact .single (.update s)

theorem Evolves.mem {inserts : Bool} {t t' : Tables} (h : Evolves inserts t t') {r : ServiceRow}
    (hr : r ∈ t.services) : ∃ r' ∈ t'.services, identity r' = identity r := by
  obtain ⟨new, he, -⟩ := h.identities
  exact List.mem_map.1 (he ▸ List.mem_append_left new (List.mem_map_of_mem hr))

/-- Rows of one id are the same service, whenever they are read. -/
theorem identity_eq {t₁ t₂ t : Tables} (ht : Listable t) (h₁ : Evolves true t₁ t) (h₂ : Evolves true t₂ t)
    {r₁ r₂ : ServiceRow} (hr₁ : r₁ ∈ t₁.services) (hr₂ : r₂ ∈ t₂.services) (hid : r₁.id = r₂.id) :
    identity r₁ = identity r₂ := by
  obtain ⟨r₁', hr₁', he₁⟩ := h₁.mem hr₁
  obtain ⟨r₂', hr₂', he₂⟩ := h₂.mem hr₂
  have hid' : r₁'.id = r₂'.id := ((congrArg (·.1) he₁).trans hid).trans (congrArg (·.1) he₂).symm
  rw [← he₁, ← he₂, List.inj_on_of_nodup_map ht.ids hr₁' hr₂' hid']

/-- The tables of the requests: the first can be listed, each of the others comes from the one before. -/
structure Requests (ts : List Tables) : Prop where
  first : ∀ t ∈ ts.head?, Listable t
  evolve : ts.IsChain (Evolves true)

theorem Requests.listable {ts : List Tables} (h : Requests ts) : ∀ t ∈ ts, Listable t := by
  obtain ⟨h₀, hchain⟩ := h
  induction hchain with
  | nil => simp
  | singleton t => simpa using h₀
  | cons_cons hev _ ih =>
    have ht := h₀ _ rfl
    refine List.forall_mem_cons.2 ⟨ht, ih fun t' ht' => ?_⟩
    cases ht'
    exact hev.listable ht

theorem Requests.exists_last {ts : List Tables} (h : Requests ts) :
    ∃ t, Listable t ∧ ∀ t' ∈ ts, Evolves true t' t := by
  have hts := h.listable
  obtain ⟨-, hchain⟩ := h
  induction hchain with
  | nil => exact ⟨.empty, ⟨by simp [Tables.empty], by simp [Tables.empty]⟩, by simp⟩
  | singleton t => exact ⟨t, hts t (by simp), by simp [Relation.ReflTransGen.refl]⟩
  | cons_cons hev _ ih =>
    obtain ⟨t, ht, hlast⟩ := ih (List.forall_mem_cons.1 hts).2
    exact ⟨t, ht, List.forall_mem_cons.2 ⟨hev.trans (hlast _ List.mem_cons_self), hlast⟩⟩

theorem Evolves.toTrue {inserts : Bool} {t t' : Tables} (h : Evolves inserts t t') : Evolves true t t' := by
  induction h with
  | refl => exact .refl
  | tail _ hstep ih =>
    refine ih.tail ?_
    cases hstep with
    | insert s _ hid hlisted => exact .insert s rfl hid hlisted
    | update s => exact .update s
    | other h => exact .other h

theorem Requests.of_run {inserts : Bool} {T : Nat → Tables} (h₀ : Listable (T 0))
    (hT : ∀ n, Evolves inserts (T n) (T (n + 1))) (n : Nat) : Requests ((List.range n).map T) where
  first := by
    cases n with
    | zero => simp
    | succ n => simpa [List.range_succ_eq_map] using h₀
  evolve := (List.isChain_map T).2 ((List.isChain_range _ n).2 fun m _ => (hT m).toTrue)

/-! ### What the pages list -/

abbrev ListFilter.Lists (f : ListFilter) := @Keyset.Traversal ServiceRow SortKey f.order f.key

section
variable {f : ListFilter} {ts : List Tables} {cursor : Option SortKey} {pages : List (List Service)}
  {done : Bool}

theorem lists_mem (h : f.withDefaults.Lists f.withDefaults.Limit.toNat cursor (ts.map f.rows)
    (pages.map (·.map insertRow)) done) : ∀ s ∈ pages.flatten, ∃ t ∈ ts, insertRow s ∈ f.rows t := by
  intro s hs
  have hmem := @Keyset.Traversal.mem _ _ f.withDefaults.order _ _ _ _ _ _ h (insertRow s)
    (List.map_flatten ▸ List.mem_map_of_mem hs)
  simpa using hmem

/-- No service is listed twice: two rows of one id would have the same key. -/
theorem lists_nodup (hts : Requests ts) (h : f.withDefaults.Lists f.withDefaults.Limit.toNat cursor
    (ts.map f.rows) (pages.map (·.map insertRow)) done) : (pages.flatten.map (·.id.v)).Nodup := by
  obtain ⟨t, ht, hlast⟩ := hts.exists_last
  have hsorted := (@Keyset.Traversal.sorted _ _ f.withDefaults.order _ _ _ _ _ _ h).1
  rw [← List.map_flatten, List.pairwise_map] at hsorted
  refine List.pairwise_map.2 (hsorted.imp_of_mem fun {s s'} hs hs' hlt hid => ?_)
  obtain ⟨t₁, ht₁, hr₁⟩ := lists_mem h s hs
  obtain ⟨t₂, ht₂, hr₂⟩ := lists_mem h s' hs'
  have hkey := key_eq_of_identity f.withDefaults (identity_eq ht (hlast t₁ ht₁) (hlast t₂ ht₂)
    (List.mem_filter.1 hr₁).1 (List.mem_filter.1 hr₂).1 hid)
  exact absurd (hkey ▸ hlt) (@lt_irrefl _ f.withDefaults.order.toPreorder _)

theorem lists_complete (hts : Requests ts) (h : f.withDefaults.Lists f.withDefaults.Limit.toNat none
    (ts.map f.rows) (pages.map (·.map insertRow)) true) {id : UUID}
    (hid : ∀ t ∈ ts.take pages.length, ∃ r ∈ f.rows t, r.id = id) : id ∈ pages.flatten.map (·.id.v) := by
  obtain ⟨t, ht, hlast⟩ := hts.exists_last
  -- the row of the first request has the key that all the others have
  obtain ⟨t₀, ht₀⟩ : ∃ t₀, t₀ ∈ ts.take pages.length := by
    have hne := @Keyset.Traversal.take_ne_nil _ _ f.withDefaults.order _ _ _ _ _ _ h rfl
    rw [← List.map_take, List.length_map] at hne
    exact List.exists_mem_of_ne_nil _ fun he => hne (by rw [he]; rfl)
  obtain ⟨r₀, hr₀, rfl⟩ := hid t₀ ht₀
  have hkey : ∀ t' ∈ (ts.map f.rows).take (pages.map (·.map insertRow)).length,
      ∃ r ∈ t', f.withDefaults.key r = f.withDefaults.key r₀ := by
    rw [← List.map_take, List.length_map]
    intro rows hrows
    obtain ⟨t', ht', rfl⟩ := List.mem_map.1 hrows
    obtain ⟨r, hr, hid'⟩ := hid t' ht'
    exact ⟨r, hr, key_eq_of_identity _ (identity_eq ht (hlast t' (List.mem_of_mem_take ht'))
      (hlast t₀ (List.mem_of_mem_take ht₀)) (List.mem_filter.1 hr).1 (List.mem_filter.1 hr₀).1 hid')⟩
  obtain ⟨r, hr, he⟩ := @Keyset.Traversal.complete _ _ f.withDefaults.order _ _ _ _ _ _ h rfl _ nofun hkey
  rw [← List.map_flatten] at hr
  obtain ⟨s, hs, rfl⟩ := List.mem_map.1 hr
  exact List.mem_map.2 ⟨s, hs, congrArg (fun k : SortKey => (ofLex k).2) he⟩

end

/-! ### One page -/

variable [UuidLib]

theorem RepositoryList_isPage {t : Tables} (ht : Listable t) {f : ListFilter} (hlimit : 0 < f.Limit.toNat)
    {cursor : Option SortKey} (hcursor : f.after = .ok cursor) :
    ∃ ss next, RepositoryList t.services f = .ok (ss, next) ∧
      ∃ k, f.IsPage f.Limit.toNat cursor (f.rows t) (ss.map insertRow) k ∧ (next = [] ↔ k = none) ∧
        ∀ k', k = some k' → (f.withCursor next).after = .ok (some k') := by
  have hpage := @Keyset.isPage _ _ f.order f.key _ hlimit cursor _ (ht.keys f) _ rfl
  have hfetched : ∀ r ∈ @Keyset.select _ _ f.order f.key cursor (f.Limit.toNat + 1) (f.rows t), Listed r := by
    intro r hr
    have hr := ((@Keyset.mem_ordered _ _ f.order f.key _ _ r).1 (List.mem_of_mem_take hr)).1
    exact ht.listed r (List.mem_filter.1 hr).1
  obtain ⟨ss, hss, hrows, htimes⟩ := scan_all _ fun r hr => (hfetched r hr).stored
  rw [← hrows, ← List.map_take, List.length_map, List.getElem?_map] at hpage
  have hrun : RepositoryList t.services f = if f.Limit.toNat < ss.length then
      .ok (ss.take f.Limit.toNat, (ss[f.Limit.toNat - 1]?.map (encodeCursor f)).getD [])
      else .ok (ss, []) := by
    rw [ListFilter.rows] at hss
    simp only [RepositoryList, hcursor, bind, Except.bind, hss]
    rfl
  rw [hrun]
  by_cases hlt : f.Limit.toNat < ss.length
  · have hget : ss[f.Limit.toNat - 1]? = some ss[f.Limit.toNat - 1] := List.getElem?_eq_getElem (by omega)
    rw [if_pos hlt, hget] at hpage ⊢
    have hmem : ss[f.Limit.toNat - 1] ∈ ss := List.getElem_mem _
    refine ⟨_, _, rfl, _, hpage, by simp [encodeCursor_ne_nil], fun k' hk' => ?_⟩
    cases hk'
    exact after_encodeCursor f (hfetched _ (hrows ▸ List.mem_map_of_mem hmem)) (htimes _ hmem)
  · rw [if_neg hlt, List.take_of_length_le (by omega)] at hpage
    rw [if_neg hlt]
    refine ⟨_, _, rfl, _, hpage, by simp, fun k' hk' => ?_⟩
    cases hk'

theorem ListServices_isPage {t : Tables} (ht : Listable t) {f : ListFilter} {c : GoString}
    {cursor : Option SortKey} (hcursor : (f.withDefaults.withCursor c).after = .ok cursor) :
    ∃ res, ListServices t.services (f.withCursor c) = .ok res ∧
      ∃ k, f.withDefaults.IsPage f.withDefaults.Limit.toNat cursor (f.rows t) (res.Services.map insertRow) k ∧
        (res.NextCursor = [] ↔ k = none) ∧
        ∀ k', k = some k' → (f.withDefaults.withCursor res.NextCursor).after = .ok (some k') := by
  obtain ⟨ss, next, hrun, hpage⟩ :=
    RepositoryList_isPage ht (f := f.withDefaults.withCursor c) f.withDefaults_pos hcursor
  refine ⟨⟨ss, next⟩, ?_, hpage⟩
  change RepositoryList t.services (f.withDefaults.withCursor c) >>= _ = _
  rw [hrun]
  rfl

/-! ### The traversal -/

/-- The pages a client has received, and the cursor of its next request unless the last page had none. -/
structure Listing where
  pages : List (List Service)
  next : Option GoString

/-- The requests of a client, one on each of the tables. -/
def traverse (f : ListFilter) : GoString → List Tables → Except Err Listing
  | cursor, [] => return ⟨[], some cursor⟩
  | cursor, t :: ts => do
    let res ← ListServices t.services (f.withCursor cursor)
    if res.NextCursor = [] then return ⟨[res.Services], none⟩
    let rest ← traverse f res.NextCursor ts
    return { rest with pages := res.Services :: rest.pages }

theorem traverse_lists {f : ListFilter} {ts : List Tables} (hts : ∀ t ∈ ts, Listable t) {c : GoString}
    {cursor : Option SortKey} (hcursor : (f.withDefaults.withCursor c).after = .ok cursor) :
    ∃ tr, traverse f c ts = .ok tr ∧ f.withDefaults.Lists f.withDefaults.Limit.toNat cursor (ts.map f.rows)
      (tr.pages.map (·.map insertRow)) tr.next.isNone := by
  induction ts generalizing c cursor with
  | nil => exact ⟨_, rfl, @Keyset.Traversal.pending _ _ f.withDefaults.order _ _ _⟩
  | cons t ts ih =>
    obtain ⟨ht, hts⟩ := List.forall_mem_cons.1 hts
    obtain ⟨res, hrun, k, hpage, hnext, hafter⟩ := ListServices_isPage ht hcursor
    by_cases hlast : res.NextCursor = []
    · refine ⟨⟨[res.Services], none⟩, ?_, ?_⟩
      · rw [traverse, hrun]
        exact if_pos hlast
      · rw [hnext.1 hlast] at hpage
        exact @Keyset.Traversal.last _ _ f.withDefaults.order _ _ _ _ _ _ hpage
    · cases k with
      | none => exact absurd (hnext.2 rfl) hlast
      | some k =>
        obtain ⟨tr, htr, hlists⟩ := ih hts (hafter k rfl)
        refine ⟨{ tr with pages := res.Services :: tr.pages }, ?_, ?_⟩
        · rw [traverse, hrun]
          refine (if_neg hlast).trans ?_
          rw [htr]
          rfl
        · exact @Keyset.Traversal.more _ _ f.withDefaults.order _ _ _ _ _ _ _ _ _ hpage hlists

/-- Another service, registered at the same time as `Service.sample`. -/
def Service.other : Service := { Service.sample with id := ⟨⟨3⟩⟩, name := ⟨"web", by decide, by decide⟩ }

/-- A request for one service, by creation time. -/
def sampleFilter : ListFilter := ⟨none, none, none, .unset, .unset, 1, []⟩

/-- The tables with `Service.sample` updated after the first request. -/
def updatedTables (n : Nat) : Tables :=
  if n = 0 then sampleTables
  else Write.apply sampleTables (.setService ⟨1⟩ (updateCols { Service.sample with version := 2 }))

/-- With the empty cursor a client receives pages of at most the limit, in the requested order, and by the
last page every service that was there for all the requests exactly once, whatever is inserted and updated
in between; without inserts there is a last page. -/
theorem pagination_exactly_once (f : ListFilter) :
    (∀ ts, Requests ts → ∃ tr, traverse f [] ts = .ok tr ∧
      (∀ page ∈ tr.pages, page.length ≤ f.withDefaults.Limit.toNat) ∧
      (tr.pages.flatten.Pairwise fun s s' =>
        f.withDefaults.order.lt (f.withDefaults.key (insertRow s)) (f.withDefaults.key (insertRow s'))) ∧
      (∀ s ∈ tr.pages.flatten, ∃ t ∈ ts, insertRow s ∈ f.rows t) ∧
      (tr.next = none → ∀ id, (∀ t ∈ ts.take tr.pages.length, ∃ r ∈ f.rows t, r.id = id) →
        (tr.pages.flatten.map (·.id.v)).count id = 1)) ∧
    ∀ T : Nat → Tables, Listable (T 0) → (∀ n, Evolves false (T n) (T (n + 1))) →
      ∃ n tr, traverse f [] ((List.range n).map T) = .ok tr ∧ tr.next = none := by
  have hcursor : (f.withDefaults.withCursor []).after = .ok none := rfl
  refine ⟨fun ts hts => ?_, fun T h₀ hT => ?_⟩
  · obtain ⟨tr, htr, hlists⟩ := traverse_lists hts.listable hcursor
    refine ⟨tr, htr, fun page hpage => ?_, ?_, lists_mem hlists, fun hdone id hid => ?_⟩
    · have hlen := @Keyset.Traversal.length_le _ _ f.withDefaults.order _ _ _ _ _ _ hlists _
        (List.mem_map_of_mem hpage)
      rwa [List.length_map] at hlen
    · have hsorted := (@Keyset.Traversal.sorted _ _ f.withDefaults.order _ _ _ _ _ _ hlists).1
      rwa [← List.map_flatten, List.pairwise_map] at hsorted
    · rw [hdone] at hlists
      exact List.count_eq_one_of_mem (lists_nodup hts hlists) (lists_complete hts hlists hid)
  · have hevolves : ∀ n, Evolves false (T 0) (T n) := by
      intro n
      induction n with
      | zero => exact .refl
      | succ n ih => exact ih.trans (hT n)
    -- one request more than there are rows
    let n := (T 0).services.length + 1
    obtain ⟨tr, htr, hlists⟩ := traverse_lists (Requests.of_run h₀ hT n).listable hcursor
    refine ⟨n, tr, htr, Option.isNone_iff_eq_none.1 ?_⟩
    refine @Keyset.Traversal.done_of_length _ _ f.withDefaults.order _ _ _ _ _ _ f.withDefaults_pos hlists
      ((T 0).services.map f.withDefaults.key) (fun rows hrows r hr => ?_) (by simp [n])
    obtain ⟨t, ht, rfl⟩ := List.mem_map.1 hrows
    obtain ⟨i, -, rfl⟩ := List.mem_map.1 ht
    obtain ⟨new, he, hnew⟩ := (hevolves i).identities
    rw [hnew rfl, List.append_nil] at he
    obtain ⟨r₀, hr₀, hid⟩ := List.mem_map.1 (he ▸ List.mem_map_of_mem (List.mem_filter.1 hr).1)
    exact List.mem_map.2 ⟨r₀, hr₀, key_eq_of_identity _ hid⟩

omit [Postgres] [UuidLib] in
theorem pagination_exactly_once_sample : letI := UuidLib.canonical; letI := Postgres.bytewise [0]
    (Requests [sampleTables, Write.apply sampleTables (.insertService (insertRow .other))] ∧
      ∃ tr, traverse sampleFilter [] [sampleTables,
        Write.apply sampleTables (.insertService (insertRow .other))] = .ok tr ∧
          ∀ page ∈ tr.pages, page.length ≤ 1) ∧
    (∀ n, Evolves false (updatedTables n) (updatedTables (n + 1))) ∧
    ∃ n tr, traverse sampleFilter [] ((List.range n).map updatedTables) = .ok tr ∧ tr.next = none ∧
      (tr.pages.flatten.map (·.id.v)).count ⟨1⟩ = 1 := by
  let := UuidLib.canonical
  let := Postgres.bytewise [0]
  have hlisted : Listed (insertRow .sample) := ⟨⟨_, rfl⟩, by decide +kernel⟩
  have hother : Listed (insertRow .other) := ⟨⟨_, rfl⟩, by decide +kernel⟩
  have hsample : Listable sampleTables := ⟨by simp [sampleTables], by simpa [sampleTables] using hlisted⟩
  have hrequests : Requests [sampleTables, Write.apply sampleTables (.insertService (insertRow .other))] :=
    ⟨by simpa using hsample, .cons_cons (.single (.insert _ rfl (by decide) hother)) (.singleton _)⟩
  have hupdates : ∀ n, Evolves false (updatedTables n) (updatedTables (n + 1)) := by
    intro n
    cases n with
    | zero => exact .single (.update { Service.sample with version := 2 })
    | succ n => exact .refl
  obtain ⟨tr, htr, hlen, -⟩ := (pagination_exactly_once sampleFilter).1 _ hrequests
  obtain ⟨n, tr', htr', hdone⟩ := (pagination_exactly_once sampleFilter).2 updatedTables hsample hupdates
  refine ⟨⟨hrequests, tr, htr, hlen⟩, hupdates, n, tr', htr', hdone, ?_⟩
  -- the service is there at every request, updated or not
  obtain ⟨tr'', htr'', -, -, -, hcount⟩ := (pagination_exactly_once sampleFilter).1 _
    (.of_run hsample hupdates n)
  cases htr'.symm.trans htr''
  refine hcount hdone ⟨1⟩ fun t ht => ?_
  obtain ⟨i, -, rfl⟩ := List.mem_map.1 (List.mem_of_mem_take ht)
  cases i with
  | zero => exact ⟨insertRow .sample, by decide +kernel, rfl⟩
  | succ i =>
    have hrow : insertRow { Service.sample with version := 2 } ∈ sampleFilter.rows (updatedTables 1) := by
      decide +kernel
    exact ⟨_, hrow, rfl⟩

end Forge.Catalog
