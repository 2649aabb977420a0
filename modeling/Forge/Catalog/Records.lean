import Forge.Catalog.Sequential

/-!
# The store as one record per service

`Tables.record` is all the store has about one service: its row, its ownership intervals and its
outbox rows. A mutation (`mutated`) sets the row, moves the ownership history of the service on
(`recordHistory`) and appends its events; a registration (`registered`) makes a record. Both leave the
other records alone and keep `CatalogInv`, what the tables need for this: ids are unique, and intervals
and events belong to services that exist.
-/

namespace Forge

open Catalog

/-- What the tables have about one service. -/
structure Record where
  row : ServiceRow
  history : List HistoryRow
  outbox : List OutboxRow
deriving DecidableEq

/-- The record has exactly one open interval, its last one, and it names the owner of the row. -/
structure Record.Owned (x : Record) : Prop where
  last : ∃ hs h, x.history = hs ++ [h] ∧ (∀ h' ∈ hs, h'.valid_to ≠ none) ∧ h.valid_to = none ∧
    h.owning_team = x.row.owning_team ∧ h.on_call_ref = x.row.on_call_ref
  service_id : ∀ h ∈ x.history, h.service_id = x.row.id

namespace Tables

def historyOf (t : Tables) (id : UUID) : List HistoryRow := t.history.filter (·.service_id = id)

def outboxOf (t : Tables) (id : UUID) : List OutboxRow := t.outbox.filter (·.aggregate_id = id)

def record (t : Tables) (id : UUID) : Option Record :=
  (t.service id).map fun r => ⟨r, t.historyOf id, t.outboxOf id⟩

theorem record_eq_some {t : Tables} {id : UUID} {x : Record} :
    t.record id = some x ↔ t.service id = some x.row ∧ t.historyOf id = x.history ∧ t.outboxOf id = x.outbox := by
  unfold record
  constructor
  · intro h
    obtain ⟨r, hr, rfl⟩ := Option.map_eq_some_iff.1 h
    exact ⟨hr, rfl, rfl⟩
  · rintro ⟨hr, hh, ho⟩
    rw [hr, Option.map_some, hh, ho]

theorem record_congr {t t' : Tables} {id : UUID} (hs : t'.service id = t.service id)
    (hh : t'.historyOf id = t.historyOf id) (ho : t'.outboxOf id = t.outboxOf id) :
    t'.record id = t.record id := by
  rw [record, hs, hh, ho, record]

end Tables

theorem Write.foldl_insertOutbox (l : List OutboxRow) (t : Tables) :
    (l.map Write.insertOutbox).foldl Write.apply t = { t with outbox := t.outbox ++ l } := by
  induction l generalizing t with
  | nil => simp
  | cons o l ih =>
    rw [List.map_cons, List.foldl_cons, ih]
    simp [Write.apply]

namespace Catalog

/-! ### The ownership history under `recordOwnership` -/

/-- The interval `recordOwnership` opens. -/
def openedBy (u : UUID) (s : Service) : HistoryRow :=
  ⟨u, s.id.v, s.ownership.OwningTeam, s.ownership.OnCallRef, pgTime s.updatedAt, none⟩

abbrev Service.stale (s : Service) : HistoryRow → Bool :=
  Stmt.stale s.id.v s.ownership.OwningTeam s.ownership.OnCallRef

abbrev Service.current (s : Service) : HistoryRow → Bool :=
  Stmt.current s.id.v s.ownership.OwningTeam s.ownership.OnCallRef

/-- The intervals of other owners are closed. -/
def closeStale (l : List HistoryRow) (s : Service) : List HistoryRow :=
  l.map fun h => if s.stale h then { h with valid_to := some (pgTime s.updatedAt) } else h

/-- `recordOwnership` on a list of intervals. -/
def recordHistory (l : List HistoryRow) (s : Service) (u : UUID) : List HistoryRow :=
  if (closeStale l s).any s.current then closeStale l s else closeStale l s ++ [openedBy u s]

section
variable {t : Tables} {s : Service} {l : List HistoryRow} {u : UUID} {id : UUID}

/-- Closing intervals by their ids closes the stale ones. -/
theorem history_closeHistory (h : (t.history.map (·.id)).Nodup) (s : Service) :
    ((Write.closeHistory (staleIds t s) (pgTime s.updatedAt)).apply t).history = closeStale t.history s := by
  refine List.map_congr_left fun h' hh' => ?_
  have hiff : h'.id ∈ staleIds t s ↔ s.stale h' = true := by
    refine ⟨fun hm => ?_, fun hs => List.mem_map_of_mem (List.mem_filter.2 ⟨hh', hs⟩)⟩
    obtain ⟨h'', hm, he⟩ := List.mem_map.1 hm
    obtain ⟨hm, hs⟩ := List.mem_filter.1 hm
    rwa [← List.inj_on_of_nodup_map h hm hh' he]
  by_cases hs : s.stale h' = true
  · rw [if_pos (hiff.2 hs), if_pos hs]
  · rw [if_neg fun hm => hs (hiff.1 hm), if_neg hs]

theorem map_id_closeStale : (closeStale l s).map (·.id) = l.map (·.id) := by
  simp only [closeStale, List.map_map]
  refine List.map_congr_left fun h _ => ?_
  simp only [Function.comp]
  split <;> rfl

theorem filter_closeStale_of_ne (h : id ≠ s.id.v) :
    (closeStale l s).filter (·.service_id = id) = l.filter (·.service_id = id) := by
  induction l with
  | nil => rfl
  | cons x l ih =>
    rw [closeStale, List.map_cons, List.filter_cons, List.filter_cons]
    by_cases hx : x.service_id = id
    · have hst : s.stale x = false := by simp [Stmt.stale, hx, h]
      simp only [hst, Bool.false_eq_true, if_false, hx, decide_true, if_true]
      rw [← ih, closeStale]
    · have hx' : (if s.stale x then { x with valid_to := some (pgTime s.updatedAt) } else x).service_id ≠ id := by
        split <;> exact hx
      simp only [hx, hx', decide_false, Bool.false_eq_true, if_false]
      exact ih

theorem filter_closeStale (s : Service) (l : List HistoryRow) :
    (closeStale l s).filter (·.service_id = s.id.v) = closeStale (l.filter (·.service_id = s.id.v)) s := by
  rw [closeStale, closeStale, List.filter_map]
  congr 1
  refine List.filter_congr fun x _ => ?_
  simp only [Function.comp]
  split <;> rfl

/-- Whether the owner has an open interval is seen on the intervals of the service. -/
theorem any_current_filter (s : Service) (l : List HistoryRow) :
    (l.filter (·.service_id = s.id.v)).any s.current = l.any s.current := by
  rw [List.any_filter]
  congr 1
  funext x
  simp only [Stmt.current]
  by_cases hx : x.service_id = s.id.v <;> simp [hx]

theorem filter_recordHistory_of_ne (h : id ≠ s.id.v) :
    (recordHistory l s u).filter (·.service_id = id) = l.filter (·.service_id = id) := by
  unfold recordHistory
  split
  · exact filter_closeStale_of_ne h
  · rw [List.filter_append, filter_closeStale_of_ne h]
    simp [openedBy, Ne.symm h]

theorem filter_recordHistory (s : Service) (l : List HistoryRow) (u : UUID) :
    (recordHistory l s u).filter (·.service_id = s.id.v) =
      recordHistory (l.filter (·.service_id = s.id.v)) s u := by
  unfold recordHistory
  rw [← filter_closeStale, any_current_filter]
  split
  · rfl
  · rw [List.filter_append]
    simp [openedBy]

end

section
variable {x : Record} {s : Service} {u : UUID}

theorem recordHistory_eq_self {l : List HistoryRow} (hstale : ∀ y ∈ l, s.stale y = false)
    (hcur : l.any s.current = true) : recordHistory l s u = l := by
  have hclose : closeStale l s = l :=
    (List.map_congr_left fun y hy => if_neg (by simp [hstale y hy])).trans (List.map_id _)
  rw [recordHistory, hclose, if_pos hcur]

/-- No interval is stale and one is current if the owner is the one on record. -/
theorem stale_current_same (h : x.Owned) (hid : s.id.v = x.row.id)
    (hteam : s.ownership.OwningTeam = x.row.owning_team) (honCall : s.ownership.OnCallRef = x.row.on_call_ref) :
    (∀ y ∈ x.history, s.stale y = false) ∧ x.history.any s.current = true := by
  obtain ⟨hs, h', hl, hclosed, hopen, ht, hc⟩ := h.last
  have hmem : h' ∈ x.history := hl ▸ List.mem_append_right _ (List.mem_singleton_self h')
  refine ⟨fun y hy => ?_, List.any_eq_true.2 ⟨h', hmem, ?_⟩⟩
  · rw [hl] at hy
    rcases List.mem_append.1 hy with hy | hy
    · simp [Stmt.stale, hclosed y hy]
    · rw [List.mem_singleton.1 hy]
      simp [Stmt.stale, ht, hc, hteam, honCall]
  · simp [Stmt.current, h.service_id h' hmem, hid, hopen, ht, hc, hteam, honCall]

/-- `recordOwnership` leaves the history alone if the owner is the one on record. -/
theorem recordHistory_same (h : x.Owned) (hid : s.id.v = x.row.id)
    (hteam : s.ownership.OwningTeam = x.row.owning_team) (honCall : s.ownership.OnCallRef = x.row.on_call_ref) :
    recordHistory x.history s u = x.history :=
  recordHistory_eq_self (stale_current_same h hid hteam honCall).1 (stale_current_same h hid hteam honCall).2

/-- For another owner it closes the open interval and opens one. -/
theorem recordHistory_change (h : x.Owned) (hid : s.id.v = x.row.id)
    (hne : ¬ (s.ownership.OwningTeam = x.row.owning_team ∧ s.ownership.OnCallRef = x.row.on_call_ref))
    {hs : List HistoryRow} {h' : HistoryRow} (hl : x.history = hs ++ [h']) :
    recordHistory x.history s u =
      hs ++ [{ h' with valid_to := some (pgTime s.updatedAt) }, openedBy u s] := by
  obtain ⟨hs₁, h₁, hl₁, hclosed, hopen, ht, hc⟩ := h.last
  obtain ⟨rfl, rfl⟩ : hs₁ = hs ∧ h₁ = h' := by
    have := List.append_inj' (hl₁.symm.trans hl) rfl
    exact ⟨this.1, List.singleton_inj.1 this.2⟩
  have hsid := h.service_id h₁ (hl ▸ List.mem_append_right _ (List.mem_singleton_self h₁))
  have hst : s.stale h₁ = true := by
    simp only [Stmt.stale, hsid, hid, hopen, ht, hc, true_and, decide_eq_true_eq]
    exact fun e => hne ⟨e.1.symm, e.2.symm⟩
  have hclose : closeStale x.history s = hs₁ ++ [{ h₁ with valid_to := some (pgTime s.updatedAt) }] := by
    rw [hl, closeStale, List.map_append, List.map_singleton, if_pos hst]
    congr 1
    refine (List.map_congr_left fun y hy => if_neg ?_).trans (List.map_id _)
    simp [Stmt.stale, hclosed y hy]
  have hcur : (closeStale x.history s).any s.current = false := by
    rw [hclose, List.any_eq_false]
    intro y hy
    rcases List.mem_append.1 hy with hy | hy
    · simp [Stmt.current, hclosed y hy]
    · rw [List.mem_singleton.1 hy]
      simp [Stmt.current]
  rw [recordHistory, hcur, hclose]
  simp

theorem owned_recordHistory (h : x.Owned) (hid : s.id.v = x.row.id) {r : ServiceRow} (hr : r.id = x.row.id)
    (hteam : r.owning_team = s.ownership.OwningTeam) (honCall : r.on_call_ref = s.ownership.OnCallRef)
    (os : List OutboxRow) : Record.Owned ⟨r, recordHistory x.history s u, os⟩ := by
  obtain ⟨hs, h', hl, hclosed, hopen, ht, hc⟩ := h.last
  by_cases he : s.ownership.OwningTeam = x.row.owning_team ∧ s.ownership.OnCallRef = x.row.on_call_ref
  · rw [recordHistory_same h hid he.1 he.2]
    refine ⟨⟨hs, h', hl, hclosed, hopen, ?_, ?_⟩, fun y hy => (h.service_id y hy).trans hr.symm⟩
    · exact ht.trans (he.1.symm.trans hteam.symm)
    · exact hc.trans (he.2.symm.trans honCall.symm)
  · rw [recordHistory_change h hid he hl]
    refine ⟨⟨hs ++ [{ h' with valid_to := some (pgTime s.updatedAt) }], openedBy u s, by simp, ?_, rfl,
      hteam.symm, honCall.symm⟩, ?_⟩
    · intro y hy
      rcases List.mem_append.1 hy with hy | hy
      · exact hclosed y hy
      · rw [List.mem_singleton.1 hy]
        exact nofun
    · intro y hy
      rcases List.mem_append.1 hy with hy | hy
      · exact (h.service_id y (hl ▸ List.mem_append_left _ hy)).trans hr.symm
      · rcases List.mem_cons.1 hy with rfl | hy
        · exact (h.service_id h' (hl ▸ List.mem_append_right _ (List.mem_singleton_self h'))).trans hr.symm
        · rw [List.mem_singleton.1 hy]
          exact hid.trans hr.symm

end

/-! ### What the tables need -/

structure CatalogInv (t : Tables) : Prop where
  stored : AllStored t
  serviceIds : (t.services.map (·.id)).Nodup
  historyIds : (t.history.map (·.id)).Nodup
  history : ∀ h ∈ t.history, t.service h.service_id ≠ none
  outbox : ∀ o ∈ t.outbox, t.service o.aggregate_id ≠ none
  owned : ∀ id x, t.record id = some x → x.Owned

theorem CatalogInv.empty : CatalogInv .empty where
  stored := nofun
  serviceIds := List.nodup_nil
  historyIds := List.nodup_nil
  history := nofun
  outbox := nofun
  owned := nofun

/-! ### The tables after a mutation -/

/-- The tables after a mutation to `s` with the outbox rows `os`. -/
def mutated (t : Tables) (s : Service) (u : UUID) (os : List OutboxRow) : Tables where
  services := t.services.map fun r => if r.id = s.id.v then r.set (updateCols s) else r
  history := recordHistory t.history s u
  outbox := t.outbox ++ os
  idem := t.idem

section
variable {t : Tables} {s : Service} {u : UUID} {os : List OutboxRow} {id : UUID} {r : ServiceRow}

theorem foldl_mutateWrites {begun : Timestamptz} {ws : List Write} (vs : List (UUID × Event))
    (hnd : (t.history.map (·.id)).Nodup)
    (hopen : (openStmt u s).plan begun ([.setService s.id.v (updateCols s),
      .closeHistory (staleIds t s) (pgTime s.updatedAt)].foldl Write.apply t) = .ok ((), ws)) :
    (mutateWrites t begun s ws vs).foldl Write.apply t =
        mutated t s u (vs.map (outboxRowOf begun s.id.v)) ∧
      ((recordHistory t.history s u).map (·.id)).Nodup := by
  have hclose := history_closeHistory hnd s
  have hids := map_id_closeStale (l := t.history) (s := s)
  have hout : ∀ t', ((vs.map fun v => Write.insertOutbox (outboxRowOf begun s.id.v v)).foldl Write.apply t') =
      { t' with outbox := t'.outbox ++ vs.map (outboxRowOf begun s.id.v) } := fun t' => by
    rw [← Write.foldl_insertOutbox, List.map_map]
    rfl
  have hhist : ([.setService s.id.v (updateCols s), .closeHistory (staleIds t s)
      (pgTime s.updatedAt)].foldl Write.apply t).history = closeStale t.history s := hclose
  rw [mutateWrites, List.foldl_cons, List.foldl_cons, List.foldl_append, hout, mutated, recordHistory]
  rcases plan_openStmt hopen with ⟨hany, rfl⟩ | ⟨hany, hfree, rfl⟩
  · rw [hhist] at hany
    rw [if_pos hany, hids]
    exact ⟨by rw [← hclose]; rfl, hnd⟩
  · rw [hhist] at hany hfree
    rw [if_neg (by simp [hany]), List.map_append, List.nodup_append, hids]
    refine ⟨by rw [← hclose]; rfl, hnd, List.nodup_singleton _, fun i hi j hj e => ?_⟩
    subst e
    rw [← hids] at hi
    obtain ⟨h, hm, he⟩ := List.mem_map.1 hi
    have := List.any_eq_false.1 hfree h hm
    rw [List.mem_singleton.1 hj] at he
    exact this (decide_eq_true he)

theorem service_mutated_ne (h : id ≠ s.id.v) : (mutated t s u os).service id = t.service id :=
  Write.service_set_ne t (updateCols s) h

theorem service_mutated : (mutated t s u os).service s.id.v = (t.service s.id.v).map (·.set (updateCols s)) :=
  Write.service_set t s.id.v (updateCols s)

theorem service_mutated_isSome (hr : t.service s.id.v = some r) (h : t.service id ≠ none) :
    (mutated t s u os).service id ≠ none := by
  by_cases he : id = s.id.v
  · subst he
    rw [service_mutated, hr]
    exact nofun
  · rwa [service_mutated_ne he]

theorem record_mutated_ne (h : id ≠ s.id.v) (hos : ∀ o ∈ os, o.aggregate_id = s.id.v) :
    (mutated t s u os).record id = t.record id := by
  refine Tables.record_congr (service_mutated_ne h) (filter_recordHistory_of_ne h) ?_
  have hnil : os.filter (·.aggregate_id = id) = [] := List.filter_eq_nil_iff.2 fun o ho => by
    simpa [hos o ho] using Ne.symm h
  exact (List.filter_append ..).trans (by rw [hnil, List.append_nil]; rfl)

theorem record_mutated (hr : t.service s.id.v = some r) (hos : ∀ o ∈ os, o.aggregate_id = s.id.v) :
    (mutated t s u os).record s.id.v = some ⟨r.set (updateCols s),
      recordHistory (t.historyOf s.id.v) s u, t.outboxOf s.id.v ++ os⟩ := by
  refine Tables.record_eq_some.2 ⟨?_, filter_recordHistory s t.history u, ?_⟩
  · rw [service_mutated, hr]
    rfl
  · refine (List.filter_append ..).trans ?_
    rw [List.filter_eq_self.2 fun o ho => decide_eq_true (hos o ho)]
    rfl

theorem mem_recordHistory {l : List HistoryRow} {h : HistoryRow} (hm : h ∈ recordHistory l s u) :
    h.service_id = s.id.v ∨ ∃ h' ∈ l, h'.service_id = h.service_id := by
  have hclose : ∀ h ∈ closeStale l s, ∃ h' ∈ l, h'.service_id = h.service_id := fun h hm => by
    obtain ⟨h', hm', rfl⟩ := List.mem_map.1 hm
    exact ⟨h', hm', by split <;> rfl⟩
  unfold recordHistory at hm
  split at hm
  · exact .inr (hclose h hm)
  · rcases List.mem_append.1 hm with hm | hm
    · exact .inr (hclose h hm)
    · rw [List.mem_singleton.1 hm]
      exact .inl rfl

theorem CatalogInv.mutated (h : CatalogInv t) (hr : t.service s.id.v = some r)
    (hos : ∀ o ∈ os, o.aggregate_id = s.id.v) (hids : ((recordHistory t.history s u).map (·.id)).Nodup) :
    CatalogInv (mutated t s u os) where
  stored id r' hr' := by
    by_cases he : id = s.id.v
    · subst he
      rw [service_mutated, hr] at hr'
      cases hr'
      exact (h.stored _ r hr).set s
    · rw [service_mutated_ne he] at hr'
      exact h.stored id r' hr'
  serviceIds := by
    have : (Catalog.mutated t s u os).services.map (·.id) = t.services.map (·.id) := by
      simp only [Catalog.mutated, List.map_map]
      refine List.map_congr_left fun r' _ => ?_
      simp only [Function.comp]
      split <;> rfl
    rw [this]
    exact h.serviceIds
  historyIds := hids
  history h' hm := by
    rcases mem_recordHistory hm with he | ⟨h'', hm', he⟩
    · exact service_mutated_isSome hr (by rw [he, hr]; exact nofun)
    · exact service_mutated_isSome hr (he ▸ h.history h'' hm')
  outbox o ho := by
    rcases List.mem_append.1 ho with ho | ho
    · exact service_mutated_isSome hr (h.outbox o ho)
    · exact service_mutated_isSome hr (by rw [hos o ho, hr]; exact nofun)
  owned id x hx := by
    by_cases he : id = s.id.v
    · subst he
      rw [record_mutated hr hos] at hx
      cases hx
      have hown := h.owned s.id.v ⟨r, _, _⟩ (Tables.record_eq_some.2 ⟨hr, rfl, rfl⟩)
      exact owned_recordHistory hown (Tables.id_of_service hr).symm (show (r.set _).id = r.id from rfl)
        rfl rfl _
    · rw [record_mutated_ne he hos] at hx
      exact h.owned id x hx

theorem mutated_same (h : CatalogInv t) (hr : t.service s.id.v = some r) (hrow : insertRow s = r) :
    mutated t s u [] = t := by
  have hserv : (t.services.map fun r' => if r'.id = s.id.v then r'.set (updateCols s) else r') = t.services := by
    refine (List.map_congr_left fun r' hr' => ?_).trans (List.map_id _)
    split
    · rename_i he
      have heq : r' = r := List.inj_on_of_nodup_map h.serviceIds hr' (Tables.mem_of_service hr)
        (he.trans (Tables.id_of_service hr).symm)
      rw [heq, ← hrow, insertRow_set]
      rfl
    · rfl
  have hown := h.owned s.id.v ⟨r, _, _⟩ (Tables.record_eq_some.2 ⟨hr, rfl, rfl⟩)
  obtain ⟨hstale, hcur⟩ := stale_current_same hown (s := s) (Tables.id_of_service hr).symm
    (by rw [← hrow]; rfl) (by rw [← hrow]; rfl)
  have hhist : recordHistory t.history s u = t.history := by
    refine recordHistory_eq_self (fun y hy => Bool.eq_false_iff.2 fun hs => ?_)
      ((any_current_filter s t.history).symm.trans hcur)
    have hid : y.service_id = s.id.v := (of_decide_eq_true hs).1
    have := hstale y (List.mem_filter.2 ⟨hy, decide_eq_true hid⟩)
    exact Bool.false_ne_true (this.symm.trans hs)
  rw [mutated, hserv, hhist, List.append_nil]

end

/-! ### The tables after a registration -/

/-- The tables after the registration of `s` with the outbox rows `os`. -/
def registered (t : Tables) (s : Service) (u : UUID) (os : List OutboxRow) : Tables where
  services := t.services ++ [insertRow s]
  history := t.history ++ [firstOwner u s]
  outbox := t.outbox ++ os
  idem := t.idem

section
variable {t : Tables} {s : Service} {u : UUID} {os : List OutboxRow} {id : UUID}

theorem foldl_registerWrites {begun : Timestamptz} {vs : List (UUID × Event)} :
    (registerWrites begun s u vs).foldl Write.apply t =
      registered t s u (vs.map (outboxRowOf begun s.id.v)) := by
  have hmap : (vs.map fun v => Write.insertOutbox (outboxRowOf begun s.id.v v)) =
      (vs.map (outboxRowOf begun s.id.v)).map Write.insertOutbox := by
    rw [List.map_map]
    rfl
  rw [registerWrites, List.foldl_cons, List.foldl_cons, hmap, Write.foldl_insertOutbox]
  rfl

theorem service_registered_ne (h : id ≠ s.id.v) : (registered t s u os).service id = t.service id :=
  find?_append_of_not (decide_eq_false (Ne.symm h))

theorem service_registered (h : t.service s.id.v = none) :
    (registered t s u os).service s.id.v = some (insertRow s) := by
  refine (List.find?_append ..).trans ?_
  rw [show t.services.find? _ = none from h]
  simp [insertRow]

theorem service_registered_isSome (hid : t.service s.id.v = none) (h : t.service id ≠ none) :
    (registered t s u os).service id ≠ none := by
  have hne : id ≠ s.id.v := fun e => h (e ▸ hid)
  rwa [service_registered_ne hne]

theorem record_registered_ne (h : id ≠ s.id.v) (hos : ∀ o ∈ os, o.aggregate_id = s.id.v) :
    (registered t s u os).record id = t.record id := by
  have hh : [firstOwner u s].filter (·.service_id = id) = [] := by simp [firstOwner, Ne.symm h]
  have ho : os.filter (·.aggregate_id = id) = [] := List.filter_eq_nil_iff.2 fun o ho => by
    simpa [hos o ho] using Ne.symm h
  refine Tables.record_congr (service_registered_ne h) ?_ ?_
  · exact (List.filter_append ..).trans (by rw [hh, List.append_nil]; rfl)
  · exact (List.filter_append ..).trans (by rw [ho, List.append_nil]; rfl)

/-- Nothing of a new service was there before. -/
theorem record_registered (h : CatalogInv t) (hid : t.service s.id.v = none)
    (hos : ∀ o ∈ os, o.aggregate_id = s.id.v) :
    (registered t s u os).record s.id.v = some ⟨insertRow s, [firstOwner u s], os⟩ := by
  have hh : t.historyOf s.id.v = [] := List.filter_eq_nil_iff.2 fun h' hm he =>
    h.history h' hm (of_decide_eq_true he ▸ hid)
  have ho : t.outboxOf s.id.v = [] := List.filter_eq_nil_iff.2 fun o hm he =>
    h.outbox o hm (of_decide_eq_true he ▸ hid)
  refine Tables.record_eq_some.2 ⟨service_registered hid, ?_, ?_⟩
  · refine (List.filter_append ..).trans ?_
    rw [show t.history.filter _ = [] from hh]
    simp [firstOwner]
  · refine (List.filter_append ..).trans ?_
    rw [show t.outbox.filter _ = [] from ho, List.filter_eq_self.2 fun o ho => decide_eq_true (hos o ho)]
    rfl

theorem CatalogInv.registered (h : CatalogInv t) (hid : t.service s.id.v = none)
    (hu : t.history.any (·.id = u) = false) (hos : ∀ o ∈ os, o.aggregate_id = s.id.v) :
    CatalogInv (registered t s u os) where
  stored id r hr := by
    by_cases he : id = s.id.v
    · subst he
      rw [service_registered hid] at hr
      exact ⟨s, Option.some.inj hr⟩
    · rw [service_registered_ne he] at hr
      exact h.stored id r hr
  serviceIds := by
    simp only [Catalog.registered, List.map_append, List.map_singleton, List.nodup_append]
    refine ⟨h.serviceIds, List.nodup_singleton _, fun i hi j hj e => ?_⟩
    obtain ⟨r, hr, he⟩ := List.mem_map.1 hi
    rw [← e] at hj
    exact List.find?_eq_none.1 hid r hr (decide_eq_true (he.trans (List.mem_singleton.1 hj)))
  historyIds := by
    simp only [Catalog.registered, List.map_append, List.map_singleton, List.nodup_append]
    refine ⟨h.historyIds, List.nodup_singleton _, fun i hi j hj e => ?_⟩
    obtain ⟨y, hy, he⟩ := List.mem_map.1 hi
    rw [← e] at hj
    exact List.any_eq_false.1 hu y hy (decide_eq_true (he.trans (List.mem_singleton.1 hj)))
  history h' hm := by
    rcases List.mem_append.1 hm with hm | hm
    · exact service_registered_isSome hid (h.history h' hm)
    · rw [List.mem_singleton.1 hm]
      exact (service_registered hid).symm ▸ nofun
  outbox o ho := by
    rcases List.mem_append.1 ho with ho | ho
    · exact service_registered_isSome hid (h.outbox o ho)
    · rw [hos o ho, service_registered hid]
      exact nofun
  owned id x hx := by
    by_cases he : id = s.id.v
    · subst he
      rw [record_registered h hid hos] at hx
      cases hx
      exact ⟨⟨[], firstOwner u s, rfl, nofun, rfl, rfl, rfl⟩, fun y hy => by
        rw [List.mem_singleton.1 hy]; rfl⟩
    · rw [record_registered_ne he hos] at hx
      exact h.owned id x hx

end

end Catalog

end Forge
