import Forge.Catalog.RowRules

/-!
# Stored services load back

`scanService` checks every column again with the constructors of the domain. Each of them accepts what it has
made and returns it unchanged, so the row of an aggregate loads back as that aggregate (`scanService_insertRow`).
What has to be shown of the commands is that the row they leave is the row of the aggregate they return
(`Wrote`): an `UPDATE` does not set the id, the tenant, the name and the time of creation, and may replace
another version than the one that was loaded, but these columns never change (`KeysKept`).
-/

namespace Forge.Catalog

/-! ### What never changes in a row -/

/-- The columns that no `UPDATE` sets are the same. -/
structure SameKey (r r' : ServiceRow) : Prop where
  id : r'.id = r.id
  tenant_id : r'.tenant_id = r.tenant_id
  name : r'.name = r.name
  created_at : r'.created_at = r.created_at

namespace SameKey

variable {r r' r'' : ServiceRow}

theorem refl (r : ServiceRow) : SameKey r r := ⟨rfl, rfl, rfl, rfl⟩

theorem trans (h : SameKey r r') (h' : SameKey r' r'') : SameKey r r'' :=
  ⟨h'.id.trans h.id, h'.tenant_id.trans h.tenant_id, h'.name.trans h.name, h'.created_at.trans h.created_at⟩

/-- Whichever version of the row is replaced, the row of the changed aggregate is left. -/
theorem set {s s' : Service} (h : SameKey (insertRow s) r) {m : Mutation} {now : Time}
    (ha : m.apply now s = .ok s') : r.set (updateCols s') = insertRow s' := by
  have hrow : r.set (updateCols s') = (insertRow s).set (updateCols s') := by
    simp [ServiceRow.set, h.id, h.tenant_id, h.name, h.created_at]
  rw [hrow]
  rcases Mutation.apply_cases ha with rfl | ⟨e, hc⟩
  · rw [insertRow_set]
  · rw [hc.set]

end SameKey

/-- Every row of `t` is there in `t'`, with the same key. -/
def KeysKept (t t' : Tables) : Prop :=
  ∀ id r, t.service id = some r → ∃ r', t'.service id = some r' ∧ SameKey r r'

theorem KeysKept.chain {t t' : Tables} {l : List Commit} (h : Chain t l t')
    (hl : ∀ e ∈ l, KeysKept e.before e.after) : KeysKept t t' := by
  refine h.rel (fun _ _ r hr => ⟨r, hr, .refl r⟩) (fun t₁ t₂ t₃ h₁ h₂ id r hr => ?_) hl
  obtain ⟨r', hr', hkey⟩ := h₁ id r hr
  obtain ⟨r'', hr'', hkey'⟩ := h₂ id r' hr'
  exact ⟨r'', hr'', hkey.trans hkey'⟩

/-! ### What a command writes -/

/-- The commit `e` left the row of `s`, and changed no other row. -/
structure Wrote (e : Commit) (s : Service) : Prop where
  row : e.after.service s.id.v = some (insertRow s)
  others : ∀ id ≠ s.id.v, e.after.service id = e.before.service id

/-- `s` as it is loaded back: times are cut to microseconds, and there are no events. -/
def Service.loaded (s : Service) : Service :=
  { s with createdAt := goTime (pgTime s.createdAt), updatedAt := goTime (pgTime s.updatedAt), events := [] }

section
variable [UuidLib] {p : Pid} {w w₀ : World} {tx : Tx}

theorem RegisterDone.wrote {svc : Service} (h : RegisterDone p w₀ svc w tx) (hnew : svc.New) :
    Wrote ⟨p, tx, w.db, tx.view w.db⟩ svc ∧ KeysKept w.db (tx.view w.db) := by
  obtain ⟨begun, u, v, ev, -, -, -, hview, -⟩ := h.view hnew
  obtain ⟨-, -, -, -, -, -, -, -, hfree, -⟩ := h.tx_eq hnew
  have hservice : ∀ id, (tx.view w.db).service id =
      (w.db.service id).or (if svc.id.v = id then some (insertRow svc) else none) := by
    intro id
    rw [hview]
    show (w.db.services ++ [insertRow svc]).find? (·.id = id) = _
    rw [List.find?_append]
    congr 1
    by_cases hid : svc.id.v = id <;> simp [insertRow, hid]
  refine ⟨⟨?_, fun id hid => ?_⟩, fun id r hr => ⟨r, ?_, .refl r⟩⟩
  · show (tx.view w.db).service svc.id.v = _
    rw [hservice, hfree, if_pos rfl]
    rfl
  · show (tx.view w.db).service id = w.db.service id
    rw [hservice, if_neg fun h => hid h.symm, Option.or_none]
  · rw [hservice, hr]
    rfl

theorem MutateDone.wrote {id : UUID} {ev : Int} {m : Mutation} {r : ServiceRow} {s s' : Service} {now : Time}
    (h : MutateDone p w₀ id ev m w tx r s now s') (hr : Stored r)
    (hkept : ∀ e ∈ w.log, KeysKept e.before e.after) :
    Wrote ⟨p, tx, w.db, tx.view w.db⟩ s' ∧ KeysKept w.db (tx.view w.db) := by
  have hm := h.mutateTx hr
  obtain ⟨S, hS, hsel⟩ := h.load
  obtain ⟨l, hl, hchain, -⟩ := hS.log
  have hkeys : KeysKept S.db w.db := .chain hchain fun e he =>
    hkept e (show e ∈ w.snap.log from hl ▸ List.mem_append_right _ he)
  obtain ⟨cur, hcur, hkey⟩ := hkeys id r hsel
  have hrow := (hr.of_scan h.loads).1
  have hid : s'.id.v = id := by
    rw [Mutation.id_of_apply h.applies, ← Tables.id_of_service hsel, ← hrow, insertRow]
  have hset : cur.set (updateCols s') = insertRow s' := SameKey.set (hrow ▸ hkey) h.applies
  refine ⟨⟨?_, fun id' hne => hm.service_view_ne w.db (hid ▸ hne)⟩, fun id' r' hr' => ?_⟩
  · show (tx.view w.db).service s'.id.v = _
    rw [hid, hm.service_view, hcur, Option.map_some, hset]
  · by_cases hne : id' = id
    · subst hne
      exact ⟨r'.set (updateCols s'), by rw [hm.service_view, hr']; rfl, ⟨rfl, rfl, rfl, rfl⟩⟩
    · exact ⟨r', by rw [hm.service_view_ne w.db hne, hr'], .refl r'⟩

/-! ### Runs -/

/-- Every row is that of an aggregate. -/
def RowsStored (t : Tables) : Prop := ∀ r ∈ t.services, Stored r

/-- What holds in every world that commands reach from the tables `db`. -/
structure LoadInv (db : Tables) (w : World) : Prop where
  locks : w.LocksOk
  chain : Chain db w.log w.db
  stored : RowsStored w.db
  commits : ∀ e ∈ w.log, RowsStored e.before ∧ KeysKept e.before e.after ∧ ∃ s, Wrote e s

def Returned (p : Pid) (res : Except Err Service) (w : World) : Prop :=
  ∀ s, res = .ok s → ∃ e ∈ w.log, e.pid = p ∧ Wrote e s

variable {db : Tables}

omit [UuidLib] in
theorem LoadInv.keeps (p : Pid) : Keeps p (LoadInv db) where
  locksOk _ h := h.locks
  loc _ _ h hl := ⟨hl.locksOk h.locks, hl.db ▸ hl.log ▸ h.chain, hl.db ▸ h.stored, hl.log ▸ h.commits⟩

omit [UuidLib] in
/-- A commit that writes one aggregate keeps the invariant, and stays in the log. -/
theorem LoadInv.commit (h : LoadInv db w) (htx : w.txs p = some tx) (hstored : RowsStored (tx.view w.db)) {s : Service}
    (hwrote : Wrote ⟨p, tx, w.db, tx.view w.db⟩ s ∧ KeysKept w.db (tx.view w.db)) :
    LoadInv db ((w.commit p tx).endTx p) ∧
      ∀ w', Others p ((w.commit p tx).endTx p) w' → LoadInv db w' → Returned p (.ok { s with events := [] }) w' := by
  refine ⟨⟨World.Effect.locksOk h.locks (.commit htx), h.chain.append ⟨rfl, rfl⟩, hstored, fun e he => ?_⟩, ?_⟩
  · rcases List.mem_append.1 he with he | he
    · exact h.commits e he
    · cases List.mem_singleton.1 he
      exact ⟨h.stored, hwrote.2, s, hwrote.1⟩
  · intro w' ho _ s' hs'
    cases hs'
    obtain ⟨l, hl, -⟩ := ho.log
    refine ⟨⟨p, tx, w.db, tx.view w.db⟩, ?_, rfl, hwrote.1.row, hwrote.1.others⟩
    rw [hl]
    exact List.mem_append_left _ (List.mem_append_right _ (List.mem_singleton_self _))

theorem LoadInv.safe (c : CatalogCommand) (hw : w.txs p = none) :
    Safe p (LoadInv db) (Returned p) c.run.run w := by
  rw [← Proc.bind_ret (ExceptT.run _)]
  cases c with
  | register inp =>
    refine safe_RegisterService (keeps p) hw (fun _ _ _ _ _ => nofun)
      (fun _ _ _ _ _ _ _ _ _ _ _ _ _ _ => nofun) fun w₀ svc w₁ tx hreg hI _ htx hd => ?_
    obtain ⟨tenantID, name, tier, ownership, id, now, -, rfl, -⟩ := hreg.svc_eq
    obtain ⟨begun, u, v, ev, -, -, -, hview, -⟩ := hd.view Service.new_Register
    refine hI.commit htx (fun r hr => ?_) (hd.wrote Service.new_Register)
    rw [hview] at hr
    rcases List.mem_append.1 hr with hr | hr
    · exact hI.stored r hr
    · exact ⟨_, (List.mem_singleton.1 hr).symm⟩
  | mutation c =>
    rw [show (CatalogCommand.mutation c).run = c.run from rfl, c.run_eq, M.run_bind_bind, M.run_ofExcept_bind]
    cases hparse : c.parse with
    | error e => exact fun _ _ _ => nofun
    | ok x =>
      refine safe_mutate (keeps p) hw (fun _ _ _ _ _ _ _ _ _ _ _ => nofun)
        fun w₁ tx r s now s' hI _ htx hd => ?_
      obtain ⟨S, hS, hsel⟩ := hd.load
      have hr : Stored r := hS.past (fun e he => (hI.commits e he).1) hI.stored r (Tables.mem_of_service hsel)
      refine hI.commit htx (fun r' hr' => ?_) (hd.wrote hr fun e he => (hI.commits e he).2.1)
      rw [(hd.mutateTx hr).services_view] at hr'
      obtain ⟨r₀, hr₀, rfl⟩ := List.mem_map.1 hr'
      split
      · exact (hI.stored r₀ hr₀).set s'
      · exact hI.stored r₀ hr₀

theorem LoadInv.run {cmds : Pid → Option CatalogCommand} (h : RowsStored db)
    {ms : List (Move Pid Choice)} {st : Pool Pid Call Call.Ans (Except Err Service) World}
    (hs : (catalogPool db cmds).run World.machine ms = some st) :
    LoadInv db st.world ∧ ∀ p res, st.procs p = some (.ret res) → Returned p res st.world := by
  have hinit : LoadInv db (.init db) := ⟨World.init_locksOk db, rfl, h, by simp [World.init]⟩
  obtain ⟨hI, hprocs⟩ := safe_run (s := catalogPool db cmds) (Q := Returned) keeps hinit (fun p prog hp => by
    obtain ⟨c, -, rfl⟩ := Option.map_eq_some_iff.1 hp
    exact safe c rfl) hs
  exact ⟨hI, fun p res hp => hprocs p _ hp st.world (.refl p st.world) hI⟩

/-- In every run of any commands, with crashes and failures anywhere: what a command returned is what it wrote;
the row that was last written for a service loads back as the aggregate it was written from; and every row of the
table loads back. Each constructor returns what it has made unchanged. -/
theorem stored_services_load_back {cmds : Pid → Option CatalogCommand} (h : RowsStored db)
    {ms : List (Move Pid Choice)} {st : Pool Pid Call Call.Ans (Except Err Service) World}
    (hs : (catalogPool db cmds).run World.machine ms = some st) :
    (∀ p s, st.procs p = some (.ret (.ok s)) → ∃ e ∈ st.world.log, e.pid = p ∧ Wrote e s) ∧
    (∀ e ∈ st.world.log, ∃ s, Wrote e s ∧ scanService (e.after.service s.id.v) = .ok s.loaded) ∧
    (∀ l e l' s, st.world.log = l ++ e :: l' → Wrote e s →
      (∀ e' ∈ l', e'.after.service s.id.v = e'.before.service s.id.v) →
      scanService (st.world.db.service s.id.v) = .ok s.loaded) ∧
    (∀ r ∈ st.world.db.services, ∃ s, insertRow s = r ∧ scanService (some r) = .ok s.loaded) ∧
    (∀ s n, NewServiceName s = .ok n → NewServiceName n.v = .ok n) ∧ (∀ v t, NewTier v = .ok t → NewTier t.v = .ok t) ∧
    (∀ s l, ParseLifecycle s = .ok l → ParseLifecycle l.text = .ok l) ∧
    (∀ team ref o, NewOwnership team ref = .ok o → NewOwnership o.OwningTeam o.OnCallRef = .ok o) ∧
    (∀ s id, ServiceIDFromString s = .ok id → ServiceIDFromString id.String = .ok id) ∧
    ∀ s id, TenantIDFromString s = .ok id → TenantIDFromString id.String = .ok id := by
  obtain ⟨hI, hreturned⟩ := LoadInv.run h hs
  refine ⟨fun p s hp => hreturned p _ hp s rfl, fun e he => ?_, fun l e l' s hlog hwrote hlast => ?_, fun r hr => ?_,
    fun _ n _ => NewServiceName_v n, fun _ t _ => NewTier_v t, fun _ l _ => ParseLifecycle_text l,
    fun _ _ o _ => NewOwnership_v o, fun _ id _ => ServiceIDFromString_String id.v,
    fun _ id _ => TenantIDFromString_String id.v⟩
  · obtain ⟨-, -, s, hwrote⟩ := hI.commits e he
    exact ⟨s, hwrote, by rw [hwrote.row]; exact scanService_insertRow s⟩
  · have hchain := hI.chain
    rw [hlog] at hchain
    obtain ⟨t, -, hrest⟩ := hchain.of_append
    have hsame : st.world.db.service s.id.v = e.after.service s.id.v :=
      hrest.2.rel (R := fun t t' => t'.service s.id.v = t.service s.id.v) (fun _ => rfl)
        (fun _ _ _ h h' => h'.trans h) hlast
    rw [hsame, hwrote.row]
    exact scanService_insertRow s
  · obtain ⟨s, rfl⟩ := hI.stored r hr
    exact ⟨s, rfl, scanService_insertRow s⟩

end

attribute [local instance] UuidLib.canonical

/-- The run of `rows_ok_sample`: the row that the change of ownership left over the promotion loads back. -/
theorem load_back_sample : RowsStored onCallTables ∧
    ∃ st, (catalogPool onCallTables skewedCommands).run World.machine
      (loadMoves 0 ++ loadMoves 1 ++ storeMoves 0 ⟨20⟩ ⟨21⟩ ++ storeMoves 1 ⟨30⟩ ⟨31⟩) = some st ∧
    st.world.db.services.length = 1 ∧
    ∀ r ∈ st.world.db.services, ∃ s, insertRow s = r ∧ scanService (some r) = .ok s.loaded := by
  have hstored : RowsStored onCallTables := by
    intro r hr
    cases List.mem_singleton.1 hr
    exact ⟨{ Service.sample with ownership := ⟨"core", "pager", by decide, by decide, by decide⟩ }, rfl⟩
  have h : ((catalogPool onCallTables skewedCommands).run World.machine
      (loadMoves 0 ++ loadMoves 1 ++ storeMoves 0 ⟨20⟩ ⟨21⟩ ++ storeMoves 1 ⟨30⟩ ⟨31⟩)).map
        (fun st => st.world.db.services.length) = some 1 := by decide +kernel
  obtain ⟨st, hst, hlen⟩ := Option.map_eq_some_iff.1 h
  exact ⟨hstored, st, hst, hlen, (stored_services_load_back hstored hst).2.2.2.1⟩

end Forge.Catalog
