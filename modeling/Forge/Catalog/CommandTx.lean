import Forge.Catalog.CommandSpec

/-!
# What a committed command has written

The scripts of `CommandSpec` read as row changes: `MutateTx` for a mutation, `registerWrites` for a
registration. The row a mutation replaces is locked from its `UPDATE` on, so it is still the committed
one when the mutation commits.
-/

namespace Forge

/-! ### Service rows under row changes -/

namespace Tables

theorem id_of_service {t : Tables} {id : UUID} {r : ServiceRow} (h : t.service id = some r) : r.id = id := by
  simpa using List.find?_some h

theorem mem_of_service {t : Tables} {id : UUID} {r : ServiceRow} (h : t.service id = some r) :
    r ∈ t.services :=
  List.mem_of_find?_eq_some h

end Tables

namespace Write

/-- The changes of the table of services. -/
def OnServices : Write → Bool
  | insertService _ => true
  | setService .. => true
  | _ => false

theorem services_apply {w : Write} (h : w.OnServices = false) (t : Tables) :
    (w.apply t).services = t.services := by
  cases w <;> first | rfl | cases h

theorem services_foldl {ws : List Write} (h : ∀ w ∈ ws, w.OnServices = false) (t : Tables) :
    (ws.foldl Write.apply t).services = t.services := by
  induction ws generalizing t with
  | nil => rfl
  | cons w ws ih =>
    rw [List.foldl_cons, ih fun w' hw' => h w' (List.mem_cons_of_mem _ hw')]
    exact services_apply (h w List.mem_cons_self) t

theorem service_set (t : Tables) (id : UUID) (c : ServiceCols) :
    ((setService id c).apply t).service id = (t.service id).map (·.set c) := by
  refine (find?_map_of_eq fun r => by split <;> rfl).trans (Option.map_congr fun r hr => ?_)
  rw [if_pos (Tables.id_of_service hr)]

theorem service_set_ne (t : Tables) {id id' : UUID} (c : ServiceCols) (h : id' ≠ id) :
    ((setService id c).apply t).service id' = t.service id' := by
  refine find?_map_of_fixed (fun r => by split <;> rfl) fun r hr => if_neg fun e => h ?_
  rw [← e, of_decide_eq_true hr]

end Write

namespace Catalog

/-! ### Events -/

/-- The row `Append` writes for an event of the service `id`, in a transaction begun at `begun`. -/
def outboxRowOf (begun : Timestamptz) (id : UUID) (v : UUID × Event) : OutboxRow :=
  ⟨v.1, id, v.2.EventType, v.2.envelope, pgTime v.2.OccurredAt, none, begun⟩

theorem eval_outboxStmt {now : Timestamptz} {t : Tables} {u : UUID} {e : Event} {id : ServiceID}
    (he : e.AggregateID = id.String) :
    (outboxStmt u e).eval now t = if t.outbox.any (·.id = u) then .error .uniqueViolation
      else .ok ((), [.insertOutbox (outboxRowOf now id.v (u, e))]) := by
  have hp : UuidLib.canonical.Parse e.AggregateID = some id.v := he ▸ UuidLib.canonical.parse_String id.v
  simp only [Stmt.eval, hp]
  rfl

variable {p : Pid} {tx tx' : Tx} {S S' : Snap}

/-- The transaction after `Append`; the ids of its rows were free. -/
theorem ran_appendScript {vs : List (UUID × Event)} {id : ServiceID}
    (he : ∀ v ∈ vs, v.2.AggregateID = id.String) (h : Ran p tx S (appendScript vs) tx' S') :
    tx' = { tx with writes := tx.writes ++ vs.map fun v => .insertOutbox (outboxRowOf tx.begun id.v v) } := by
  induction vs generalizing tx S with
  | nil =>
    rw [h.1]
    simp
  | cons v vs ih =>
    obtain ⟨S₁, ws, -, hplan, hr⟩ := h
    have heval := (Stmt.plan_ok hplan).2
    rw [eval_outboxStmt (he v List.mem_cons_self)] at heval
    split at heval <;> cases heval
    rw [ih (fun v' hv' => he v' (List.mem_cons_of_mem _ hv')) hr]
    simp [Tx.ran, Stmt.loads]

/-! ### Mutations -/

/-- Every row was written by the code. -/
def AllStored (t : Tables) : Prop := ∀ id r, t.service id = some r → Stored r

/-- The tables after the registration of `Service.sample`, its events left out. -/
def sampleTables : Tables :=
  ⟨[insertRow .sample], [⟨⟨10⟩, ⟨1⟩, "core", [], 0, none⟩], [], []⟩

theorem allStored_sampleTables : AllStored sampleTables := by
  intro id r h
  cases List.mem_singleton.1 (Tables.mem_of_service h)
  exact ⟨_, rfl⟩

theorem Stored.set {r : ServiceRow} (h : Stored r) (s' : Service) : Stored (r.set (updateCols s')) := by
  obtain ⟨s, rfl⟩ := h
  exact ⟨{ s' with id := s.id, tenantID := s.tenantID, name := s.name, createdAt := s.createdAt }, rfl⟩

section
variable [UuidLib] {w₀ w : World} {id : UUID} {ev : Int} {m : Mutation} {r : ServiceRow} {s s' : Service}
  {now : Time}

theorem Stored.of_scan (h : Stored r) (hs : scanService (some r) = .ok s) :
    insertRow s = r ∧ s.events = [] := by
  obtain ⟨s₀, hs₀, hr, he⟩ := h.scan
  cases hs.symm.trans hs₀
  exact ⟨hr, he⟩

omit [UuidLib] in
/-- An `UPDATE` that affected a row found the expected version. -/
theorem plan_updateStmt {now : Timestamptz} {t : Tables} {n : Nat} {ws : List Write}
    (h : (updateStmt s ev).plan now t = .ok (n, ws)) (hn : n ≠ 0) :
    ∃ cur, t.service s.id.v = some cur ∧ cur.version = ev ∧ ws = [.setService s.id.v (updateCols s)] := by
  replace h := (Stmt.plan_ok h).2
  simp only [Stmt.eval] at h
  split at h
  · split at h
    · split at h <;> cases h
      exact ⟨_, ‹_›, ‹_›, rfl⟩
    · cases h; exact absurd rfl hn
  · cases h; exact absurd rfl hn

/-- The open intervals of a service that `recordOwnership` closes. -/
def staleIds (t : Tables) (s : Service) : List UUID :=
  (t.history.filter (Stmt.stale s.id.v s.ownership.OwningTeam s.ownership.OnCallRef)).map (·.id)

/-- The changes a mutation has made when it commits `tx` in `w`. -/
structure MutateTx (p : Pid) (id : UUID) (ev : Int) (w : World) (tx : Tx) (r : ServiceRow)
    (s s' : Service) : Prop where
  loaded : tx.loaded = [r]
  claimed : tx.claimed = []
  /-- The row that is replaced has the expected version. -/
  current : ∃ cur, w.db.service id = some cur ∧ cur.version = expectedVersionOr ev s.version
  writes : ∃ (S₃ S₄ : Snap) (u : UUID) (vs : List (UUID × Event)) (ws : List Write),
    Follows p [] S₃ w.snap ∧ Follows p [] S₄ w.snap ∧ (p, u) ∈ w.draws ∧ vs.map Prod.snd = s'.events ∧
    (openStmt u s').plan tx.begun ([.setService id (updateCols s'),
      .closeHistory (staleIds S₃.db s') (pgTime s'.updatedAt)].foldl Write.apply S₄.db) = .ok ((), ws) ∧
    tx.writes = .setService id (updateCols s') :: .closeHistory (staleIds S₃.db s') (pgTime s'.updatedAt) ::
      (ws ++ vs.map fun v => .insertOutbox (outboxRowOf tx.begun id v))

/-- The row was loaded on committed tables, after which only others committed. -/
theorem MutateDone.load (h : MutateDone p w₀ id ev m w tx r s now s') :
    ∃ S, Follows p [] S w.snap ∧ S.db.service id = some r := by
  obtain ⟨t, n, u, vs, -, -, -, -, S, ws, -, hp, hran⟩ := h.ran
  have heval := (Stmt.plan_ok hp).2
  simp only [Stmt.eval, Tx.view, Tx.start, List.foldl_nil, Except.ok.injEq, Prod.mk.injEq] at heval
  exact ⟨S, hran.follows.mono (by simp), heval.1⟩

/-- What a mutation has committed, the tables have taken. -/
theorem MutateDone.storable (h : MutateDone p w₀ id ev m w tx r s now s') : s'.Storable := by
  obtain ⟨t, n, u, vs, -, hvs, -, -, hran⟩ := h.ran
  have htaken := hran.taken
  refine ⟨taken_updateStmt.1 (htaken ⟨updateStmt s' (expectedVersionOr ev s.version), n⟩
    (by simp [mutateScript])), fun e he => ?_⟩
  rw [← hvs] at he
  obtain ⟨v, hv, rfl⟩ := List.mem_map.1 he
  exact (htaken ⟨outboxStmt v.1 v.2, ()⟩ (List.mem_append_right _ (List.mem_map_of_mem hv))).2

/-- The transaction of a mutation after its statements. -/
theorem ran_mutateScript {t : Timestamptz} {n : Nat} {u : UUID} {vs : List (UUID × Event)}
    (hs : scanService (some r) = .ok s) (ha : m.apply now s = .ok s') (hr : Stored r) (hn : n ≠ 0)
    (hvs : ∀ v ∈ vs, v.2 ∈ s'.events)
    (h : Ran p (.start t) S (mutateScript id ev r s s' n u vs) tx S') :
    ∃ S₃ S₄ cur ws, Follows p [] S₃ S' ∧ Follows p [] S₄ S' ∧
      S'.db.service id = some cur ∧ cur.version = expectedVersionOr ev s.version ∧
      (openStmt u s').plan t ([.setService id (updateCols s'),
        .closeHistory (staleIds S₃.db s') (pgTime s'.updatedAt)].foldl Write.apply S₄.db) = .ok ((), ws) ∧
      tx = ⟨t, .setService id (updateCols s') :: .closeHistory (staleIds S₃.db s') (pgTime s'.updatedAt) ::
        (ws ++ vs.map fun v => .insertOutbox (outboxRowOf t id v)), [r], []⟩ := by
  obtain ⟨S₁, ws₁, -, hp₁, hran₁⟩ := h
  obtain ⟨S₂, ws₂, -, hp₂, hran₂⟩ := hran₁
  have hf₂ := hran₂.follows
  obtain ⟨S₃, ws₃, -, hp₃, hran₃⟩ := hran₂
  have hf₃ := hran₃.follows
  obtain ⟨S₄, ws₄, -, hp₄, hran₄⟩ := hran₃
  have hf₄ := hran₄.follows
  obtain ⟨hrow, hev⟩ := hr.of_scan hs
  obtain ⟨hsel, rfl⟩ : S₁.db.service id = some r ∧ [] = ws₁ := by
    simpa [Stmt.eval, Tx.view, Tx.start] using (Stmt.plan_ok hp₁).2
  have hid : s'.id.v = id := by
    rw [Mutation.id_of_apply ha, ← Tables.id_of_service hsel, ← hrow, insertRow]
  obtain ⟨cur, hcur, hver, rfl⟩ := plan_updateStmt hp₂ hn
  obtain rfl : [.closeHistory (staleIds S₃.db s') (pgTime s'.updatedAt)] = ws₃ := by
    simpa [Stmt.eval, Tx.view, Tx.start, Tx.ran, staleIds, Write.apply] using (Stmt.plan_ok hp₃).2
  have hagg : ∀ v ∈ vs, v.2.AggregateID = (⟨id⟩ : ServiceID).String := fun v hv => by
    rw [Mutation.aggregateID_of_apply ha hev v.2 (hvs v hv), ← Mutation.id_of_apply ha, ← hid]
  have htx := ran_appendScript hagg hran₄
  -- the row has been locked since the `UPDATE`
  have hlock : S'.db.service id = S₂.db.service id :=
    hf₂.frame (.service id) (by simp [Tx.keys, Tx.ran, Write.keys, hid])
  simp only [Tx.view, Tx.ran, Tx.start, Stmt.loads, List.nil_append, List.append_nil,
    Option.toList_some, List.cons_append, hid] at hcur hp₄ htx
  exact ⟨S₃, S₄, cur, ws₄, hf₃.mono (by simp), hf₄.mono (by simp), hlock.trans hcur, hver, hp₄, htx⟩

theorem MutateDone.mutateTx (h : MutateDone p w₀ id ev m w tx r s now s') (hr : Stored r) :
    MutateTx p id ev w tx r s s' := by
  obtain ⟨t, n, u, vs, hn, hes, hu, -, hran⟩ := h.ran
  obtain ⟨S₃, S₄, cur, ws, hf₃, hf₄, hcur, hver, hplan, rfl⟩ :=
    ran_mutateScript h.loads h.applies hr hn (fun v hv => hes ▸ List.mem_map_of_mem hv) hran
  exact ⟨rfl, rfl, ⟨cur, hcur, hver⟩, S₃, S₄, u, vs, ws, hf₃, hf₄, hu, hes, hplan, rfl⟩

omit [UuidLib] in
/-- `recordOwnership` opens an interval unless the current owner has one. -/
theorem plan_openStmt {now : Timestamptz} {t : Tables} {u : UUID} {ws : List Write}
    (h : (openStmt u s).plan now t = .ok ((), ws)) :
    (t.history.any (Stmt.current s.id.v s.ownership.OwningTeam s.ownership.OnCallRef) = true ∧ ws = []) ∨
    (t.history.any (Stmt.current s.id.v s.ownership.OwningTeam s.ownership.OnCallRef) = false ∧
      t.history.any (·.id = u) = false ∧ ws = [.insertHistory ⟨u, s.id.v, s.ownership.OwningTeam,
        s.ownership.OnCallRef, pgTime s.updatedAt, none⟩]) := by
  replace h := (Stmt.plan_ok h).2
  simp only [Stmt.eval, Stmt.planHistory] at h
  split at h
  · cases h; exact .inl ⟨‹_›, rfl⟩
  · split at h
    · cases h
    · split at h <;> cases h
      exact .inr ⟨Bool.eq_false_iff.2 ‹_›, Bool.eq_false_iff.2 ‹_›, rfl⟩

namespace MutateTx

omit [UuidLib]
variable (h : MutateTx p id ev w tx r s s')
include h

/-- Of the services only the row of `id` is changed. -/
theorem services_view (t : Tables) :
    (tx.view t).services = ((Write.setService id (updateCols s')).apply t).services := by
  obtain ⟨S₃, S₄, u, vs, ws, -, -, -, -, hplan, hws⟩ := h.writes
  unfold Tx.view
  rw [hws, List.foldl_cons]
  refine Write.services_foldl (fun w' hw' => ?_) _
  rcases List.mem_cons.1 hw' with rfl | hw'
  · rfl
  rcases List.mem_append.1 hw' with hw' | hw'
  · rcases plan_openStmt hplan with ⟨-, rfl⟩ | ⟨-, -, rfl⟩
    · cases hw'
    · cases List.mem_singleton.1 hw'; rfl
  · obtain ⟨v, -, rfl⟩ := List.mem_map.1 hw'
    rfl

theorem service_view (t : Tables) : (tx.view t).service id = (t.service id).map (·.set (updateCols s')) := by
  rw [Tables.service, h.services_view]
  exact Write.service_set ..

theorem service_view_ne (t : Tables) {id' : UUID} (hne : id' ≠ id) :
    (tx.view t).service id' = t.service id' := by
  rw [Tables.service, h.services_view]
  exact Write.service_set_ne _ _ hne

end MutateTx

/-! ### Registrations -/

omit [UuidLib]

/-- The row of the history that a registration opens. -/
def firstOwner (u : UUID) (svc : Service) : HistoryRow :=
  ⟨u, svc.id.v, svc.ownership.OwningTeam, svc.ownership.OnCallRef, pgTime svc.createdAt, none⟩

/-- The changes a registration of `svc` makes. -/
def registerWrites (begun : Timestamptz) (svc : Service) (u : UUID) (vs : List (UUID × Event)) : List Write :=
  .insertService (insertRow svc) :: .insertHistory (firstOwner u svc) ::
    vs.map fun v => .insertOutbox (outboxRowOf begun svc.id.v v)

/-- An `INSERT` of a service that was carried out found neither its id nor its name. -/
theorem plan_insertService {now : Timestamptz} {t : Tables} {r : ServiceRow} {ws : List Write}
    (h : (Stmt.insertService r).plan now t = .ok ((), ws)) :
    t.service r.id = none ∧ t.serviceByName r.tenant_id r.name = none ∧ ws = [.insertService r] := by
  replace h := (Stmt.plan_ok h).2
  simp only [Stmt.eval] at h
  split at h
  · cases h
  · rename_i hany
    split at h <;> cases h
    rw [Bool.not_eq_true, List.any_eq_false] at hany
    refine ⟨List.find?_eq_none.2 fun r' hr' he => hany r' hr' ?_,
      List.find?_eq_none.2 fun r' hr' he => hany r' hr' ?_, rfl⟩
    · exact decide_eq_true (.inl (of_decide_eq_true he))
    · exact decide_eq_true (.inr (of_decide_eq_true he))

theorem plan_historyStmt {now : Timestamptz} {t : Tables} {u : UUID} {ws : List Write}
    (h : (historyStmt u s).plan now t = .ok ((), ws)) :
    t.history.any (·.id = u) = false ∧ ws = [.insertHistory (firstOwner u s)] := by
  replace h := (Stmt.plan_ok h).2
  simp only [Stmt.eval, Stmt.planHistory] at h
  split at h
  · cases h
  · split at h <;> cases h
    exact ⟨Bool.eq_false_iff.2 ‹_›, rfl⟩

/-- The transaction of a registration after its statements: neither its id nor its name are taken in
the committed tables, where they have been locked since the `INSERT`. -/
theorem ran_registerScript {t : Timestamptz} {svc : Service} {u : UUID} {vs : List (UUID × Event)}
    (hvs : ∀ v ∈ vs, v.2.AggregateID = svc.id.String)
    (h : Ran p (.start t) S (registerScript svc u vs) tx S') :
    ∃ S₃, Follows p [] S₃ S' ∧ S₃.db.history.any (·.id = u) = false ∧
      S'.db.service svc.id.v = none ∧ S'.db.serviceByName svc.tenantID.v svc.name.v = none ∧
      tx = ⟨t, registerWrites t svc u vs, [], []⟩ := by
  obtain ⟨S₁, ws₁, -, hp₁, S₂, ws₂, -, hp₂, hran₂⟩ := h
  obtain ⟨hid, hname, rfl⟩ := plan_insertService hp₂
  have hf₂ := hran₂.follows
  obtain ⟨S₃, ws₃, -, hp₃, hran₃⟩ := hran₂
  obtain ⟨hfree, rfl⟩ := plan_historyStmt hp₃
  have hf₃ := hran₃.follows
  have htx := ran_appendScript hvs hran₃
  obtain rfl : [] = ws₁ := congrArg Prod.snd (Except.ok.inj (Stmt.plan_ok hp₁).2)
  simp only [Tx.view, Tx.ran, Tx.start, Stmt.loads, List.append_nil, List.nil_append, List.foldl_cons,
    List.foldl_nil, List.cons_append] at hid hname hfree htx
  refine ⟨S₃, hf₃.mono (by simp), hfree, ?_, ?_, htx⟩
  · have h : S'.db.service svc.id.v = S₂.db.service svc.id.v :=
      hf₂.frame (.service svc.id.v) (by simp [Tx.keys, Tx.ran, Write.keys, insertRow])
    exact h.trans hid
  · have h : (S'.db.serviceByName svc.tenantID.v svc.name.v).isSome = _ :=
      hf₂.frame (.serviceName svc.tenantID.v svc.name.v)
        (by simp [Tx.keys, Tx.ran, Write.keys, insertRow])
    rw [show S₂.db.serviceByName svc.tenantID.v svc.name.v = none from hname] at h
    exact Option.isNone_iff_eq_none.1 (by simpa using h)

end

end Catalog

end Forge
