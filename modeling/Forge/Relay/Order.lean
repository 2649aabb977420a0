import Forge.Catalog.RowRules
import Forge.Relay.Phases

/-!
# The order of publication

With one relay and timely commits, every event of a service is published after all events of that service
that were committed before it, and a commit that writes an event raises the version of its service, as long
as its command was not ahead of what it loaded (`published_in_commit_order`). A transaction that begins
first and commits last has its event published first (`published_out_of_order`).
-/

namespace Forge

open Catalog

/-- An event of a mutation is about its service, and there is none if nothing was changed. -/
theorem Catalog.MutateTx.of_mem_events {p : Pid} {id : UUID} {ev : Int} {w : World} {tx : Tx} {r : ServiceRow}
    {s s' : Service} (h : MutateTx p id ev w tx r s s') {n : OutboxRow} (hn : n ∈ tx.events) :
    n.aggregate_id = id ∧ s'.events ≠ [] := by
  obtain ⟨S₃, S₄, u, vs, ws, -, -, -, hvs, hplan, hws⟩ := h.writes
  have hmem := Tx.mem_events.1 hn
  rw [hws] at hmem
  have hins : Write.insertOutbox n ∈ vs.map fun v => Write.insertOutbox (outboxRowOf tx.begun id v) := by
    rcases plan_openStmt hplan with ⟨-, rfl⟩ | ⟨-, -, rfl⟩ <;> simpa using hmem
  obtain ⟨v, hv, heq⟩ := List.mem_map.1 hins
  rw [Write.insertOutbox.injEq] at heq
  refine ⟨heq ▸ rfl, fun hnil => ?_⟩
  rw [hnil, List.map_eq_nil_iff] at hvs
  exact List.ne_nil_of_mem hv hvs

namespace relay

/-! ### Versions -/

/-- The commit lowers the version of no service, and raises that of a service it has an event of. -/
def Raises (e : Commit) : Prop :=
  ∀ id r, e.before.service id = some r → ∃ r', e.after.service id = some r' ∧ r.version ≤ r'.version ∧
    ((∃ n ∈ e.tx.events, n.aggregate_id = id) → r.version < r'.version)

/-- The calls of a relay. -/
def OfRelay : Call → Prop
  | .begin | .claim | .next | .commit | .rollback => True
  | .publish _ _ _ => True
  | .exec .tx (.markPublished _) => True
  | _ => False

theorem ofRelay_Run (r : Relay) (fuel ticks : Nat) : (r.Run fuel ticks).Uses OfRelay := by
  refine (obeys_Run r fuel ticks).uses (I := fun st => st ≠ .command) (fun st op hst hmay => ⟨?_, fun a => ?_⟩)
    (by simp)
  · cases st with
    | command => exact absurd rfl hst
    | batch done todo =>
      have hmay : Phase.BatchMay r.subjectPrefix done todo op := hmay
      unfold Phase.BatchMay at hmay
      split at hmay <;> trivial
    | _ => cases op <;> trivial
  · unfold Phase.next
    split <;> first | exact absurd rfl hst | exact hst | simp

section

/-- The commits of the parties so far. -/
structure VersionInv (R : Pid) (db : Tables) (ps : Pid → Option Party) (w : World) : Prop where
  locks : w.LocksOk
  chain : Chain db w.log w.db
  stored : AllStored w.db
  marks : ∀ tx, w.txs R = some tx → ∀ wr ∈ tx.writes, wr.Marks
  commits : ∀ e ∈ w.log, AllStored e.before ∧
    ((∀ c, ps e.pid = some (.command (.mutation c)) → NotAhead c e) → Raises e)

variable {R p : Pid} {db : Tables} {ps : Pid → Option Party} {w w' w₀ : World} {tx : Tx}

theorem VersionInv.congr (h : VersionInv R db ps w) (hlocks : w'.LocksOk) (hdb : w'.db = w.db)
    (hlog : w'.log = w.log) (hmarks : ∀ tx, w'.txs R = some tx → ∀ wr ∈ tx.writes, wr.Marks) :
    VersionInv R db ps w' :=
  ⟨hlocks, hdb ▸ hlog ▸ h.chain, hdb ▸ h.stored, hmarks, hlog ▸ h.commits⟩

theorem VersionInv.keeps (hp : p ≠ R) : Keeps p (VersionInv R db ps) where
  locksOk _ h := h.locks
  loc _ _ h hl := h.congr (hl.locksOk h.locks) hl.db hl.log ((hl.others hp).tx ▸ h.marks)

theorem VersionInv.commit (h : VersionInv R db ps w) (htx : w.txs p = some tx) (hst : AllStored (tx.view w.db))
    (hraise : (∀ c, ps p = some (.command (.mutation c)) → NotAhead c ⟨p, tx, w.db, tx.view w.db⟩) →
      Raises ⟨p, tx, w.db, tx.view w.db⟩) : VersionInv R db ps ((w.commit p tx).endTx p) := by
  refine ⟨World.Effect.locksOk h.locks (.commit htx), h.chain.append ⟨rfl, rfl⟩, hst, ?_, ?_⟩
  · exact fun tx' hR => h.marks tx' (World.txs_endTx (w := w.commit p tx) hR).2
  · intro e he
    rcases List.mem_append.1 he with he | he
    · exact h.commits e he
    · cases List.mem_singleton.1 he
      exact ⟨h.stored, hraise⟩

/-- A relay changes no service and writes no event. -/
theorem VersionInv.commit_relay (h : VersionInv R db ps w) (htx : w.txs R = some tx) :
    VersionInv R db ps ((w.commit R tx).endTx R) := by
  have hserv : (tx.view w.db).services = w.db.services := by
    refine Write.services_foldl (fun wr hwr => ?_) w.db
    have hm := h.marks tx htx wr hwr
    cases wr <;> first | rfl | exact hm.elim
  have hview : ∀ id, (tx.view w.db).service id = w.db.service id := fun id => by
    rw [Tables.service, Tables.service, hserv]
  refine h.commit htx (fun id r hr => h.stored id r ((hview id).symm.trans hr)) fun _ id r hr => ?_
  refine ⟨r, (hview id).trans hr, le_rfl, ?_⟩
  rintro ⟨n, hn, -⟩
  exact (h.marks tx htx _ (Tx.mem_events.1 hn)).elim

theorem VersionInv.call_relay {op : Call} {c : Choice} {a : op.Ans} (h : VersionInv R db ps w) (hop : OfRelay op)
    (hc : World.call R op c w = some (a, w')) : VersionInv R db ps w' := by
  have hl : w'.LocksOk := (World.call_effect hc).locksOk h.locks
  have hput : ∀ {w₁ : World} {tx : Tx} {ks : List Key}, (∀ wr ∈ tx.writes, wr.Marks) →
      ∀ tx', (w₁.put R tx ks).txs R = some tx' → ∀ wr ∈ tx'.writes, wr.Marks := by
    intro w₁ tx ks hm tx' htx'
    cases (Function.update_self ..).symm.trans htx'
    exact hm
  have hend : ∀ {w₁ : World}, ∀ tx', (w₁.endTx R).txs R = some tx' → ∀ wr ∈ tx'.writes, wr.Marks :=
    fun tx' htx' => absurd rfl (World.txs_endTx htx').1
  cases World.call_did hc with
  | begin =>
    refine h.congr hl rfl rfl (hput ?_)
    intro wr hwr
    cases hwr
  | commit htx => exact h.commit_relay htx
  | abort | rollback => exact h.congr hl rfl rfl hend
  | @exec q b ws tx htx hplan _ =>
    refine h.congr hl rfl rfl (hput fun wr hwr => ?_)
    rcases List.mem_append.1 hwr with hold | hnew
    · exact h.marks tx htx wr hold
    · cases q <;> try exact hop.elim
      cases (Stmt.plan_ok hplan).2
      cases List.mem_singleton.1 hnew
      trivial
  | @row tx _ _ _ htx => exact h.congr hl rfl rfl (hput (h.marks tx htx))
  | now | newID | auto => exact hop.elim
  | _ => exact h.congr hl rfl rfl h.marks

variable [UuidLib]

/-- A registration adds a service that was not there. -/
theorem VersionInv.register (h : VersionInv R db ps w) (htx : w.txs p = some tx) {svc : Service} (hnew : svc.New)
    (hd : RegisterDone p w₀ svc w tx) : VersionInv R db ps ((w.commit p tx).endTx p) := by
  obtain ⟨t, u, v, ev, -, -, -, rfl, hid, -⟩ := hd.tx_eq hnew
  have hview : ∀ id, id ≠ svc.id.v →
      (Tx.view ⟨t, registerWrites t svc u [(v, ev)], [], []⟩ w.db).service id = w.db.service id := by
    intro id hne
    rw [Tx.view, foldl_registerWrites]
    exact service_registered_ne hne
  refine h.commit htx ?_ fun _ => ?_
  · intro id r hr
    by_cases hne : id = svc.id.v
    · subst hne
      rw [Tx.view, foldl_registerWrites, service_registered hid] at hr
      cases hr
      exact ⟨svc, rfl⟩
    · exact h.stored id r ((hview id hne).symm.trans hr)
  · intro id r hr
    have hne : id ≠ svc.id.v := by
      rintro rfl
      cases hid.symm.trans hr
    refine ⟨r, (hview id hne).trans hr, le_rfl, ?_⟩
    rintro ⟨n, hn, rfl⟩
    cases List.mem_singleton.1 (show n ∈ [outboxRowOf t svc.id.v (v, ev)] from hn)
    exact absurd rfl hne

theorem VersionInv.mutate (h : VersionInv R db ps w) (htx : w.txs p = some tx) {c : Command} {id : ServiceID}
    {m : Mutation} (hc : ps p = some (.command (.mutation c))) (hparse : c.parse = .ok (id, m))
    {r : ServiceRow} {s s' : Service} {now : Time}
    (hd : MutateDone p w₀ id.v c.ExpectedVersion m w tx r s now s') :
    VersionInv R db ps ((w.commit p tx).endTx p) := by
  obtain ⟨S, hS, hsel⟩ := hd.load
  have hr : Stored r := hS.past (fun e he => (h.commits e he).1) h.stored _ _ hsel
  have hm := hd.mutateTx hr
  obtain ⟨cur, hmc⟩ := MutateDone.mutateCommit hparse hd hr
  refine h.commit htx ?_ fun hahead => ?_
  · intro id' r' hr'
    by_cases hid : id' = id.v
    · subst hid
      cases hmc.after.symm.trans hr'
      exact (h.stored _ _ hmc.current).set s'
    · exact h.stored _ _ ((hm.service_view_ne w.db hid).symm.trans hr')
  · intro id' r' hr'
    by_cases hid : id' = id.v
    · subst hid
      cases hmc.current.symm.trans hr'
      refine ⟨_, hmc.after, ?_⟩
      -- the version that was found is not above the one that was loaded
      have hfound : cur.version ≤ r.version := by
        obtain ⟨r₀, hload, hev⟩ := hahead c hc
        cases hmc.loaded.symm.trans hload
        have hv := hmc.version
        unfold expectedVersionOr at hv
        split at hv <;> omega
      have hload : r.version = s.version := by rw [← hmc.stored, insertRow]
      show cur.version ≤ s'.version ∧ (_ → cur.version < s'.version)
      rcases Mutation.apply_cases hd.applies with rfl | ⟨e, hchanged⟩
      · refine ⟨by omega, ?_⟩
        rintro ⟨n, hn, -⟩
        exact absurd (hr.of_scan hd.loads).2 (hm.of_mem_events hn).2
      · have hv := hchanged.version
        exact ⟨by omega, fun _ => by omega⟩
    · refine ⟨r', (hm.service_view_ne w.db hid).trans hr', le_rfl, ?_⟩
      rintro ⟨n, hn, rfl⟩
      exact absurd (hm.of_mem_events hn).1 hid

theorem VersionInv.safe {c : CatalogCommand} (hp : p ≠ R) (hc : ps p = some (.command c)) (hw : w.txs p = none) :
    Safe p (VersionInv R db ps) (fun _ _ => True) (Party.command c).proc w := by
  cases c with
  | register inp =>
    refine safe_RegisterService (keeps hp) hw (fun _ _ _ _ _ => trivial)
      (fun _ _ _ _ _ _ _ _ _ _ _ _ _ _ => trivial) fun w₀ svc w₁ tx hreg hI _ htx hd => ?_
    obtain ⟨tenantID, name, tier, ownership, id, now, -, rfl, -⟩ := hreg.svc_eq
    exact ⟨hI.register htx Service.new_Register hd, fun _ _ _ => trivial⟩
  | mutation c =>
    show Safe p _ _ (c.run.run >>= fun _ => Proc.ret ()) w
    rw [c.run_eq, M.run_bind_bind, M.run_ofExcept_bind]
    cases hparse : c.parse with
    | error e => exact fun _ _ _ => trivial
    | ok x =>
      exact safe_mutate (keeps hp) hw (fun _ _ _ _ _ _ _ _ _ _ _ => trivial)
        fun w₁ tx r s now s' hI _ htx hd => ⟨hI.mutate htx hc hparse hd, fun _ _ _ => trivial⟩

theorem VersionInv.run {r : Relay} {fuel ticks : Nat} (hR : ps R = some (.relayer r fuel ticks))
    (hps : ∀ p x, p ≠ R → ps p = some x → ∃ c, x = .command c) (hdb : AllStored db)
    {ms : List (Move Pid Choice)} {s : Pool Pid Call Call.Ans Unit World}
    (hrun : (parties db ps).run World.machine ms = some s) : VersionInv R db ps s.world := by
  have hinit : VersionInv R db ps (.init db) := by
    refine ⟨World.init_locksOk db, rfl, hdb, fun tx htx => ?_, fun e he => ?_⟩
    · cases htx
    · cases he
  have hstart : (parties db ps).AllRg World.machine (VersionInv R db ps) Others (fun _ _ => True)
      fun _ _ _ => True := by
    intro p prog hp
    obtain ⟨x, hx, rfl⟩ := Option.map_eq_some_iff.1 hp
    by_cases hpR : p = R
    · subst hpR
      cases hR.symm.trans hx
      exact (ofRelay_Run r fuel ticks).rg (fun op w hop hI => ⟨trivial, fun c a w' hc => hI.call_relay hop hc⟩) _
    · obtain ⟨c, rfl⟩ := hps p x hpR hx
      exact VersionInv.safe hpR hx rfl
  refine (Pool.rg_run (M := World.machine) (R := Others) (fun p w => .refl p w) (fun p _ _ _ h h' => h.trans h')
    (fun p q op c a w w' hpq hI hc => (World.call_effect hc).others hI.locks hpq) (fun p w hI => ?_)
    (fun c w w' hI hc => ?_) hinit hstart hrun).1
  · refine ⟨hI.congr (hI.locks.endTx p) rfl rfl fun tx hR => hI.marks tx (World.txs_endTx hR).2, ?_⟩
    exact fun q hpq => World.crash_others hpq
  · refine ⟨?_, fun q => World.env_others hc q⟩
    exact (keeps (Nat.succ_ne_self R)).loc w w' hI (World.env_local hc (R + 1))

/-! ### The order -/

/-- One relay and any commands, in any interleaving, with publishes and statements failing anywhere and
processes crashing at any point, whose commits are all timely: every message is accepted only after those
of all events of the same service that were committed before. The commits follow one another without a gap,
and each one whose command was not ahead of what it loaded raises the version of the service of its event. -/
theorem published_in_commit_order {r : Relay} {fuel ticks : Nat} (hR : ps R = some (.relayer r fuel ticks))
    (hps : ∀ p x, p ≠ R → ps p = some x → ∃ c, x = .command c) (hdb : AllStored db)
    (hpending : ∀ o ∈ db.outbox, o.published_at = none) (hids : (db.outbox.map (·.id)).Nodup)
    {ms : List (Move Pid Choice)} {s : Pool Pid Call Call.Ans Unit World}
    (hrun : (parties db ps).run World.machine ms = some s) (htimely : ∀ e ∈ s.world.log, Timely e) :
    (∀ e ∈ s.world.log, ∀ o ∈ e.before.outbox, ∀ n ∈ e.tx.events, o.aggregate_id = n.aggregate_id →
      Led (fun x => x.1.id = o.id.String) (fun x => x.1.id = n.id.String) s.world.bus.accepted) ∧
    Chain db s.world.log s.world.db ∧
    ∀ e ∈ s.world.log, (∀ c, ps e.pid = some (.command (.mutation c)) → NotAhead c e) → Raises e := by
  have hI := OrderInv.run hR hps hpending hids hrun
  have hV := VersionInv.run hR hps hdb hrun
  refine ⟨fun e he o ho n hn hagg => ?_, hV.chain, fun e he => (hV.commits e he).2⟩
  exact (hI.order htimely).accepted o.id n.id ⟨e, he, o, ho, n, hn, rfl, rfl, hagg⟩

end

/-! ### Two commands and a relay -/

attribute [local instance] UuidLib.canonical

/-- A deprecation, a change of ownership and a relay. -/
def orderedParties : Pid → Option Party
  | 0 => some (.command (.mutation (.changeLifecycle ⟨UUID.String ⟨1⟩, "deprecated", 0⟩)))
  | 1 => some (.command (.mutation (.changeOwnership ⟨UUID.String ⟨1⟩, "ops", "pager", 0⟩)))
  | 2 => some (.relayer ⟨"forge.events", 10, by decide⟩ 1 1)
  | _ => none

/-- The relay finds two rows, publishes them and marks them. -/
def relayMoves : List (Move Pid Choice) :=
  ([.time 0, .ok, .ok, .ok, .ok, .time 10, .time 20, .ok, .ok] : List Choice).map (.call 2)

theorem published_in_commit_order_sample :
    ∃ s, (parties sampleTables orderedParties).run World.machine
        (loadMoves 1 ++ storeMoves 1 ⟨20⟩ ⟨21⟩ ++ loadMoves 0 ++ storeMoves 0 ⟨30⟩ ⟨31⟩ ++ relayMoves) = some s ∧
      s.world.bus.accepted.map (·.1.id) = [UUID.String ⟨21⟩, UUID.String ⟨31⟩] ∧
      ∀ e ∈ s.world.log, ∀ o ∈ e.before.outbox, ∀ n ∈ e.tx.events, o.aggregate_id = n.aggregate_id →
        Led (fun x => x.1.id = o.id.String) (fun x => x.1.id = n.id.String) s.world.bus.accepted := by
  have h : ((parties sampleTables orderedParties).run World.machine
      (loadMoves 1 ++ storeMoves 1 ⟨20⟩ ⟨21⟩ ++ loadMoves 0 ++ storeMoves 0 ⟨30⟩ ⟨31⟩ ++ relayMoves)).map
        (fun s => (s.world.bus.accepted.map (·.1.id), decide (∀ e ∈ s.world.log, Timely e))) =
      some ([UUID.String ⟨21⟩, UUID.String ⟨31⟩], true) := by decide +kernel
  obtain ⟨s, hs, hobs⟩ := Option.map_eq_some_iff.1 h
  obtain ⟨hacc, htimely⟩ := Prod.mk.inj hobs
  refine ⟨s, hs, hacc, (published_in_commit_order (R := 2) rfl ?_ allStored_sampleTables ?_ ?_ hs
    (of_decide_eq_true htimely)).1⟩
  · intro p x hp hx
    unfold orderedParties at hx
    split at hx
    · exact ⟨_, (Option.some.inj hx).symm⟩
    · exact ⟨_, (Option.some.inj hx).symm⟩
    · exact absurd rfl hp
    · cases hx
  · simp [sampleTables]
  · simp [sampleTables]

/-- The deprecation begins first; the change of ownership begins, commits version 2 and ends; then the
deprecation loads the service and commits version 3. -/
def overtaken : List (Move Pid Choice) :=
  .call 0 (.time 1000) :: .call 1 (.time 2000) :: .call 1 .ok :: .call 1 (.time 5000) :: (storeMoves 1 ⟨20⟩ ⟨21⟩ ++
    .call 0 .ok :: .call 0 (.time 6000) :: storeMoves 0 ⟨30⟩ ⟨31⟩)

/-- Its event is published first all the same. -/
theorem published_out_of_order :
    ∃ s, (parties sampleTables orderedParties).run World.machine (overtaken ++ relayMoves) = some s ∧
      s.world.log.map (versionsOf ⟨1⟩) =
        [⟨1, [1], some 1, some 2⟩, ⟨0, [2], some 2, some 3⟩, ⟨2, [], some 3, some 3⟩] ∧
      s.world.bus.accepted.map (·.1.id) = [UUID.String ⟨31⟩, UUID.String ⟨21⟩] ∧
      ¬ ∀ e ∈ s.world.log, ∀ o ∈ e.before.outbox, ∀ n ∈ e.tx.events, o.aggregate_id = n.aggregate_id →
        Led (fun x => x.1.id = o.id.String) (fun x => x.1.id = n.id.String) s.world.bus.accepted := by
  have h : ((parties sampleTables orderedParties).run World.machine (overtaken ++ relayMoves)).map
      (fun s => (s.world.log.map (versionsOf ⟨1⟩), s.world.bus.accepted.map (·.1.id),
        s.world.log.any fun e => e.before.outbox.any fun o => e.tx.events.any fun n =>
          o.aggregate_id = n.aggregate_id ∧ o.id = ⟨21⟩ ∧ n.id = ⟨31⟩)) =
      some ([⟨1, [1], some 1, some 2⟩, ⟨0, [2], some 2, some 3⟩, ⟨2, [], some 3, some 3⟩],
        [UUID.String ⟨31⟩, UUID.String ⟨21⟩], true) := by decide +kernel
  obtain ⟨s, hs, hobs⟩ := Option.map_eq_some_iff.1 h
  simp only [Prod.mk.injEq, List.any_eq_true, decide_eq_true_eq] at hobs
  obtain ⟨hlog, hacc, e, he, o, ho, n, hn, hagg, hoid, hnid⟩ := hobs
  refine ⟨s, hs, hlog, hacc, fun hled => ?_⟩
  obtain ⟨x, xs, hx, hid, -⟩ := List.map_eq_cons_iff.1 hacc
  obtain ⟨y, hy, -⟩ := hled e he o ho n hn hagg [] x xs hx (hid.trans (by rw [hnid]))
  cases hy

end relay

end Forge
