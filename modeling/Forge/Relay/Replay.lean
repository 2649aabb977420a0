import Forge.Catalog.OutboxLog
import Forge.Relay.Order

/-!
# The outbox of concurrent commands

Any commands and any relays run at once. As long as no mutation that commits has named a version ahead of the
one it had loaded, every commit is one of two things (`Logged`): it changes no service and adds no event, or it
makes one change of one service and adds the event of just that change. So at every moment the outbox rows of a
service replay to its row, as they do when commands run one after another (`outbox_replays`).
-/

namespace Forge

open Catalog

namespace Catalog

/-! ### Logs of one service -/

section
variable {f : OutboxRow → OutboxRow}

theorem walkLifecycle_remarked (hf : ∀ o, Remarked o (f o)) (l : GoString) (os : List OutboxRow) :
    walkLifecycle l (os.map f) = walkLifecycle l os := by
  induction os generalizing l with
  | nil => rfl
  | cons o os ih =>
    obtain ⟨m, hm, -⟩ := hf o
    simp only [List.map_cons, walkLifecycle, hm, ih]

theorem walkTeam_remarked (hf : ∀ o, Remarked o (f o)) (team : GoString) (os : List OutboxRow) :
    walkTeam team (os.map f) = walkTeam team os := by
  induction os generalizing team with
  | nil => rfl
  | cons o os ih =>
    obtain ⟨m, hm, -⟩ := hf o
    simp only [List.map_cons, walkTeam, hm, ih]

/-- Marks say nothing about the service. -/
theorem FaithfulLog.remarked (hf : ∀ o, Remarked o (f o)) {owners : List (Timestamptz × GoString × GoString)}
    {x : Record} (h : FaithfulLog owners x) (hs : List HistoryRow) :
    FaithfulLog owners ⟨x.row, hs, x.outbox.map f⟩ where
  count := by
    rw [List.length_map]
    exact h.count
  typed o ho := by
    obtain ⟨o₀, ho₀, rfl⟩ := List.mem_map.1 ho
    obtain ⟨m, hm, -⟩ := hf o₀
    rw [hm]
    exact h.typed o₀ ho₀
  first := by
    obtain ⟨o, os, hos, ho, hne⟩ := h.first
    refine ⟨f o, os.map f, by rw [hos]; rfl, ?_, fun o' ho' => ?_⟩
    · obtain ⟨m, hm, -⟩ := hf o
      rw [hm]
      exact ho
    · obtain ⟨o₀, ho₀, rfl⟩ := List.mem_map.1 ho'
      obtain ⟨m, hm, -⟩ := hf o₀
      rw [hm]
      exact hne o₀ ho₀
  lifecycle := by
    rw [walkLifecycle_remarked hf]
    exact h.lifecycle
  team := by
    obtain ⟨from_, team, onCall, rest, ho, hwalk⟩ := h.team
    refine ⟨from_, team, onCall, rest, ho, ?_⟩
    rw [walkTeam_remarked hf]
    exact hwalk

end

/-- One event of the service `id` and the rows before and after it. -/
inductive RowStep (id : UUID) : Option ServiceRow → OutboxRow → ServiceRow → Prop
  | registered {T : TenantID} {N : ServiceName} {d repository : GoString} {tier : Tier} {o : Ownership} {now : Time}
      {begun : Timestamptz} {v : UUID} :
      RowStep id none
        (outboxRowOf begun id (v, .ServiceRegistered (ServiceID.String ⟨id⟩) now T.String N.v tier.v))
        (insertRow (Register ⟨id⟩ T N d tier repository o now))
  | changed {s s' : Service} {now : Time} {e : Event} {begun : Timestamptz} {v : UUID} (hch : s.Changed s' now e)
      (hid : s.id = ⟨id⟩) : RowStep id (some (insertRow s)) (outboxRowOf begun id (v, e)) (insertRow s')

section
variable {id : UUID} {o : OutboxRow} {r r' : ServiceRow} {old : Option ServiceRow}

theorem RowStep.aggregate_id (h : RowStep id old o r) : o.aggregate_id = id := by
  cases h <;> rfl

theorem RowStep.addressed (h : RowStep id old o r) : o.payload.AggregateID = id.String := by
  cases h with
  | registered => rfl
  | changed hch hid => exact hch.aggregateID.trans (by rw [hid]; rfl)

theorem RowStep.version (h : RowStep id (some r') o r) : r.version = r'.version + 1 := by
  cases h with
  | changed hch _ => exact hch.version

theorem RowStep.stored (h : RowStep id old o r) : Stored r := by
  cases h <;> exact ⟨_, rfl⟩

/-- The log of a service that is registered. -/
theorem RowStep.faithfulLog_first (h : RowStep id none o r) (hs : List HistoryRow) :
    ∃ owners, FaithfulLog owners ⟨r, hs, [o]⟩ := by
  cases h with
  | @registered T N d repository tier own now begun v =>
    refine ⟨[(pgTime now, own.OwningTeam, own.OnCallRef)], rfl, fun o ho => ?_, ⟨_, [], rfl, rfl, ?_⟩, rfl,
      ⟨_, _, _, [], rfl, rfl⟩⟩
    · rw [List.mem_singleton.1 ho]
      rfl
    · intro o' ho'
      cases ho'

theorem RowStep.faithfulLog_next {x : Record} (h : RowStep id (some x.row) o r) (hs : List HistoryRow)
    (hx : ∃ owners, FaithfulLog owners x) : ∃ owners, FaithfulLog owners ⟨r, hs, x.outbox ++ [o]⟩ := by
  obtain ⟨owners, hx⟩ := hx
  obtain ⟨row, history, outbox⟩ := x
  cases h with
  | changed hch _ => exact ⟨owners ++ [], hx.changed rfl hch⟩

end

/-! ### Logs of all services -/

/-- The outbox tells how every row came about, and has events of nothing else. -/
structure Told (t : Tables) : Prop where
  known : ∀ o ∈ t.outbox, t.service o.aggregate_id ≠ none
  addressed : ∀ o ∈ t.outbox, o.payload.AggregateID = o.aggregate_id.String
  log : ∀ id x, t.record id = some x → ∃ owners, FaithfulLog owners x

theorem told_empty : Told .empty := by
  refine ⟨fun o ho => ?_, fun o ho => ?_, fun id x hx => ?_⟩
  · cases ho
  · cases ho
  · cases hx

/-- What a commit makes of the services and their events. -/
inductive Logged (e : Commit) : Prop
  | silent (f : OutboxRow → OutboxRow) (hf : ∀ o, Remarked o (f o))
      (hs : ∀ id, e.after.service id = e.before.service id) (ho : e.after.outbox = e.before.outbox.map f)
      (hev : e.tx.events = [])
  | told {id : UUID} {o : OutboxRow} {r : ServiceRow} (hstep : RowStep id (e.before.service id) o r)
      (hr : e.after.service id = some r) (hs : ∀ id' ≠ id, e.after.service id' = e.before.service id')
      (ho : e.after.outbox = e.before.outbox ++ [o]) (hev : e.tx.events = [o])

section
variable {e : Commit}

theorem Logged.newer (h : Logged e) : Newer e.before e.after := by
  intro id r hr
  cases h with
  | silent f hf hs ho hev => exact ⟨r, (hs id).trans hr, .inr rfl⟩
  | @told id' o r' hstep hr' hs ho hev =>
    by_cases hid : id = id'
    · subst hid
      rw [hr] at hstep
      exact ⟨r', hr', .inl (by rw [hstep.version]; omega)⟩
    · exact ⟨r, (hs id hid).trans hr, .inr rfl⟩

theorem Logged.stored (h : Logged e) (hb : AllStored e.before) : AllStored e.after := by
  intro id r hr
  cases h with
  | silent f hf hs ho hev => exact hb id r ((hs id).symm.trans hr)
  | @told id' o r' hstep hr' hs ho hev =>
    by_cases hid : id = id'
    · subst hid
      cases hr.symm.trans hr'
      exact hstep.stored
    · exact hb id r ((hs id hid).symm.trans hr)

/-- The events of a service after a commit that only marks. -/
theorem outboxOf_remarked {f : OutboxRow → OutboxRow} (hf : ∀ o, Remarked o (f o)) {t t' : Tables}
    (h : t'.outbox = t.outbox.map f) (id : UUID) : t'.outboxOf id = (t.outboxOf id).map f := by
  unfold Tables.outboxOf
  rw [h, List.filter_map]
  congr 1
  refine List.filter_congr fun o _ => ?_
  obtain ⟨m, hm, -⟩ := hf o
  simp only [Function.comp_apply, hm]

theorem outboxOf_concat {t t' : Tables} {o : OutboxRow} (h : t'.outbox = t.outbox ++ [o]) (id : UUID) :
    t'.outboxOf id = if o.aggregate_id = id then t.outboxOf id ++ [o] else t.outboxOf id := by
  unfold Tables.outboxOf
  rw [h, List.filter_append]
  split
  · next hid => rw [List.filter_cons_of_pos (by simpa using hid), List.filter_nil]
  · next hid => rw [List.filter_cons_of_neg (by simpa using hid), List.filter_nil, List.append_nil]

theorem Told.outboxOf_eq_nil {t : Tables} (h : Told t) {id : UUID} (hid : t.service id = none) : t.outboxOf id = [] :=
  List.filter_eq_nil_iff.2 fun o ho he => h.known o ho (of_decide_eq_true he ▸ hid)

/-- Marks leave the logs as they are. -/
theorem Told.remarked {t t' : Tables} (h : Told t) {f : OutboxRow → OutboxRow} (hf : ∀ o, Remarked o (f o))
    (hs : ∀ id, t'.service id = t.service id) (ho : t'.outbox = t.outbox.map f) : Told t' := by
  refine ⟨fun o hm => ?_, fun o hm => ?_, fun id x hx => ?_⟩
  · obtain ⟨o₀, hm₀, rfl⟩ := List.mem_map.1 (ho ▸ hm)
    obtain ⟨m, hfo, -⟩ := hf o₀
    rw [hs, hfo]
    exact h.known o₀ hm₀
  · obtain ⟨o₀, hm₀, rfl⟩ := List.mem_map.1 (ho ▸ hm)
    obtain ⟨m, hfo, -⟩ := hf o₀
    rw [hfo]
    exact h.addressed o₀ hm₀
  · obtain ⟨hrow, hhist, hout⟩ := Tables.record_eq_some.1 hx
    obtain ⟨owners, hlog⟩ := h.log id ⟨x.row, t.historyOf id, t.outboxOf id⟩
      (Tables.record_eq_some.2 ⟨(hs id).symm.trans hrow, rfl, rfl⟩)
    have hmarked := hlog.remarked hf x.history
    rw [← outboxOf_remarked hf ho, hout] at hmarked
    exact ⟨owners, hmarked⟩

/-- The log of the service that the event is about. -/
theorem RowStep.faithfulLog {t : Tables} {id : UUID} {o : OutboxRow} {r : ServiceRow}
    (h : RowStep id (t.service id) o r) (ht : Told t) (hs : List HistoryRow) :
    ∃ owners, FaithfulLog owners ⟨r, hs, t.outboxOf id ++ [o]⟩ := by
  cases hold : t.service id with
  | none =>
    rw [hold] at h
    rw [ht.outboxOf_eq_nil hold]
    exact h.faithfulLog_first hs
  | some r₀ =>
    rw [hold] at h
    have hrec : t.record id = some ⟨r₀, t.historyOf id, t.outboxOf id⟩ := Tables.record_eq_some.2 ⟨hold, rfl, rfl⟩
    exact RowStep.faithfulLog_next (x := ⟨r₀, t.historyOf id, t.outboxOf id⟩) h hs (ht.log id _ hrec)

/-- The log of a service goes on with each commit. -/
theorem Logged.told_after (h : Logged e) (hb : Told e.before) : Told e.after := by
  cases h with
  | silent f hf hs ho hev => exact hb.remarked hf hs ho
  | @told id o r hstep hr hs ho hev =>
    have hagg := hstep.aggregate_id
    refine ⟨fun o' hm => ?_, fun o' hm => ?_, fun id' x hx => ?_⟩
    · by_cases hid : o'.aggregate_id = id
      · rw [hid, hr]
        exact Option.some_ne_none r
      · rw [hs _ hid]
        rcases List.mem_append.1 (ho ▸ hm) with hm | hm
        · exact hb.known o' hm
        · exact absurd (List.mem_singleton.1 hm ▸ hagg) hid
    · rcases List.mem_append.1 (ho ▸ hm) with hm | hm
      · exact hb.addressed o' hm
      · rw [List.mem_singleton.1 hm, hagg]
        exact hstep.addressed
    · obtain ⟨row, history, outbox⟩ := x
      obtain ⟨hrow, hhist, hout⟩ := Tables.record_eq_some.1 hx
      rw [outboxOf_concat ho id'] at hout
      by_cases hid : id' = id
      · subst hid
        rw [if_pos hagg] at hout
        subst hout
        cases hr.symm.trans hrow
        exact hstep.faithfulLog hb history
      · rw [if_neg fun h => hid (h.symm.trans hagg)] at hout
        obtain ⟨owners, hlog⟩ := hb.log id' ⟨row, e.before.historyOf id', outbox⟩
          (Tables.record_eq_some.2 ⟨(hs id' hid).symm.trans hrow, rfl, hout⟩)
        exact ⟨owners, ⟨hlog.count, hlog.typed, hlog.first, hlog.lifecycle, hlog.team⟩⟩

/-- Every state between two commits is told. -/
theorem told_of_chain {t t' : Tables} {l : List Commit} (h : Chain t l t') (hl : ∀ e ∈ l, Logged e) (ht : Told t) :
    Told t' ∧ ∀ e ∈ l, Told e.after := by
  induction l generalizing t with
  | nil =>
    refine ⟨(show t' = t from h) ▸ ht, fun e he => ?_⟩
    cases he
  | cons e l ih =>
    obtain ⟨hbefore, hrest⟩ := h
    obtain ⟨hfirst, hl⟩ := List.forall_mem_cons.1 hl
    have hafter := hfirst.told_after (hbefore ▸ ht)
    obtain ⟨hlast, hall⟩ := ih hrest hl hafter
    exact ⟨hlast, List.forall_mem_cons.2 ⟨hafter, hall⟩⟩

end

/-! ### Commits of mutating commands -/

section
variable {p : Pid} {id : UUID} {ev : Int} {w : World} {tx : Tx} {r : ServiceRow} {s s' : Service}

/-- A mutation writes the events it has recorded, and marks none. -/
theorem MutateTx.events_eq (h : MutateTx p id ev w tx r s s') :
    (∀ wr ∈ tx.writes, ¬ wr.Marks) ∧ ∃ vs : List (UUID × Event), vs.map Prod.snd = s'.events ∧
      tx.events = vs.map (outboxRowOf tx.begun id) := by
  obtain ⟨S₃, S₄, u, vs, ws, -, -, -, hvs, hplan, hws⟩ := h.writes
  have hopen : (∀ wr ∈ ws, ¬ wr.Marks) ∧ ws.filterMap Write.event? = [] := by
    rcases plan_openStmt hplan with ⟨-, rfl⟩ | ⟨-, -, rfl⟩ <;> simp [Write.Marks, Write.event?]
  have hins : (vs.map fun v => Write.insertOutbox (outboxRowOf tx.begun id v)).filterMap Write.event? =
      vs.map (outboxRowOf tx.begun id) := by
    rw [List.filterMap_map, ← List.filterMap_eq_map]
    rfl
  refine ⟨fun wr hwr => ?_, vs, hvs, ?_⟩
  · rw [hws] at hwr
    rcases List.mem_cons.1 hwr with rfl | hwr
    · exact fun h => h
    rcases List.mem_cons.1 hwr with rfl | hwr
    · exact fun h => h
    rcases List.mem_append.1 hwr with hwr | hwr
    · exact hopen.1 wr hwr
    · obtain ⟨v, -, rfl⟩ := List.mem_map.1 hwr
      exact fun h => h
  · rw [Tx.events, hws, List.filterMap_cons_none rfl, List.filterMap_cons_none rfl, List.filterMap_append, hopen.2,
      hins, List.nil_append]

/-- A row that has the expected version is the one that was loaded, if rows only get newer and the command was not
ahead. -/
theorem eq_of_newer {S : Snap} {cur : ServiceRow} (hS : Follows p [] S w.snap) (hr : S.db.service id = some r)
    (hcur : w.db.service id = some cur) (hv : cur.version = expectedVersionOr ev r.version)
    (hev : ev ≤ 0 ∨ ev ≤ r.version) (hnew : ∀ e ∈ w.log, Newer e.before e.after) : cur = r := by
  obtain ⟨l, hl, hc, -⟩ := hS.log
  have hnewer : Newer S.db w.db := .chain hc fun e he =>
    hnew e (show e ∈ w.snap.log from hl ▸ List.mem_append_right _ he)
  obtain ⟨cur', hcur', hlt⟩ := hnewer id r hr
  cases hcur.symm.trans hcur'
  rcases hlt with hlt | rfl
  · unfold expectedVersionOr at hv
    split at hv <;> omega
  · rfl

end

section
variable [UuidLib] {p : Pid} {w w₀ : World} {tx : Tx}

theorem MutateDone.logged {c : Command} {id : ServiceID} {m : Mutation} (hparse : c.parse = .ok (id, m))
    {r : ServiceRow} {s s' : Service} {now : Time}
    (hd : MutateDone p w₀ id.v c.ExpectedVersion m w tx r s now s') (hr : Stored r)
    (hahead : NotAhead c ⟨p, tx, w.db, tx.view w.db⟩) (hnew : ∀ e ∈ w.log, Newer e.before e.after) :
    Logged ⟨p, tx, w.db, tx.view w.db⟩ := by
  obtain ⟨S, hS, hsel⟩ := hd.load
  have hm := hd.mutateTx hr
  obtain ⟨cur, hmc⟩ := MutateDone.mutateCommit hparse hd hr
  obtain ⟨hrow, hnil⟩ := hr.of_scan hd.loads
  obtain ⟨hmarks, vs, hvs, hev⟩ := hm.events_eq
  have hout := tx.outbox_view hmarks w.db
  -- the row that is replaced is the one that was loaded
  obtain rfl : cur = r := by
    obtain ⟨r', hload, hle⟩ := hahead
    cases hmc.loaded.symm.trans hload
    exact eq_of_newer hS hsel hmc.current hmc.version hle hnew
  rcases Mutation.apply_cases hd.applies with rfl | ⟨e, hch⟩
  · have hnone : tx.events = [] := by
      rw [hev, List.map_eq_nil_iff, ← List.map_eq_nil_iff (f := Prod.snd), hvs, hnil]
    have hsame : (tx.view w.db).outbox = w.db.outbox.map fun o => o := by
      rw [hout, hnone, List.append_nil, List.map_id']
    refine .silent (fun o => o) (fun o => ⟨o.published_at, rfl, fun h => h⟩) (fun id' => ?_) hsame hnone
    by_cases hid : id' = id.v
    · subst hid
      rw [hmc.after, hmc.current, ← hrow, insertRow_set]
    · exact hmc.others id' hid
  · obtain ⟨⟨v, e'⟩, rfl⟩ : ∃ ve, vs = [ve] := by
      have hlen := congrArg List.length hvs
      rw [List.length_map, hch.events, hnil] at hlen
      exact List.length_eq_one_iff.1 hlen
    obtain rfl : e' = e := by
      rw [hch.events, hnil] at hvs
      exact (List.cons.inj hvs).1
    rw [hev] at hout
    refine @Logged.told _ id.v _ (insertRow s') ?_ ?_ hmc.others hout hev
    · rw [show (⟨p, tx, w.db, tx.view w.db⟩ : Commit).before.service id.v = some (insertRow s) from
        hrow ▸ hmc.current]
      refine .changed hch ?_
      have hid := Tables.id_of_service hsel
      rw [← hrow] at hid
      exact congrArg ServiceID.mk hid
    · rw [hmc.after, ← hrow, hch.set]

omit [UuidLib] in
theorem RegisterDone.logged {svc : Service} (hsvc : ∃ T N d tier repository o now,
      svc = Register svc.id T N d tier repository o now) (hd : RegisterDone p w₀ svc w tx) :
    Logged ⟨p, tx, w.db, tx.view w.db⟩ := by
  obtain ⟨T, N, d, tier, repository, o, now, hsvc⟩ := hsvc
  obtain ⟨begun, u, vs, hvs, -, -, hran⟩ := hd.ran
  have hev : svc.events = [.ServiceRegistered svc.id.String now T.String N.v tier.v] := by rw [hsvc]; rfl
  obtain ⟨⟨v, e⟩, rfl⟩ : ∃ ve, vs = [ve] := by
    have hlen := congrArg List.length hvs
    rw [List.length_map, hev] at hlen
    exact List.length_eq_one_iff.1 hlen
  rw [hev] at hvs
  obtain rfl : e = .ServiceRegistered svc.id.String now T.String N.v tier.v := (List.cons.inj hvs).1
  obtain ⟨S₃, -, -, hid, -, rfl⟩ := ran_registerScript (by simp [Event.AggregateID]) hran
  have hview : (Tx.view ⟨begun, registerWrites begun svc u [(v, .ServiceRegistered svc.id.String now T.String N.v
      tier.v)], [], []⟩ w.db) = _ := foldl_registerWrites
  refine @Logged.told _ svc.id.v _ (insertRow svc) ?_ ?_ (fun id' hne => ?_) (by rw [hview]; rfl) rfl
  · rw [show (w.db.service svc.id.v) = none from hid]
    rw [hsvc]
    exact .registered
  · rw [hview]
    exact service_registered hid
  · rw [hview]
    exact service_registered_ne hne

end

end Catalog

namespace relay

/-! ### Runs -/

/-- No mutation among the commits named a version ahead of the one it had loaded. -/
def NoneAhead (ps : Pid → Option Party) (log : List Commit) : Prop :=
  ∀ e ∈ log, ∀ c, ps e.pid = some (.command (.mutation c)) → NotAhead c e

/-- The commits of the parties so far. -/
structure LogInv (db : Tables) (ps : Pid → Option Party) (w : World) : Prop where
  locks : w.LocksOk
  chain : Chain db w.log w.db
  stored : AllStored w.db
  past : ∀ e ∈ w.log, AllStored e.before
  marks : ∀ p r fuel ticks, ps p = some (.relayer r fuel ticks) → ∀ tx, w.txs p = some tx → ∀ wr ∈ tx.writes, wr.Marks
  logged : NoneAhead ps w.log → ∀ e ∈ w.log, Logged e

variable {db : Tables} {ps : Pid → Option Party} {p : Pid} {w w' w₀ : World} {tx : Tx} {r : Relay} {fuel ticks : Nat}

theorem LogInv.congr (h : LogInv db ps w) (hlocks : w'.LocksOk) (hdb : w'.db = w.db) (hlog : w'.log = w.log)
    (hmarks : ∀ p r fuel ticks, ps p = some (.relayer r fuel ticks) → ∀ tx, w'.txs p = some tx →
      ∀ wr ∈ tx.writes, wr.Marks) : LogInv db ps w' :=
  ⟨hlocks, hdb ▸ hlog ▸ h.chain, hdb ▸ h.stored, hlog ▸ h.past, hmarks, hlog ▸ h.logged⟩

theorem LogInv.keeps {c : CatalogCommand} (hp : ps p = some (.command c)) : Keeps p (LogInv db ps) where
  locksOk _ h := h.locks
  loc w w' h hl := by
    refine h.congr (hl.locksOk h.locks) hl.db hl.log fun q r fuel ticks hq => ?_
    have hne : p ≠ q := by
      rintro rfl
      cases hp.symm.trans hq
    exact (hl.others hne).tx ▸ h.marks q r fuel ticks hq

theorem LogInv.commit (h : LogInv db ps w) (htx : w.txs p = some tx) (hst : AllStored (tx.view w.db))
    (hlogged : (∀ c, ps p = some (.command (.mutation c)) → NotAhead c ⟨p, tx, w.db, tx.view w.db⟩) →
      (∀ e ∈ w.log, Newer e.before e.after) → Logged ⟨p, tx, w.db, tx.view w.db⟩) :
    LogInv db ps ((w.commit p tx).endTx p) := by
  refine ⟨World.Effect.locksOk h.locks (.commit htx), h.chain.append ⟨rfl, rfl⟩, hst, fun e he => ?_, ?_, ?_⟩
  · rcases List.mem_append.1 he with he | he
    · exact h.past e he
    · cases List.mem_singleton.1 he
      exact h.stored
  · exact fun q r fuel ticks hq tx' htx' => h.marks q r fuel ticks hq tx' (World.txs_endTx (w := w.commit p tx) htx').2
  · intro hahead e he
    have hold := h.logged fun e he => hahead e (List.mem_append_left _ he)
    rcases List.mem_append.1 he with he' | he'
    · exact hold e he'
    · have hlast := hahead e he
      cases List.mem_singleton.1 he'
      exact hlogged hlast fun e he => (hold e he).newer

/-- A relay marks events. -/
theorem LogInv.commit_relay (hp : ps p = some (.relayer r fuel ticks)) (h : LogInv db ps w) (htx : w.txs p = some tx) :
    LogInv db ps ((w.commit p tx).endTx p) := by
  have hm := h.marks p r fuel ticks hp tx htx
  have hserv : (tx.view w.db).services = w.db.services := by
    refine Write.services_foldl (fun wr hwr => ?_) w.db
    have hmark := hm wr hwr
    cases wr <;> first | rfl | exact hmark.elim
  have hview : ∀ id, (tx.view w.db).service id = w.db.service id := fun id => by
    rw [Tables.service, Tables.service, hserv]
  obtain ⟨f, hout, hf⟩ := tx.outbox_view_marks hm w.db
  have hnone : tx.events = [] := List.eq_nil_iff_forall_not_mem.2 fun n hn => (hm _ (Tx.mem_events.1 hn)).elim
  have hlogged : Logged ⟨p, tx, w.db, tx.view w.db⟩ := .silent f hf hview hout hnone
  exact h.commit htx (hlogged.stored h.stored) fun _ _ => hlogged

theorem LogInv.call_relay (hp : ps p = some (.relayer r fuel ticks)) {op : Call} {c : Choice} {a : op.Ans}
    (h : LogInv db ps w) (hop : OfRelay op) (hc : World.call p op c w = some (a, w')) : LogInv db ps w' := by
  have hl : w'.LocksOk := (World.call_effect hc).locksOk h.locks
  have hm := h.marks p r fuel ticks hp
  -- what changes is at most the transaction of `p`
  have hown : w'.db = w.db → w'.log = w.log → (∀ tx, w'.txs p = some tx → ∀ wr ∈ tx.writes, wr.Marks) →
      LogInv db ps w' := by
    refine fun hdb hlog hmarks => h.congr hl hdb hlog fun q r fuel ticks hq => ?_
    by_cases hpq : p = q
    · exact hpq ▸ hmarks
    · exact ((World.call_effect hc).others h.locks hpq).tx ▸ h.marks q r fuel ticks hq
  have hput : ∀ {w₁ : World} {tx : Tx} {ks : List Key}, (∀ wr ∈ tx.writes, wr.Marks) →
      ∀ tx', (w₁.put p tx ks).txs p = some tx' → ∀ wr ∈ tx'.writes, wr.Marks := by
    intro w₁ tx ks hm tx' htx'
    cases (Function.update_self ..).symm.trans htx'
    exact hm
  have hend : ∀ {w₁ : World}, ∀ tx', (w₁.endTx p).txs p = some tx' → ∀ wr ∈ tx'.writes, wr.Marks :=
    fun tx' htx' => absurd rfl (World.txs_endTx htx').1
  cases World.call_did hc with
  | begin =>
    refine hown rfl rfl (hput fun wr hwr => ?_)
    cases hwr
  | commit htx => exact h.commit_relay hp htx
  | abort | rollback => exact hown rfl rfl hend
  | @exec q b ws tx htx hplan _ =>
    refine hown rfl rfl (hput fun wr hwr => ?_)
    rcases List.mem_append.1 hwr with hold | hnew
    · exact hm tx htx wr hold
    · cases q <;> try exact hop.elim
      cases (Stmt.plan_ok hplan).2
      cases List.mem_singleton.1 hnew
      trivial
  | @row tx _ _ _ htx => exact hown rfl rfl (hput (hm tx htx))
  | now | newID | auto => exact hop.elim
  | _ => exact hown rfl rfl hm

section
variable [UuidLib]

omit [UuidLib] in
theorem LogInv.register (h : LogInv db ps w) (htx : w.txs p = some tx) {svc : Service}
    (hsvc : ∃ T N d tier repository o now, svc = Register svc.id T N d tier repository o now)
    (hd : RegisterDone p w₀ svc w tx) : LogInv db ps ((w.commit p tx).endTx p) := by
  have hlogged := hd.logged hsvc
  exact h.commit htx (hlogged.stored h.stored) fun _ _ => hlogged

theorem LogInv.mutate (h : LogInv db ps w) (htx : w.txs p = some tx) {c : Command} {id : ServiceID} {m : Mutation}
    (hc : ps p = some (.command (.mutation c))) (hparse : c.parse = .ok (id, m)) {r : ServiceRow} {s s' : Service}
    {now : Time} (hd : MutateDone p w₀ id.v c.ExpectedVersion m w tx r s now s') :
    LogInv db ps ((w.commit p tx).endTx p) := by
  obtain ⟨S, hS, hsel⟩ := hd.load
  have hr : Stored r := hS.past h.past h.stored _ _ hsel
  refine h.commit htx (fun id' r' hr' => ?_) fun hahead hnew => hd.logged hparse hr (hahead c hc) hnew
  obtain ⟨cur, hmc⟩ := MutateDone.mutateCommit hparse hd hr
  by_cases hid : id' = id.v
  · subst hid
    cases hmc.after.symm.trans hr'
    exact (h.stored _ _ hmc.current).set s'
  · exact h.stored _ _ ((hmc.others id' hid).symm.trans hr')

theorem LogInv.safe {c : CatalogCommand} (hc : ps p = some (.command c)) (hw : w.txs p = none) :
    Safe p (LogInv db ps) (fun _ _ => True) (Party.command c).proc w := by
  cases c with
  | register inp =>
    refine safe_RegisterService (keeps hc) hw (fun _ _ _ _ _ => trivial)
      (fun _ _ _ _ _ _ _ _ _ _ _ _ _ _ => trivial) fun w₀ svc w₁ tx hreg hI _ htx hd => ?_
    obtain ⟨T, N, tier, o, id, now, -, rfl, -⟩ := hreg.svc_eq
    exact ⟨hI.register htx ⟨_, _, _, _, _, _, _, rfl⟩ hd, fun _ _ _ => trivial⟩
  | mutation c =>
    show Safe p _ _ (c.run.run >>= fun _ => Proc.ret ()) w
    rw [c.run_eq, M.run_bind_bind, M.run_ofExcept_bind]
    cases hparse : c.parse with
    | error e => exact fun _ _ _ => trivial
    | ok x =>
      exact safe_mutate (keeps hc) hw (fun _ _ _ _ _ _ _ _ _ _ _ => trivial)
        fun w₁ tx r s now s' hI _ htx hd => ⟨hI.mutate htx hc hparse hd, fun _ _ _ => trivial⟩

theorem LogInv.run (hdb : AllStored db) {ms : List (Move Pid Choice)} {s : Pool Pid Call Call.Ans Unit World}
    (hrun : (parties db ps).run World.machine ms = some s) : LogInv db ps s.world := by
  have hinit : LogInv db ps (.init db) := by
    refine ⟨World.init_locksOk db, rfl, hdb, fun e he => ?_, fun p r fuel ticks _ tx htx => ?_, fun _ e he => ?_⟩
    · cases he
    · cases htx
    · cases he
  have hstart : (parties db ps).AllRg World.machine (LogInv db ps) Others (fun _ _ => True) fun _ _ _ => True := by
    intro p prog hp
    obtain ⟨x, hx, rfl⟩ := Option.map_eq_some_iff.1 hp
    cases x with
    | relayer r fuel ticks =>
      exact (ofRelay_Run r fuel ticks).rg
        (fun op w hop hI => ⟨trivial, fun c a w' hc => hI.call_relay hx hop hc⟩) _
    | command c => exact LogInv.safe hx rfl
  refine (Pool.rg_run (M := World.machine) (R := Others) (fun p w => .refl p w) (fun p _ _ _ h h' => h.trans h')
    (fun p q op c a w w' hpq hI hc => (World.call_effect hc).others hI.locks hpq) (fun p w hI => ?_)
    (fun c w w' hI hc => ?_) hinit hstart hrun).1
  · refine ⟨hI.congr (hI.locks.endTx p) rfl rfl fun q r fuel ticks hq tx htx => ?_, fun q hpq => World.crash_others hpq⟩
    exact hI.marks q r fuel ticks hq tx (World.txs_endTx htx).2
  · refine ⟨?_, fun q => World.env_others hc q⟩
    have hl := World.env_local hc 0
    refine hI.congr (hl.locksOk hI.locks) hl.db hl.log fun q r fuel ticks hq => ?_
    rw [(World.env_others hc q).tx]
    exact hI.marks q r fuel ticks hq

/-- Any commands and any relays in any interleaving, over a database that is empty or whose outbox replays already,
with statements and publishes failing anywhere and processes crashing at any point, no mutation that committed
having been ahead of what it had loaded: in every committed state the outbox rows of each service replay to its row,
and there are no others. -/
theorem outbox_replays (hdb : AllStored db) (htold : Told db) {ms : List (Move Pid Choice)}
    {s : Pool Pid Call Call.Ans Unit World} (hrun : (parties db ps).run World.machine ms = some s)
    (hahead : NoneAhead ps s.world.log) :
    Told s.world.db ∧ ∀ e ∈ s.world.log, Told e.after := by
  have hI := LogInv.run hdb hrun
  exact told_of_chain hI.chain (hI.logged hahead) htold

end

/-! ### A run -/

attribute [local instance] UuidLib.canonical

/-- A registration, a deprecation and a change of ownership of the service, and a relay. -/
def replayParties : Pid → Option Party
  | 0 => some (.command (.register ⟨UUID.String ⟨2⟩, "api", [], 1, [], "core", []⟩))
  | 1 => some (.command (.mutation (.changeLifecycle ⟨UUID.String ⟨1⟩, "deprecated", 0⟩)))
  | 2 => some (.command (.mutation (.changeOwnership ⟨UUID.String ⟨1⟩, "ops", "pager", 1⟩)))
  | 3 => some (.relayer (New "forge.events" 10) 1 2)
  | _ => none

/-- The relay publishes the registration while the service is handed over, and the rest after its deprecation. -/
def replayMoves : List (Move Pid Choice) :=
  ([.uuid ⟨1⟩, .time 0, .time 0, .ok, .ok, .uuid ⟨10⟩, .ok, .uuid ⟨11⟩, .ok, .ok] : List Choice).map (.call 0) ++
    loadMoves 2 ++ ([.time 1000, .ok, .ok, .ok, .time 10] : List Choice).map (.call 3) ++ storeMoves 2 ⟨20⟩ ⟨21⟩ ++
    ([.ok, .ok] : List Choice).map (.call 3) ++ loadMoves 1 ++ storeMoves 1 ⟨30⟩ ⟨31⟩ ++
    ([.time 9000, .ok, .ok, .ok, .ok, .time 10, .time 20, .ok, .ok] : List Choice).map (.call 3)

theorem noneAhead_replayParties {log : List Commit}
    (h : log.map (fun e => (e.pid, e.tx.loaded.map (·.version))) <+: [(0, []), (2, [1]), (3, []), (1, [2]), (3, [])]) :
    NoneAhead replayParties log := by
  intro e he c hc
  have hmem : (e.pid, e.tx.loaded.map (·.version)) ∈ _ := h.subset (List.mem_map_of_mem he)
  simp only [List.mem_cons, Prod.mk.injEq, List.not_mem_nil, or_false] at hmem
  obtain ⟨hp, hl⟩ | ⟨hp, hl⟩ | ⟨hp, hl⟩ | ⟨hp, hl⟩ | ⟨hp, hl⟩ := hmem <;> rw [hp] at hc <;> cases hc
  · obtain ⟨r, hr, hv⟩ := List.map_eq_singleton_iff.1 hl
    exact ⟨r, hr, .inr hv.ge⟩
  · obtain ⟨r, hr, -⟩ := List.map_eq_singleton_iff.1 hl
    exact ⟨r, hr, .inl le_rfl⟩

theorem outbox_replays_sample : ∃ s, (parties .empty replayParties).run World.machine replayMoves = some s ∧
    (s.world.db.record ⟨1⟩).map (fun x => (x.row.version, x.row.lifecycle, x.row.owning_team)) =
      some (3, str "deprecated", str "ops") ∧ Told s.world.db := by
  have h : ((parties .empty replayParties).run World.machine replayMoves).map (fun s =>
      ((s.world.db.record ⟨1⟩).map (fun x => (x.row.version, x.row.lifecycle, x.row.owning_team)),
        s.world.log.map (fun e => (e.pid, e.tx.loaded.map (·.version))))) =
      some (some (3, str "deprecated", str "ops"), [(0, []), (2, [1]), (3, []), (1, [2]), (3, [])]) := by
    decide +kernel
  obtain ⟨s, hrun, hs⟩ := Option.map_eq_some_iff.1 h
  obtain ⟨hrec, hlog⟩ := Prod.mk.inj hs
  have hstored : AllStored .empty := fun id r hr => by cases hr
  exact ⟨s, hrun, hrec, (outbox_replays hstored told_empty hrun (noneAhead_replayParties (hlog ▸ List.prefix_rfl))).1⟩

end relay

end Forge
