import Forge.Lib.Precedence
import Forge.Relay.Delivery

/-!
# Events in the order of their commits

The events of a service are to be published in the order in which the transactions that wrote them
committed (`Prior`), but the claiming query orders the pending rows by the time their transactions began
(`OutboxRow.place`). A commit is `Timely` if its events are placed after the pending ones of the same
services. `OrderInv` is what holds of the outbox, the open transactions and the stream with one relay: if
all commits were timely, the pending rows are placed as they were committed, and no message was accepted or
is in flight without those of the prior events (`InOrder`).
-/

namespace Forge

open Catalog

/-- The event that a write adds to the outbox. -/
def Write.event? : Write → Option OutboxRow
  | .insertOutbox r => some r
  | _ => none

/-- The write marks rows as published. -/
def Write.Marks : Write → Prop
  | .setPublished _ _ => True
  | _ => False

def Tx.events (tx : Tx) : List OutboxRow := tx.writes.filterMap Write.event?

/-- Where the claiming query places a row. -/
def OutboxRow.place (o : OutboxRow) : Timestamptz ×ₗ UUID := toLex (o.created_at, o.id)

theorem Write.outbox_apply {wr : Write} (h : ¬ wr.Marks) (t : Tables) :
    (wr.apply t).outbox = t.outbox ++ wr.event?.toList := by
  cases wr with
  | setPublished => exact absurd trivial h
  | insertOutbox r => rfl
  | _ => exact (List.append_nil _).symm

theorem Tx.mem_events {tx : Tx} {n : OutboxRow} : n ∈ tx.events ↔ Write.insertOutbox n ∈ tx.writes := by
  refine List.mem_filterMap.trans ⟨?_, fun h => ⟨_, h, rfl⟩⟩
  rintro ⟨wr, hwr, h⟩
  cases wr <;> cases h
  exact hwr

/-- A transaction that marks nothing adds its events at the end. -/
theorem Tx.outbox_view {tx : Tx} (h : ∀ wr ∈ tx.writes, ¬ wr.Marks) (t : Tables) :
    (tx.view t).outbox = t.outbox ++ tx.events := by
  unfold Tx.view Tx.events
  generalize tx.writes = ws at h
  induction ws generalizing t with
  | nil => exact (List.append_nil _).symm
  | cons wr ws ih =>
    rw [List.foldl_cons, ih _ (fun wr' hwr' => h wr' (List.mem_cons_of_mem _ hwr')),
      Write.outbox_apply (h wr List.mem_cons_self), List.append_assoc]
    cases hev : wr.event? <;> simp [hev]

/-- The same row, which may have been marked. -/
def Remarked (o o' : OutboxRow) : Prop :=
  ∃ m, o' = { o with published_at := m } ∧ (m = none → o.published_at = none)

/-- A transaction that only marks keeps the rows in their places. -/
theorem Tx.outbox_view_marks {tx : Tx} (h : ∀ wr ∈ tx.writes, wr.Marks) (t : Tables) :
    ∃ f, (tx.view t).outbox = t.outbox.map f ∧ ∀ o, Remarked o (f o) := by
  unfold Tx.view
  generalize tx.writes = ws at h
  induction ws generalizing t with
  | nil => exact ⟨id, (List.map_id _).symm, fun o => ⟨o.published_at, rfl, id⟩⟩
  | cons wr ws ih =>
    obtain ⟨f, hf, hr⟩ := ih (wr.apply t) fun wr' hwr' => h wr' (List.mem_cons_of_mem _ hwr')
    have hwr := h wr List.mem_cons_self
    cases wr with
    | setPublished ids published_at =>
      refine ⟨_, hf.trans List.map_map, fun o => ?_⟩
      obtain ⟨m, hm, hnone⟩ := hr (if o.id ∈ ids then { o with published_at := some published_at } else o)
      refine ⟨m, ?_, fun h => ?_⟩
      · show f _ = _
        rw [hm]
        split <;> rfl
      · have := hnone h
        split at this
        · cases this
        · exact this
    | _ => exact hwr.elim

namespace relay

/-! ### Prior events -/

/-- The event `a` was committed before the event `b` of the same service. -/
def Prior (log : List Commit) (a b : UUID) : Prop :=
  ∃ e ∈ log, ∃ o ∈ e.before.outbox, ∃ n ∈ e.tx.events, o.id = a ∧ n.id = b ∧ o.aggregate_id = n.aggregate_id

/-- The events of the commit are placed after the pending ones of the same service. -/
def Timely (e : Commit) : Prop :=
  ∀ o ∈ e.before.outbox, ∀ n ∈ e.tx.events, o.aggregate_id = n.aggregate_id → o.published_at = none →
    o.place < n.place

instance (e : Commit) : Decidable (Timely e) := by
  unfold Timely
  infer_instance

theorem Prior.mono {log log' : List Commit} {a b : UUID} (h : Prior log a b) (hl : log <+: log') :
    Prior log' a b := by
  obtain ⟨e, he, h⟩ := h
  exact ⟨e, hl.subset he, h⟩

theorem prior_concat {log : List Commit} {e : Commit} {a b : UUID} (h : Prior (log ++ [e]) a b) :
    Prior log a b ∨
      ∃ o ∈ e.before.outbox, ∃ n ∈ e.tx.events, o.id = a ∧ n.id = b ∧ o.aggregate_id = n.aggregate_id := by
  obtain ⟨e', he', h⟩ := h
  rcases List.mem_append.1 he' with he' | he'
  · exact .inl ⟨e', he', h⟩
  · cases List.mem_singleton.1 he'
    exact .inr h

/-- The events were published as they were committed. -/
structure InOrder (w : World) : Prop where
  placed : ∀ o ∈ w.db.outbox, ∀ n ∈ w.db.outbox, Prior w.log o.id n.id → o.published_at = none → o.place < n.place
  accepted : ∀ a b, Prior w.log a b →
    Led (fun x => x.1.id = a.String) (fun x => x.1.id = b.String) w.bus.accepted
  inflight : ∀ a b, Prior w.log a b → ∀ m ∈ w.bus.inflight, m.id = b.String → w.bus.Accepted a.String

/-- What holds with one relay `R` among commands. -/
structure OrderInv (R : Pid) (subjectPrefix : GoString) (w : World) : Prop extends RelayInv subjectPrefix w where
  nodup : (w.db.outbox.map (·.id)).Nodup
  /-- Only the relay locks rows that are there. -/
  fresh : ∀ q id, (q, Key.outbox id) ∈ w.locks → q ≠ R → id ∉ w.db.outbox.map (·.id)
  events : ∀ q tx, w.txs q = some tx → (tx.events.map (·.id)).Nodup
  /-- Only the relay marks rows, and it does nothing else. -/
  marks : ∀ q tx, w.txs q = some tx → ∀ wr ∈ tx.writes, (wr.Marks ↔ q = R)
  logged : ∀ a b, Prior w.log a b → a ∈ w.db.outbox.map (·.id) ∧ b ∈ w.db.outbox.map (·.id)
  order : (∀ e ∈ w.log, Timely e) → InOrder w

section
variable {R : Pid} {subjectPrefix : GoString} {w w' : World} {p : Pid} {tx : Tx}

theorem OrderInv.init {db : Tables} (hdb : ∀ o ∈ db.outbox, o.published_at = none)
    (hids : (db.outbox.map (·.id)).Nodup) : OrderInv R subjectPrefix (.init db) := by
  have hno : ∀ a b, ¬ Prior [] a b := by
    rintro a b ⟨e, he, -⟩
    cases he
  refine ⟨.init hdb, hids, ?_, ?_, ?_, fun a b h => absurd h (hno a b), fun _ => ⟨?_, ?_, ?_⟩⟩
  · intro q id hq
    cases hq
  · intro q tx hq
    cases hq
  · intro q tx hq
    cases hq
  · exact fun o _ n _ h => absurd h (hno _ _)
  · exact fun a b h => absurd h (hno a b)
  · exact fun a b h => absurd h (hno a b)

theorem InOrder.congr (h : InOrder w) (hdb : w'.db = w.db) (hlog : w'.log = w.log) (hbus : w'.bus = w.bus) :
    InOrder w' := by
  refine ⟨?_, ?_, ?_⟩
  · rw [hdb, hlog]
    exact h.placed
  · rw [hlog, hbus]
    exact h.accepted
  · rw [hlog, hbus]
    exact h.inflight

/-- A call that changes neither the committed tables nor the stream nor what is locked in the outbox. -/
theorem OrderInv.congr (h : OrderInv R subjectPrefix w) (hr : RelayInv subjectPrefix w') (hdb : w'.db = w.db)
    (hlog : w'.log = w.log) (hbus : w'.bus = w.bus) (htxs : w'.txs = w.txs) (hlocks : w'.locks = w.locks) :
    OrderInv R subjectPrefix w' := by
  refine ⟨hr, ?_, ?_, ?_, ?_, ?_, fun ht => (h.order (hlog ▸ ht)).congr hdb hlog hbus⟩
  · rw [hdb]
    exact h.nodup
  · rw [hdb, hlocks]
    exact h.fresh
  · rw [htxs]
    exact h.events
  · rw [htxs]
    exact h.marks
  · rw [hdb, hlog]
    exact h.logged

theorem OrderInv.endTx (h : OrderInv R subjectPrefix w) (p : Pid) : OrderInv R subjectPrefix (w.endTx p) := by
  refine ⟨h.toRelayInv.endTx p, h.nodup, ?_, ?_, ?_, h.logged, fun ht => (h.order ht).congr rfl rfl rfl⟩
  · exact fun q id hq => h.fresh q id (List.mem_of_mem_filter hq)
  · exact fun q tx hq => h.events q tx (World.txs_endTx hq).2
  · exact fun q tx hq => h.marks q tx (World.txs_endTx hq).2

theorem OrderInv.fault (h : OrderInv R subjectPrefix w) : OrderInv R subjectPrefix w.fault :=
  h.congr (h.toRelayInv.congr (h.locks.congr rfl rfl) rfl rfl rfl) rfl rfl rfl rfl rfl

theorem OrderInv.put {ks : List Key} (h : OrderInv R subjectPrefix w)
    (hr : RelayInv subjectPrefix (w.put p tx ks))
    (hks : p ≠ R → ∀ id, Key.outbox id ∈ ks → id ∉ w.db.outbox.map (·.id))
    (hev : (tx.events.map (·.id)).Nodup) (hmarks : ∀ wr ∈ tx.writes, (wr.Marks ↔ p = R)) :
    OrderInv R subjectPrefix (w.put p tx ks) := by
  refine ⟨hr, h.nodup, fun q id hq hne => ?_, World.txs_put hev fun q tx' _ hq => h.events q tx' hq,
    World.txs_put hmarks fun q tx' _ hq => h.marks q tx' hq, h.logged, fun ht => (h.order ht).congr rfl rfl rfl⟩
  rcases List.mem_append.1 hq with hq | hq
  · exact h.fresh q id hq hne
  · obtain ⟨k, hk, heq⟩ := List.mem_map.1 hq
    cases heq
    exact hks hne id hk

/-! ### Commits -/

theorem OrderInv.key_event (h : OrderInv R subjectPrefix w) (htx : w.txs p = some tx) {n : OutboxRow}
    (hn : n ∈ tx.events) : (p, Key.outbox n.id) ∈ w.locks := by
  refine h.locks.held p tx htx _ (List.mem_append_left _ (List.mem_flatMap.2 ⟨_, Tx.mem_events.1 hn, ?_⟩))
  exact List.mem_singleton.2 rfl

/-- An event that is not committed yet is not in the outbox. -/
theorem OrderInv.event_fresh (h : OrderInv R subjectPrefix w) (htx : w.txs p = some tx) {n : OutboxRow}
    (hn : n ∈ tx.events) : n.id ∉ w.db.outbox.map (·.id) := by
  refine h.fresh p n.id (h.key_event htx hn) fun hp => ?_
  exact ((h.marks p tx htx _ (Tx.mem_events.1 hn)).2 hp).elim

/-- No message with an id that is not in the outbox was sent. -/
theorem RelayInv.unsent (h : RelayInv subjectPrefix w) {b : UUID} (hb : b ∉ w.db.outbox.map (·.id)) :
    (∀ x ∈ w.bus.accepted, x.1.id ≠ b.String) ∧ ∀ m ∈ w.bus.inflight, m.id ≠ b.String := by
  have hback : ∀ m, Backed subjectPrefix w.db m → m.id ≠ b.String := by
    rintro m ⟨o, ho, rfl⟩ heq
    exact hb (List.mem_map.2 ⟨o, ho, UUID.String_inj heq⟩)
  exact ⟨fun x hx => hback _ (h.accepted x hx), fun m hm => hback m (h.inflight m hm)⟩

theorem OrderInv.commit (h : OrderInv R subjectPrefix w) (hp : p ≠ R) (htx : w.txs p = some tx) :
    OrderInv R subjectPrefix ((w.commit p tx).endTx p) := by
  have hunmarked : ∀ wr ∈ tx.writes, ¬ wr.Marks := fun wr hwr hm => hp ((h.marks p tx htx wr hwr).1 hm)
  have hout : (tx.view w.db).outbox = w.db.outbox ++ tx.events := tx.outbox_view hunmarked w.db
  have hnodup : ((tx.view w.db).outbox.map (·.id)).Nodup := by
    rw [hout, List.map_append]
    refine List.nodup_append.2 ⟨h.nodup, h.events p tx htx, ?_⟩
    rintro a ha b hb rfl
    obtain ⟨n, hn, rfl⟩ := List.mem_map.1 hb
    exact h.event_fresh htx hn ha
  -- a row with the id of an old one is that row
  have hold : ∀ o ∈ (tx.view w.db).outbox, o.id ∈ w.db.outbox.map (·.id) → o ∈ w.db.outbox := by
    intro o ho hid
    rcases List.mem_append.1 (hout ▸ ho) with ho | ho
    · exact ho
    · exact absurd hid (h.event_fresh htx ho)
  have hnew : ∀ o ∈ (tx.view w.db).outbox, ∀ n ∈ tx.events, o.id = n.id → o = n := by
    intro o ho n hn heq
    exact List.inj_on_of_nodup_map hnodup ho (hout ▸ List.mem_append_right _ hn) heq
  refine ⟨(h.toRelayInv.commit (h.writes p tx htx)).endTx p, hnodup, ?_, ?_, ?_, ?_, fun ht => ?_⟩
  · intro q id hq hne hid
    obtain ⟨hlock, hfilter⟩ := List.mem_filter.1 hq
    have hqp : q ≠ p := of_decide_eq_true hfilter
    obtain ⟨o, ho, rfl⟩ := List.mem_map.1 hid
    rcases List.mem_append.1 (hout ▸ ho) with ho | ho
    · exact h.fresh q _ hlock hne (List.mem_map_of_mem ho)
    · exact hqp (h.locks.excl q p _ hlock (h.key_event htx ho))
  · exact fun q tx' hq => h.events q tx' (World.txs_endTx (p := p) hq).2
  · exact fun q tx' hq => h.marks q tx' (World.txs_endTx (p := p) hq).2
  · intro a b hab
    show a ∈ (tx.view w.db).outbox.map (·.id) ∧ b ∈ (tx.view w.db).outbox.map (·.id)
    rw [hout, List.map_append]
    rcases prior_concat hab with hab | ⟨o, ho, n, hn, rfl, rfl, -⟩
    · exact (h.logged a b hab).imp (List.mem_append_left _) (List.mem_append_left _)
    · exact ⟨List.mem_append_left _ (List.mem_map_of_mem ho), List.mem_append_right _ (List.mem_map_of_mem hn)⟩
  · have ho := h.order fun e he => ht e (List.mem_append_left _ he)
    have htimely : Timely ⟨p, tx, w.db, tx.view w.db⟩ :=
      ht _ (List.mem_append_right _ (List.mem_singleton_self _))
    refine ⟨fun o hmo n hmn hab hpend => ?_, fun a b hab => ?_, fun a b hab m hm hid => ?_⟩
    · rcases prior_concat hab with hab | ⟨o', ho', n', hn', hoid, hnid, hagg⟩
      · obtain ⟨hoid, hnid⟩ := h.logged _ _ hab
        exact ho.placed o (hold o hmo hoid) n (hold n hmn hnid) hab hpend
      · cases hnew n hmn n' hn' hnid.symm
        have hmo' : o ∈ w.db.outbox := hold o hmo (hoid ▸ List.mem_map_of_mem ho')
        cases List.inj_on_of_nodup_map h.nodup ho' hmo' hoid
        exact htimely o hmo' n hn' hagg hpend
    · rcases prior_concat hab with hab | ⟨o', -, n', hn', -, rfl, -⟩
      · exact ho.accepted a b hab
      · exact .of_none (h.toRelayInv.unsent (h.event_fresh htx hn')).1
    · rcases prior_concat hab with hab | ⟨o', -, n', hn', -, rfl, -⟩
      · exact ho.inflight a b hab m hm hid
      · exact absurd hid ((h.toRelayInv.unsent (h.event_fresh htx hn')).2 m hm)

theorem OrderInv.commit_relay (h : OrderInv R subjectPrefix w) (htx : w.txs R = some tx) :
    OrderInv R subjectPrefix ((w.commit R tx).endTx R) := by
  obtain ⟨f, hout, hf⟩ := tx.outbox_view_marks (fun wr hwr => (h.marks R tx htx wr hwr).2 rfl) w.db
  have hids : (tx.view w.db).outbox.map (·.id) = w.db.outbox.map (·.id) := by
    rw [hout, List.map_map]
    refine List.map_congr_left fun o _ => ?_
    obtain ⟨m, hm, -⟩ := hf o
    show (f o).id = o.id
    rw [hm]
  have hprior : ∀ a b, Prior (w.log ++ [⟨R, tx, w.db, tx.view w.db⟩]) a b → Prior w.log a b := by
    intro a b hab
    rcases prior_concat hab with hab | ⟨-, -, n, hn, -⟩
    · exact hab
    · exact ((h.marks R tx htx _ (Tx.mem_events.1 hn)).2 rfl).elim
  refine ⟨(h.toRelayInv.commit (h.writes R tx htx)).endTx R, hids ▸ h.nodup, ?_, ?_, ?_, ?_, fun ht => ?_⟩
  · intro q id hq hne
    show id ∉ (tx.view w.db).outbox.map (·.id)
    rw [hids]
    exact h.fresh q id (List.mem_of_mem_filter hq) hne
  · exact fun q tx' hq => h.events q tx' (World.txs_endTx (p := R) hq).2
  · exact fun q tx' hq => h.marks q tx' (World.txs_endTx (p := R) hq).2
  · intro a b hab
    show a ∈ (tx.view w.db).outbox.map (·.id) ∧ b ∈ (tx.view w.db).outbox.map (·.id)
    rw [hids]
    exact h.logged a b (hprior a b hab)
  · have ho := h.order fun e he => ht e (List.mem_append_left _ he)
    refine ⟨fun o hmo n hmn hab hpend => ?_, fun a b hab => ho.accepted a b (hprior a b hab),
      fun a b hab => ho.inflight a b (hprior a b hab)⟩
    obtain ⟨o', ho', rfl⟩ := List.mem_map.1 (hout ▸ hmo)
    obtain ⟨n', hn', rfl⟩ := List.mem_map.1 (hout ▸ hmn)
    obtain ⟨m, hm, hnone⟩ := hf o'
    obtain ⟨m', hm', -⟩ := hf n'
    rw [hm, hm'] at hab ⊢
    rw [hm] at hpend
    exact ho.placed o' ho' n' hn' (hprior _ _ hab) (hnone hpend)

/-! ### Messages -/

/-- A message is accepted after those of the prior events. -/
theorem OrderInv.accept {m : Msg} (h : OrderInv R subjectPrefix w) (hm : Backed subjectPrefix w.db m) (t : Time)
    {l : List Msg} (hl : ∀ m' ∈ l, m' ∈ w.bus.inflight)
    (hprior : (∀ e ∈ w.log, Timely e) → ∀ a b, Prior w.log a b → m.id = b.String → w.bus.Accepted a.String) :
    OrderInv R subjectPrefix { w with bus := { w.bus.accept m t with inflight := l } } := by
  refine ⟨h.toRelayInv.accept hm t hl, h.nodup, h.fresh, h.events, h.marks, h.logged, fun ht => ?_⟩
  have ho := h.order ht
  refine ⟨ho.placed, fun a b hab => ?_, fun a b hab m' hm' hid => ?_⟩
  · exact led_concat.2 ⟨ho.accepted a b hab, hprior ht a b hab⟩
  · exact (ho.inflight a b hab m' (hl m' hm') hid).mono (List.prefix_append _ _)

/-- A message is sent after those of the prior events were accepted. -/
theorem OrderInv.send {m : Msg} (h : OrderInv R subjectPrefix w)
    (hr : RelayInv subjectPrefix { w with bus := { w.bus with inflight := w.bus.inflight ++ [m] } })
    (hprior : (∀ e ∈ w.log, Timely e) → ∀ a b, Prior w.log a b → m.id = b.String → w.bus.Accepted a.String) :
    OrderInv R subjectPrefix { w with bus := { w.bus with inflight := w.bus.inflight ++ [m] } } := by
  refine ⟨hr, h.nodup, h.fresh, h.events, h.marks, h.logged, fun ht => ?_⟩
  have ho := h.order ht
  refine ⟨ho.placed, ho.accepted, fun a b hab m' hm' hid => ?_⟩
  rcases List.mem_append.1 hm' with hm' | hm'
  · exact ho.inflight a b hab m' hm' hid
  · cases List.mem_singleton.1 hm'
    exact hprior ht a b hab hid

/-! ### Commands -/

/-- What a command does looks like this to the relay. -/
structure Meanwhile (R : Pid) (w w' : World) : Prop extends Others R w w' where
  cursor : w'.cursors R = w.cursors R
  rows : ∀ o ∈ w.db.outbox, o ∈ w'.db.outbox
  prior : ∀ a, ∀ b ∈ w.db.outbox.map (·.id), Prior w'.log a b → Prior w.log a b

theorem Meanwhile.of_local (ho : Others R w w') (hcursor : w'.cursors R = w.cursors R) (hdb : w'.db = w.db)
    (hlog : w'.log = w.log) : Meanwhile R w w' := by
  refine ⟨ho, hcursor, ?_, ?_⟩
  · rw [hdb]
    exact fun o => id
  · rw [hlog]
    exact fun a b _ => id

theorem Meanwhile.quiet {b : Bus} {n : Nat} (hb : w.bus.accepted <+: b.accepted) (hn : w.faults ≤ n) :
    Meanwhile R w { w with bus := b, faults := n } := by
  have hl : World.Local (R + 1) w { w with bus := b, faults := n } :=
    .quiet hb (List.prefix_refl _) ⟨[], by simp, by simp⟩ hn
  exact .of_local (hl.others (Nat.succ_ne_self R)) rfl rfl rfl

/-- A statement of a command marks nothing and adds one event at most, with a new id. -/
theorem plan_events {q : Stmt} {now : Timestamptz} {t : Tables} {a : q.Ans} {ws : List Write}
    (hq : OfCommand (.exec .tx q)) (h : q.plan now t = .ok (a, ws)) :
    (∀ wr ∈ ws, ¬ wr.Marks) ∧ ((∀ wr ∈ ws, wr.event? = none ∧ ∀ id, Key.outbox id ∉ wr.keys) ∨
      ∃ n, ws = [.insertOutbox n] ∧ n.id ∉ t.outbox.map (·.id)) := by
  replace h := (Stmt.plan_ok h).2
  cases q <;> simp only [Stmt.eval, Stmt.planHistory] at h
  case markPublished => exact hq.elim
  case insertOutbox id aggregate_id event_type payload occurred_at =>
    split at h
    · split at h <;> cases h
      rename_i hany
      refine ⟨fun wr hwr => ?_, .inr ⟨_, rfl, fun hmem => hany ?_⟩⟩
      · cases List.mem_singleton.1 hwr
        exact fun hm => hm
      · obtain ⟨o, ho, heq⟩ := List.mem_map.1 hmem
        exact List.any_eq_true.2 ⟨o, ho, decide_eq_true heq⟩
    · cases h
  -- the other statements write to the other tables
  all_goals
    refine ⟨fun wr hwr => ?_, .inl fun wr hwr => ?_⟩ <;>
    (repeat' split at h) <;> cases h <;>
      first
        | (cases List.mem_singleton.1 hwr; first | exact id | exact ⟨rfl, fun id hk => by simp [Write.keys] at hk⟩)
        | cases hwr

/-- A statement of a command in its transaction. -/
theorem OrderInv.exec {q : Stmt} {b : q.Ans} {ws : List Write} (h : OrderInv R subjectPrefix w) (hp : p ≠ R)
    (hop : OfCommand (.exec .tx q)) (htx : w.txs p = some tx)
    (hplan : q.plan tx.begun (tx.view w.db) = .ok (b, ws))
    (hr : RelayInv subjectPrefix (w.put p (tx.ran q b ws) (ws.flatMap Write.keys))) :
    OrderInv R subjectPrefix (w.put p (tx.ran q b ws) (ws.flatMap Write.keys)) := by
  have hunmarked : ∀ wr ∈ tx.writes, ¬ wr.Marks := fun wr hwr hm => hp ((h.marks p tx htx wr hwr).1 hm)
  have hids : (tx.view w.db).outbox.map (·.id) = w.db.outbox.map (·.id) ++ tx.events.map (·.id) := by
    rw [tx.outbox_view hunmarked, List.map_append]
  have hran : (tx.ran q b ws).events = tx.events ++ ws.filterMap Write.event? := List.filterMap_append
  obtain ⟨hmarks, hev⟩ := plan_events hop hplan
  refine h.put hr ?_ ?_ ?_
  · intro _ id hid
    obtain ⟨wr, hwr, hk⟩ := List.mem_flatMap.1 hid
    rcases hev with hev | ⟨n, rfl, hn⟩
    · exact absurd hk ((hev wr hwr).2 id)
    · cases List.mem_singleton.1 hwr
      cases List.mem_singleton.1 hk
      exact fun hmem => hn (hids ▸ List.mem_append_left _ hmem)
  · rw [hran, List.map_append]
    rcases hev with hev | ⟨n, rfl, hn⟩
    · rw [List.filterMap_eq_nil_iff.2 fun wr hwr => (hev wr hwr).1]
      simpa using h.events p tx htx
    · refine List.nodup_append.2 ⟨h.events p tx htx, List.nodup_singleton _, ?_⟩
      rintro a ha b hb rfl
      cases List.mem_singleton.1 hb
      exact hn (hids ▸ List.mem_append_right _ ha)
  · intro wr hwr
    rcases List.mem_append.1 hwr with hwr | hwr
    · exact h.marks p tx htx wr hwr
    · exact iff_of_false (hmarks wr hwr) hp

theorem OrderInv.command {op : Call} {c : Choice} {a : op.Ans} (h : OrderInv R subjectPrefix w) (hp : p ≠ R)
    (hop : OfCommand op) (hc : World.call p op c w = some (a, w')) :
    OrderInv R subjectPrefix w' ∧ Meanwhile R w w' := by
  have hr : RelayInv subjectPrefix w' := h.toRelayInv.call (hop.plain.permitted w) hc
  have ho : Others R w w' := (World.call_effect hc).others h.locks hp
  cases World.call_did hc with
  | begin =>
    refine ⟨h.put hr ?_ List.nodup_nil ?_, .of_local ho rfl rfl rfl⟩
    · intro _ id hid
      cases hid
    · intro wr hwr
      cases hwr
  | @commit tx htx =>
    refine ⟨h.commit hp htx, ho, rfl, fun o hmo => ?_, fun a b hb hab => ?_⟩
    · show o ∈ (tx.view w.db).outbox
      rw [tx.outbox_view fun wr hwr hm => hp ((h.marks p tx htx wr hwr).1 hm)]
      exact List.mem_append_left _ hmo
    · rcases prior_concat hab with hab | ⟨-, -, n, hn, -, rfl, -⟩
      · exact hab
      · exact absurd hb (h.event_fresh htx hn)
  | abort => exact ⟨h.fault.endTx p, .of_local ho rfl rfl rfl⟩
  | rollback => exact ⟨h.endTx p, .of_local ho rfl rfl rfl⟩
  | exec htx hplan _ => exact ⟨h.exec hp hop htx hplan hr, .of_local ho rfl rfl rfl⟩
  | now | newID | beginFault | reject | execFault =>
    exact ⟨h.congr hr rfl rfl rfl rfl rfl, .of_local ho rfl rfl rfl⟩
  | _ => exact hop.elim

end

end relay

end Forge
