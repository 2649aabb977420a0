import Forge.Relay.Relay

/-!
# The outbox table and the stream

`RelayInv` ties the outbox table, the open transactions and the stream together: a row is marked
published only after the stream has accepted a message with its id, and every message is that of a
committed row. A call keeps it where `Permitted` holds (`RelayInv.call`): a message may be published
only for a committed row that is not marked, and rows may be marked only after their ids were accepted.
-/

namespace Forge

open Catalog

/-- A message with this id was accepted. -/
def Bus.Accepted (b : Bus) (id : GoString) : Prop := ∃ x ∈ b.accepted, x.1.id = id

theorem Bus.Accepted.mono {b b' : Bus} {id : GoString} (h : b.Accepted id) (hb : b.accepted <+: b'.accepted) :
    b'.Accepted id :=
  let ⟨x, hx, he⟩ := h
  ⟨x, hb.subset hx, he⟩

/-- All messages with this id were accepted inside one deduplication window. -/
def Bus.InWindow (b : Bus) (id : GoString) : Prop :=
  ∀ x ∈ b.accepted, ∀ y ∈ b.accepted, x.1.id = id → y.1.id = id → y.2 < x.2 + Duplicates

/-- The stream has what was accepted, and an id whose messages are inside one window at most once. -/
structure Bus.Dedup (b : Bus) : Prop where
  stored : ∀ x ∈ b.stream, x ∈ b.accepted
  once : ∀ id, b.InWindow id → (b.stream.filter (·.1.id = id)).length ≤ 1

theorem Bus.Dedup.accept {b : Bus} (h : b.Dedup) (m : Msg) (t : Time) : (b.accept m t).Dedup := by
  have hsub : ∀ x ∈ b.accepted, x ∈ (b.accept m t).accepted := fun x hx => List.mem_append_left _ hx
  have hnew : (m, t) ∈ (b.accept m t).accepted := List.mem_append_right _ (List.mem_singleton_self _)
  have hwin : ∀ {id}, (b.accept m t).InWindow id → b.InWindow id := fun hw x hx y hy =>
    hw x (hsub x hx) y (hsub y hy)
  by_cases hdup : (b.stream.any fun s => s.1.id = m.id ∧ t < s.2 + Duplicates) = true
  · have hstream : (b.accept m t).stream = b.stream := if_pos hdup
    refine ⟨fun x hx => hsub x (h.stored x (hstream ▸ hx)), fun id hw => ?_⟩
    rw [hstream]
    exact h.once id (hwin hw)
  · have hstream : (b.accept m t).stream = b.stream ++ [(m, t)] := if_neg hdup
    refine ⟨fun x hx => ?_, fun id hw => ?_⟩
    · rcases List.mem_append.1 (hstream ▸ hx) with hx | hx
      · exact hsub x (h.stored x hx)
      · exact List.mem_singleton.1 hx ▸ hnew
    · rw [hstream, List.filter_append]
      by_cases hid : m.id = id
      · -- a stored message with this id would have been found inside the window
        have hnil : b.stream.filter (·.1.id = id) = [] := List.filter_eq_nil_iff.2 fun x hx he => hdup <|
          List.any_eq_true.2 ⟨x, hx, decide_eq_true ⟨(of_decide_eq_true he).trans hid.symm,
            hw x (hsub x (h.stored x hx)) (m, t) hnew (of_decide_eq_true he) hid⟩⟩
        simp [hnil, hid]
      · simpa [hid] using h.once id (hwin hw)

namespace relay

/-- The message of a row. -/
def message (subjectPrefix : GoString) (o : OutboxRow) : Msg :=
  ⟨subjectPrefix ++ str "." ++ o.event_type, o.id.String, o.payload⟩

/-- The message is that of a row of the table. -/
def Backed (subjectPrefix : GoString) (t : Tables) (m : Msg) : Prop :=
  ∃ o ∈ t.outbox, m = message subjectPrefix o

/-- What an open transaction may have written to the outbox. -/
def WriteOk (b : Bus) : Write → Prop
  | .insertOutbox o => o.published_at = none
  | .setPublished ids _ => ∀ id ∈ ids, b.Accepted id.String
  | _ => True

theorem WriteOk.mono {b b' : Bus} {wr : Write} (h : WriteOk b wr) (hb : b.accepted <+: b'.accepted) :
    WriteOk b' wr := by
  cases wr <;> first | exact h | exact fun id hid => (h id hid).mono hb

/-- Rows stay in the outbox; only `published_at` changes. -/
theorem Backed.apply {subjectPrefix : GoString} {t : Tables} {m : Msg} (h : Backed subjectPrefix t m)
    (wr : Write) : Backed subjectPrefix (wr.apply t) m := by
  obtain ⟨o, ho, rfl⟩ := h
  cases wr with
  | insertOutbox r => exact ⟨o, List.mem_append_left _ ho, rfl⟩
  | setPublished ids published_at =>
    refine ⟨_, List.mem_map_of_mem ho, ?_⟩
    split <;> rfl
  | _ => exact ⟨o, ho, rfl⟩

theorem Backed.view {subjectPrefix : GoString} {t : Tables} {m : Msg} (h : Backed subjectPrefix t m) (tx : Tx) :
    Backed subjectPrefix (tx.view t) m := by
  unfold Tx.view
  generalize tx.writes = ws
  induction ws generalizing t with
  | nil => exact h
  | cons wr ws ih => exact ih (h.apply wr)

/-- Every row marked published was accepted. -/
def Marked (t : Tables) (b : Bus) : Prop :=
  ∀ o ∈ t.outbox, o.published_at ≠ none → b.Accepted o.id.String

theorem Marked.apply {t : Tables} {b : Bus} {wr : Write} (h : Marked t b) (hw : WriteOk b wr) :
    Marked (wr.apply t) b := by
  cases wr with
  | insertOutbox r =>
    intro o ho hp
    rcases List.mem_append.1 ho with ho | ho
    · exact h o ho hp
    · rw [List.mem_singleton.1 ho] at hp
      exact absurd hw hp
  | setPublished ids published_at =>
    intro o ho hp
    obtain ⟨o', ho', rfl⟩ := List.mem_map.1 ho
    by_cases hid : o'.id ∈ ids
    · rw [if_pos hid]
      exact hw o'.id hid
    · rw [if_neg hid] at hp ⊢
      exact h o' ho' hp
  | _ => exact h

theorem Marked.view {t : Tables} {b : Bus} {tx : Tx} (h : Marked t b) (hw : ∀ wr ∈ tx.writes, WriteOk b wr) :
    Marked (tx.view t) b := by
  unfold Tx.view
  generalize tx.writes = ws at hw
  induction ws generalizing t with
  | nil => exact h
  | cons wr ws ih =>
    exact ih (h.apply (hw wr List.mem_cons_self)) fun wr' hwr' => hw wr' (List.mem_cons_of_mem _ hwr')

/-! ### The invariant -/

structure RelayInv (subjectPrefix : GoString) (w : World) : Prop where
  locks : w.LocksOk
  writes : ∀ p tx, w.txs p = some tx → ∀ wr ∈ tx.writes, WriteOk w.bus wr
  marked : Marked w.db w.bus
  accepted : ∀ x ∈ w.bus.accepted, Backed subjectPrefix w.db x.1
  inflight : ∀ m ∈ w.bus.inflight, Backed subjectPrefix w.db m
  dedup : w.bus.Dedup

/-- Where a call may be made: a message is published only for a committed row that is not marked, and
rows are marked only after messages with their ids were accepted. -/
def Permitted (subjectPrefix : GoString) : Call → World → Prop
  | .publish subject msgID data, w => ∃ id o, w.db.outboxRow id = some o ∧ o.published_at = none ∧
      (⟨subject, msgID, data⟩ : Msg) = message subjectPrefix o
  | .exec _ (.markPublished ids), w => ∀ id ∈ ids, w.bus.Accepted id
  | _, _ => True

section
variable {subjectPrefix : GoString} {w w' : World} {p : Pid}

/-- What a permitted statement writes. -/
theorem writeOk_plan {db : DBTX} {q : Stmt} {a : q.Ans} {ws : List Write} {now : Timestamptz} {t : Tables}
    (hq : Permitted subjectPrefix (.exec db q) w) (h : q.plan now t = .ok (a, ws)) :
    ∀ wr ∈ ws, WriteOk w.bus wr := by
  intro wr hwr
  replace h := (Stmt.plan_ok h).2
  cases q <;> simp only [Stmt.eval, Stmt.planHistory] at h
  case markPublished ids =>
    cases h
    rw [List.mem_singleton.1 hwr]
    intro id hid
    obtain ⟨o, ho, rfl⟩ := List.mem_map.1 hid
    exact hq _ (of_decide_eq_true (List.mem_filter.1 ho).2)
  -- the other statements mark nothing, and insert events that are not marked
  all_goals (repeat' split at h) <;> cases h <;>
    first | (cases List.mem_singleton.1 hwr; first | exact trivial | rfl) | cases hwr

theorem RelayInv.init {db : Tables} (h : ∀ o ∈ db.outbox, o.published_at = none) :
    RelayInv subjectPrefix (.init db) where
  locks := World.init_locksOk db
  writes := nofun
  marked o ho hp := absurd (h o ho) hp
  accepted := nofun
  inflight := nofun
  dedup := ⟨nofun, fun _ _ => Nat.zero_le _⟩

/-- The invariant looks at the tables, the transactions, the locks and the bus. -/
theorem RelayInv.congr (h : RelayInv subjectPrefix w) (hl : w'.LocksOk) (hdb : w'.db = w.db)
    (htxs : w'.txs = w.txs) (hbus : w'.bus = w.bus) : RelayInv subjectPrefix w' := by
  refine ⟨hl, ?_, ?_, ?_, ?_, ?_⟩
  · rw [htxs, hbus]
    exact h.writes
  · rw [hdb, hbus]
    exact h.marked
  · rw [hdb, hbus]
    exact h.accepted
  · rw [hdb, hbus]
    exact h.inflight
  · rw [hbus]
    exact h.dedup

theorem RelayInv.put {tx : Tx} {ks : List Key} (h : RelayInv subjectPrefix w)
    (hl : (w.put p tx ks).LocksOk) (htx : ∀ wr ∈ tx.writes, WriteOk w.bus wr) :
    RelayInv subjectPrefix (w.put p tx ks) := by
  exact ⟨hl, World.txs_put htx fun q tx' _ hq => h.writes q tx' hq, h.marked, h.accepted, h.inflight, h.dedup⟩

theorem RelayInv.endTx (h : RelayInv subjectPrefix w) (p : Pid) : RelayInv subjectPrefix (w.endTx p) := by
  exact ⟨h.locks.endTx p, fun q tx hq => h.writes q tx (World.txs_endTx hq).2, h.marked, h.accepted, h.inflight,
    h.dedup⟩

theorem RelayInv.commit {tx : Tx} (h : RelayInv subjectPrefix w) (htx : ∀ wr ∈ tx.writes, WriteOk w.bus wr) :
    RelayInv subjectPrefix (w.commit p tx) where
  locks := h.locks.congr rfl rfl
  writes := h.writes
  marked := h.marked.view htx
  accepted x hx := (h.accepted x hx).view tx
  inflight m hm := (h.inflight m hm).view tx
  dedup := h.dedup

theorem RelayInv.accept {m : Msg} (h : RelayInv subjectPrefix w) (hm : Backed subjectPrefix w.db m) (t : Time)
    {l : List Msg} (hl : ∀ m' ∈ l, m' ∈ w.bus.inflight) :
    RelayInv subjectPrefix { w with bus := { w.bus.accept m t with inflight := l } } where
  locks := h.locks.congr rfl rfl
  writes q tx hq wr hwr := (h.writes q tx hq wr hwr).mono (List.prefix_append _ _)
  marked o ho hp := (h.marked o ho hp).mono (List.prefix_append _ _)
  accepted x hx := by
    rcases List.mem_append.1 hx with hx | hx
    · exact h.accepted x hx
    · rw [List.mem_singleton.1 hx]
      exact hm
  inflight m' hm' := h.inflight m' (hl m' hm')
  dedup := let hd := h.dedup.accept m t; ⟨hd.stored, hd.once⟩

theorem RelayInv.call {op : Call} {c : Choice} {a : op.Ans} (h : RelayInv subjectPrefix w)
    (hp : Permitted subjectPrefix op w) (hc : World.call p op c w = some (a, w')) :
    RelayInv subjectPrefix w' := by
  have hl : w'.LocksOk := (World.call_effect hc).locksOk h.locks
  cases World.call_did hc with
  | begin =>
    refine h.put hl ?_
    intro x hx
    cases hx
  | commit htx => exact (h.commit (h.writes p _ htx)).endTx p
  | abort => exact (h.congr (h.locks.congr rfl rfl) rfl rfl rfl : RelayInv subjectPrefix w.fault).endTx p
  | rollback => exact h.endTx p
  | exec htx hplan _ =>
    refine h.put hl fun wr hwr => ?_
    rcases List.mem_append.1 hwr with hwr | hwr
    · exact h.writes p _ htx wr hwr
    · exact writeOk_plan hp hplan wr hwr
  | auto _ hplan _ => exact h.commit fun wr hwr => writeOk_plan hp hplan wr (by simpa [Tx.ran, Tx.start] using hwr)
  | @row tx _ _ _ htx =>
    exact RelayInv.put (w := w.setCursor p _) (h.congr (h.locks.congr rfl rfl) rfl rfl rfl) hl (h.writes p tx htx)
  | publish subject msgID data t =>
    obtain ⟨u, o, ho, -, hm⟩ := hp
    exact h.accept ⟨o, List.mem_of_find?_eq_some ho, hm⟩ t fun _ => id
  | timeout subject msgID data text =>
    obtain ⟨u, o, ho, -, hm⟩ := hp
    refine ⟨hl, h.writes, h.marked, h.accepted, fun m hmem => ?_, ⟨h.dedup.stored, h.dedup.once⟩⟩
    rcases List.mem_append.1 hmem with hmem | hmem
    · exact h.inflight m hmem
    · rw [List.mem_singleton.1 hmem]
      exact ⟨o, List.mem_of_find?_eq_some ho, hm⟩
  | _ => exact h.congr hl rfl rfl rfl

theorem RelayInv.env {c : Choice} (h : RelayInv subjectPrefix w) (hc : World.env c w = some w') :
    RelayInv subjectPrefix w' := by
  rcases World.env_cases hc with ⟨q, l, rfl⟩ | ⟨i, m, t, hi, rfl⟩
  · exact h.congr (h.locks.congr rfl rfl) rfl rfl rfl
  · exact h.accept (h.inflight m (List.mem_of_getElem? hi)) t fun m' hm' => List.mem_of_mem_eraseIdx hm'

end

end relay

end Forge
