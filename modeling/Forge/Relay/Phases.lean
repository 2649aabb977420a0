import Forge.Lib.Protocol
import Forge.Relay.CommitOrder

/-!
# One relay among commands

A relay claims rows in the order of the claiming query, publishes them in that order and then marks them
(`Phase`, `obeys_Run`). Since nobody else locks or marks rows, it passes over none of them (`Batch`), and so
`OrderInv` holds in every state that it reaches together with any commands (`OrderInv.run`).
-/

namespace Forge

open Catalog

namespace relay

/-! ### The protocol -/

/-- Where a process is: a relay has claimed rows, of which it has published `done` and still has to publish
`todo`. -/
inductive Phase
  | gone
  | command
  | idle
  | begun
  | batch (done todo : List OutboxRow)
  | ending

namespace Phase

variable (subjectPrefix : GoString)

/-- The calls of a relay with rows: it fetches, then publishes one after another, and then marks them all. -/
def BatchMay (done todo : List OutboxRow) : Call → Prop
  | .next => done = []
  | .publish subject msgID data => ∃ o, todo.head? = some o ∧ (⟨subject, msgID, data⟩ : Msg) = message subjectPrefix o
  | .exec .tx (.markPublished ids) => todo = [] ∧ ids = done.map (·.id.String)
  | .rollback => True
  | _ => False

def May : Phase → Call → Prop
  | command, op => OfCommand op
  | idle, .begin => True
  | begun, .claim => True
  | begun, .rollback => True
  | batch done todo, op => BatchMay subjectPrefix done todo op
  | ending, .commit => True
  | ending, .rollback => True
  | _, _ => False

def next : Phase → (op : Call) → op.Ans → Phase
  | idle, .begin, .ok () => begun
  | begun, .claim, .ok () => batch [] []
  | batch done todo, .next, .ok (some o) => batch done (todo ++ [o])
  | batch done todo, .publish _ _ _, .ok () => batch (done ++ todo.head?.toList) todo.tail
  | batch _ _, .exec _ _, _ => ending
  | command, _, _ => command
  | _, .rollback, _ => idle
  | _, .commit, _ => idle
  | st, _, _ => st

end Phase

open Phase

section
variable {α : Type} {r : Relay} {Q : α → Phase → Prop}

/-- The judgement of the relay's program. -/
abbrev Keeping {α : Type} (r : Relay) (Q : α → Phase → Prop) (st : Phase) (prog : Proc Call Call.Ans α) : Prop :=
  prog.Obeys (Phase.May r.subjectPrefix) Phase.next Q st

theorem obeys_fetch {limit : Nat} {todo : List OutboxRow} {k : Except Err (List Record) → Proc Call Call.Ans α}
    (herr : ∀ e todo', Keeping r Q (batch [] todo') (k (.error e)))
    (hok : ∀ rows, Keeping r Q (batch [] (todo ++ rows)) (k (.ok (rows.map scan)))) :
    Keeping r Q (batch [] todo) ((fetch limit).run >>= k) := by
  induction limit generalizing todo k with
  | zero =>
    have hnil : Keeping r Q (batch [] todo) (k (.ok [])) := by simpa using hok []
    exact hnil
  | succ limit ih =>
    have hnil : Keeping r Q (batch [] todo) (k (.ok [])) := by simpa using hok []
    simp only [fetch, M.run_bind_bind]
    rw [run_rowsNext_bind]
    refine ⟨rfl, fun a => ?_⟩
    rcases a with e | _ | o
    · exact herr _ todo
    · exact hnil
    · simp only [M.run_bind_bind]
      refine ih (fun e todo' => herr e todo') fun rows => ?_
      rw [List.append_assoc]
      exact hok (o :: rows)

theorem obeys_publishAll (todo : List OutboxRow) {done : List OutboxRow}
    {k : Except Err (List GoString) → Proc Call Call.Ans α}
    (herr : ∀ e done' todo', Keeping r Q (batch done' todo') (k (.error e)))
    (hok : Keeping r Q (batch (done ++ todo) []) (k (.ok (todo.map (·.id.String))))) :
    Keeping r Q (batch done todo) ((publishAll (fun rec => Publish (r.subjectFor rec) rec.ID rec.Payload)
      (todo.map scan)).run >>= k) := by
  induction todo generalizing done k with
  | nil =>
    rw [List.append_nil] at hok
    exact hok
  | cons o todo ih =>
    simp only [List.map_cons, publishAll, M.run_bind_bind, M.run_lift_bind]
    rw [run_Publish_bind]
    refine ⟨⟨o, rfl, rfl⟩, fun a => ?_⟩
    rcases a with e | u
    · exact herr _ done (o :: todo)
    · simp only [M.run_bind_bind]
      refine ih (fun e done' todo' => herr e done' todo') ?_
      rw [List.append_assoc]
      exact hok

theorem obeys_ClaimBatch {k : Except Err Nat → Proc Call Call.Ans α} (hk : ∀ a, Keeping r Q idle (k a)) :
    Keeping r Q idle ((ClaimBatch r.batch fun rec => Publish (r.subjectFor rec) rec.ID rec.Payload).run >>= k) := by
  rw [run_ClaimBatch_bind]
  refine ⟨trivial, fun a => ?_⟩
  rcases a with e | u
  · exact hk _
  simp only [claimTx, M.run_bind_bind]
  rw [run_claimQuery_bind]
  refine ⟨trivial, fun a => ?_⟩
  rcases a with e | u
  · exact ⟨trivial, fun _ => hk _⟩
  have hroll : ∀ a done todo, Keeping r Q (batch done todo) (.call .rollback fun _ => k a) := by
    intro a done todo
    exact ⟨trivial, fun _ => hk a⟩
  refine obeys_fetch (fun e todo => hroll _ [] todo) fun rows => ?_
  cases rows with
  | nil => exact hroll _ [] []
  | cons o rows =>
    simp only [List.map_cons, M.run_bind_bind, List.nil_append]
    refine obeys_publishAll (o :: rows) (fun e done todo => hroll _ done todo) ?_
    dsimp only
    rw [M.run_exec_bind]
    refine ⟨⟨rfl, rfl⟩, fun a => ?_⟩
    rcases a with e | u
    · exact ⟨trivial, fun _ => hk _⟩
    · refine ⟨trivial, fun a => ?_⟩
      rcases a with e | u <;> exact hk _

theorem obeys_DrainOnce (r : Relay) (fuel total : Nat) :
    Keeping r (fun _ st => st = idle) idle (r.DrainOnce fuel total) := by
  induction fuel generalizing total with
  | zero => rfl
  | succ fuel ih =>
    refine obeys_ClaimBatch fun a => ?_
    rcases a with e | n
    · rfl
    · dsimp only
      split
      · rfl
      · exact ih (total + n)

theorem obeys_Run (r : Relay) (fuel ticks : Nat) : Keeping r (fun _ _ => True) idle (r.Run fuel ticks) := by
  induction ticks with
  | zero => trivial
  | succ ticks ih =>
    refine Proc.Obeys.bind (obeys_DrainOnce r fuel 0) fun _ st hst => ?_
    rw [hst]
    exact ih

end

/-! ### The batch of the relay -/

theorem mem_pending {t : Tables} {o : OutboxRow} : o ∈ t.pending ↔ o ∈ t.outbox ∧ o.published_at = none := by
  rw [Tables.pending, List.mem_insertionSort, List.mem_filter, decide_eq_true_eq]

theorem sorted_pending (t : Tables) : t.pending.Pairwise fun o o' => o.place ≤ o'.place := by
  have : IsTrans OutboxRow fun o o' => o.place ≤ o'.place := ⟨fun _ _ _ => le_trans⟩
  have : Std.Total fun o o' : OutboxRow => o.place ≤ o'.place := ⟨fun o o' => le_total o.place o'.place⟩
  exact List.pairwise_insertionSort (fun o o' : OutboxRow => o.place ≤ o'.place) _

/-- Ids are distinct, so a row is the one found by its id. -/
theorem outboxRow_of_mem {t : Tables} {o : OutboxRow} (hids : (t.outbox.map (·.id)).Nodup) (ho : o ∈ t.outbox) :
    t.outboxRow o.id = some o := by
  rcases hrow : t.outboxRow o.id with _ | o'
  · exact absurd (List.find?_eq_none.1 hrow o ho) (by simp)
  · have hid : o'.id = o.id := by simpa using List.find?_some hrow
    rw [List.inj_on_of_nodup_map hids (List.mem_of_find?_eq_some hrow) ho hid]

/-- The relay has claimed `done ++ todo` and published `done`; the rows it has not looked at are still
pending. What is prior to a row was accepted or comes earlier. -/
structure Batch (R : Pid) (done todo : List OutboxRow) (w : World) : Prop where
  holding : Holding R (done ++ todo) w
  published : ∀ o ∈ done, w.bus.Accepted o.id.String
  cursor : ∀ o ∈ w.cursors R, o ∈ w.db.outbox ∧ o.published_at = none
  order : (∀ e ∈ w.log, Timely e) → ∀ a, ¬ w.bus.Accepted a.String →
    Led (fun o => o.id = a) (fun n => Prior w.log a n.id) (done ++ todo ++ w.cursors R)

section
variable {R : Pid} {subjectPrefix : GoString} {w w' : World} {done todo : List OutboxRow} {tx : Tx} {o : OutboxRow}

theorem Batch.mem_outbox (h : Batch R done todo w) (ho : o ∈ done ++ todo ++ w.cursors R) : o ∈ w.db.outbox := by
  rcases List.mem_append.1 ho with ho | ho
  · exact List.mem_of_find?_eq_some (h.holding.row o ho).1
  · exact (h.cursor o ho).1

/-- Nobody else changes the rows, and later events are prior to none of them. -/
theorem Batch.meanwhile (h : Batch R done todo w) (hI : OrderInv R subjectPrefix w) (hm : Meanwhile R w w') :
    Batch R done todo w' := by
  refine ⟨h.holding.others hI.locks hm.toOthers, fun o ho => (h.published o ho).mono hm.accepted, ?_, ?_⟩
  · rw [hm.cursor]
    exact fun o ho => ⟨hm.rows o (h.cursor o ho).1, (h.cursor o ho).2⟩
  · intro ht a hna
    obtain ⟨l, hl, -⟩ := hm.log
    have hled := h.order (fun e he => ht e (hl ▸ List.mem_append_left _ he)) a fun hacc => hna (hacc.mono hm.accepted)
    rw [hm.cursor]
    exact hled.mono fun n hn hab => hm.prior a n.id (List.mem_map_of_mem (h.mem_outbox hn)) hab

/-- The claiming query finds every pending row, the prior ones first. -/
theorem Batch.claim (h : OrderInv R subjectPrefix w) (htx : w.txs R = some tx) (hws : tx.writes = []) :
    Batch R [] [] (w.setCursor R (tx.view w.db).pending) := by
  have hview : tx.view w.db = w.db := by
    unfold Tx.view
    rw [hws]
    rfl
  rw [hview]
  have hcur : (w.setCursor R w.db.pending).cursors R = w.db.pending := Function.update_self ..
  refine ⟨⟨⟨tx, htx, hws, ?_⟩, ?_⟩, ?_, ?_, ?_⟩
  · intro o ho
    cases ho
  · intro o ho
    cases ho
  · intro o ho
    cases ho
  · rw [hcur]
    exact fun o ho => mem_pending.1 ho
  · intro ht a hna
    rw [hcur]
    refine Led.of_sorted (sorted_pending w.db) fun n hn hab => ?_
    obtain ⟨o, ho, rfl⟩ := List.mem_map.1 (h.logged a n.id hab).1
    have hpend : o.published_at = none := by
      by_contra hmarked
      exact hna (h.marked o ho hmarked)
    exact ⟨o, mem_pending.2 ⟨ho, hpend⟩, rfl,
      (h.order ht).placed o ho n (mem_pending.1 hn).1 hab hpend⟩

/-- No row is passed over. -/
theorem Batch.claimable (h : Batch R done todo w) (hI : OrderInv R subjectPrefix w) (htx : w.txs R = some tx)
    (ho : o ∈ w.cursors R) : w.claimable R tx o.id = some o := by
  obtain ⟨tx', htx', hws, -⟩ := h.holding.tx
  cases htx.symm.trans htx'
  obtain ⟨hmem, hpend⟩ := h.cursor o ho
  have hfree : w.blocked R [.outbox o.id] = false := by
    refine Bool.eq_false_iff.2 fun hb => ?_
    obtain ⟨⟨q, k⟩, hl, hqk⟩ := List.any_eq_true.1 hb
    obtain ⟨hq, hk⟩ := of_decide_eq_true hqk
    cases List.mem_singleton.1 hk
    exact hI.fresh q o.id hl hq (List.mem_map_of_mem hmem)
  unfold World.claimable Tx.view
  rw [hws, List.foldl_nil, outboxRow_of_mem hI.nodup hmem]
  exact if_pos ⟨hpend, hfree⟩

theorem Batch.take {rest : List OutboxRow} (h : Batch R done todo w) (hI : OrderInv R subjectPrefix w)
    (htx : w.txs R = some tx) (hcur : w.cursors R = o :: rest) :
    Batch R done (todo ++ [o]) ((w.setCursor R rest).put R { tx with claimed := tx.claimed ++ [o.id] }
      [.outbox o.id]) := by
  have hclaim := h.claimable hI htx (hcur ▸ List.mem_cons_self)
  have hrest : ((w.setCursor R rest).put R { tx with claimed := tx.claimed ++ [o.id] }
    [.outbox o.id]).cursors R = rest := Function.update_self ..
  refine ⟨?_, h.published, ?_, ?_⟩
  · rw [← List.append_assoc]
    exact h.holding.take htx hclaim
  · rw [hrest]
    exact fun o' ho' => h.cursor o' (hcur ▸ List.mem_cons_of_mem _ ho')
  · intro ht a hna
    have hled := h.order ht a hna
    rw [hcur, List.append_cons, List.append_assoc done todo] at hled
    rw [hrest]
    exact hled

/-- What is prior to the next row to be published was accepted. -/
theorem Batch.prior (h : Batch R done (o :: todo) w) (ht : ∀ e ∈ w.log, Timely e) (a b : UUID)
    (hab : Prior w.log a b) (hid : (message subjectPrefix o).id = b.String) : w.bus.Accepted a.String := by
  by_contra hna
  obtain rfl : o.id = b := UUID.String_inj hid
  obtain ⟨o', ho', rfl⟩ := h.order ht a hna done o (todo ++ w.cursors R) (by simp) hab
  exact hna (h.published o' ho')

theorem Batch.publish (h : Batch R done (o :: todo) w) (t : Time) :
    Batch R (done ++ [o]) todo { w with bus := w.bus.accept (message subjectPrefix o) t } := by
  have hgrow : w.bus.accepted <+: (w.bus.accept (message subjectPrefix o) t).accepted := List.prefix_append _ _
  refine ⟨?_, fun o' ho' => ?_, h.cursor, fun ht a hna => ?_⟩
  · rw [List.append_assoc]
    exact h.holding.congr rfl rfl
  · rcases List.mem_append.1 ho' with ho' | ho'
    · exact (h.published o' ho').mono hgrow
    · cases List.mem_singleton.1 ho'
      exact ⟨_, List.mem_append_right _ (List.mem_singleton_self _), rfl⟩
  · have hled := h.order ht a fun hacc => hna (hacc.mono hgrow)
    simpa using hled

/-! ### The phases of a run -/

/-- What the phase of a process says about the world. -/
def Phase.Tracks (R p : Pid) : Phase → World → Prop
  | gone, _ => True
  | command, _ => p ≠ R
  | idle, _ => p = R
  | begun, w => p = R ∧ ∃ tx, w.txs R = some tx ∧ tx.writes = []
  | batch done todo, w => p = R ∧ Batch R done todo w
  | ending, _ => p = R

theorem Phase.Tracks.meanwhile {p : Pid} {st : Phase} (h : Tracks R p st w) (hI : OrderInv R subjectPrefix w)
    (hm : Meanwhile R w w') : Tracks R p st w' := by
  cases st with
  | begun =>
    obtain ⟨hp, tx, htx, hws⟩ := h
    exact ⟨hp, tx, hm.tx.trans htx, hws⟩
  | batch done todo => exact ⟨h.1, h.2.meanwhile hI hm⟩
  | _ => exact h

/-- Only the phase of the relay is about the world. -/
theorem Phase.Tracks.of_ne {q : Pid} {st : Phase} (hq : q ≠ R) (h : Tracks R q st w) : Tracks R q st w' := by
  cases st with
  | gone => trivial
  | command => exact h
  | idle => exact absurd h hq
  | begun => exact absurd h.1 hq
  | batch done todo => exact absurd h.1 hq
  | ending => exact absurd h hq

theorem Batch.permitted {op : Call} (h : Batch R done todo w) (hmay : BatchMay subjectPrefix done todo op) :
    Permitted subjectPrefix op w := by
  cases op with
  | publish subject msgID data =>
    obtain ⟨o, ho, hmsg⟩ := hmay
    obtain ⟨hrow, hpend⟩ := h.holding.row o (List.mem_append_right _ (List.mem_of_mem_head? ho))
    exact ⟨o.id, o, hrow, hpend, hmsg⟩
  | exec db q =>
    cases q with
    | markPublished ids =>
      cases db with
      | pool => exact hmay.elim
      | tx =>
        obtain ⟨-, rfl⟩ := hmay
        intro id hid
        obtain ⟨o, ho, rfl⟩ := List.mem_map.1 hid
        exact h.published o ho
    | _ => exact trivial
  | _ => exact trivial

/-- A call of the relay with rows. -/
theorem Batch.call {op : Call} {c : Choice} {a : op.Ans} (hmay : BatchMay subjectPrefix done todo op)
    (h : Batch R done todo w) (hI : OrderInv R subjectPrefix w) (hc : World.call R op c w = some (a, w')) :
    OrderInv R subjectPrefix w' ∧ Tracks R R (next (batch done todo) op a) w' := by
  have htr : Tracks R R (batch done todo) w := ⟨rfl, h⟩
  have hr : RelayInv subjectPrefix w' := hI.toRelayInv.call (h.permitted hmay) hc
  cases World.call_did hc with
  | rollback => exact ⟨hI.endTx R, rfl⟩
  | nextFault => exact ⟨hI.fault, htr.meanwhile hI (.quiet (List.prefix_refl _) (Nat.le_succ _))⟩
  | noRow => exact ⟨hI, htr⟩
  | @row tx o o' rest htx hcur hclaim =>
    cases (h.claimable hI htx (hcur ▸ List.mem_cons_self)).symm.trans hclaim
    refine ⟨OrderInv.put (w := w.setCursor R rest) (hI.congr ?_ rfl rfl rfl rfl rfl) hr ?_ ?_ ?_, ?_⟩
    · exact hI.toRelayInv.congr (hI.locks.congr rfl rfl) rfl rfl rfl
    · exact fun hne => absurd rfl hne
    · exact hI.events R tx htx
    · exact hI.marks R tx htx
    · exact ⟨rfl, h.take hI htx hcur⟩
  | publish subject msgID data t =>
    obtain ⟨o, ho, hmsg⟩ := hmay
    obtain ⟨todo, rfl⟩ := List.head?_eq_some_iff.1 ho
    rw [hmsg]
    exact ⟨hI.accept ⟨o, h.mem_outbox (by simp), rfl⟩ t (fun _ => id) h.prior, rfl, h.publish t⟩
  | timeout subject msgID data text =>
    obtain ⟨o, ho, hmsg⟩ := hmay
    obtain ⟨todo, rfl⟩ := List.head?_eq_some_iff.1 ho
    rw [hmsg] at hr ⊢
    exact ⟨hI.send hr h.prior, htr.meanwhile hI (.quiet (List.prefix_refl _) le_rfl)⟩
  | @exec q b ws tx htx hplan _ =>
    obtain ⟨tx', htx', hws, -⟩ := h.holding.tx
    cases htx.symm.trans htx'
    have hmarks : ∃ ids t, ws = [.setPublished ids t] := by
      cases q with
      | markPublished ids =>
        cases (Stmt.plan_ok hplan).2
        exact ⟨_, _, rfl⟩
      | _ => exact hmay.elim
    obtain ⟨ids, t, rfl⟩ := hmarks
    refine ⟨hI.put hr (fun hne => absurd rfl hne) ?_ ?_, rfl⟩
    · show ((tx.writes ++ _).filterMap Write.event? |>.map (·.id)).Nodup
      rw [hws]
      exact List.nodup_nil
    · intro wr hwr
      simp only [Tx.ran, hws, List.nil_append, List.mem_singleton] at hwr
      subst hwr
      exact iff_of_true trivial rfl
  | reject | execFault => exact ⟨hI.congr hr rfl rfl rfl rfl rfl, rfl⟩
  | _ => exact hmay.elim

theorem Phase.call_relay {st : Phase} {op : Call} {c : Choice} {a : op.Ans} (hmay : May subjectPrefix st op)
    (hst : st ≠ command) (htr : Tracks R R st w) (hI : OrderInv R subjectPrefix w)
    (hc : World.call R op c w = some (a, w')) : OrderInv R subjectPrefix w' ∧ Tracks R R (next st op a) w' := by
  have hr : Permitted subjectPrefix op w → RelayInv subjectPrefix w' := fun hp => hI.toRelayInv.call hp hc
  cases st with
  | gone => exact hmay.elim
  | command => exact absurd rfl hst
  | idle =>
    cases World.call_did hc with
    | begin =>
      refine ⟨hI.put (hr trivial) (fun hne => absurd rfl hne) List.nodup_nil ?_, rfl, _, Function.update_self .., rfl⟩
      intro wr hwr
      cases hwr
    | beginFault => exact ⟨hI.fault, rfl⟩
    | _ => exact hmay.elim
  | begun =>
    obtain ⟨-, tx, htx, hws⟩ := htr
    cases World.call_did hc with
    | claim h =>
      cases htx.symm.trans h
      exact ⟨hI.congr (hr trivial) rfl rfl rfl rfl rfl, rfl, Batch.claim hI htx hws⟩
    | claimFault => exact ⟨hI.fault, rfl, tx, htx, hws⟩
    | rollback => exact ⟨hI.endTx R, rfl⟩
    | _ => exact hmay.elim
  | batch done todo => exact htr.2.call hmay hI hc
  | ending =>
    cases World.call_did hc with
    | commit h => exact ⟨hI.commit_relay h, rfl⟩
    | abort => exact ⟨hI.fault.endTx R, rfl⟩
    | rollback => exact ⟨hI.endTx R, rfl⟩
    | _ => exact hmay.elim

theorem Phase.call {p : Pid} {st : Phase} {op : Call} {c : Choice} {a : op.Ans} (hmay : May subjectPrefix st op)
    (htr : Tracks R p st w) (hI : OrderInv R subjectPrefix w) (hc : World.call p op c w = some (a, w')) :
    OrderInv R subjectPrefix w' ∧ Tracks R p (next st op a) w' ∧
      ∀ q st', q ≠ p → Tracks R q st' w → Tracks R q st' w' := by
  by_cases hst : st = command
  · subst hst
    obtain ⟨hI', hm⟩ := hI.command htr hmay hc
    exact ⟨hI', by cases op <;> exact htr, fun q st' _ hq => hq.meanwhile hI hm⟩
  obtain rfl : p = R := by
    cases st with
    | gone => exact hmay.elim
    | command => exact absurd rfl hst
    | idle => exact htr
    | begun => exact htr.1
    | batch done todo => exact htr.1
    | ending => exact htr
  obtain ⟨hI', htr'⟩ := Phase.call_relay hmay hst htr hI hc
  exact ⟨hI', htr', fun q st' hq h => h.of_ne hq⟩

/-- What happens by itself: the query of the relay passes over no row of its batch, and a message in flight
is one that was sent in order. -/
theorem OrderInv.env {c : Choice} (hI : OrderInv R subjectPrefix w) (hc : World.env c w = some w') :
    OrderInv R subjectPrefix w' ∧ ∀ q st, Tracks R q st w → Tracks R q st w' := by
  have ho : Others R w w' := World.env_others hc R
  have hr : RelayInv subjectPrefix w' := hI.toRelayInv.env hc
  cases c <;> simp only [World.env, reduceCtorEq] at hc
  case skip p =>
    split at hc
    · rename_i tx htx
      split at hc
      · cases hc
      · rename_i o rest hcur
        split at hc <;> cases hc
        rename_i hnone
        refine ⟨hI.congr hr rfl rfl rfl rfl rfl, fun q st hq => ?_⟩
        by_cases hp : p = R
        · subst hp
          cases st with
          | batch done todo =>
            have := hq.2.claimable hI htx (hcur ▸ List.mem_cons_self)
            rw [hnone] at this
            cases this
          | _ => exact hq
        · exact hq.meanwhile hI (.of_local ho (Function.update_of_ne (Ne.symm hp) ..) rfl rfl)
    · cases hc
  case deliver i t =>
    split at hc <;> cases hc
    rename_i m hi
    have hm : m ∈ w.bus.inflight := List.mem_of_getElem? hi
    refine ⟨hI.accept (hI.inflight m hm) t (fun m' hm' => List.mem_of_mem_eraseIdx hm') ?_, fun q st hq => ?_⟩
    · exact fun ht a b hab hid => (hI.order ht).inflight a b hab m hm hid
    · exact hq.meanwhile hI (.of_local ho rfl rfl rfl)

theorem OrderInv.run [UuidLib] {db : Tables} {ps : Pid → Option Party} {r : Relay} {fuel ticks : Nat}
    (hR : ps R = some (.relayer r fuel ticks)) (hps : ∀ p x, p ≠ R → ps p = some x → ∃ c, x = .command c)
    (hdb : ∀ o ∈ db.outbox, o.published_at = none) (hids : (db.outbox.map (·.id)).Nodup)
    {ms : List (Move Pid Choice)} {s : Pool Pid Call Call.Ans Unit World}
    (hrun : (parties db ps).run World.machine ms = some s) : OrderInv R r.subjectPrefix s.world := by
  have hstart : (parties db ps).Obeying (Phase.May r.subjectPrefix) Phase.next (fun _ _ => True) (Tracks R) gone := by
    intro p
    simp only [parties]
    rcases hp : ps p with _ | x
    · trivial
    by_cases hpR : p = R
    · subst hpR
      cases hR.symm.trans hp
      exact ⟨idle, obeys_Run r fuel ticks, rfl⟩
    · obtain ⟨c, rfl⟩ := hps p x hpR hp
      have huses : (Party.command c).proc.Uses OfCommand :=
        Proc.Uses.bind (f := fun _ => .ret ()) (ofCommand_run c) fun _ => trivial
      exact ⟨Phase.command, huses.obeys (fun _ h => h) (fun op _ _ => by cases op <;> rfl) fun _ => trivial, hpR⟩
  refine (Pool.obeys_run (K := OrderInv R r.subjectPrefix) ?_ ?_ ?_ (.init hdb hids) hstart hrun).1
  · exact fun p op c a st w w' hmay htr hI hc => Phase.call hmay htr hI hc
  · refine fun p w hI => ⟨hI.endTx p, trivial, fun q st hq h => ?_⟩
    by_cases hp : p = R
    · exact h.of_ne (hp ▸ hq)
    · exact h.meanwhile hI (.of_local (World.crash_others hp) rfl rfl rfl)
  · exact fun c w w' hI hc => hI.env hc

end

end relay

end Forge
