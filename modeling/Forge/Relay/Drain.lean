import Forge.Lib.Total
import Forge.Relay.Phases

/-!
# One drain of the relay

A relay that runs alone, over a database that answers, with a publisher that fails on some event ids and
on no others. `DrainOnce` then publishes the pending rows in the order of the claiming query up to the
first failing one, and marks the whole batches before it: a batch with a failing row is published up to
that row and rolled back.

`Relayed` is one step of this: from a world in which nobody has locked anything to another, these messages
were accepted and these rows were marked. A `ClaimBatch` is such a step (`total_ClaimBatch`), the steps
compose (`Relayed.trans`), and after one the rows that are still pending are those it has not marked
(`pending_marked`).
-/

namespace Forge

open Catalog

/-- The rows with these ids are marked published, each at its time. -/
def Tables.marked (t : Tables) (ids : List UUID) (time : UUID → Timestamptz) : Tables :=
  { t with outbox := t.outbox.map fun o =>
      if o.id ∈ ids then { o with published_at := some (time o.id) } else o }

namespace relay

/-- Nothing fails but the publishing of an event whose id is in `F`, and that always does. -/
def Reliable (F : GoString → Bool) : Call → Choice → Bool
  | _, .fault => false
  | .publish _ msgID _, .failed _ => F msgID
  | .publish _ msgID _, .time _ => !F msgID
  | _, _ => true

/-- The world of a relay `p` that runs alone. -/
def alone (p : Pid) (F : GoString → Bool) : Env Call Call.Ans Choice World := (World.call p).restrict (Reliable F)

/-- The process has no transaction and nobody holds a lock. -/
structure Quiet (p : Pid) (w : World) : Prop where
  idle : w.txs p = none
  unlocked : w.locks = []

/-- Between `w` and `w'` the messages of the rows `out` were published, in this order, the rows `done` were
marked, and nothing else has changed in the tables. -/
structure Relayed (subjectPrefix : GoString) (p : Pid) (out done : List OutboxRow) (w w' : World) : Prop where
  quiet : Quiet p w'
  published : w'.bus.accepted.map (·.1) = w.bus.accepted.map (·.1) ++ out.map (message subjectPrefix)
  marked : ∃ time, w'.db = w.db.marked (done.map (·.id)) time

/-! ### Marked rows -/

section
variable {t : Tables} {ids ids' : List UUID} {time time' : UUID → Timestamptz} {o : OutboxRow}

theorem marked_nil (t : Tables) (time : UUID → Timestamptz) : t.marked [] time = t := by
  simp [Tables.marked]

theorem marked_marked (t : Tables) (ids ids' : List UUID) (time time' : UUID → Timestamptz) :
    (t.marked ids time).marked ids' time' =
      t.marked (ids ++ ids') fun id => if id ∈ ids' then time' id else time id := by
  unfold Tables.marked
  simp only [List.map_map, Tables.mk.injEq, true_and, and_true]
  refine List.map_congr_left fun o _ => ?_
  by_cases h : o.id ∈ ids <;> by_cases h' : o.id ∈ ids' <;> simp [h, h']

theorem ids_marked (t : Tables) (ids : List UUID) (time : UUID → Timestamptz) :
    (t.marked ids time).outbox.map (·.id) = t.outbox.map (·.id) := by
  simp only [Tables.marked, List.map_map]
  refine List.map_congr_left fun o _ => ?_
  dsimp only [Function.comp_apply]
  split <;> rfl

theorem mem_pending_marked : o ∈ (t.marked ids time).pending ↔ o ∈ t.pending ∧ o.id ∉ ids := by
  simp only [mem_pending, Tables.marked, List.mem_map]
  constructor
  · rintro ⟨⟨o', ho', rfl⟩, hpend⟩
    split at hpend
    · cases hpend
    · rename_i hid
      rw [if_neg hid]
      exact ⟨⟨ho', hpend⟩, hid⟩
  · rintro ⟨⟨ho, hpend⟩, hid⟩
    exact ⟨⟨o, ho, if_neg hid⟩, hpend⟩

theorem nodup_pending (h : (t.outbox.map (·.id)).Nodup) : (t.pending.map (·.id)).Nodup := by
  have hperm : t.pending.Perm (t.outbox.filter (·.published_at = none)) := List.perm_insertionSort _ _
  rw [(hperm.map _).nodup_iff]
  exact h.sublist (List.filter_sublist.map _)

/-- Once the first rows are marked, the others are pending, in their order. -/
theorem pending_marked (h : (t.outbox.map (·.id)).Nodup) (n : Nat) (time : UUID → Timestamptz) :
    (t.marked ((t.pending.take n).map (·.id)) time).pending = t.pending.drop n := by
  have hnd := nodup_pending h
  have hsplit : ((t.pending.take n).map (·.id) ++ (t.pending.drop n).map (·.id)).Nodup := by
    rw [← List.map_append, List.take_append_drop]
    exact hnd
  have hnd' : ((t.marked ((t.pending.take n).map (·.id)) time).pending.map (·.id)).Nodup :=
    nodup_pending (by rwa [ids_marked])
  have hmem : ∀ o, o ∈ (t.marked ((t.pending.take n).map (·.id)) time).pending ↔ o ∈ t.pending.drop n := by
    intro o
    rw [mem_pending_marked]
    constructor
    · rintro ⟨ho, hid⟩
      rw [← List.take_append_drop n t.pending] at ho
      rcases List.mem_append.1 ho with ho | ho
      · exact absurd (List.mem_map_of_mem ho) hid
      · exact ho
    · intro ho
      refine ⟨List.mem_of_mem_drop ho, fun hid => ?_⟩
      exact List.disjoint_of_nodup_append hsplit hid (List.mem_map_of_mem ho)
  -- both lists are sorted by a key that no two rows share
  refine @List.Perm.eq_of_pairwise OutboxRow (fun o o' => o.place ≤ o'.place) _ _ ?_ (sorted_pending _)
    ((sorted_pending t).sublist (List.drop_sublist n _)) ?_
  · intro o o' ho ho' hle hge
    have hplace : o.place = o'.place := le_antisymm hle hge
    have hid : o.id = o'.id := congrArg (fun x => (ofLex x).2) hplace
    exact List.inj_on_of_nodup_map hnd (List.mem_of_mem_drop ((hmem o).1 ho)) (List.mem_of_mem_drop ho') hid
  · exact (List.perm_ext_iff_of_nodup (List.Nodup.of_map _ hnd')
      ((List.Nodup.of_map _ hnd).sublist (List.drop_sublist n _))).2 hmem

end

/-! ### Steps -/

namespace Relayed

variable {subjectPrefix : GoString} {p : Pid} {out out' done done' : List OutboxRow} {w w' w'' : World}

theorem trans (h : Relayed subjectPrefix p out done w w') (h' : Relayed subjectPrefix p out' done' w' w'') :
    Relayed subjectPrefix p (out ++ out') (done ++ done') w w'' := by
  obtain ⟨time, hdb⟩ := h.marked
  obtain ⟨time', hdb'⟩ := h'.marked
  refine ⟨h'.quiet, ?_, ?_⟩
  · rw [h'.published, h.published, List.append_assoc, List.map_append]
  · rw [hdb', hdb, marked_marked, List.map_append]
    exact ⟨_, rfl⟩

theorem nodup (h : Relayed subjectPrefix p out done w w') (hids : (w.db.outbox.map (·.id)).Nodup) :
    (w'.db.outbox.map (·.id)).Nodup := by
  obtain ⟨time, hdb⟩ := h.marked
  rwa [hdb, ids_marked]

theorem pending {n : Nat} (h : Relayed subjectPrefix p out (w.db.pending.take n) w w')
    (hids : (w.db.outbox.map (·.id)).Nodup) : w'.db.pending = w.db.pending.drop n := by
  obtain ⟨time, hdb⟩ := h.marked
  rw [hdb, pending_marked hids]

end Relayed

/-! ### The calls of a relay alone -/

/-- The relay has an open transaction that has written `ws`, only its own locks exist, and the claiming query
has `rest` left. `db` are the committed tables, `sent` the messages accepted so far. -/
structure Claiming (p : Pid) (db : Tables) (sent : List Msg) (ws : List Write) (rest : List OutboxRow)
    (w : World) : Prop where
  tx : ∃ tx, w.txs p = some tx ∧ tx.writes = ws
  own : ∀ l ∈ w.locks, l.1 = p
  tables : w.db = db
  messages : w.bus.accepted.map (·.1) = sent
  cursor : w.cursors p = rest

section
variable {α : Type} {p : Pid} {F : GoString → Bool} {Q : α → World → Prop} {w : World} {db : Tables}
  {sent : List Msg} {ws : List Write} {rest : List OutboxRow}

namespace Claiming

theorem unblocked (h : Claiming p db sent ws rest w) (ks : List Key) : w.blocked p ks = false := by
  refine Bool.eq_false_iff.2 fun hb => ?_
  obtain ⟨l, hl, hlk⟩ := List.any_eq_true.1 hb
  exact (of_decide_eq_true hlk).1 (h.own l hl)

/-- More locks of the relay. -/
theorem own_append (h : Claiming p db sent ws rest w) (ks : List Key) : ∀ l ∈ w.locks ++ ks.map (p, ·), l.1 = p := by
  intro l hl
  rcases List.mem_append.1 hl with hl | hl
  · exact h.own l hl
  · obtain ⟨key, -, rfl⟩ := List.mem_map.1 hl
    rfl

/-- The end of the transaction releases all locks. -/
theorem released (h : Claiming p db sent ws rest w) : w.locks.filter (·.1 ≠ p) = [] :=
  List.filter_eq_nil_iff.2 fun l hl => by simp [h.own l hl]

theorem view {tx : Tx} (h : Claiming p db sent ws rest w) (hws : tx.writes = ws) :
    tx.view w.db = ws.foldl Write.apply db := by
  rw [Tx.view, hws, h.tables]

end Claiming

/-- The calls that have one outcome as long as nothing fails. -/
inductive Steady : Call → Prop
  | commit : Steady .commit
  | rollback : Steady .rollback
  | claim : Steady .claim
  | next : Steady .next
  | exec (q : Stmt) : Steady (.exec .tx q)

theorem Steady.eq_ok {op : Call} {c : Choice} {r : op.Ans × World} (hop : Steady op)
    (hc : alone p F op c w = some r) : c = .ok := by
  cases hop <;> cases c <;> first | rfl | cases hc

theorem Steady.reliable {op : Call} (hop : Steady op) : Reliable F op .ok = true := by
  cases hop <;> rfl

theorem total_steady {op : Call} {k : op.Ans → Proc Call Call.Ans α} {a : op.Ans} {w₁ : World} (hop : Steady op)
    (hcall : World.call p op .ok w = some (a, w₁)) (hk : (k a).Total (alone p F) Q w₁) :
    (Proc.call op k).Total (alone p F) Q w := by
  have hok : alone p F op .ok w = some (a, w₁) := by
    rw [alone, Env.restrict_of hop.reliable, hcall]
  refine ⟨⟨.ok, a, w₁, hok⟩, fun c a' w' hc => ?_⟩
  obtain rfl := hop.eq_ok hc
  obtain ⟨rfl, rfl⟩ := Prod.mk.inj (Option.some.inj (hok.symm.trans hc))
  exact hk

theorem total_begin {k : Except PgError Unit → Proc Call Call.Ans α} (hq : Quiet p w)
    (hk : ∀ w', Claiming p w.db (w.bus.accepted.map (·.1)) [] (w.cursors p) w' →
      (k (.ok ())).Total (alone p F) Q w') :
    (Proc.call .begin k).Total (alone p F) Q w := by
  constructor
  · refine ⟨.time 0, .ok (), w.put p (.start (pgTime 0)) [], ?_⟩
    simp [alone, Env.restrict, Reliable, World.call, hq.idle]
  · intro c a w' hc
    cases c <;> simp [alone, Env.restrict, Reliable, World.call, hq.idle] at hc
    obtain ⟨rfl, rfl⟩ := hc
    refine hk _ ⟨⟨_, Function.update_self .., rfl⟩, ?_, rfl, rfl, rfl⟩
    simp [World.put, hq.unlocked]

theorem total_claim {k : Except PgError Unit → Proc Call Call.Ans α} (h : Claiming p db sent [] rest w)
    (hk : ∀ w', Claiming p db sent [] db.pending w' → (k (.ok ())).Total (alone p F) Q w') :
    (Proc.call .claim k).Total (alone p F) Q w := by
  obtain ⟨tx, htx, hws⟩ := h.tx
  have hcall : World.call p .claim .ok w = some (.ok (), w.setCursor p db.pending) := by
    simp only [World.call, htx, h.view hws, List.foldl_nil]
  exact total_steady .claim hcall (hk _ ⟨⟨tx, htx, hws⟩, h.own, h.tables, h.messages, Function.update_self ..⟩)

theorem total_noRow {k : Except PgError (Option OutboxRow) → Proc Call Call.Ans α}
    (h : Claiming p db sent ws [] w) (hk : (k (.ok none)).Total (alone p F) Q w) :
    (Proc.call .next k).Total (alone p F) Q w := by
  obtain ⟨tx, htx, hws⟩ := h.tx
  have hcall : World.call p .next .ok w = some (.ok none, w) := by
    simp only [World.call, htx, h.cursor]
  exact total_steady .next hcall hk

/-- Nobody has locked the next row, so it is taken. -/
theorem total_row {o : OutboxRow} {k : Except PgError (Option OutboxRow) → Proc Call Call.Ans α}
    (h : Claiming p db sent [] (o :: rest) w) (hrow : db.outboxRow o.id = some o) (hpend : o.published_at = none)
    (hk : ∀ w', Claiming p db sent [] rest w' → (k (.ok (some o))).Total (alone p F) Q w') :
    (Proc.call .next k).Total (alone p F) Q w := by
  obtain ⟨tx, htx, hws⟩ := h.tx
  have hclaim : w.claimable p tx o.id = some o := by
    unfold World.claimable
    rw [h.view hws, List.foldl_nil, hrow]
    exact if_pos ⟨hpend, h.unblocked _⟩
  have hcall : World.call p .next .ok w = some (.ok (some o),
      (w.setCursor p rest).put p { tx with claimed := tx.claimed ++ [o.id] } [.outbox o.id]) := by
    simp only [World.call, htx, h.cursor, hclaim]
  exact total_steady .next hcall (hk _ ⟨⟨_, Function.update_self .., hws⟩, h.own_append [.outbox o.id], h.tables,
    h.messages, Function.update_self ..⟩)

theorem total_publish {m : Msg} {k : Except GoString Unit → Proc Call Call.Ans α}
    (h : Claiming p db sent ws rest w)
    (hok : F m.id = false → ∀ w', Claiming p db (sent ++ [m]) ws rest w' → (k (.ok ())).Total (alone p F) Q w')
    (herr : F m.id = true → ∀ text w', Claiming p db sent ws rest w' → (k (.error text)).Total (alone p F) Q w') :
    (Proc.call (.publish m.subject m.id m.data) k).Total (alone p F) Q w := by
  cases hF : F m.id with
  | false =>
    constructor
    · refine ⟨.time 0, .ok (), { w with bus := w.bus.accept m 0 }, ?_⟩
      simp [alone, Env.restrict, Reliable, World.call, hF]
    · intro c a w' hc
      cases c <;> simp [alone, Env.restrict, Reliable, World.call, hF] at hc
      obtain ⟨rfl, rfl⟩ := hc
      refine hok hF _ ⟨h.tx, h.own, h.tables, ?_, h.cursor⟩
      simp [Bus.accept, h.messages]
  | true =>
    constructor
    · refine ⟨.failed [], .error [], { w with bus := { w.bus with inflight := w.bus.inflight ++ [m] } }, ?_⟩
      simp [alone, Env.restrict, Reliable, World.call, hF]
    · intro c a w' hc
      cases c <;> simp [alone, Env.restrict, Reliable, World.call, hF] at hc
      obtain ⟨rfl, rfl⟩ := hc
      exact herr hF _ _ ⟨h.tx, h.own, h.tables, h.messages, h.cursor⟩

theorem total_rollback {k : Unit → Proc Call Call.Ans α} (h : Claiming p db sent ws rest w)
    (hk : ∀ w', Quiet p w' → w'.db = db → w'.bus.accepted.map (·.1) = sent → (k ()).Total (alone p F) Q w') :
    (Proc.call .rollback k).Total (alone p F) Q w :=
  total_steady .rollback rfl (hk (w.endTx p) ⟨Function.update_self .., h.released⟩ h.tables h.messages)

theorem total_commit {k : Except PgError Unit → Proc Call Call.Ans α} (h : Claiming p db sent ws rest w)
    (hk : ∀ w', Quiet p w' → w'.db = ws.foldl Write.apply db → w'.bus.accepted.map (·.1) = sent →
      (k (.ok ())).Total (alone p F) Q w') :
    (Proc.call .commit k).Total (alone p F) Q w := by
  obtain ⟨tx, htx, hws⟩ := h.tx
  have hcall : World.call p .commit .ok w = some (.ok (), (w.commit p tx).endTx p) := by
    simp only [World.call, htx]
  exact total_steady .commit hcall (hk _ ⟨Function.update_self .., h.released⟩ (h.view hws) h.messages)

/-- What the `UPDATE` of the rows with these ids writes. -/
def markWrite (t : Tables) (ids : List UUID) (now : Timestamptz) : Write :=
  .setPublished ((t.outbox.filter (·.id ∈ ids)).map (·.id)) now

/-- The statement finds the rows by the text of their ids. -/
theorem plan_markPublished (now : Timestamptz) (t : Tables) (ids : List UUID) :
    Stmt.plan now t (.markPublished (ids.map UUID.String)) = .ok ((), [markWrite t ids now]) := by
  have htext : ∀ u : UUID, u.String ∈ ids.map UUID.String ↔ u ∈ ids :=
    fun u => List.mem_map_of_injective fun _ _ => UUID.String_inj
  have htaken : (Stmt.markPublished (ids.map UUID.String)).Taken := by
    refine ⟨fun s hs => ?_, fun _ hs => nomatch hs⟩
    obtain ⟨u, -, rfl⟩ := List.mem_map.1 hs
    exact .of_plain (plain_String u)
  rw [Stmt.plan_of_taken htaken]
  simp only [Stmt.eval, markWrite, htext]

theorem apply_markWrite (t : Tables) (ids : List UUID) (now : Timestamptz) :
    (markWrite t ids now).apply t = t.marked ids fun _ => now := by
  unfold markWrite Write.apply Tables.marked
  simp only [Tables.mk.injEq, true_and, and_true]
  refine List.map_congr_left fun o ho => ?_
  have hiff : o.id ∈ (t.outbox.filter (·.id ∈ ids)).map (·.id) ↔ o.id ∈ ids := by
    constructor
    · intro h
      obtain ⟨o', ho', hid⟩ := List.mem_map.1 h
      rw [← hid]
      exact of_decide_eq_true (List.mem_filter.1 ho').2
    · intro h
      exact List.mem_map_of_mem (List.mem_filter.2 ⟨ho, decide_eq_true h⟩)
  simp only [hiff]

theorem total_mark {ids : List UUID} {k : Except PgError Unit → Proc Call Call.Ans α}
    (h : Claiming p db sent [] rest w)
    (hk : ∀ now w', Claiming p db sent [markWrite db ids now] rest w' → (k (.ok ())).Total (alone p F) Q w') :
    (Proc.call (.exec .tx (.markPublished (ids.map UUID.String))) k).Total (alone p F) Q w := by
  obtain ⟨tx, htx, hws⟩ := h.tx
  have hcall : World.call p (.exec .tx (.markPublished (ids.map UUID.String))) .ok w = some (.ok (),
      w.put p (tx.ran (.markPublished (ids.map UUID.String)) () [markWrite db ids tx.begun])
        ([markWrite db ids tx.begun].flatMap Write.keys)) := by
    simp only [World.call, htx, h.view hws, List.foldl_nil, plan_markPublished, h.unblocked, Bool.false_eq_true,
      if_false]
  refine total_steady (.exec _) hcall (hk tx.begun _ ⟨⟨_, Function.update_self .., ?_⟩, h.own_append _, h.tables,
    h.messages, h.cursor⟩)
  rw [Tx.ran, hws, List.nil_append]

/-! ### A batch -/

theorem total_fetch {limit : Nat} {k : Except Err (List Record) → Proc Call Call.Ans α}
    (h : Claiming p db sent [] rest w)
    (hrest : ∀ o ∈ rest, db.outboxRow o.id = some o ∧ o.published_at = none)
    (hk : ∀ w', Claiming p db sent [] (rest.drop limit) w' →
      (k (.ok ((rest.take limit).map scan))).Total (alone p F) Q w') :
    ((fetch limit).run >>= k).Total (alone p F) Q w := by
  induction limit generalizing rest w k with
  | zero => exact hk w h
  | succ limit ih =>
    simp only [fetch, M.run_bind_bind]
    rw [run_rowsNext_bind]
    cases rest with
    | nil => exact total_noRow h (hk w h)
    | cons o rest =>
      obtain ⟨hrow, hpend⟩ := hrest o List.mem_cons_self
      refine total_row h hrow hpend fun w₁ h₁ => ?_
      simp only [M.run_bind_bind]
      exact ih h₁ (fun o' ho' => hrest o' (List.mem_cons_of_mem _ ho')) fun w' h' => hk w' h'

/-- Publishing an event of the row fails. -/
abbrev Fails (F : GoString → Bool) (o : OutboxRow) : Bool := F o.id.String

/-- The rows before the first failing one are published. -/
theorem total_publishAll {r : Relay} (rows : List OutboxRow) {k : Except Err (List GoString) → Proc Call Call.Ans α}
    (h : Claiming p db sent [] rest w)
    (hok : rows.findIdx (Fails F) = rows.length → ∀ w',
      Claiming p db (sent ++ rows.map (message r.subjectPrefix)) [] rest w' →
      (k (.ok (rows.map (·.id.String)))).Total (alone p F) Q w')
    (herr : rows.findIdx (Fails F) < rows.length → ∀ e w',
      Claiming p db (sent ++ (rows.take (rows.findIdx (Fails F))).map (message r.subjectPrefix)) [] rest w' →
      (k (.error e)).Total (alone p F) Q w') :
    ((publishAll (fun rec => Publish (r.subjectFor rec) rec.ID rec.Payload) (rows.map scan)).run >>= k).Total
      (alone p F) Q w := by
  induction rows generalizing sent w k with
  | nil => exact hok rfl w (by simpa using h)
  | cons o rows ih =>
    simp only [List.map_cons, publishAll, M.run_bind_bind, M.run_lift_bind]
    rw [run_Publish_bind]
    refine total_publish (m := message r.subjectPrefix o) h (fun hF w₁ h₁ => ?_) (fun hF text w₁ h₁ => ?_)
    · -- the row is published, and the rest is that of the other rows
      have hidx : (o :: rows).findIdx (Fails F) = rows.findIdx (Fails F) + 1 := by
        rw [List.findIdx_cons]
        simp [Fails, show F o.id.String = false from hF]
      rw [hidx] at hok herr
      simp only [M.run_bind_bind]
      refine ih h₁ (fun hall w' h' => ?_) (fun hlt e w' h' => ?_)
      · exact hok (by simp [hall]) w' (by simpa using h')
      · exact herr (by simpa using hlt) e w' (by simpa using h')
    · have hidx : (o :: rows).findIdx (Fails F) = 0 := by
        rw [List.findIdx_cons]
        simp [Fails, show F o.id.String = true from hF]
      rw [hidx] at herr
      exact herr (by simp) _ w₁ (by simpa using h₁)

/-- A batch without a failing row is published and marked; one with a failing row is published up to that row,
and none of it is marked. -/
theorem total_ClaimBatch {r : Relay} {k : Except Err Nat → Proc Call Call.Ans α} (hq : Quiet p w)
    (hids : (w.db.outbox.map (·.id)).Nodup) {rows : List OutboxRow} (hrows : rows = w.db.pending.take r.batch)
    (hok : rows.findIdx (Fails F) = rows.length → ∀ w', Relayed r.subjectPrefix p rows rows w w' →
      (k (.ok rows.length)).Total (alone p F) Q w')
    (herr : rows.findIdx (Fails F) < rows.length → ∀ e w',
      Relayed r.subjectPrefix p (rows.take (rows.findIdx (Fails F))) [] w w' →
      (k (.error e)).Total (alone p F) Q w') :
    ((ClaimBatch r.batch fun rec => Publish (r.subjectFor rec) rec.ID rec.Payload).run >>= k).Total
      (alone p F) Q w := by
  rw [run_ClaimBatch_bind]
  refine total_begin hq fun w₁ h₁ => ?_
  simp only [claimTx, M.run_bind_bind]
  rw [run_claimQuery_bind]
  refine total_claim h₁ fun w₂ h₂ => ?_
  have hpending : ∀ o ∈ w.db.pending, w.db.outboxRow o.id = some o ∧ o.published_at = none := fun o ho =>
    ⟨outboxRow_of_mem hids (mem_pending.1 ho).1, (mem_pending.1 ho).2⟩
  refine total_fetch h₂ hpending fun w₃ h₃ => ?_
  rw [← hrows]
  clear hrows
  cases rows with
  | nil =>
    refine total_rollback h₃ fun w' hq' hdb hsent => hok rfl w' ⟨hq', by simpa using hsent, fun _ => 0, ?_⟩
    rw [hdb]
    exact (marked_nil _ _).symm
  | cons o rows =>
    simp only [List.map_cons, M.run_bind_bind]
    refine total_publishAll (o :: rows) h₃ (fun hall w₄ h₄ => ?_) (fun hlt e w₄ h₄ => ?_)
    · dsimp only
      rw [M.run_exec_bind]
      have htexts : (o :: rows).map (·.id.String) = ((o :: rows).map (·.id)).map UUID.String := by
        rw [List.map_map]
        rfl
      rw [htexts]
      refine total_mark h₄ fun now w₅ h₅ => total_commit h₅ fun w' hq' hdb hsent => ?_
      rw [List.length_cons, List.length_map]
      refine hok hall w' ⟨hq', hsent, fun _ => now, ?_⟩
      rw [hdb]
      exact apply_markWrite w.db _ now
    · refine total_rollback h₄ fun w' hq' hdb hsent => herr hlt _ w' ⟨hq', hsent, fun _ => 0, ?_⟩
      rw [hdb]
      exact (marked_nil _ _).symm

/-! ### The loop -/

theorem total_DrainOnce {r : Relay} {Q : Option (Nat × Option Err) → World → Prop} {fuel total : Nat}
    (hq : Quiet p w) (hids : (w.db.outbox.map (·.id)).Nodup) {rows : List OutboxRow} (hrows : rows = w.db.pending)
    (hfuel : rows.length / r.batch < fuel)
    (hok : rows.findIdx (Fails F) = rows.length → ∀ w', Relayed r.subjectPrefix p rows rows w w' →
      Q (some (total + rows.length, none)) w')
    (herr : rows.findIdx (Fails F) < rows.length → ∀ e w',
      Relayed r.subjectPrefix p (rows.take (rows.findIdx (Fails F)))
        (rows.take (r.batch * (rows.findIdx (Fails F) / r.batch))) w w' →
      Q (some (total + r.batch * (rows.findIdx (Fails F) / r.batch), some e)) w') :
    (r.DrainOnce fuel total).Total (alone p F) Q w := by
  -- by induction on the fuel: a full batch leaves the rows after it to the rest of the loop
  induction fuel generalizing total w rows with
  | zero => exact absurd hfuel (Nat.not_lt_zero _)
  | succ fuel ih =>
    have hb := r.batch_pos
    have hsplit : rows.findIdx (Fails F) = if (rows.take r.batch).findIdx (Fails F) < (rows.take r.batch).length
        then (rows.take r.batch).findIdx (Fails F)
        else (rows.drop r.batch).findIdx (Fails F) + (rows.take r.batch).length := by
      rw [← List.findIdx_append, List.take_append_drop]
    have hlen : (rows.take r.batch).length = min r.batch rows.length := List.length_take
    refine total_ClaimBatch hq hids (by rw [← hrows]) (fun hall w₁ h₁ => ?_) (fun hlt e w₁ h₁ => ?_)
    · rw [hall, if_neg (Nat.lt_irrefl _)] at hsplit
      dsimp only
      by_cases hfull : (rows.take r.batch).length < r.batch
      · -- the last batch
        have htake : rows.take r.batch = rows := List.take_of_length_le (by omega)
        rw [if_pos hfull]
        rw [htake] at h₁ hall ⊢
        exact hok hall w₁ h₁
      · have hfull' : (rows.take r.batch).length = r.batch := by omega
        have hle : r.batch ≤ rows.length := by omega
        rw [if_neg hfull, hfull']
        rw [hfull'] at hsplit
        have hpend : rows.drop r.batch = w₁.db.pending := by
          rw [hrows] at h₁ ⊢
          exact (h₁.pending hids).symm
        have hdiv : rows.length / r.batch = (rows.length - r.batch) / r.batch + 1 := Nat.div_eq_sub_div hb hle
        refine ih h₁.quiet (h₁.nodup hids) hpend ?_ (fun hall' w' h' => ?_) (fun hlt' e w' h' => ?_)
        · rw [List.length_drop]
          omega
        · have hQ := hok (by rw [hsplit, hall', List.length_drop]; omega) w' (by simpa using h₁.trans h')
          rw [List.length_drop, Nat.add_assoc, Nat.add_sub_cancel' hle]
          exact hQ
        · have hlt : rows.findIdx (Fails F) < rows.length := by
            rw [hsplit]
            rw [List.length_drop] at hlt'
            omega
          have hk : r.batch * (rows.findIdx (Fails F) / r.batch) =
              r.batch + r.batch * ((rows.drop r.batch).findIdx (Fails F) / r.batch) := by
            rw [hsplit, Nat.add_div_right _ hb, Nat.mul_succ, Nat.add_comm]
          have hQ := herr hlt e w'
          rw [hk, hsplit, Nat.add_comm _ r.batch, List.take_add, List.take_add, ← Nat.add_assoc] at hQ
          exact hQ (h₁.trans h')
    · -- the first failing row is in this batch
      rw [if_pos hlt] at hsplit
      rw [← hsplit] at hlt h₁
      have hzero : rows.findIdx (Fails F) / r.batch = 0 := Nat.div_eq_of_lt (by omega)
      have hQ := herr (by omega) e w₁
      rw [hzero, Nat.mul_zero, List.take_zero] at hQ
      rw [List.take_take, Nat.min_eq_left (by omega)] at h₁
      exact hQ h₁

end

theorem New_batch (subjectPrefix : GoString) {b : Nat} (hb : 1 ≤ b) :
    New subjectPrefix b = ⟨subjectPrefix, b, hb⟩ := by
  unfold New
  rw [dif_neg (by omega)]
  rfl

/-- The relay with batches of `b` runs alone and publishing fails exactly on the ids of `F`; ids are the primary
key of the table. `L` are the pending rows. With no row of `L` in `F`, `DrainOnce` returns their number, and
every row was published once, in order, and marked. Otherwise, the first one in `F` being the `k`-th, it returns
an error and `b * (k / b)`: the first `k` rows were published, in order, and of them that many marked; once
publishing fails no more, another `DrainOnce` publishes and marks all the rest. -/
theorem DrainOnce_whole_batches (subjectPrefix : GoString) {b : Nat} (hb : 1 ≤ b) (F : GoString → Bool) (p : Pid)
    {w : World} (hq : Quiet p w) (hids : (w.db.outbox.map (·.id)).Nodup) {L : List OutboxRow}
    (hL : L = w.db.pending) (fuel : Nat) (hfuel : L.length / b < fuel) :
    ((∀ o ∈ L, F o.id.String = false) →
      ((New subjectPrefix b).DrainOnce fuel 0).Total (alone p F)
        (fun a w' => a = some (L.length, none) ∧ Relayed subjectPrefix p L L w w') w) ∧
    ∀ k (hk : k < L.length), F L[k].id.String = true → (∀ o ∈ L.take k, F o.id.String = false) →
      ((New subjectPrefix b).DrainOnce fuel 0).Total (alone p F)
        (fun a w' => (∃ e, a = some (b * (k / b), some e)) ∧
          Relayed subjectPrefix p (L.take k) (L.take (b * (k / b))) w w' ∧
          ∀ fuel', L.length / b < fuel' →
            ((New subjectPrefix b).DrainOnce fuel' 0).Total (alone p fun _ => false)
              (fun a w'' => a = some (L.length - b * (k / b), none) ∧
                Relayed subjectPrefix p (L.drop (b * (k / b))) (L.drop (b * (k / b))) w' w'' ∧
                w''.db.pending = []) w') w := by
  rw [New_batch subjectPrefix hb]
  constructor
  · intro hall
    have hidx : L.findIdx (Fails F) = L.length := List.findIdx_eq_length.2 fun o ho => hall o ho
    refine total_DrainOnce hq hids hL hfuel (fun _ w' h' => ?_) (fun hlt => ?_)
    · rw [Nat.zero_add]
      exact ⟨rfl, h'⟩
    · exact absurd hidx hlt.ne
  · intro k hk hF hbefore
    have hidx : L.findIdx (Fails F) = k := by
      refine (List.findIdx_eq hk).2 ⟨hF, fun i hi => ?_⟩
      exact hbefore _ (List.mem_take_iff_getElem.2 ⟨i, by omega, rfl⟩)
    refine total_DrainOnce hq hids hL hfuel (fun hall => ?_) (fun _ e w' h' => ?_)
    · omega
    rw [hidx] at h' ⊢
    dsimp only at h'
    have hpend : L.drop (b * (k / b)) = w'.db.pending := by
      rw [hL] at h' ⊢
      exact (h'.pending hids).symm
    refine ⟨⟨e, by rw [Nat.zero_add]⟩, h', fun fuel' hfuel' => ?_⟩
    have hnone : (L.drop (b * (k / b))).findIdx (Fails fun _ => false) = (L.drop (b * (k / b))).length :=
      List.findIdx_eq_length.2 fun _ _ => rfl
    refine total_DrainOnce h'.quiet (h'.nodup hids) hpend ?_ (fun _ w'' h'' => ?_) (fun hlt => ?_)
    · rw [List.length_drop]
      exact lt_of_le_of_lt (Nat.div_le_div_right (Nat.sub_le _ _)) hfuel'
    · refine ⟨by rw [Nat.zero_add, List.length_drop], h'', ?_⟩
      rw [hpend] at h''
      have hall : Relayed subjectPrefix p w'.db.pending (w'.db.pending.take w'.db.pending.length) w' w'' := by
        rwa [List.take_length]
      rw [hall.pending (h'.nodup hids), List.drop_length]
    · exact absurd hnone hlt.ne

/-- Three events, of which the last was written first. -/
def drainTables : Tables :=
  let row (id : BitVec 128) (created_at : Timestamptz) : OutboxRow :=
    ⟨⟨id⟩, ⟨9⟩, "catalog.service.retired", ⟨"catalog.service.retired", "9", .retired⟩, 0, none, created_at⟩
  ⟨[], [], [row 1 20, row 2 30, row 3 10], []⟩

/-- In batches of two, publishing the third event fails. -/
theorem DrainOnce_whole_batches_sample :
    ∃ cs e w', ((New "forge.events" 2).DrainOnce 2 0).exec (alone 0 fun id => id = UUID.String ⟨2⟩) cs
        (.init drainTables) = some (some (2, some e), w') ∧
      w'.bus.accepted.map (·.1.id) = [UUID.String ⟨3⟩, UUID.String ⟨1⟩] ∧
      w'.db.pending.map (·.id) = [⟨2⟩] := by
  obtain ⟨-, hfails⟩ := DrainOnce_whole_batches "forge.events" (show 1 ≤ 2 by decide)
    (fun id => id = UUID.String ⟨2⟩) 0 (w := .init drainTables) ⟨rfl, rfl⟩ (by decide) rfl 2 (by decide)
  obtain ⟨cs, a, w', hexec, ⟨e, rfl⟩, h, -⟩ := (hfails 2 (by decide) (by decide) (by decide)).returns
  refine ⟨cs, e, w', hexec, ?_, ?_⟩
  · have hout : w'.bus.accepted.map (·.1.id) = (w'.bus.accepted.map (·.1)).map (·.id) := by
      rw [List.map_map]
      rfl
    rw [hout, h.published]
    decide
  · rw [h.pending (by decide)]
    decide

end relay

end Forge
