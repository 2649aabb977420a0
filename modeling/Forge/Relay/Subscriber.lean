import Forge.Relay.Drain
import Forge.Relay.Replay

/-!
# What a subscriber learns

A subscriber reads every message of the stream and drops those whose id it has seen. With one relay and timely
commits, what it has heard of a service at any moment is the log of the service in some state that was
committed, so that it replays to the row of that state: a subscriber may be late, but it never sees events out of
order, one left out or one twice (`subscriber_sees_past`). Once nobody holds a lock, one drain of the relay with
nothing failing brings every subscriber up to date (`drained_current`).
-/

namespace Forge

open Catalog

/-! ### Messages that are new -/

/-- The messages of the stream, for a subscriber that drops those whose id it has seen. -/
def Bus.heard (b : Bus) : List Msg := firsts (·.id) (b.stream.map (·.1))

/-- What it has heard of one service. -/
def Bus.heardOf (b : Bus) (id : UUID) : List Msg := b.heard.filter (·.data.AggregateID = id.String)

/-- The stream has dropped only what can be heard in it. -/
def Bus.Complete (b : Bus) : Prop := b.heard = firsts (·.id) (b.accepted.map (·.1))

theorem Bus.Complete.accept {b : Bus} (h : b.Complete) (m : Msg) (t : Time) : (b.accept m t).Complete := by
  have hacc : (b.accept m t).accepted.map (·.1) = b.accepted.map (·.1) ++ [m] := List.map_append
  unfold Bus.Complete at h ⊢
  rw [hacc]
  by_cases hdup : (b.stream.any fun s => s.1.id = m.id ∧ t < s.2 + Duplicates) = true
  · have hstream : (b.accept m t).heard = b.heard := by
      unfold Bus.heard
      rw [show (b.accept m t).stream = b.stream from if_pos hdup]
    obtain ⟨s, hs, hid⟩ := List.any_eq_true.1 hdup
    have hheard : m.id ∈ b.heard.map (·.id) := by
      refine key_mem_firsts.2 (List.mem_map.2 ⟨s.1, List.mem_map_of_mem hs, ?_⟩)
      exact (of_decide_eq_true hid).1
    rw [hstream, firsts_concat_of_mem (h ▸ hheard), h]
  · have hstream : (b.accept m t).heard = firsts (·.id) (b.stream.map (·.1) ++ [m]) := by
      unfold Bus.heard
      rw [show (b.accept m t).stream = b.stream ++ [(m, t)] from if_neg hdup, List.map_append]
      rfl
    rw [hstream]
    by_cases hheard : m.id ∈ b.heard.map (·.id)
    · rw [firsts_concat_of_mem hheard, firsts_concat_of_mem (h ▸ hheard)]
      exact h
    · rw [firsts_concat_of_not_mem hheard, firsts_concat_of_not_mem (h ▸ hheard)]
      exact congrArg (· ++ [m]) h

namespace World

variable {w w' : World} {p : Pid}

theorem complete_call {op : Call} {c : Choice} {a : op.Ans} (hc : call p op c w = some (a, w'))
    (h : w.bus.Complete) : w'.bus.Complete := by
  cases call_did hc with
  | publish subject msgID data t => exact h.accept _ t
  | _ => exact h

theorem complete_env {c : Choice} (hc : env c w = some w') (h : w.bus.Complete) : w'.bus.Complete := by
  rcases env_cases hc with ⟨q, l, rfl⟩ | ⟨i, m, t, -, rfl⟩
  · exact h
  · exact h.accept m t

theorem complete_run {α : Type} {s s' : Pool Pid Call Call.Ans α World} {ms : List (Move Pid Choice)}
    (hrun : s.run machine ms = some s') (h : s.world.bus.Complete) : s'.world.bus.Complete := by
  refine Pool.run_induction (P := fun s => s.world.bus.Complete) (fun s s' m hs hm => ?_) h hrun
  rcases Pool.step_cases hm with ⟨p, op, k, c, a, w, -, -, hc, rfl⟩ | ⟨p, -, rfl⟩ | ⟨c, w, -, hc, rfl⟩
  · exact complete_call hc hs
  · exact hs
  · exact complete_env hc hs

end World

namespace relay

/-! ### The messages and the table -/

/-- The messages `sent` are those of rows of the table, and those of one service were sent as its rows stand there. -/
structure Sent (subjectPrefix : GoString) (t : Tables) (sent : List Msg) : Prop where
  nodup : (t.outbox.map (·.id)).Nodup
  addressed : ∀ o ∈ t.outbox, o.payload.AggregateID = o.aggregate_id.String
  backed : ∀ m ∈ sent, Backed subjectPrefix t m
  ordered : t.outbox.Pairwise fun o n => o.aggregate_id = n.aggregate_id →
    Led (·.id = o.id.String) (·.id = n.id.String) sent

namespace Sent

variable {subjectPrefix : GoString} {t : Tables} {sent : List Msg} (h : Sent subjectPrefix t sent)
include h

/-- A message with the id of a row is that of the row. -/
theorem eq_message {m : Msg} {o : OutboxRow} (hm : m ∈ sent) (ho : o ∈ t.outbox) (hid : m.id = o.id.String) :
    m = message subjectPrefix o := by
  obtain ⟨o', ho', rfl⟩ := h.backed m hm
  rw [List.inj_on_of_nodup_map h.nodup ho' ho (UUID.String_inj hid)]

theorem nodup_messages (id : UUID) : ((t.outboxOf id).map (message subjectPrefix)).Nodup := by
  refine List.Nodup.of_map (·.id) ?_
  have hids : ((t.outboxOf id).map (message subjectPrefix)).map (·.id) =
      ((t.outboxOf id).map (·.id)).map UUID.String := by
    rw [List.map_map, List.map_map]
    rfl
  rw [hids]
  exact List.Nodup.map (fun _ _ => UUID.String_inj) (h.nodup.sublist (List.filter_sublist.map _))

theorem mem_messages {m : Msg} {id : UUID} (hm : m ∈ sent) (hid : m.data.AggregateID = id.String) :
    m ∈ (t.outboxOf id).map (message subjectPrefix) := by
  obtain ⟨o, ho, rfl⟩ := h.backed m hm
  refine List.mem_map_of_mem (List.mem_filter.2 ⟨ho, decide_eq_true (UUID.String_inj ?_)⟩)
  exact (h.addressed o ho).symm.trans hid

theorem addressed_of_mem {id : UUID} {x : Msg} (hx : x ∈ (t.outboxOf id).map (message subjectPrefix)) :
    x.data.AggregateID = id.String := by
  obtain ⟨o, ho, rfl⟩ := List.mem_map.1 hx
  obtain ⟨ho, hid⟩ := List.mem_filter.1 ho
  exact (h.addressed o ho).trans (congrArg UUID.String (of_decide_eq_true hid))

/-- If the message of a row leads that of another, it is heard first. -/
theorem pair_sublist {o n : OutboxRow} (ho : o ∈ t.outbox) (hn : n ∈ t.outbox)
    (hled : Led (·.id = o.id.String) (·.id = n.id.String) sent)
    (hheard : message subjectPrefix n ∈ firsts (·.id) sent) :
    [message subjectPrefix o, message subjectPrefix n].Sublist (firsts (·.id) sent) := by
  -- the ids are heard in this order, and the messages with these ids are those of the two rows
  obtain ⟨l, hsub, hl⟩ := List.sublist_map_iff.1 (hled.firsts (List.mem_map_of_mem (mem_of_mem_firsts hheard)))
  obtain ⟨m, l', rfl, hm, hl'⟩ := List.map_eq_cons_iff.1 hl.symm
  obtain ⟨m', rfl, hm'⟩ := List.map_eq_singleton_iff.1 hl'
  have hsent : ∀ x ∈ [m, m'], x ∈ sent := fun x hx => mem_of_mem_firsts (hsub.subset hx)
  rwa [h.eq_message (hsent m List.mem_cons_self) ho hm,
    h.eq_message (hsent m' (List.mem_cons_of_mem _ List.mem_cons_self)) hn hm'] at hsub

/-- What is heard of a service is the beginning of its log. -/
theorem isPrefix (id : UUID) : (firsts (·.id) sent).filter (·.data.AggregateID = id.String) <+:
    (t.outboxOf id).map (message subjectPrefix) := by
  refine isPrefix_of_led ?_ (h.nodup_messages id) (fun m hm => ?_) ?_
  · exact (List.Nodup.of_map _ (nodup_firsts (·.id) sent)).filter _
  · obtain ⟨hm, hid⟩ := List.mem_filter.1 hm
    exact h.mem_messages (mem_of_mem_firsts hm) (of_decide_eq_true hid)
  · rw [List.pairwise_map]
    refine (h.ordered.sublist List.filter_sublist).imp_of_mem fun {o n} ho hn hled hheard => ?_
    have hkeep : ∀ x ∈ [message subjectPrefix o, message subjectPrefix n],
        decide (x.data.AggregateID = id.String) = true := by
      intro x hx
      rcases List.mem_pair.1 hx with rfl | rfl
      · exact decide_eq_true (h.addressed_of_mem (List.mem_map_of_mem ho))
      · exact decide_eq_true (h.addressed_of_mem (List.mem_map_of_mem hn))
    obtain ⟨ho, hoid⟩ := List.mem_filter.1 ho
    obtain ⟨hn, hnid⟩ := List.mem_filter.1 hn
    have hled := hled ((of_decide_eq_true hoid).trans (of_decide_eq_true hnid).symm)
    have hpair := h.pair_sublist ho hn hled (List.mem_filter.1 hheard).1
    have hfilter := hpair.filter fun x => decide (x.data.AggregateID = id.String)
    rwa [List.filter_eq_self.2 hkeep] at hfilter

/-- Once every row was sent, it is the whole log. -/
theorem heard_eq (hall : ∀ o ∈ t.outbox, ∃ m ∈ sent, m.id = o.id.String) (id : UUID) :
    (firsts (·.id) sent).filter (·.data.AggregateID = id.String) = (t.outboxOf id).map (message subjectPrefix) := by
  refine (h.isPrefix id).eq_of_length_le ((h.nodup_messages id).subperm fun x hx => ?_).length_le
  have haddr := h.addressed_of_mem hx
  obtain ⟨o, ho, rfl⟩ := List.mem_map.1 hx
  obtain ⟨ho, -⟩ := List.mem_filter.1 ho
  obtain ⟨m, hm, hid⟩ := hall o ho
  obtain ⟨m', hm', hid'⟩ := List.mem_map.1 (key_mem_firsts.2 (List.mem_map_of_mem (f := (·.id)) hm))
  obtain rfl := h.eq_message (mem_of_mem_firsts hm') ho (hid'.trans hid)
  exact List.mem_filter.2 ⟨hm', decide_eq_true haddr⟩

end Sent

/-! ### The log in the order of the commits -/

section
variable {t : Tables} {l : List Commit}

theorem message_remarked {f : OutboxRow → OutboxRow} (hf : ∀ o, Remarked o (f o)) (subjectPrefix : GoString)
    (os : List OutboxRow) : (os.map f).map (message subjectPrefix) = os.map (message subjectPrefix) := by
  rw [List.map_map]
  refine List.map_congr_left fun o _ => ?_
  obtain ⟨m, hm, -⟩ := hf o
  simp only [Function.comp_apply, hm]
  rfl

/-- The rows of a service stand in the outbox as they were committed. -/
theorem pairwise_prior (h : Chain .empty l t) (hl : ∀ e ∈ l, Logged e) :
    t.outbox.Pairwise fun o n => o.aggregate_id = n.aggregate_id → Prior l o.id n.id := by
  induction l using List.reverseRecOn generalizing t with
  | nil =>
    obtain rfl : t = .empty := h
    exact List.Pairwise.nil
  | append_singleton l e ih =>
    obtain ⟨t', hinit, rfl, rfl⟩ := h.of_append
    have hold := ih hinit fun e' he' => hl e' (List.mem_append_left _ he')
    have hmono : e.before.outbox.Pairwise fun o n => o.aggregate_id = n.aggregate_id → Prior (l ++ [e]) o.id n.id :=
      hold.imp fun hprior hagg => (hprior hagg).mono (List.prefix_append l [e])
    cases hl e (List.mem_append_right _ List.mem_cons_self) with
    | silent f hf hs ho hev =>
      rw [ho, List.pairwise_map]
      refine hmono.imp fun {o n} hprior => ?_
      obtain ⟨m, hm, -⟩ := hf o
      obtain ⟨m', hm', -⟩ := hf n
      rw [hm, hm']
      exact hprior
    | @told id o r hstep hr hs ho hev =>
      rw [ho]
      refine List.pairwise_append.2 ⟨hmono, List.pairwise_singleton _ _, fun o' ho' n hn hagg => ?_⟩
      cases List.mem_singleton.1 hn
      refine ⟨e, List.mem_append_right _ List.mem_cons_self, o', ho', o, ?_, rfl, rfl, hagg⟩
      rw [hev]
      exact List.mem_cons_self

/-- Each beginning of the log of a service is its log in some committed state. -/
theorem exists_past (h : Chain .empty l t) (hl : ∀ e ∈ l, Logged e) (subjectPrefix : GoString) {id : UUID}
    {xs : List Msg} (hxs : xs <+: (t.outboxOf id).map (message subjectPrefix)) :
    ∃ t', (t' = .empty ∨ ∃ e ∈ l, t' = e.after) ∧ xs = (t'.outboxOf id).map (message subjectPrefix) := by
  induction l using List.reverseRecOn generalizing t with
  | nil =>
    obtain rfl : t = .empty := h
    exact ⟨.empty, .inl rfl, List.prefix_nil.1 hxs⟩
  | append_singleton l e ih =>
    obtain ⟨t', hinit, rfl, rfl⟩ := h.of_append
    have hlast : e ∈ l ++ [e] := List.mem_append_right _ List.mem_cons_self
    have hold : xs <+: (e.before.outboxOf id).map (message subjectPrefix) → ∃ t', (t' = .empty ∨
        ∃ e' ∈ l ++ [e], t' = e'.after) ∧ xs = (t'.outboxOf id).map (message subjectPrefix) := by
      intro hxs
      obtain ⟨t', ht', heq⟩ := ih hinit (fun e' he' => hl e' (List.mem_append_left _ he')) hxs
      exact ⟨t', ht'.imp_right fun ⟨e', he', h'⟩ => ⟨e', List.mem_append_left _ he', h'⟩, heq⟩
    cases hl e hlast with
    | silent f hf hs ho hev =>
      rw [outboxOf_remarked hf ho, message_remarked hf] at hxs
      exact hold hxs
    | told hstep hr hs ho hev =>
      rw [outboxOf_concat ho] at hxs
      split at hxs
      · next hid =>
        rw [List.map_append] at hxs
        rcases List.prefix_concat_iff.1 hxs with heq | hxs
        · refine ⟨e.after, .inr ⟨e, hlast, rfl⟩, ?_⟩
          rw [outboxOf_concat ho, if_pos hid, List.map_append]
          exact heq
        · exact hold hxs
      · exact hold hxs

end

/-! ### What was sent -/

section
variable {R p : Pid} {subjectPrefix : GoString} {w w' : World}

section
variable (h : OrderInv R subjectPrefix w) (hord : InOrder w)
  (hprior : w.db.outbox.Pairwise fun o n => o.aggregate_id = n.aggregate_id → Prior w.log o.id n.id)
  (haddr : ∀ o ∈ w.db.outbox, o.payload.AggregateID = o.aggregate_id.String)
include h hord hprior haddr

/-- What was accepted under the invariant. -/
theorem OrderInv.sent : Sent subjectPrefix w.db (w.bus.accepted.map (·.1)) where
  nodup := h.nodup
  addressed := haddr
  backed m hm := by
    obtain ⟨x, hx, rfl⟩ := List.mem_map.1 hm
    exact h.accepted x hx
  ordered := hprior.imp fun {o n} hprior hagg => (hord.accepted o.id n.id (hprior hagg)).map

/-- The pending rows may follow in the order of the claiming query. -/
theorem OrderInv.sent_pending :
    Sent subjectPrefix w.db (w.bus.accepted.map (·.1) ++ w.db.pending.map (message subjectPrefix)) where
  nodup := h.nodup
  addressed := haddr
  backed m hm := by
    rcases List.mem_append.1 hm with hm | hm
    · exact (h.sent hord hprior haddr).backed m hm
    · obtain ⟨o, ho, rfl⟩ := List.mem_map.1 hm
      exact ⟨o, (mem_pending.1 ho).1, rfl⟩
  ordered := by
    refine hprior.imp_of_mem fun {o n} ho hn hprior hagg => ?_
    have hprior := hprior hagg
    refine (hord.accepted o.id n.id hprior).map.append ?_
    by_cases hpub : o.published_at = none
    · -- both are pending, and the query places the earlier one first
      refine .inr (Led.map (Led.of_sorted (sorted_pending w.db) fun x hx hid => ?_))
      have hxn : x = n := List.inj_on_of_nodup_map h.nodup (mem_pending.1 hx).1 hn (UUID.String_inj hid)
      exact ⟨o, mem_pending.2 ⟨ho, hpub⟩, rfl, hxn ▸ hord.placed o ho n hn hprior hpub⟩
    · obtain ⟨x, hx, hid⟩ := h.marked o ho hpub
      exact .inl ⟨x.1, List.mem_map_of_mem hx, hid⟩

end

/-- A row was accepted or is pending. -/
theorem RelayInv.sent_or_pending (h : RelayInv subjectPrefix w) {o : OutboxRow} (ho : o ∈ w.db.outbox) :
    ∃ m ∈ w.bus.accepted.map (·.1) ++ w.db.pending.map (message subjectPrefix), m.id = o.id.String := by
  by_cases hpub : o.published_at = none
  · exact ⟨message subjectPrefix o, List.mem_append_right _ (List.mem_map_of_mem (mem_pending.2 ⟨ho, hpub⟩)), rfl⟩
  · obtain ⟨x, hx, hid⟩ := h.marked o ho hpub
    exact ⟨x.1, List.mem_append_left _ (List.mem_map_of_mem hx), hid⟩

theorem complete_alone {F : GoString → Bool} {op : Call} {c : Choice} {a : op.Ans}
    (hc : alone p F op c w = some (a, w')) (h : w.bus.Complete) : w'.bus.Complete := by
  unfold alone Env.restrict at hc
  split at hc
  · exact World.complete_call hc h
  · cases hc

end

/-! ### Runs -/

section
variable [UuidLib] {ps : Pid → Option Party} {R : Pid} {r : Relay} {fuel ticks : Nat} {ms : List (Move Pid Choice)}
  {s : Pool Pid Call Call.Ans Unit World}

/-- The commits of a run that began with empty tables. -/
theorem LogInv.run_empty (hrun : (parties .empty ps).run World.machine ms = some s) : LogInv .empty ps s.world := by
  refine LogInv.run (fun id r hr => ?_) hrun
  cases hr

theorem OrderInv.run_empty (hR : ps R = some (.relayer r fuel ticks))
    (hps : ∀ p x, p ≠ R → ps p = some x → ∃ c, x = .command c)
    (hrun : (parties .empty ps).run World.machine ms = some s) : OrderInv R r.subjectPrefix s.world := by
  have hids : (Tables.empty.outbox.map (·.id)).Nodup := List.nodup_nil
  refine OrderInv.run hR hps (fun o ho => ?_) hids hrun
  cases ho

/-- One relay and any commands in any interleaving, with publishes and statements failing anywhere and processes
crashing at any point, whose commits are timely and not ahead of what they had loaded: what a subscriber has heard of
a service is its whole log in some committed state, which replays to the row of that state, and it is that of the
present state once every row is marked. -/
theorem subscriber_sees_past (hR : ps R = some (.relayer r fuel ticks))
    (hps : ∀ p x, p ≠ R → ps p = some x → ∃ c, x = .command c)
    (hrun : (parties .empty ps).run World.machine ms = some s) (htimely : ∀ e ∈ s.world.log, Timely e)
    (hahead : NoneAhead ps s.world.log) :
    (∀ id, ∃ t, (t = .empty ∨ ∃ e ∈ s.world.log, t = e.after) ∧ Told t ∧
      s.world.bus.heardOf id = (t.outboxOf id).map (message r.subjectPrefix)) ∧
    ((∀ o ∈ s.world.db.outbox, o.published_at ≠ none) → ∀ id,
      s.world.bus.heardOf id = (s.world.db.outboxOf id).map (message r.subjectPrefix)) := by
  have hI := OrderInv.run_empty hR hps hrun
  have hL := LogInv.run_empty hrun
  have hlogged := hL.logged hahead
  obtain ⟨htold, hpast⟩ := told_of_chain hL.chain hlogged told_empty
  have hsent := hI.sent (hI.order htimely) (pairwise_prior hL.chain hlogged) htold.addressed
  have hheard : s.world.bus.heard = firsts (·.id) (s.world.bus.accepted.map (·.1)) := World.complete_run hrun rfl
  unfold Bus.heardOf
  rw [hheard]
  refine ⟨fun id => ?_, fun hall id => hsent.heard_eq (fun o ho => ?_) id⟩
  · obtain ⟨t, ht, heq⟩ := exists_past hL.chain hlogged r.subjectPrefix (hsent.isPrefix id)
    refine ⟨t, ht, ?_, heq⟩
    rcases ht with rfl | ⟨e, he, rfl⟩
    · exact told_empty
    · exact hpast e he
  · obtain ⟨x, hx, hid⟩ := hI.marked o ho (hall o ho)
    exact ⟨x.1, List.mem_map_of_mem hx, hid⟩

/-- In every state of such a run in which nobody holds a lock, a drain of the relay with nothing failing ends, leaves
no row pending and the services as they are, and brings the subscribers up to date. -/
theorem drained_current (hR : ps R = some (.relayer r fuel ticks))
    (hps : ∀ p x, p ≠ R → ps p = some x → ∃ c, x = .command c)
    (hrun : (parties .empty ps).run World.machine ms = some s) (htimely : ∀ e ∈ s.world.log, Timely e)
    (hahead : NoneAhead ps s.world.log) {p : Pid} (hq : Quiet p s.world) {fuel' : Nat}
    (hfuel : s.world.db.pending.length / r.batch < fuel') :
    (r.DrainOnce fuel' 0).Total (alone p fun _ => false) (fun a w' =>
      a = some (s.world.db.pending.length, none) ∧ w'.db.pending = [] ∧ w'.db.services = s.world.db.services ∧
      ∀ id, w'.bus.heardOf id = (s.world.db.outboxOf id).map (message r.subjectPrefix)) s.world := by
  have hI := OrderInv.run_empty hR hps hrun
  have hL := LogInv.run_empty hrun
  have hlogged := hL.logged hahead
  have htold := (told_of_chain hL.chain hlogged told_empty).1
  have hsent := hI.sent_pending (hI.order htimely) (pairwise_prior hL.chain hlogged) htold.addressed
  have hdrain : (r.DrainOnce fuel' 0).Total (alone p fun _ => false) (fun a w' =>
      a = some (s.world.db.pending.length, none) ∧
        Relayed r.subjectPrefix p s.world.db.pending s.world.db.pending s.world w') s.world := by
    have hnone : s.world.db.pending.findIdx (Fails fun _ => false) = s.world.db.pending.length :=
      List.findIdx_eq_length.2 fun _ _ => rfl
    refine total_DrainOnce hq hI.nodup rfl hfuel (fun _ w' h => ⟨?_, h⟩) fun hlt => ?_
    · rw [Nat.zero_add]
    · exact absurd hnone hlt.ne
  have hkeep : ∀ (op : Call) c (a : op.Ans) (w w' : World), w.bus.Complete →
      alone p (fun _ => false) op c w = some (a, w') → w'.bus.Complete :=
    fun op c a w w' h hc => complete_alone hc h
  refine (hdrain.and hkeep (World.complete_run hrun rfl)).mono ?_
  rintro a w' ⟨⟨rfl, h⟩, hcomplete⟩
  obtain ⟨time, hdb⟩ := h.marked
  refine ⟨rfl, ?_, by rw [hdb]; rfl, fun id => ?_⟩
  · have hpend := pending_marked hI.nodup s.world.db.pending.length time
    rwa [List.take_length, List.drop_length, ← hdb] at hpend
  · unfold Bus.heardOf
    rw [show w'.bus.heard = _ from hcomplete, h.published]
    exact hsent.heard_eq (fun o ho => hI.sent_or_pending ho) id

end

/-! ### A subscriber that is late -/

attribute [local instance] UuidLib.canonical

/-- The moves of `replayMoves` up to the second round of the relay. -/
def lateMoves : List (Move Pid Choice) := replayMoves.take 37

theorem run_lateMoves : ∃ s, (parties .empty replayParties).run World.machine lateMoves = some s ∧
    s.world.db.pending.map (·.id) = [⟨21⟩, ⟨31⟩] ∧ (s.world.bus.heardOf ⟨1⟩).map (·.id) = [UUID.String ⟨11⟩] ∧
    Quiet 3 s.world ∧ (∀ e ∈ s.world.log, Timely e) ∧ NoneAhead replayParties s.world.log := by
  have h : ((parties .empty replayParties).run World.machine lateMoves).map (fun s =>
      ((s.world.db.pending.map (·.id), (s.world.bus.heardOf ⟨1⟩).map (·.id)),
        (s.world.txs 3).isNone && s.world.locks.isEmpty && decide (∀ e ∈ s.world.log, Timely e),
        s.world.log.map (fun e => (e.pid, e.tx.loaded.map (·.version))))) =
      some (([⟨21⟩, ⟨31⟩], [UUID.String ⟨11⟩]), true, [(0, []), (2, [1]), (3, []), (1, [2])]) := by
    decide +kernel
  obtain ⟨s, hrun, hs⟩ := Option.map_eq_some_iff.1 h
  simp only [Prod.mk.injEq, Bool.and_eq_true, decide_eq_true_eq] at hs
  obtain ⟨⟨hpend, hheard⟩, ⟨⟨hidle, hlocks⟩, htimely⟩, hlog⟩ := hs
  refine ⟨s, hrun, hpend, hheard, ⟨Option.isNone_iff_eq_none.1 hidle, List.isEmpty_iff.1 hlocks⟩, htimely,
    noneAhead_replayParties ?_⟩
  rw [hlog]
  exact ⟨[(3, [])], rfl⟩

theorem commands_replayParties : ∀ p x, p ≠ 3 → replayParties p = some x → ∃ c, x = .command c := by
  intro p x hp hx
  unfold replayParties at hx
  split at hx
  · exact ⟨_, (Option.some.inj hx).symm⟩
  · exact ⟨_, (Option.some.inj hx).symm⟩
  · exact ⟨_, (Option.some.inj hx).symm⟩
  · exact absurd rfl hp
  · cases hx

theorem subscriber_sees_past_sample : ∃ s, (parties .empty replayParties).run World.machine lateMoves = some s ∧
    s.world.db.pending.map (·.id) = [⟨21⟩, ⟨31⟩] ∧ (s.world.bus.heardOf ⟨1⟩).map (·.id) = [UUID.String ⟨11⟩] ∧
    ∃ t, Told t ∧ s.world.bus.heardOf ⟨1⟩ = (t.outboxOf ⟨1⟩).map (message "forge.events") := by
  obtain ⟨s, hrun, hpend, hheard, -, htimely, hahead⟩ := run_lateMoves
  obtain ⟨t, -, htold, heq⟩ := (subscriber_sees_past (R := 3) rfl commands_replayParties hrun htimely hahead).1 ⟨1⟩
  exact ⟨s, hrun, hpend, hheard, t, htold, heq⟩

theorem drained_current_sample : ∃ s, (parties .empty replayParties).run World.machine lateMoves = some s ∧
    ∃ cs w', ((New "forge.events" 10).DrainOnce 1 0).exec (alone 3 fun _ => false) cs s.world =
        some (some (2, none), w') ∧
      w'.bus.heardOf ⟨1⟩ = (s.world.db.outboxOf ⟨1⟩).map (message "forge.events") := by
  obtain ⟨s, hrun, hpend, -, hq, htimely, hahead⟩ := run_lateMoves
  have hlen : s.world.db.pending.length = 2 := by
    rw [← List.length_map (·.id), hpend]
    rfl
  have hfuel : s.world.db.pending.length / (New "forge.events" 10).batch < 1 := by
    rw [hlen]
    decide
  obtain ⟨cs, a, w', hexec, rfl, -, -, heq⟩ :=
    (drained_current (R := 3) rfl commands_replayParties hrun htimely hahead hq hfuel).returns
  rw [hlen] at hexec
  exact ⟨s, hrun, cs, w', hexec, heq ⟨1⟩⟩

end relay

end Forge
