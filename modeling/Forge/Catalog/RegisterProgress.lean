import Forge.Catalog.Commands
import Forge.Lib.Protocol

/-!
# Registrations do not wait for each other forever

A registration takes locks once, with the `INSERT` of its row; after that it only inserts rows under
ids of its own, which nobody else has locked. So whoever waits does so at its `INSERT`, for a process
that can go on (`Pace.progress`, `register_progress`), and a registration makes ten calls at most
(`within_RegisterService`). The protocol (`Pace`) also has the two statements by which a request looks
its idempotency key up and saves its answer.
-/

namespace Forge.Catalog

/-- Where a process is: about to look a key up for the first time, outside a transaction, in one with no
lock, or holding the row it has inserted. -/
inductive Stage
  | asking | out | reading | holding
deriving DecidableEq

def Stage.inTx : Stage → Bool
  | asking => false
  | out => false
  | reading => true
  | holding => true

/-- The protocol state of a registration: the ids it has drawn and how many calls it may still make. -/
structure Pace where
  stage : Stage
  drawn : List UUID
  left : Nat

namespace Pace

/-- The calls of a registration, alone or for a request with the idempotency key `key`. -/
def May (key : GoString) (st : Pace) : Call → Prop
  | .now => 0 < st.left ∧ st.stage ≠ .asking
  | .newID => 0 < st.left ∧ st.stage ≠ .asking
  | .begin => 0 < st.left ∧ st.stage = .out
  | .commit => 0 < st.left ∧ st.stage = .holding
  | .rollback => 0 < st.left ∧ st.stage ≠ .asking
  | .exec .tx (.selectServiceByName ..) => 0 < st.left ∧ st.stage.inTx = true
  | .exec .tx (.insertService _) => 0 < st.left ∧ st.stage = .reading
  | .exec .tx (.insertHistory h) => 0 < st.left ∧ st.stage = .holding ∧ h.id ∈ st.drawn
  | .exec .tx (.insertOutbox id ..) => 0 < st.left ∧ st.stage = .holding ∧ id ∈ st.drawn
  | .exec .pool (.selectIdem k) => 0 < st.left ∧ st.stage = .asking ∧ k = key
  | .exec .pool (.insertIdem r) => 0 < st.left ∧ st.stage = .out ∧ r.idem_key = key
  | _ => False

def stageAfter (st : Pace) : (op : Call) → op.Ans → Stage
  | .begin, .ok _ => .reading
  | .commit, _ => .out
  | .rollback, _ => .out
  | .exec _ (.insertService _), .ok _ => .holding
  | .exec _ (.selectIdem _), _ => .out
  | _, _ => st.stage

def drawnAfter (st : Pace) : (op : Call) → op.Ans → List UUID
  | .newID, u => u :: st.drawn
  | _, _ => st.drawn

def next (st : Pace) (op : Call) (a : op.Ans) : Pace := ⟨st.stageAfter op a, st.drawnAfter op a, st.left - 1⟩

variable {key : GoString} {st : Pace}

theorem May.left {op : Call} (h : st.May key op) : 0 < st.left := by
  unfold May at h
  split at h <;> first | exact h.1 | exact h.elim

/-- A statement in the transaction. -/
theorem May.inTx {q : Stmt} (h : st.May key (.exec .tx q)) : st.stage.inTx = true := by
  cases q with
  | selectServiceByName T N => exact h.2
  | insertService r => exact congrArg Stage.inTx h.2
  | insertHistory r => exact congrArg Stage.inTx h.2.1
  | insertOutbox => exact congrArg Stage.inTx h.2.1
  | _ => exact h.elim

/-- A statement by itself. -/
theorem May.pool {q : Stmt} (h : st.May key (.exec .pool q)) : st.stage.inTx = false ∧
    ((st.stage = .asking ∧ q = .selectIdem key) ∨ ∃ r, st.stage = .out ∧ q = .insertIdem r ∧ r.idem_key = key) := by
  cases q with
  | selectIdem k =>
    obtain ⟨-, hst, rfl⟩ := h
    exact ⟨congrArg Stage.inTx hst, .inl ⟨hst, rfl⟩⟩
  | insertIdem r => exact ⟨congrArg Stage.inTx h.2.1, .inr ⟨r, h.2.1, rfl, h.2.2⟩⟩
  | _ => exact h.elim

theorem May.stageAfter_pool {q : Stmt} (h : st.May key (.exec .pool q)) (a : (Call.exec .pool q).Ans) :
    st.stageAfter (.exec .pool q) a = .out := by
  rcases h.pool.2 with ⟨-, rfl⟩ | ⟨r, hst, rfl, -⟩
  · rfl
  · exact hst

theorem May.stageAfter_error {q : Stmt} (h : st.May key (.exec .tx q)) (e : PgError) :
    st.stageAfter (.exec .tx q) (.error e) = st.stage := by
  cases q <;> first | rfl | exact h.elim

/-- What a statement of the transaction locks: the row of the service, or rows with ids of its own. -/
structure Plan (st : Pace) (q : Stmt) (a : q.Ans) (ws : List Write) : Prop where
  stage : (ws = [] ∧ st.stageAfter (.exec .tx q) (.ok a) = st.stage) ∨
    (ws ≠ [] ∧ st.stageAfter (.exec .tx q) (.ok a) = .holding)
  drawn : ∀ u, (Key.history u ∈ ws.flatMap Write.keys → u ∈ st.drawn) ∧
    (Key.outbox u ∈ ws.flatMap Write.keys → u ∈ st.drawn)
  idem : ∀ key, Key.idem key ∉ ws.flatMap Write.keys
  own : st.stage = .holding → ∀ k ∈ ws.flatMap Write.keys, ∃ u ∈ st.drawn, k = .history u ∨ k = .outbox u

theorem May.plan {q : Stmt} {now : Timestamptz} {t : Tables} {a : q.Ans} {ws : List Write}
    (h : st.May key (.exec .tx q)) (hq : q.plan now t = .ok (a, ws)) : st.Plan q a ws := by
  replace hq := (Stmt.plan_ok hq).2
  cases q with
  | selectServiceByName T N =>
    cases hq
    exact ⟨.inl ⟨rfl, rfl⟩, by simp, by simp, by simp⟩
  | insertService r =>
    simp only [Stmt.eval] at hq
    split at hq
    · cases hq
    · split at hq <;> cases hq
      have hst : st.stage = .reading := h.2
      refine ⟨.inr ⟨by simp, rfl⟩, fun u => ?_, fun u => ?_, fun hs => ?_⟩
      · simp [Write.keys]
      · simp [Write.keys]
      · rw [hst] at hs
        cases hs
  | insertHistory r =>
    simp only [Stmt.eval, Stmt.planHistory] at hq
    split at hq
    · cases hq
    · split at hq <;> cases hq
      have hst : st.stage = .holding ∧ r.id ∈ st.drawn := h.2
      refine ⟨.inr ⟨by simp, hst.1⟩, fun u => ?_, fun u => ?_, fun _ k hk => ?_⟩
      · simp only [Write.keys, List.flatMap_cons, List.flatMap_nil, List.append_nil, List.mem_singleton,
          Key.history.injEq, reduceCtorEq, false_implies, and_true]
        rintro rfl
        exact hst.2
      · simp [Write.keys]
      · exact ⟨r.id, hst.2, .inl (List.mem_singleton.1 hk)⟩
  | insertOutbox id aggregate_id event_type payload occurred_at =>
    simp only [Stmt.eval] at hq
    split at hq
    · split at hq <;> cases hq
      have hst : st.stage = .holding ∧ id ∈ st.drawn := h.2
      refine ⟨.inr ⟨by simp, hst.1⟩, fun u => ?_, fun u => ?_, fun _ k hk => ?_⟩
      · simp only [Write.keys, List.flatMap_cons, List.flatMap_nil, List.append_nil, List.mem_singleton,
          Key.outbox.injEq, reduceCtorEq, false_implies, true_and]
        rintro rfl
        exact hst.2
      · simp [Write.keys]
      · exact ⟨id, hst.2, .inr (List.mem_singleton.1 hk)⟩
    · cases hq
  | _ => exact h.elim

/-- By itself a process only adds records. -/
theorem May.pool_writes {q : Stmt} {now : Timestamptz} {t : Tables} {a : q.Ans} {ws : List Write}
    (h : st.May key (.exec .pool q)) (hq : q.plan now t = .ok (a, ws)) : ∀ wr ∈ ws, ∃ r, wr = .insertIdem r := by
  replace hq := (Stmt.plan_ok hq).2
  intro wr hwr
  rcases h.pool.2 with ⟨-, rfl⟩ | ⟨r, -, rfl, -⟩
  · cases hq
    cases hwr
  · simp only [Stmt.eval] at hq
    split at hq
    · cases hq
      cases hwr
    · split at hq <;> cases hq
      exact ⟨r, List.mem_singleton.1 hwr⟩

/-- The world agrees with the protocol state of `p`. -/
structure Tracks (p : Pid) (st : Pace) (w : World) : Prop where
  out : st.stage.inTx = false → w.txs p = none
  inTx : st.stage.inTx = true → ∃ tx, w.txs p = some tx
  wrote : st.stage = .holding → ∀ tx, w.txs p = some tx → tx.writes ≠ []
  locks : st.stage ≠ .holding → ∀ k, (p, k) ∉ w.locks
  drawn : ∀ u ∈ st.drawn, (p, u) ∈ w.draws
  asking : st.stage = .asking → ∀ e ∈ w.log, e.pid ≠ p

def idle : Pace := ⟨.out, [], 0⟩

end Pace

/-- Rows of the history and of the outbox are locked only by the process their ids were made for, and no
record of an answer is locked. -/
structure LocksDrawn (w : World) : Prop where
  history : ∀ p u, (p, Key.history u) ∈ w.locks → (p, u) ∈ w.draws
  outbox : ∀ p u, (p, Key.outbox u) ∈ w.locks → (p, u) ∈ w.draws
  idem : ∀ p key, (p, Key.idem key) ∉ w.locks

/-! ### The protocol of `RegisterService` -/

section
variable {τ α : Type} {may : τ → Call → Prop} {next : τ → (op : Call) → op.Ans → τ} {Q : α → τ → Prop} {st : τ}

theorem obeys_perform (op : Call) {k : Except Err op.Ans → Proc Call Call.Ans α} (h : may st op)
    (hk : ∀ a, (k (.ok a)).Obeys may next Q (next st op a)) :
    ((M.perform op).run >>= k).Obeys may next Q st :=
  ⟨h, hk⟩

theorem obeys_exec {db : DBTX} {q : Stmt} {onErr : PgError → Err} {k : Except Err q.Ans → Proc Call Call.Ans α}
    (h : may st (.exec db q)) (hok : ∀ a, (k (.ok a)).Obeys may next Q (next st (.exec db q) (.ok a)))
    (herr : ∀ e, (k (.error (onErr e))).Obeys may next Q (next st (.exec db q) (.error e))) :
    ((M.exec db q onErr).run >>= k).Obeys may next Q st := by
  rw [M.run_exec_bind]
  refine ⟨h, fun r => ?_⟩
  cases r with
  | ok a => exact hok a
  | error e => exact herr e

/-- `Execute` begins, runs `fn`, and commits or rolls back. -/
theorem obeys_Execute {β : Type} {fn : M β} {k : Except Err β → Proc Call Call.Ans α} {F : Except Err β → τ → Prop}
    (hbegin : may st .begin) (hfail : ∀ e x, (k (.error e)).Obeys may next Q (next st .begin (.error x)))
    (hfn : fn.run.Obeys may next F (next st .begin (.ok ())))
    (hcommit : ∀ b st', F (.ok b) st' → may st' .commit ∧
      (k (.ok b)).Obeys may next Q (next st' .commit (.ok ())) ∧
      ∀ e x, (k (.error e)).Obeys may next Q (next st' .commit (.error x)))
    (hrollback : ∀ e st', F (.error e) st' → may st' .rollback ∧
      (k (.error e)).Obeys may next Q (next st' .rollback ())) :
    ((Execute fn).run >>= k).Obeys may next Q st := by
  rw [run_Execute_bind]
  refine ⟨hbegin, fun r => ?_⟩
  cases r with
  | error x => exact hfail _ x
  | ok =>
    refine hfn.bind fun r st' hF => ?_
    cases r with
    | error e =>
      obtain ⟨hmay, hk⟩ := hrollback e st' hF
      exact ⟨hmay, fun _ => hk⟩
    | ok b =>
      obtain ⟨hmay, hk, he⟩ := hcommit b st' hF
      refine ⟨hmay, fun r => ?_⟩
      cases r with
      | ok => exact hk
      | error x => exact he _ x

end

section
variable [UuidLib]

variable {key : GoString}

theorem obeys_registerTx {svc : Service} {ev : Event} (hev : svc.events = [ev]) (ds : List UUID) (n : Nat) :
    (registerTx svc).run.Obeys (Pace.May key) Pace.next
      (fun r st => n < st.left ∧ st.stage ≠ .asking ∧ ∀ s, r = .ok s → st.stage = .holding)
      ⟨.reading, ds, n + 7⟩ := by
  have hfail : ∀ (e : Err) (st : Pace), n < st.left → st.stage ≠ .asking →
      (Proc.ret (Except.error e) : Proc Call Call.Ans (Except Err Service)).Obeys (Pace.May key) Pace.next
        (fun r st => n < st.left ∧ st.stage ≠ .asking ∧ ∀ s, r = .ok s → st.stage = .holding) st :=
    fun e st h h' => ⟨h, h', nofun⟩
  rw [← Proc.bind_ret (ExceptT.run _)]
  simp only [registerTx, M.run_bind_bind, M.run_lift_bind, FindByTenantAndName]
  refine obeys_exec ⟨Nat.succ_pos _, rfl⟩ (fun row => ?_) fun e => ?_
  · simp only [M.run_ofExcept_bind]
    cases scanService row with
    | ok s => exact hfail _ _ (by simp [Pace.next]) nofun
    | error e =>
      dsimp only
      split
      · exact hfail _ _ (by simp [Pace.next]) nofun
      · simp only [M.run_bind_bind, Insert, Service.PullEvents, hev, Append]
        refine obeys_exec ⟨Nat.succ_pos _, rfl⟩ (fun _ => ?_) fun _ => hfail _ _ (by simp [Pace.next]) nofun
        refine obeys_perform .newID ⟨Nat.succ_pos _, nofun⟩ fun u => ?_
        refine obeys_exec ⟨Nat.succ_pos _, rfl, List.mem_cons_self⟩ (fun _ => ?_)
          fun _ => hfail _ _ (by simp [Pace.next]) nofun
        refine obeys_perform .newID ⟨Nat.succ_pos _, nofun⟩ fun v => ?_
        refine obeys_exec ⟨Nat.succ_pos _, rfl, List.mem_cons_self⟩ (fun _ => ?_)
          fun _ => hfail _ _ (by simp [Pace.next]) nofun
        exact ⟨by simp [Pace.next], nofun, fun _ _ => rfl⟩
  · -- a statement that fails is not a missing row
    have hne : wrapPg (str "scan service") e ≠ ErrServiceNotFound := fun h => by cases h
    simp only [if_pos hne]
    exact hfail _ _ (by simp [Pace.next]) nofun

theorem obeys_RegisterService (inp : RegisterServiceInput) (n : Nat) :
    (RegisterService inp).run.Obeys (Pace.May key) Pace.next (fun _ st => st.stage = .out ∧ n ≤ st.left)
      ⟨.out, [], n + 10⟩ := by
  rw [← Proc.bind_ret (ExceptT.run _), RegisterService_eq, M.run_bind_bind, M.run_ofExcept_bind]
  cases inp.parse with
  | error e => exact ⟨rfl, by simp⟩
  | ok x =>
    simp only [M.run_bind_bind]
    refine obeys_perform .newID ⟨Nat.succ_pos _, nofun⟩ fun id => ?_
    refine obeys_perform .now ⟨Nat.succ_pos _, nofun⟩ fun now => ?_
    refine obeys_Execute ⟨Nat.succ_pos _, rfl⟩ (fun _ _ => ⟨rfl, by simp [Pace.next]⟩) (obeys_registerTx rfl _ n) ?_ ?_
    · rintro s st ⟨hleft, -, hst⟩
      have hpos : 0 < st.left := Nat.zero_lt_of_lt hleft
      have hn : n ≤ st.left - 1 := Nat.le_sub_one_of_lt hleft
      exact ⟨⟨hpos, hst s rfl⟩, ⟨rfl, hn⟩, fun _ _ => ⟨rfl, hn⟩⟩
    · rintro e st ⟨hleft, hst, -⟩
      exact ⟨⟨Nat.zero_lt_of_lt hleft, hst⟩, rfl, Nat.le_sub_one_of_lt hleft⟩

omit [UuidLib] in
theorem within_of_obeys {α : Type} {Q : α → Pace → Prop} {prog : Proc Call Call.Ans α} {st : Pace}
    (h : prog.Obeys (Pace.May key) Pace.next Q st) : prog.Within st.left :=
  h.within (m := Pace.left) (fun _ _ h => h.left) fun _ _ _ h => Nat.sub_lt h.left Nat.one_pos

end

/-! ### The protocol states along a run -/

section
variable {p q : Pid} {key : GoString} {st : Pace} {w w' : World}

namespace Pace

theorem Tracks.congr (h : Tracks q st w) (htx : w'.txs q = w.txs q) (hl : ∀ k, (q, k) ∈ w'.locks → (q, k) ∈ w.locks)
    (hd : ∀ u, (q, u) ∈ w.draws → (q, u) ∈ w'.draws) (hlog : ∀ e ∈ w'.log, e.pid = q → e ∈ w.log) :
    Tracks q st w' where
  out hs := htx.trans (h.out hs)
  inTx hs := htx ▸ h.inTx hs
  wrote hs tx htx' := h.wrote hs tx (htx.symm.trans htx')
  locks hs k hk := h.locks hs k (hl k hk)
  drawn u hu := hd u (h.drawn u hu)
  asking hs e he hq := h.asking hs e (hlog e he hq) hq

/-- What a process does to the locks of the others: nothing. -/
theorem Tracks.local (h : Tracks q st w) (hl : World.Local p w w') (hqp : q ≠ p) : Tracks q st w' := by
  have ho := hl.others hqp.symm
  have hlog : w'.log = w.log := congrArg Snap.log hl.snap
  refine h.congr ho.tx (fun k hk => ?_) (fun u hu => hl.grown.draws.subset hu) fun e he _ => hlog ▸ he
  cases hl with
  | quiet => exact hk
  | put =>
    rcases List.mem_append.1 hk with hk | hk
    · exact hk
    · obtain ⟨_, -, he⟩ := List.mem_map.1 hk
      exact absurd (congrArg Prod.fst he).symm hqp
  | stop => exact List.mem_of_mem_filter hk

theorem Tracks.effect (h : Tracks q st w) (he : World.Effect p w w') (hqp : q ≠ p) : Tracks q st w' := by
  -- a commit of `p` is none of `q`
  have hlog : ∀ {c : Commit}, c.pid = p → ∀ e ∈ w.log ++ [c], e.pid = q → e ∈ w.log := by
    intro c hc e he hq
    rcases List.mem_append.1 he with he | he
    · exact he
    · exact absurd (hq.symm.trans (List.mem_singleton.1 he ▸ hc)) hqp
  cases he with
  | loc hl => exact h.local hl hqp
  | commit =>
    exact h.congr (Function.update_of_ne hqp ..) (fun k hk => List.mem_of_mem_filter hk) (fun _ hu => hu) (hlog rfl)
  | auto => exact h.congr rfl (fun _ hk => hk) (fun _ hu => hu) (hlog rfl)

/-- A transaction that goes on, with new locks only if its stage says so. -/
theorem Tracks.put {st' : Pace} {tx : Tx} {ks : List Key} (h : Tracks p st w) (hd : st'.drawn = st.drawn)
    (hin : st'.stage.inTx = true) (hks : (st'.stage = .holding ∧ tx.writes ≠ []) ∨ (ks = [] ∧ st'.stage ≠ .holding ∧
      st.stage ≠ .holding)) : Tracks p st' (w.put p tx ks) where
  out hs := nomatch hin.symm.trans hs
  inTx _ := ⟨tx, Function.update_self ..⟩
  wrote hs tx' htx' := by
    simp only [World.put, Function.update_self, Option.some.injEq] at htx'
    rcases hks with ⟨-, hw⟩ | ⟨-, hne, -⟩
    · exact htx' ▸ hw
    · exact absurd hs hne
  locks hs k hk := by
    rcases hks with ⟨hst, -⟩ | ⟨rfl, -, hst⟩
    · exact absurd hst hs
    · exact h.locks hst k (by simpa [World.put] using hk)
  drawn u hu := h.drawn u (hd ▸ hu)
  asking hs := by
    rw [hs] at hin
    cases hin

theorem Tracks.endTx {st' : Pace} (h : Tracks p st w) (hd : st'.drawn = st.drawn) (hs : st'.stage = .out)
    (hdr : w'.draws = w.draws) : Tracks p st' (w'.endTx p) where
  out _ := Function.update_self ..
  inTx h := by
    rw [hs] at h
    cases h
  wrote h := nomatch hs.symm.trans h
  locks _ k hk := by simpa using (List.mem_filter.1 hk).2
  drawn u hu := by
    show (p, u) ∈ w'.draws
    rw [hdr]
    exact h.drawn u (hd ▸ hu)
  asking h := nomatch hs.symm.trans h

/-- A statement by itself leaves the process outside a transaction. -/
theorem Tracks.pool {st' : Pace} (h : Tracks p st w) (hin : st.stage.inTx = false) (hd : st'.drawn = st.drawn)
    (hs : st'.stage = .out) (htx : w'.txs = w.txs) (hl : w'.locks = w.locks) (hdr : w'.draws = w.draws) :
    Tracks p st' w' where
  out _ := (congrFun htx p).trans (h.out hin)
  inTx h := by
    rw [hs] at h
    cases h
  wrote h := nomatch hs.symm.trans h
  locks _ k hk := by
    have hne : st.stage ≠ .holding := fun he => by
      rw [he] at hin
      cases hin
    exact h.locks hne k (hl ▸ hk)
  drawn u hu := hdr ▸ h.drawn u (hd ▸ hu)
  asking h := nomatch hs.symm.trans h

/-- A call moves the protocol state of its process. -/
theorem Tracks.call {op : Call} {c : Choice} {a : op.Ans} (h : Tracks p st w) (hmay : st.May key op)
    (hc : World.call p op c w = some (a, w')) : Tracks p (st.next op a) w' := by
  have herr : ∀ {q : Stmt} {e : PgError} {n : Nat}, st.May key (.exec .tx q) →
      Tracks p (st.next (.exec .tx q) (.error e)) { w with faults := n } := by
    intro q e n hq
    have hst : (st.next (.exec .tx q) (.error e)).stage = st.stage := hq.stageAfter_error e
    refine ⟨fun hs => h.out ?_, fun hs => h.inTx ?_, fun hs => h.wrote ?_, fun hs => h.locks ?_, h.drawn,
      fun hs => h.asking ?_⟩ <;> simpa only [hst] using hs
  cases World.call_did hc with
  | now => exact ⟨h.out, h.inTx, h.wrote, h.locks, h.drawn, h.asking⟩
  | newID =>
    refine ⟨h.out, h.inTx, h.wrote, h.locks, fun u hu => ?_, h.asking⟩
    rcases List.mem_cons.1 hu with rfl | hu
    · exact List.mem_append_right _ (List.mem_singleton.2 rfl)
    · exact List.mem_append_left _ (h.drawn u hu)
  | begin =>
    have hst : st.stage ≠ .holding := fun hs => nomatch hs.symm.trans hmay.2
    exact h.put rfl rfl (.inr ⟨rfl, nofun, hst⟩)
  | beginFault => exact ⟨h.out, h.inTx, h.wrote, h.locks, h.drawn, h.asking⟩
  | commit | abort | rollback => exact h.endTx rfl rfl rfl
  | @exec q _ ws tx htx hplan _ =>
    have hp := hmay.plan hplan
    rcases hp.stage with ⟨rfl, hst⟩ | ⟨hne, hst⟩
    · refine h.put rfl ((congrArg Stage.inTx hst).trans hmay.inTx) ?_
      by_cases hs : st.stage = .holding
      · exact .inl ⟨hst.trans hs, by simpa [Tx.ran] using h.wrote hs tx htx⟩
      · exact .inr ⟨rfl, fun he => hs (hst.symm.trans he), hs⟩
    · refine h.put rfl (congrArg Stage.inTx hst) (.inl ⟨hst, fun hnil => hne ?_⟩)
      exact (List.append_eq_nil_iff.1 hnil).2
  | reject => exact herr (n := w.faults) hmay
  | auto | autoReject => exact h.pool hmay.pool.1 rfl (hmay.stageAfter_pool _) rfl rfl rfl
  | execFault db =>
    cases db with
    | pool => exact h.pool hmay.pool.1 rfl (hmay.stageAfter_pool _) rfl rfl rfl
    | tx => exact herr hmay
  | _ => exact hmay.elim

end Pace

theorem LocksDrawn.mono (h : LocksDrawn w) (hd : w.draws ⊆ w'.draws)
    (hl : ∀ q k, (q, k) ∈ w'.locks → (q, k) ∈ w.locks ∨
      (∀ u, (k = .history u ∨ k = .outbox u) → (q, u) ∈ w'.draws) ∧ ∀ key, k ≠ .idem key) : LocksDrawn w' where
  history q u hk := (hl q _ hk).elim (fun hk => hd (h.history q u hk)) fun hk => hk.1 u (.inl rfl)
  outbox q u hk := (hl q _ hk).elim (fun hk => hd (h.outbox q u hk)) fun hk => hk.1 u (.inr rfl)
  idem q key hk := (hl q _ hk).elim (h.idem q key) fun hk => hk.2 key rfl

theorem LocksDrawn.call {op : Call} {c : Choice} {a : op.Ans} (h : LocksDrawn w) (htr : Pace.Tracks p st w)
    (hmay : st.May key op) (hc : World.call p op c w = some (a, w')) : LocksDrawn w' := by
  cases World.call_did hc with
  | newID => exact h.mono (List.subset_append_left ..) fun _ _ hk => .inl hk
  | begin => exact h.mono (fun _ hu => hu) fun q k hk => .inl (by simpa [World.put] using hk)
  | commit | abort | rollback => exact h.mono (fun _ hu => hu) fun _ _ hk => .inl (List.mem_of_mem_filter hk)
  | exec htx hplan _ =>
    have hp := hmay.plan hplan
    refine h.mono (fun _ hu => hu) fun q' k hk => ?_
    rcases List.mem_append.1 hk with hk | hk
    · exact .inl hk
    · -- the new locks are those of the statement
      obtain ⟨k', hk', he⟩ := List.mem_map.1 hk
      cases he
      refine .inr ⟨fun u hu => ?_, fun key he => hp.idem key (he ▸ hk')⟩
      rcases hu with rfl | rfl
      · exact htr.drawn u ((hp.drawn u).1 hk')
      · exact htr.drawn u ((hp.drawn u).2 hk')
  | now | reject | auto | autoReject | beginFault | execFault => exact ⟨h.history, h.outbox, h.idem⟩
  | _ => exact hmay.elim

theorem Pace.tracks_endTx (p : Pid) (w : World) : Tracks p idle (w.endTx p) where
  out _ := Function.update_self ..
  inTx h := nomatch h
  wrote h := nomatch h
  locks _ k hk := by simpa using (List.mem_filter.1 hk).2
  drawn u hu := nomatch hu
  asking h := nomatch h

/-- A call that the protocol allows is answered without a fault, unless it waits for another process. -/
theorem Pace.Tracks.enabled {op : Call} (hK : LocksDrawn w) (h : Tracks p st w) (hmay : st.May key op) :
    (∃ c a w', World.call p op c w = some (a, w') ∧ w'.faults = w.faults) ∨
    ∃ q k, q ≠ p ∧ (q, k) ∈ w.locks ∧ (st.stage = .holding → ∃ u ∈ st.drawn, k = .history u ∨ k = .outbox u) := by
  cases op with
  | now => exact .inl ⟨.time 0, _, _, rfl, rfl⟩
  | newID => exact .inl ⟨.uuid ⟨0⟩, _, _, rfl, rfl⟩
  | begin =>
    refine .inl ⟨.time 0, .ok (), w.put p (.start (pgTime 0)) [], ?_, rfl⟩
    simp only [World.call, h.out (congrArg Stage.inTx hmay.2)]
  | commit =>
    obtain ⟨tx, htx⟩ := h.inTx (congrArg Stage.inTx hmay.2)
    refine .inl ⟨.ok, .ok (), (w.commit p tx).endTx p, ?_, rfl⟩
    simp only [World.call, htx]
  | rollback => exact .inl ⟨.ok, _, _, rfl, rfl⟩
  | exec db q =>
    cases db with
    | pool =>
      cases hplan : q.plan (pgTime 0) w.db with
      | error e =>
        refine .inl ⟨.time 0, .error e, w, ?_, rfl⟩
        simp only [World.call, hplan]
      | ok x =>
        obtain ⟨a, ws⟩ := x
        -- records are never locked
        have hb : w.blocked p (ws.flatMap Write.keys) = false := by
          refine List.any_eq_false.2 fun l hl hk => ?_
          obtain ⟨-, hk⟩ := of_decide_eq_true hk
          obtain ⟨wr, hwr, hk⟩ := List.mem_flatMap.1 hk
          obtain ⟨r, rfl⟩ := hmay.pool_writes hplan wr hwr
          obtain ⟨p', k⟩ := l
          cases List.mem_singleton.1 hk
          exact hK.idem p' _ hl
        refine .inl ⟨.time 0, .ok a, w.commit p ((Tx.start (pgTime 0)).ran q a ws), ?_, rfl⟩
        simp only [World.call, hplan, hb, Bool.false_eq_true, if_false]
    | tx =>
      obtain ⟨tx, htx⟩ := h.inTx hmay.inTx
      cases hplan : q.plan tx.begun (tx.view w.db) with
      | error e =>
        refine .inl ⟨.ok, .error e, w, ?_, rfl⟩
        simp only [World.call, htx, hplan]
      | ok x =>
        obtain ⟨a, ws⟩ := x
        by_cases hb : w.blocked p (ws.flatMap Write.keys) = true
        · obtain ⟨⟨q', k⟩, hl, hk⟩ := List.any_eq_true.1 hb
          obtain ⟨hne, hk⟩ := of_decide_eq_true hk
          exact .inr ⟨q', k, hne, hl, fun hs => (hmay.plan hplan).own hs k hk⟩
        · refine .inl ⟨.ok, .ok a, w.put p (tx.ran q a ws) (ws.flatMap Write.keys), ?_, rfl⟩
          simp only [World.call, htx, hplan, if_neg hb]
  | claim => exact hmay.elim
  | next => exact hmay.elim
  | publish => exact hmay.elim

end

section
variable {α : Type} {key : GoString} {p : Pid} {s₀ s : Pool Pid Call Call.Ans α World} {Q : α → Pace → Prop}
  {ms : List (Move Pid Choice)}

/-- Processes that keep to the protocol, along a run. -/
theorem Pace.obeying_run (hK : LocksDrawn s₀.world)
    (hs : s₀.Obeying (Pace.May key) Pace.next Q Pace.Tracks Pace.idle) (h : s₀.run World.machine ms = some s) :
    LocksDrawn s.world ∧ s.Obeying (Pace.May key) Pace.next Q Pace.Tracks Pace.idle := by
  refine Pool.obeys_run (M := World.machine) ?_ ?_ ?_ hK hs h
  · intro p op c a st w w' hmay htr hK hc
    exact ⟨hK.call htr hmay hc, htr.call hmay hc, fun q st' hqp hq => hq.effect (World.call_effect hc) hqp⟩
  · intro p w hK
    refine ⟨hK.mono (fun _ hu => hu) fun _ _ hk => .inl (List.mem_of_mem_filter hk), Pace.tracks_endTx p w, ?_⟩
    exact fun q st hqp hq => hq.local (.stop le_rfl) hqp
  · intro c w w' hK hc
    rcases World.env_cases hc with ⟨_, _, rfl⟩ | ⟨_, _, _, -, rfl⟩
    · exact ⟨⟨hK.history, hK.outbox, hK.idem⟩, fun q st hq => hq.congr rfl (fun _ => id) (fun _ => id) fun _ he _ => he⟩
    · exact ⟨⟨hK.history, hK.outbox, hK.idem⟩, fun q st hq => hq.congr rfl (fun _ => id) (fun _ => id) fun _ he _ => he⟩

/-- A process that has not returned can go on, or one that holds its row can. -/
theorem Pace.progress (hK : LocksDrawn s.world)
    (hob : s.Obeying (Pace.May key) Pace.next Q Pace.Tracks Pace.idle) (hQ : ∀ a st, Q a st → st.stage = .out)
    (hids : s.world.ids.Nodup) {op : Call} {k : op.Ans → Proc Call Call.Ans α} (hp : s.procs p = some (.call op k)) :
    ∃ q op' k' c a w' st, s.procs q = some (.call op' k') ∧ World.call q op' c s.world = some (a, w') ∧
      w'.faults = s.world.faults ∧ st.May key op' ∧ Tracks q st s.world ∧ (q = p ∨ st.stage = .holding) := by
  -- a process that holds its row is never blocked: what it locks next has an id of its own
  have hholding : ∀ {q op k} {st : Pace}, s.procs q = some (.call op k) → st.May key op → st.Tracks q s.world →
      st.stage = .holding → ∃ c a w', World.call q op c s.world = some (a, w') ∧ w'.faults = s.world.faults := by
    intro q op k st hq hmay htr hst
    rcases htr.enabled hK hmay with h | ⟨r, key, hne, hl, hown⟩
    · exact h
    · obtain ⟨u, hu, hkey⟩ := hown hst
      have hr : (r, u) ∈ s.world.draws := by
        rcases hkey with rfl | rfl
        · exact hK.history r u hl
        · exact hK.outbox r u hl
      exact absurd (congrArg Prod.fst (List.inj_on_of_nodup_map hids hr (htr.drawn u hu) rfl)) hne
  obtain ⟨st, hobey, htr⟩ := hob.live hp
  rcases htr.enabled hK hobey.1 with ⟨c, a, w', hc, hf⟩ | ⟨q, key, -, hl, -⟩
  · exact ⟨p, op, k, c, a, w', st, hp, hc, hf, hobey.1, htr, .inl rfl⟩
  · -- whoever holds the lock has not returned
    cases hq : s.procs q with
    | none => exact absurd hl ((hob.dead hq).locks (by simp [Pace.idle]) key)
    | some prog' =>
      obtain ⟨st', hobey', htr'⟩ := hob.live hq
      have hst' : st'.stage = .holding := by
        by_contra hne
        exact htr'.locks hne key hl
      cases prog' with
      | ret a => cases hst'.symm.trans (hQ a st' hobey')
      | call op' k' =>
        obtain ⟨c, a, w', hc, hf⟩ := hholding hq hobey'.1 htr' hst'
        exact ⟨q, op', k', c, a, w', st', hq, hc, hf, hobey'.1, htr', .inr hst'⟩

end

section
variable [UuidLib] {inps : Pid → Option RegisterServiceInput} {db : Tables} {p : Pid}
  {s : Pool Pid Call Call.Ans (Except Err Service) World} {ms : List (Move Pid Choice)}

/-- Registrations that start together on the tables `db`. -/
def registerPool (db : Tables) (inps : Pid → Option RegisterServiceInput) :
    Pool Pid Call Call.Ans (Except Err Service) World :=
  ⟨.init db, fun p => (inps p).map fun inp => (RegisterService inp).run⟩

omit [UuidLib] in
theorem LocksDrawn.init (db : Tables) : LocksDrawn (.init db) :=
  ⟨by simp [World.init], by simp [World.init], by simp [World.init]⟩

omit [UuidLib] in
theorem Pace.tracks_init {st : Pace} (hst : st.stage.inTx = false) (hd : st.drawn = []) (p : Pid) (db : Tables) :
    st.Tracks p (.init db) where
  out _ := rfl
  inTx h := nomatch hst.symm.trans h
  wrote h := by
    rw [h] at hst
    cases hst
  locks _ := by simp [World.init]
  drawn := by simp [hd]
  asking _ := by simp [World.init]

/-- While a registration has not returned, some registration can go on without a fault. -/
theorem register_progress (h : (registerPool db inps).run World.machine ms = some s) (hids : s.world.ids.Nodup)
    {prog : Proc Call Call.Ans (Except Err Service)} (hp : s.procs p = some prog) (hres : prog.result? = none) :
    ∃ q c s', s.step World.machine (.call q c) = some s' ∧ s'.world.faults = s.world.faults := by
  have hstart : (registerPool db inps).Obeying (Pace.May []) Pace.next (fun _ st => st.stage = .out ∧ 0 ≤ st.left)
      Pace.Tracks Pace.idle := by
    intro p
    dsimp only [registerPool]
    cases inps p with
    | none => exact Pace.tracks_init rfl rfl p db
    | some inp => exact ⟨_, obeys_RegisterService inp 0, Pace.tracks_init rfl rfl p db⟩
  obtain ⟨hK, hob⟩ := Pace.obeying_run (.init db) hstart h
  cases prog with
  | ret a => cases hres
  | call op k =>
    obtain ⟨q, op', k', c, a, w', -, hq, hc, hf, -⟩ := Pace.progress hK hob (fun _ _ hQ => hQ.1) hids hp
    refine ⟨q, c, ⟨w', Function.update s.procs q (some (k' a))⟩, ?_, hf⟩
    simp only [Pool.step, hq, World.machine, hc]

theorem within_RegisterService (inp : RegisterServiceInput) : (RegisterService inp).run.Within 10 :=
  within_of_obeys (@obeys_RegisterService _ [] inp 0)

end

end Forge.Catalog
