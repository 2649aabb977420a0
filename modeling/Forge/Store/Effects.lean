import Forge.Store.World

/-!
# What a call does, and what it looks like to the other processes

`World.Did` says once what each call can do; every invariant of the world is kept case by case of it.
A call of `p` is either local (`World.Local`: it changes only the transaction and the locks of
`p` and what no transaction reads) or one commit of `p` (`World.Effect`). As long as locks are held
by one process each (`World.LocksOk`, which every effect keeps), the calls of the others are
`Others p` for `p`.
-/

namespace Forge

namespace World

/-- The rows a transaction has changed or claimed are locked by its process, and a key is locked by
one process at most. -/
structure LocksOk (w : World) : Prop where
  held : ∀ p tx, w.txs p = some tx → ∀ k ∈ tx.keys, (p, k) ∈ w.locks
  excl : ∀ p q k, (p, k) ∈ w.locks → (q, k) ∈ w.locks → p = q

theorem not_locked_of_not_blocked {w : World} {p q : Pid} {ks : List Key} {k : Key}
    (h : w.blocked p ks = false) (hk : k ∈ ks) (hl : (q, k) ∈ w.locks) : q = p := by
  by_contra hne
  have : w.blocked p ks = true := List.any_eq_true.2 ⟨(q, k), hl, by simp [hne, hk]⟩
  rw [h] at this; cases this

/-- A call of `p` that commits nothing. -/
inductive Local (p : Pid) (w : World) : World → Prop
  | quiet {cs : Pid → List OutboxRow} {b : Bus} {rs : List Catalog.Time} {ds : List (Pid × UUID)} {n : Nat}
      (hb : w.bus.accepted <+: b.accepted) (hrs : w.readings <+: rs)
      (hds : ∃ l, ds = w.draws ++ l ∧ ∀ d ∈ l, d.1 = p) (hn : w.faults ≤ n) :
      Local p w { w with cursors := cs, bus := b, readings := rs, draws := ds, faults := n }
  | put {cs : Pid → List OutboxRow} {tx : Tx} {ks : List Key}
      (hk : ∀ k ∈ tx.keys, k ∈ ks ∨ ∃ tx₀, w.txs p = some tx₀ ∧ k ∈ tx₀.keys)
      (hb : w.blocked p ks = false) : Local p w ({ w with cursors := cs }.put p tx ks)
  | stop {n : Nat} (hn : w.faults ≤ n) : Local p w ({ w with faults := n }.endTx p)

/-- What a call of `p` can do. -/
inductive Effect (p : Pid) (w : World) : World → Prop
  | loc {w' : World} (h : Local p w w') : Effect p w w'
  | commit {tx : Tx} (h : w.txs p = some tx) : Effect p w ((w.commit p tx).endTx p)
  | auto {tx : Tx} (h : w.blocked p tx.keys = false) : Effect p w (w.commit p tx)

variable {w w' : World} {p : Pid}

theorem Local.refl (p : Pid) (w : World) : Local p w w :=
  .quiet (List.prefix_refl _) (List.prefix_refl _) ⟨[], by simp, by simp⟩ le_rfl

theorem Local.fault (p : Pid) (w : World) : Local p w w.fault :=
  .quiet (List.prefix_refl _) (List.prefix_refl _) ⟨[], by simp, by simp⟩ (Nat.le_succ _)

theorem Local.ran {tx : Tx} {q : Stmt} {a : q.Ans} {ws : List Write} (h : w.txs p = some tx)
    (hb : w.blocked p (ws.flatMap Write.keys) = false) :
    Local p w (w.put p (tx.ran q a ws) (ws.flatMap Write.keys)) := by
  refine .put (fun k hk => ?_) hb
  simp only [Tx.keys, Tx.ran, List.flatMap_append, List.mem_append] at hk
  rcases hk with (hk | hk) | hk
  · exact .inr ⟨tx, h, List.mem_append_left _ hk⟩
  · exact .inl hk
  · exact .inr ⟨tx, h, List.mem_append_right _ hk⟩

/-- What a call did that got this answer. -/
inductive Did (p : Pid) (w : World) : (op : Call) → op.Ans → World → Prop
  | now (t : Catalog.Time) : Did p w .now t { w with readings := w.readings ++ [t] }
  | newID (u : UUID) : Did p w .newID u { w with draws := w.draws ++ [(p, u)] }
  | begin (t : Catalog.Time) (h : w.txs p = none) : Did p w .begin (.ok ()) (w.put p (.start (pgTime t)) [])
  | commit {tx : Tx} (h : w.txs p = some tx) : Did p w .commit (.ok ()) ((w.commit p tx).endTx p)
  | abort : Did p w .commit (.error .other) (w.fault.endTx p)
  | rollback : Did p w .rollback () (w.endTx p)
  | exec {q : Stmt} {a : q.Ans} {ws : List Write} {tx : Tx} (h : w.txs p = some tx)
      (hplan : q.plan tx.begun (tx.view w.db) = .ok (a, ws)) (hb : w.blocked p (ws.flatMap Write.keys) = false) :
      Did p w (.exec .tx q) (.ok a) (w.put p (tx.ran q a ws) (ws.flatMap Write.keys))
  | reject {q : Stmt} {e : PgError} {tx : Tx} (h : w.txs p = some tx)
      (hplan : q.plan tx.begun (tx.view w.db) = .error e) : Did p w (.exec .tx q) (.error e) w
  | auto {q : Stmt} {a : q.Ans} {ws : List Write} (t : Catalog.Time) (hplan : q.plan (pgTime t) w.db = .ok (a, ws))
      (hb : w.blocked p (ws.flatMap Write.keys) = false) :
      Did p w (.exec .pool q) (.ok a) (w.commit p ((Tx.start (pgTime t)).ran q a ws))
  | autoReject {q : Stmt} {e : PgError} (t : Catalog.Time) (hplan : q.plan (pgTime t) w.db = .error e) :
      Did p w (.exec .pool q) (.error e) w
  | claim {tx : Tx} (h : w.txs p = some tx) :
      Did p w .claim (.ok ()) (w.setCursor p (tx.view w.db).pending)
  | noRow {tx : Tx} (h : w.txs p = some tx) (hcur : w.cursors p = []) : Did p w .next (.ok none) w
  | row {tx : Tx} {o o' : OutboxRow} {rest : List OutboxRow} (h : w.txs p = some tx)
      (hcur : w.cursors p = o :: rest) (hclaim : w.claimable p tx o.id = some o') :
      Did p w .next (.ok (some o'))
        ((w.setCursor p rest).put p { tx with claimed := tx.claimed ++ [o.id] } [.outbox o.id])
  | publish (subject msgID : GoString) (data : Catalog.Envelope) (t : Catalog.Time) :
      Did p w (.publish subject msgID data) (.ok ()) { w with bus := w.bus.accept ⟨subject, msgID, data⟩ t }
  | timeout (subject msgID : GoString) (data : Catalog.Envelope) (text : GoString) :
      Did p w (.publish subject msgID data) (.error text)
        { w with bus := { w.bus with inflight := w.bus.inflight ++ [⟨subject, msgID, data⟩] } }
  | beginFault : Did p w .begin (.error .other) w.fault
  | execFault (db : DBTX) (q : Stmt) : Did p w (.exec db q) (.error .other) w.fault
  | claimFault : Did p w .claim (.error .other) w.fault
  | nextFault : Did p w .next (.error .other) w.fault

theorem call_did {op : Call} {c : Choice} {a : op.Ans} (h : call p op c w = some (a, w')) : Did p w op a w' := by
  cases op with
  | now =>
    cases c <;> cases h
    exact .now _
  | newID =>
    cases c <;> cases h
    exact .newID _
  | begin =>
    cases c <;> simp only [call, reduceCtorEq] at h
    · cases h
      exact .beginFault
    · split at h <;> cases h
      exact .begin _ ‹_›
  | commit =>
    cases c <;> simp only [call, reduceCtorEq] at h
    · split at h <;> cases h
      exact .commit ‹_›
    · cases h
      exact .abort
  | rollback =>
    cases c <;> cases h
    exact .rollback
  | exec db q =>
    cases c <;> cases db <;> simp only [call, reduceCtorEq] at h
    · split at h
      · split at h
        · split at h <;> cases h
          exact .exec ‹_› ‹_› (Bool.eq_false_iff.2 ‹_›)
        · cases h
          exact .reject ‹_› ‹_›
      · cases h
    · cases h
      exact .execFault ..
    · cases h
      exact .execFault ..
    · split at h
      · split at h <;> cases h
        exact .auto _ ‹_› (Bool.eq_false_iff.2 ‹_›)
      · cases h
        exact .autoReject _ ‹_›
  | claim =>
    cases c <;> simp only [call, reduceCtorEq] at h
    · split at h <;> cases h
      exact .claim ‹_›
    · cases h
      exact .claimFault
  | next =>
    cases c <;> simp only [call, reduceCtorEq] at h
    · split at h
      · split at h
        · cases h
          exact .noRow ‹_› ‹_›
        · split at h <;> cases h
          exact .row ‹_› ‹_› ‹_›
      · cases h
    · cases h
      exact .nextFault
  | publish subject msgID data =>
    cases c <;> cases h
    · exact .publish ..
    · exact .timeout ..

theorem blocked_of_claimable {tx : Tx} {id : UUID} {o : OutboxRow} (h : w.claimable p tx id = some o) :
    w.blocked p [.outbox id] = false := by
  simp only [claimable] at h
  split at h
  · split at h
    · exact And.right ‹_›
    · cases h
  · cases h

theorem Did.effect {op : Call} {a : op.Ans} (h : Did p w op a w') : Effect p w w' := by
  cases h with
  | now => exact .loc (.quiet (List.prefix_refl _) (List.prefix_append _ _) ⟨[], by simp, by simp⟩ le_rfl)
  | newID => exact .loc (.quiet (List.prefix_refl _) (List.prefix_refl _) ⟨_, rfl, by simp⟩ le_rfl)
  | begin => exact .loc (.put (fun k hk => by simp [Tx.keys, Tx.start] at hk) (by simp [blocked]))
  | commit h => exact .commit h
  | abort => exact .loc (.stop (Nat.le_succ _))
  | rollback => exact .loc (.stop le_rfl)
  | exec h _ hb => exact .loc (.ran h hb)
  | auto _ _ hb => exact .auto (by simpa [Tx.keys, Tx.ran, Tx.start] using hb)
  | claim => exact .loc (.quiet (List.prefix_refl _) (List.prefix_refl _) ⟨[], by simp, by simp⟩ le_rfl)
  | @row tx o _ _ h _ hclaim =>
    refine .loc (.put (fun k hk => ?_) (blocked_of_claimable hclaim))
    simp only [Tx.keys, List.map_append, List.map_cons, List.map_nil, List.mem_append] at hk
    rcases hk with hk | hk | hk
    · exact .inr ⟨tx, h, List.mem_append_left _ hk⟩
    · exact .inr ⟨tx, h, List.mem_append_right _ hk⟩
    · exact .inl hk
  | publish => exact .loc (.quiet (List.prefix_append _ _) (List.prefix_refl _) ⟨[], by simp, by simp⟩ le_rfl)
  | timeout => exact .loc (.quiet (List.prefix_refl _) (List.prefix_refl _) ⟨[], by simp, by simp⟩ le_rfl)
  | reject | autoReject | noRow => exact .loc (.refl p w)
  | beginFault | execFault | claimFault | nextFault => exact .loc (.fault p w)

theorem call_effect {op : Call} {c : Choice} {a : op.Ans} (h : call p op c w = some (a, w')) :
    Effect p w w' :=
  (call_did h).effect

/-! ### Open transactions -/

theorem txs_put {P : Pid → Tx → Prop} {tx : Tx} {ks : List Key} (hp : P p tx)
    (h : ∀ q tx', q ≠ p → w.txs q = some tx' → P q tx') (q : Pid) (tx' : Tx)
    (hq : (w.put p tx ks).txs q = some tx') : P q tx' := by
  by_cases hqp : q = p
  · subst hqp
    simp only [World.put, Function.update_self, Option.some.injEq] at hq
    exact hq ▸ hp
  · simp only [World.put, Function.update_of_ne hqp] at hq
    exact h q tx' hqp hq

theorem txs_endTx {q : Pid} {tx : Tx} (h : (w.endTx p).txs q = some tx) : q ≠ p ∧ w.txs q = some tx := by
  by_cases hqp : q = p
  · subst hqp
    simp [World.endTx] at h
  · simp only [World.endTx, Function.update_of_ne hqp] at h
    exact ⟨hqp, h⟩

/-! ### Locks -/

theorem init_locksOk (db : Tables) : (init db).LocksOk :=
  ⟨by simp [init], by simp [init]⟩

theorem LocksOk.congr (h : w.LocksOk) (ht : w'.txs = w.txs) (hl : w'.locks = w.locks) : w'.LocksOk :=
  ⟨by rw [ht, hl]; exact h.held, by rw [hl]; exact h.excl⟩

theorem LocksOk.endTx (h : w.LocksOk) (p : Pid) : (w.endTx p).LocksOk := by
  refine ⟨fun q tx hq k hk => ?_, fun q q' k hk hk' => ?_⟩
  · obtain ⟨hqp, hq⟩ := txs_endTx hq
    exact List.mem_filter.2 ⟨h.held q tx hq k hk, by simpa using hqp⟩
  · exact h.excl q q' k (List.mem_of_mem_filter hk) (List.mem_of_mem_filter hk')

theorem Local.locksOk (h : w.LocksOk) (hl : Local p w w') : w'.LocksOk := by
  cases hl with
  | quiet => exact h.congr rfl rfl
  | @stop n => exact LocksOk.endTx (w := { w with faults := n }) (h.congr rfl rfl) p
  | @put _ tx ks hk hb =>
    refine ⟨txs_put (fun k hk' => ?_) fun q tx' _ hq k hk' => ?_, fun q q' k hq hq' => ?_⟩
    · rcases hk k hk' with hk' | ⟨tx₀, htx, hk₀⟩
      · exact List.mem_append_right _ (List.mem_map_of_mem hk')
      · exact List.mem_append_left _ (h.held p tx₀ htx k hk₀)
    · exact List.mem_append_left _ (h.held q tx' hq k hk')
    · simp only [World.put, List.mem_append, List.mem_map, Prod.mk.injEq] at hq hq'
      rcases hq with hq | ⟨k₁, hk₁, rfl, rfl⟩ <;> rcases hq' with hq' | ⟨k₂, hk₂, rfl, rfl⟩
      · exact h.excl q q' k hq hq'
      · exact not_locked_of_not_blocked hb hk₂ hq
      · exact (not_locked_of_not_blocked hb hk₁ hq').symm
      · rfl

theorem Effect.locksOk (h : w.LocksOk) (he : Effect p w w') : w'.LocksOk := by
  cases he with
  | loc hl => exact hl.locksOk h
  | @commit tx => exact LocksOk.endTx (h.congr rfl rfl : (w.commit p tx).LocksOk) p
  | auto => exact h.congr rfl rfl

end World

/-! ### What the others do -/

/-- `l` leads from the tables `t` to `t'`, each commit starting where the one before it ended. -/
def Chain (t : Tables) : List Commit → Tables → Prop
  | [], t' => t' = t
  | e :: l, t' => e.before = t ∧ Chain e.after l t'

theorem Chain.append {t t' t'' : Tables} {l l' : List Commit} (h : Chain t l t') (h' : Chain t' l' t'') :
    Chain t (l ++ l') t'' := by
  induction l generalizing t with
  | nil => exact h ▸ h'
  | cons e l ih => exact ⟨h.1, ih h.2⟩

theorem Chain.of_append {t t'' : Tables} {l l' : List Commit} (h : Chain t (l ++ l') t'') :
    ∃ t', Chain t l t' ∧ Chain t' l' t'' := by
  induction l generalizing t with
  | nil => exact ⟨t, rfl, h⟩
  | cons e l ih =>
    obtain ⟨t', hl, hl'⟩ := ih h.2
    exact ⟨t', ⟨h.1, hl⟩, hl'⟩

/-- What relates the two ends of every commit relates the ends of the chain. -/
theorem Chain.rel {R : Tables → Tables → Prop} (hrefl : ∀ t, R t t) (htrans : ∀ t t' t'', R t t' → R t' t'' → R t t'')
    {t t' : Tables} {l : List Commit} (h : Chain t l t') (hl : ∀ e ∈ l, R e.before e.after) : R t t' := by
  induction l generalizing t with
  | nil => exact (show t' = t from h) ▸ hrefl t
  | cons e l ih =>
    obtain ⟨hfirst, hrest⟩ := List.forall_mem_cons.1 hl
    exact h.1 ▸ htrans _ _ _ hfirst (ih h.2 hrest)

/-- From `w` to `w'` only processes other than `p` have made calls. -/
structure Others (p : Pid) (w w' : World) : Prop where
  tx : w'.txs p = w.txs p
  locks : ∀ k, (p, k) ∈ w.locks → (p, k) ∈ w'.locks
  frame : ∀ k, (p, k) ∈ w.locks → w.db.Agree w'.db k
  log : ∃ l, w'.log = w.log ++ l ∧ Chain w.db l w'.db ∧ ∀ e ∈ l, e.pid ≠ p
  accepted : w.bus.accepted <+: w'.bus.accepted
  readings : w.readings <+: w'.readings
  draws : ∃ l, w'.draws = w.draws ++ l ∧ ∀ d ∈ l, d.1 ≠ p
  faults : w.faults ≤ w'.faults

namespace Others

variable {p : Pid} {w w' : World}

theorem refl (p : Pid) (w : World) : Others p w w where
  tx := rfl
  locks _ := id
  frame k _ := .refl _ k
  log := ⟨[], by simp, rfl, by simp⟩
  accepted := List.prefix_refl _
  readings := List.prefix_refl _
  draws := ⟨[], by simp, by simp⟩
  faults := le_rfl

theorem trans {w'' : World} (h : Others p w w') (h' : Others p w' w'') : Others p w w'' where
  tx := h'.tx.trans h.tx
  locks k hk := h'.locks k (h.locks k hk)
  frame k hk := (h.frame k hk).trans (h'.frame k (h.locks k hk))
  log := by
    obtain ⟨l, hl, hc, hp⟩ := h.log
    obtain ⟨l', hl', hc', hp'⟩ := h'.log
    refine ⟨l ++ l', by rw [hl', hl, List.append_assoc], hc.append hc', fun e he => ?_⟩
    exact (List.mem_append.1 he).elim (hp e) (hp' e)
  accepted := h.accepted.trans h'.accepted
  readings := h.readings.trans h'.readings
  draws := by
    obtain ⟨l, hl, hp⟩ := h.draws
    obtain ⟨l', hl', hp'⟩ := h'.draws
    refine ⟨l ++ l', by rw [hl', hl, List.append_assoc], fun d hd => ?_⟩
    exact (List.mem_append.1 hd).elim (hp d) (hp' d)
  faults := h.faults.trans h'.faults

end Others

/-- A commit changes nothing under a key that another process has locked. -/
theorem Tx.agree_view {tx : Tx} {k : Key} (h : k ∉ tx.keys) (t : Tables) : t.Agree (tx.view t) k := by
  have hws : ∀ w ∈ tx.writes, k ∉ w.keys := fun w hw hk =>
    h (List.mem_append_left _ (List.mem_flatMap.2 ⟨w, hw, hk⟩))
  unfold Tx.view
  generalize tx.writes = ws at hws
  induction ws generalizing t with
  | nil => exact .refl t k
  | cons w ws ih =>
    exact (Write.agree_apply (hws w List.mem_cons_self) t).trans
      (ih (w.apply t) fun w' hw' => hws w' (List.mem_cons_of_mem _ hw'))

namespace World

variable {w w' : World} {p q : Pid}

theorem Local.others (hl : Local p w w') (hpq : p ≠ q) : Others q w w' := by
  cases hl with
  | quiet hb hrs hds hn =>
    obtain ⟨l, hl, hp⟩ := hds
    exact { Others.refl q w with
      accepted := hb, readings := hrs, draws := ⟨l, hl, fun d hd e => hpq ((hp d hd).symm.trans e)⟩, faults := hn }
  | put hk hb =>
    exact { Others.refl q w with
      tx := Function.update_of_ne (Ne.symm hpq) ..
      locks := fun k hk => List.mem_append_left _ hk }
  | stop hn =>
    exact { Others.refl q w with
      tx := Function.update_of_ne (Ne.symm hpq) ..
      locks := fun k hk => List.mem_filter.2 ⟨hk, by simpa using Ne.symm hpq⟩
      faults := hn }

theorem commit_others {tx : Tx} (hpq : p ≠ q) (hk : ∀ k ∈ tx.keys, (q, k) ∉ w.locks) :
    Others q w (w.commit p tx) :=
  { Others.refl q w with
    frame := fun k hq => tx.agree_view (fun h => hk k h hq) w.db
    log := ⟨_, rfl, ⟨rfl, rfl⟩, by simpa using hpq⟩ }

/-- Whatever a process does is a move the other processes rely on. -/
theorem Effect.others (hw : w.LocksOk) (he : Effect p w w') (hpq : p ≠ q) : Others q w w' := by
  cases he with
  | loc hl => exact hl.others hpq
  | @commit tx h =>
    refine (commit_others hpq fun k hk hq => hpq ?_).trans
      (Local.others (.stop (p := p) (w := w.commit p tx) le_rfl) hpq)
    exact hw.excl p q k (hw.held p tx h k hk) hq
  | @auto tx h =>
    exact commit_others hpq fun k hk hq => hpq (not_locked_of_not_blocked h hk hq).symm

theorem crash_others (hpq : p ≠ q) : Others q w (w.endTx p) :=
  Local.others (.stop (p := p) (w := w) le_rfl) hpq

/-- What happens without a call. -/
theorem env_cases {c : Choice} (h : env c w = some w') :
    (∃ p l, w' = w.setCursor p l) ∨
    (∃ i m t, w.bus.inflight[i]? = some m ∧
      w' = { w with bus := { w.bus.accept m t with inflight := w.bus.inflight.eraseIdx i } }) := by
  cases c <;> simp only [env, reduceCtorEq] at h
  · split at h
    · split at h
      · cases h
      · split at h <;> cases h
        exact .inl ⟨_, _, rfl⟩
    · cases h
  · split at h <;> cases h
    exact .inr ⟨_, _, _, ‹_›, rfl⟩

theorem env_local {c : Choice} (h : env c w = some w') (p : Pid) : Local p w w' := by
  rcases env_cases h with ⟨q, l, rfl⟩ | ⟨i, m, t, -, rfl⟩
  · exact .quiet (List.prefix_refl _) (List.prefix_refl _) ⟨[], by simp, by simp⟩ le_rfl
  · exact .quiet (List.prefix_append _ _) (List.prefix_refl _) ⟨[], by simp, by simp⟩ le_rfl

theorem env_others {c : Choice} (h : env c w = some w') (p : Pid) : Others p w w' :=
  (env_local h (p + 1)).others (Nat.succ_ne_self p)

end World

end Forge
