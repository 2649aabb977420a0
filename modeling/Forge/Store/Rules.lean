import Forge.Store.Effects

/-!
# Rules for processes over the database

`Safe p I Q prog w` is the rely/guarantee judgement of `prog` run as process `p` among any others. A
process in a transaction is described by the statements it has run with their answers (`InTx`): `Ran`
says on which committed tables each was read, and that between two of them only others committed and
nothing changed under the keys the transaction had locked. One rule for each kind of call carries
these descriptions on. A process that runs alone sees the same tables at every statement
(`Ran.alone`).
-/

namespace Forge

/-- The committed part of the world. -/
structure Snap where
  db : Tables
  log : List Commit

def World.snap (w : World) : Snap := ⟨w.db, w.log⟩

/-- From `S` to `S'` only processes other than `p` have committed, and nothing under `ks`. -/
structure Follows (p : Pid) (ks : List Key) (S S' : Snap) : Prop where
  log : ∃ l, S'.log = S.log ++ l ∧ Chain S.db l S'.db ∧ ∀ e ∈ l, e.pid ≠ p
  frame : ∀ k ∈ ks, S.db.Agree S'.db k

namespace Follows

variable {p : Pid} {ks : List Key} {S S' S'' : Snap}

theorem refl (p : Pid) (ks : List Key) (S : Snap) : Follows p ks S S :=
  ⟨⟨[], by simp, rfl, by simp⟩, fun k _ => .refl _ k⟩

theorem trans (h : Follows p ks S S') (h' : Follows p ks S' S'') : Follows p ks S S'' := by
  obtain ⟨l, hl, hc, hp⟩ := h.log
  obtain ⟨l', hl', hc', hp'⟩ := h'.log
  refine ⟨⟨l ++ l', by rw [hl', hl, List.append_assoc], hc.append hc', fun e he => ?_⟩,
    fun k hk => (h.frame k hk).trans (h'.frame k hk)⟩
  exact (List.mem_append.1 he).elim (hp e) (hp' e)

theorem mono {ks' : List Key} (h : Follows p ks S S') (hk : ks' ⊆ ks) : Follows p ks' S S' :=
  ⟨h.log, fun k hk' => h.frame k (hk hk')⟩

/-- If nobody else has committed, nothing has changed. -/
theorem alone (h : Follows p ks S S') (hp : ∀ e ∈ S'.log, e.pid = p) : S' = S := by
  obtain ⟨l, hl, hc, hne⟩ := h.log
  cases l with
  | nil =>
    obtain ⟨db, log⟩ := S
    obtain ⟨db', log'⟩ := S'
    simp only [List.append_nil] at hl
    rw [hl, show db' = db from hc]
  | cons e l => exact absurd (hp e (by simp [hl])) (hne e (by simp))

end Follows

/-- What every commit of a chain found is found at its start. -/
theorem Chain.before {P : Tables → Prop} {t t' : Tables} {l : List Commit} (h : Chain t l t')
    (hl : ∀ e ∈ l, P e.before) (ht : P t') : P t := by
  cases l with
  | nil => exact h ▸ ht
  | cons e l => exact h.1 ▸ hl e List.mem_cons_self

/-- What holds of the committed tables now and before every commit has always held. -/
theorem Follows.past {P : Tables → Prop} {p : Pid} {ks : List Key} {S : Snap} {w : World}
    (h : Follows p ks S w.snap) (hlog : ∀ e ∈ w.log, P e.before) (hdb : P w.db) : P S.db := by
  obtain ⟨l, hl, hch, -⟩ := h.log
  exact hch.before (fun e he => hlog e (show e ∈ w.snap.log from hl ▸ List.mem_append_right _ he)) hdb

theorem Others.follows {p : Pid} {w w' : World} {tx : Tx} (h : Others p w w') (hw : w.LocksOk)
    (htx : w.txs p = some tx) : Follows p tx.keys w.snap w'.snap :=
  ⟨h.log, fun k hk => h.frame k (hw.held p tx htx k hk)⟩

theorem Others.follows_nil {p : Pid} {w w' : World} (h : Others p w w') : Follows p [] w.snap w'.snap :=
  ⟨h.log, fun _ hk => nomatch hk⟩

theorem Tx.keys_subset_ran (tx : Tx) (q : Stmt) (a : q.Ans) (ws : List Write) :
    tx.keys ⊆ (tx.ran q a ws).keys := by
  intro k hk
  simp only [Tx.keys, Tx.ran, List.flatMap_append, List.mem_append] at hk ⊢
  exact hk.imp .inl id

/-- The statements of a transaction with their answers. -/
abbrev Script := List (Σ q : Stmt, q.Ans)

/-- `tx` has run the statements of `l`, becoming `tx'`, while the tables went from `S` to `S'`. -/
def Ran (p : Pid) (tx : Tx) (S : Snap) : Script → Tx → Snap → Prop
  | [], tx', S' => tx' = tx ∧ Follows p tx.keys S S'
  | ⟨q, a⟩ :: l, tx', S' => ∃ S₁ ws, Follows p tx.keys S S₁ ∧
      q.plan tx.begun (tx.view S₁.db) = .ok (a, ws) ∧ Ran p (tx.ran q a ws) S₁ l tx' S'

namespace Ran

variable {p : Pid} {tx tx' : Tx} {S S' S'' : Snap} {l : Script}

theorem follow (h : Ran p tx S l tx' S') (h' : Follows p tx'.keys S' S'') : Ran p tx S l tx' S'' := by
  induction l generalizing tx S with
  | nil => exact ⟨h.1, h.2.trans (h.1 ▸ h')⟩
  | cons qa l ih =>
    obtain ⟨S₁, ws, h₁, h₂, h₃⟩ := h
    exact ⟨S₁, ws, h₁, h₂, ih h₃⟩

theorem snoc {q : Stmt} {a : q.Ans} {ws : List Write} (h : Ran p tx S l tx' S')
    (hq : q.plan tx'.begun (tx'.view S'.db) = .ok (a, ws)) :
    Ran p tx S (l ++ [⟨q, a⟩]) (tx'.ran q a ws) S' := by
  induction l generalizing tx S with
  | nil => exact ⟨S', ws, h.2, h.1 ▸ hq, congrArg (Tx.ran · q a ws) h.1, .refl ..⟩
  | cons qa l ih =>
    obtain ⟨S₁, ws₁, h₁, h₂, h₃⟩ := h
    exact ⟨S₁, ws₁, h₁, h₂, ih h₃⟩

/-- What a transaction has locked stays locked until its end. -/
theorem follows (h : Ran p tx S l tx' S') : Follows p tx.keys S S' := by
  induction l generalizing tx S with
  | nil => exact h.2
  | cons qa l ih =>
    obtain ⟨S₁, ws, h₁, -, h₃⟩ := h
    exact h₁.trans ((ih h₃).mono (Tx.keys_subset_ran ..))

/-- Every statement that was carried out had its parameters taken. -/
theorem taken (h : Ran p tx S l tx' S') : ∀ qa ∈ l, qa.1.Taken := by
  induction l generalizing tx S with
  | nil => exact fun _ hqa => nomatch hqa
  | cons qa l ih =>
    obtain ⟨S₁, ws, -, hplan, hran⟩ := h
    exact List.forall_mem_cons.2 ⟨(Stmt.plan_ok hplan).1, ih hran⟩

/-- Alone, every statement is read on the tables of the start. -/
theorem alone {q : Stmt} {a : q.Ans} (h : Ran p tx S (⟨q, a⟩ :: l) tx' S')
    (hp : ∀ e ∈ S'.log, e.pid = p) :
    ∃ ws, q.plan tx.begun (tx.view S.db) = .ok (a, ws) ∧ Ran p (tx.ran q a ws) S l tx' S' := by
  obtain ⟨S₁, ws, h₁, h₂, h₃⟩ := h
  obtain ⟨l', hl', -, -⟩ := h₃.follows.log
  have hS : S₁ = S := h₁.alone fun e he => hp e (hl' ▸ List.mem_append_left _ he)
  subst hS
  exact ⟨ws, h₂, h₃⟩

end Ran

/-- The history variables have only grown. -/
structure Grown (w w' : World) : Prop where
  accepted : w.bus.accepted <+: w'.bus.accepted
  readings : w.readings <+: w'.readings
  draws : w.draws <+: w'.draws
  faults : w.faults ≤ w'.faults

namespace Grown

variable {w w' w'' : World}

theorem refl (w : World) : Grown w w := ⟨List.prefix_refl _, List.prefix_refl _, List.prefix_refl _, le_rfl⟩

theorem trans (h : Grown w w') (h' : Grown w' w'') : Grown w w'' :=
  ⟨h.accepted.trans h'.accepted, h.readings.trans h'.readings, h.draws.trans h'.draws, h.faults.trans h'.faults⟩

end Grown

theorem Grown.ids {w w' : World} (h : Grown w w') : w.ids <+: w'.ids := h.draws.map _

/-! ### New ids -/

/-- `u` is not the id of a row, and no row refers to it. -/
structure Tables.Unused (t : Tables) (u : UUID) : Prop where
  service : ∀ r ∈ t.services, r.id ≠ u
  history : ∀ h ∈ t.history, h.id ≠ u ∧ h.service_id ≠ u
  outbox : ∀ o ∈ t.outbox, o.id ≠ u ∧ o.aggregate_id ≠ u
  idem : ∀ i ∈ t.idem, i.id ≠ u

/-- What `uuid.New` is trusted for: no id is made twice, and none is made that `t` has. -/
structure FreshDraws (t : Tables) (w : World) : Prop where
  nodup : w.ids.Nodup
  unused : ∀ u ∈ w.ids, t.Unused u

namespace FreshDraws

variable {t : Tables} {w w' : World} {p q : Pid} {u : UUID}

theorem owner (h : FreshDraws t w) (hp : (p, u) ∈ w.draws) (hq : (q, u) ∈ w.draws) : p = q :=
  congrArg Prod.fst (List.inj_on_of_nodup_map h.nodup hp hq rfl)

theorem of_grown (h : FreshDraws t w') (hg : Grown w w') : FreshDraws t w :=
  ⟨h.nodup.sublist hg.ids.sublist, fun u hu => h.unused u (hg.ids.subset hu)⟩

theorem empty (h : w.ids.Nodup) : FreshDraws .empty w :=
  ⟨h, fun u _ => by constructor <;> simp [Tables.empty]⟩

end FreshDraws

/-- A call that commits nothing leaves the committed part as it is. -/
theorem World.Local.snap {p : Pid} {w w' : World} (h : World.Local p w w') : w'.snap = w.snap := by
  cases h <;> rfl

theorem World.Local.db {p : Pid} {w w' : World} (h : World.Local p w w') : w'.db = w.db := congrArg Snap.db h.snap

theorem World.Local.log {p : Pid} {w w' : World} (h : World.Local p w w') : w'.log = w.log :=
  congrArg Snap.log h.snap

theorem World.Local.grown {p : Pid} {w w' : World} (h : World.Local p w w') : Grown w w' := by
  cases h with
  | quiet hb hrs hds hn =>
    obtain ⟨l, hl, -⟩ := hds
    exact ⟨hb, hrs, ⟨l, hl.symm⟩, hn⟩
  | put => exact ⟨List.prefix_refl _, List.prefix_refl _, List.prefix_refl _, le_rfl⟩
  | stop hn => exact ⟨List.prefix_refl _, List.prefix_refl _, List.prefix_refl _, hn⟩

theorem Others.grown {p : Pid} {w w' : World} (h : Others p w w') : Grown w w' :=
  ⟨h.accepted, h.readings, let ⟨l, hl, _⟩ := h.draws; ⟨l, hl.symm⟩, h.faults⟩

/-- `p` has no open transaction and has committed nothing since `w₀`. -/
structure Out (p : Pid) (w₀ w : World) : Prop where
  tx : w.txs p = none
  follows : Follows p [] w₀.snap w.snap
  grown : Grown w₀ w

/-- `p` began a transaction after `w₀` and has run the statements of `l` in it. -/
structure InTx (p : Pid) (w₀ : World) (l : Script) (w : World) : Prop where
  ran : ∃ t tx, w.txs p = some tx ∧ Ran p (.start t) w₀.snap l tx w.snap
  grown : Grown w₀ w

namespace InTx

variable {p : Pid} {w₀ w w' : World} {l : Script}

theorem others (h : InTx p w₀ l w) (hw : w.LocksOk) (ho : Others p w w') : InTx p w₀ l w' := by
  obtain ⟨t, tx, htx, hr⟩ := h.ran
  exact ⟨⟨t, tx, ho.tx.trans htx, hr.follow (ho.follows hw htx)⟩, h.grown.trans ho.grown⟩

theorem out {n : Nat} (h : InTx p w₀ l w) (hn : w.faults ≤ n) : Out p w₀ ({ w with faults := n }.endTx p) := by
  obtain ⟨t, tx, htx, hr⟩ := h.ran
  exact ⟨Function.update_self .., hr.follows.mono (by simp), h.grown.trans ⟨List.prefix_refl _, List.prefix_refl _, List.prefix_refl _, hn⟩⟩

end InTx

/-- Only `p` has committed. -/
def Alone (p : Pid) (w : World) : Prop := ∀ e ∈ w.log, e.pid = p

theorem InTx.snap_alone {p : Pid} {w₀ w : World} {l : Script} (h : InTx p w₀ l w) (hp : Alone p w) :
    w.snap = w₀.snap := by
  obtain ⟨t, tx, -, hr⟩ := h.ran
  exact hr.follows.alone hp

theorem Out.snap_alone {p : Pid} {w₀ w : World} (h : Out p w₀ w) (hp : Alone p w) : w.snap = w₀.snap :=
  h.follows.alone hp

theorem Out.others {p : Pid} {w₀ w w' : World} (h : Out p w₀ w) (ho : Others p w w') : Out p w₀ w' :=
  ⟨ho.tx.trans h.tx, h.follows.trans ho.follows_nil, h.grown.trans ho.grown⟩

theorem Out.trans {p : Pid} {w₀ w w' : World} (h : Out p w₀ w) (h' : Out p w w') : Out p w₀ w' :=
  ⟨h'.tx, h.follows.trans h'.follows, h.grown.trans h'.grown⟩

/-- If only `p` has committed at the end, it was so before. -/
theorem Alone.of_follows {p : Pid} {ks : List Key} {w w' : World} (h : Alone p w')
    (hf : Follows p ks w.snap w'.snap) : Alone p w := by
  obtain ⟨l, hl, -, -⟩ := hf.log
  exact fun e he => h e (show e ∈ w'.snap.log by rw [hl]; exact List.mem_append_left _ he)

/-- Alone, nothing is committed between two calls. -/
theorem Others.snap_alone {p : Pid} {w w' : World} (h : Others p w w') (hp : Alone p w') :
    w'.snap = w.snap :=
  h.follows_nil.alone hp

theorem Grown.auto (p : Pid) (w : World) (tx : Tx) : Grown w (w.commit p tx) :=
  ⟨List.prefix_refl _, List.prefix_refl _, List.prefix_refl _, le_rfl⟩

theorem Grown.commit (p : Pid) (w : World) (tx : Tx) : Grown w ((w.commit p tx).endTx p) :=
  (Grown.auto p w tx).trans ((World.Local.stop le_rfl : World.Local p _ ((w.commit p tx).endTx p)).grown)

/-- The tables are such that a statement of the open transaction of `p` fails with `e`. -/
def Rejected (p : Pid) (q : Stmt) (w : World) (e : PgError) : Prop :=
  ∃ tx, w.txs p = some tx ∧ q.plan tx.begun (tx.view w.db) = .error e

/-- `I` is an invariant that looks at a process's own transaction only when it commits. -/
structure Keeps (p : Pid) (I : World → Prop) : Prop where
  locksOk : ∀ w, I w → w.LocksOk
  loc : ∀ w w', I w → World.Local p w w' → I w'

/-- The judgement of a process among others. -/
abbrev Safe {α : Type} (p : Pid) (I : World → Prop) (Q : α → World → Prop)
    (prog : Proc Call Call.Ans α) (w : World) : Prop :=
  prog.Rg (World.call p) I (Others p) (fun _ _ => True) Q w

section rules
variable {p : Pid} {I : World → Prop} {α : Type} {Q : α → World → Prop} {w₀ w : World} {l : Script}
  (hI : Keeps p I)
include hI

theorem safe_now {k : Catalog.Time → Proc Call Call.Ans α}
    (h : ∀ w₁ t, Others p w w₁ → I w₁ → let w' := { w₁ with readings := w₁.readings ++ [t] }
      I w' → Grown w w' → Safe p I Q (k t) w') : Safe p I Q (.call .now k) w := by
  refine fun w₁ ho hI₁ => ⟨trivial, fun c t w' he => ?_⟩
  cases World.call_did he
  have hl : World.Local p w₁ { w₁ with readings := w₁.readings ++ [t] } :=
    .quiet (List.prefix_refl _) (List.prefix_append _ _) ⟨[], by simp, by simp⟩ le_rfl
  have hI' := hI.loc _ _ hI₁ hl
  exact ⟨hI', h w₁ _ ho hI₁ hI' (ho.grown.trans hl.grown)⟩

theorem safe_newID {k : UUID → Proc Call Call.Ans α}
    (h : ∀ w₁ u, Others p w w₁ → I w₁ → let w' := { w₁ with draws := w₁.draws ++ [(p, u)] }
      I w' → Grown w w' → Safe p I Q (k u) w') : Safe p I Q (.call .newID k) w := by
  refine fun w₁ ho hI₁ => ⟨trivial, fun c u w' he => ?_⟩
  cases World.call_did he
  have hl : World.Local p w₁ { w₁ with draws := w₁.draws ++ [(p, u)] } :=
    .quiet (List.prefix_refl _) (List.prefix_refl _) ⟨_, rfl, by simp⟩ le_rfl
  have hI' := hI.loc _ _ hI₁ hl
  exact ⟨hI', h w₁ _ ho hI₁ hI' (ho.grown.trans hl.grown)⟩

theorem safe_begin {k : Except PgError Unit → Proc Call Call.Ans α} (hw : Out p w₀ w)
    (herr : ∀ w', I w' → Grown w w' → Out p w₀ w' → 0 < w'.faults → Safe p I Q (k (.error .other)) w')
    (hok : ∀ w', I w' → Grown w w' → InTx p w₀ [] w' → Safe p I Q (k (.ok ())) w') :
    Safe p I Q (.call .begin k) w := by
  refine fun w₁ ho hI₁ => ⟨trivial, fun c a w' he => ?_⟩
  have h₁ := hw.others ho
  cases World.call_did he with
  | beginFault =>
    have hl : World.Local p w₁ w₁.fault := .fault p w₁
    have hI' := hI.loc _ _ hI₁ hl
    exact ⟨hI', herr _ hI' (ho.grown.trans hl.grown)
      ⟨h₁.tx, h₁.follows, h₁.grown.trans hl.grown⟩ (Nat.succ_pos _)⟩
  | begin t _ =>
    have hl : World.Local p w₁ (w₁.put p (.start (pgTime t)) []) :=
      .put (fun k hk => by simp [Tx.keys, Tx.start] at hk) (by simp [World.blocked])
    have hI' := hI.loc _ _ hI₁ hl
    refine ⟨hI', hok _ hI' (ho.grown.trans hl.grown)
      ⟨⟨_, _, Function.update_self .., rfl, ?_⟩, h₁.grown.trans hl.grown⟩⟩
    exact ⟨h₁.follows.log, fun k hk => by simp [Tx.keys, Tx.start] at hk⟩

/-- A statement in the transaction fails by itself, is rejected, or gives its answer. -/
theorem safe_exec {q : Stmt} {k : Except PgError q.Ans → Proc Call Call.Ans α} (hIw : I w)
    (hw : InTx p w₀ l w)
    (herr : ∀ e w', I w' → Grown w w' → InTx p w₀ l w' →
      (0 < w'.faults ∨ Rejected p q w' e) → Safe p I Q (k (.error e)) w')
    (hok : ∀ a w', I w' → Grown w w' → InTx p w₀ (l ++ [⟨q, a⟩]) w' → Safe p I Q (k (.ok a)) w') :
    Safe p I Q (.call (.exec .tx q) k) w := by
  refine fun w₁ ho hI₁ => ⟨trivial, fun c a w' he => ?_⟩
  have h₁ := hw.others (hI.locksOk _ hIw) ho
  obtain ⟨t, tx, htx, hr⟩ := h₁.ran
  cases World.call_did he with
  | @exec _ a _ _ h hplan hb =>
    cases htx.symm.trans h
    have hl := World.Local.ran (a := a) htx hb
    have hI' := hI.loc _ _ hI₁ hl
    exact ⟨hI', hok a _ hI' (ho.grown.trans hl.grown)
      ⟨⟨t, _, Function.update_self .., hr.snoc hplan⟩, h₁.grown.trans hl.grown⟩⟩
  | reject h hplan => exact ⟨hI₁, herr _ w₁ hI₁ ho.grown h₁ (.inr ⟨_, h, hplan⟩)⟩
  | execFault =>
    have hl : World.Local p w₁ w₁.fault := .fault p w₁
    have hI' := hI.loc _ _ hI₁ hl
    exact ⟨hI', herr _ _ hI' (ho.grown.trans hl.grown) ⟨h₁.ran, h₁.grown.trans hl.grown⟩
      (.inl (Nat.succ_pos _))⟩

theorem safe_rollback {k : Unit → Proc Call Call.Ans α} (hIw : I w) (hw : InTx p w₀ l w)
    (h : ∀ w', I w' → Grown w w' → Follows p [] w.snap w'.snap → Out p w₀ w' → Safe p I Q (k ()) w') :
    Safe p I Q (.call .rollback k) w := by
  refine fun w₁ ho hI₁ => ⟨trivial, fun c a w' he => ?_⟩
  cases World.call_did he
  have hl : World.Local p w₁ (w₁.endTx p) := .stop le_rfl
  have hI' := hI.loc _ _ hI₁ hl
  exact ⟨hI', h _ hI' (ho.grown.trans hl.grown) ho.follows_nil ((hw.others (hI.locksOk _ hIw) ho).out le_rfl)⟩

theorem safe_commit {k : Except PgError Unit → Proc Call Call.Ans α} (hIw : I w) (hw : InTx p w₀ l w)
    (herr : ∀ w', I w' → Grown w w' → Out p w₀ w' → 0 < w'.faults → Safe p I Q (k (.error .other)) w')
    (hok : ∀ w₁ t tx, I w₁ → Grown w w₁ → w₁.txs p = some tx → Ran p (.start t) w₀.snap l tx w₁.snap →
      let w' := (w₁.commit p tx).endTx p
      I w' ∧ Safe p I Q (k (.ok ())) w') : Safe p I Q (.call .commit k) w := by
  refine fun w₁ ho hI₁ => ⟨trivial, fun c a w' he => ?_⟩
  have h₁ := hw.others (hI.locksOk _ hIw) ho
  obtain ⟨t, tx, htx, hr⟩ := h₁.ran
  cases World.call_did he with
  | commit h =>
    cases htx.symm.trans h
    exact hok w₁ t tx hI₁ ho.grown htx hr
  | abort =>
    have hl : World.Local p w₁ (w₁.fault.endTx p) := .stop (Nat.le_succ _)
    have hI' := hI.loc _ _ hI₁ hl
    exact ⟨hI', herr _ hI' (ho.grown.trans hl.grown) (h₁.out (Nat.le_succ _)) (Nat.succ_pos _)⟩

/-- A statement by itself fails or is committed at once. -/
theorem safe_pool {q : Stmt} {k : Except PgError q.Ans → Proc Call Call.Ans α}
    (hfault : ∀ w₁, Others p w w₁ → I w₁.fault → Safe p I Q (k (.error .other)) w₁.fault)
    (herr : ∀ w₁ t e, Others p w w₁ → I w₁ → q.plan (pgTime t) w₁.db = .error e → Safe p I Q (k (.error e)) w₁)
    (hok : ∀ w₁ t a ws, Others p w w₁ → I w₁ → q.plan (pgTime t) w₁.db = .ok (a, ws) →
      w₁.blocked p (ws.flatMap Write.keys) = false →
      let w' := w₁.commit p ((Tx.start (pgTime t)).ran q a ws)
      I w' ∧ Safe p I Q (k (.ok a)) w') : Safe p I Q (.call (.exec .pool q) k) w := by
  refine fun w₁ ho hI₁ => ⟨trivial, fun c a w' he => ?_⟩
  cases World.call_did he with
  | execFault =>
    have hI' := hI.loc _ _ hI₁ (.fault p w₁)
    exact ⟨hI', hfault w₁ ho hI'⟩
  | auto t hplan hb => exact hok w₁ t _ _ ho hI₁ hplan hb
  | autoReject t hplan => exact ⟨hI₁, herr w₁ t _ ho hI₁ hplan⟩

end rules

/-- The judgements of all processes hold along every run. -/
theorem safe_run {α : Type} {I : World → Prop} {Q : Pid → α → World → Prop} (hI : ∀ p, Keeps p I)
    {s s' : Pool Pid Call Call.Ans α World} {ms : List (Move Pid Choice)} (hw : I s.world)
    (hs : ∀ p prog, s.procs p = some prog → Safe p I (Q p) prog s.world)
    (h : s.run World.machine ms = some s') :
    I s'.world ∧ ∀ p prog, s'.procs p = some prog → Safe p I (Q p) prog s'.world := by
  refine Pool.rg_run (M := World.machine) (R := Others) (fun p w => .refl p w) (fun p _ _ _ h h' => h.trans h')
    (fun p q op c a w w' hpq hIw hc => (World.call_effect hc).others ((hI p).locksOk w hIw) hpq)
    (fun p w hIw => ⟨(hI p).loc _ _ hIw (.stop le_rfl), fun q hpq => World.crash_others hpq⟩)
    (fun c w w' hIw hc => ⟨(hI 0).loc _ _ hIw (World.env_local hc 0), fun q => World.env_others hc q⟩)
    hw hs h

/-- A call adds a commit of its own process to the log, or nothing. -/
theorem World.Effect.log {p : Pid} {w w' : World} (h : World.Effect p w w') :
    ∀ e ∈ w'.log, e ∈ w.log ∨ e.pid = p := by
  -- the log after a commit of `p`
  have hcommit : ∀ {c : Commit}, c.pid = p → ∀ e ∈ w.log ++ [c], e ∈ w.log ∨ e.pid = p := by
    intro c hc e he
    rcases List.mem_append.1 he with he | he
    · exact .inl he
    · cases List.mem_singleton.1 he
      exact .inr hc
  intro e he
  cases h with
  | loc hl => exact .inl (hl.log ▸ he)
  | commit => exact hcommit rfl e he
  | auto => exact hcommit rfl e he

/-- Only the processes of a pool commit. -/
theorem pids_run {α : Type} {s₀ s : Pool Pid Call Call.Ans α World} {ms : List (Move Pid Choice)}
    (h₀ : s₀.world.log = []) (h : s₀.run World.machine ms = some s) : ∀ e ∈ s.world.log, s₀.procs e.pid ≠ none := by
  refine (Pool.run_induction (M := World.machine) (P := fun s => (∀ p, s₀.procs p = none → s.procs p = none) ∧
    ∀ e ∈ s.world.log, s₀.procs e.pid ≠ none) ?_ ⟨fun _ => id, by simp [h₀]⟩ h).2
  rintro s s' m ⟨hnone, hlog⟩ hm
  rcases Pool.step_cases hm with ⟨p, op, k, c, a, w, -, hp, hc, rfl⟩ | ⟨p, -, rfl⟩ | ⟨c, w, -, hc, rfl⟩
  · have hsome : s₀.procs p ≠ none := fun hn => nomatch hp.symm.trans (hnone p hn)
    refine ⟨fun q hq => ?_, fun e he => ?_⟩
    · have hqp : q ≠ p := fun e => hsome (e ▸ hq)
      exact (Function.update_of_ne hqp ..).trans (hnone q hq)
    · rcases (World.call_effect hc).log e he with he | he
      · exact hlog e he
      · exact he ▸ hsome
  · refine ⟨fun q hq => ?_, hlog⟩
    by_cases hqp : q = p
    · exact hqp ▸ Function.update_self ..
    · exact (Function.update_of_ne hqp ..).trans (hnone q hq)
  · exact ⟨hnone, fun e he => hlog e ((World.env_local hc 0).log ▸ he)⟩

end Forge
