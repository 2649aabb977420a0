import Forge.Catalog.CommandTx

/-!
# Commands run one after another

A command that runs while nobody else commits sees the same tables at every statement, so all it did
is known from the tables it started on: `MutationOutcome` for a mutation, `RegisterOutcome` for a
registration. `runAll` runs any commands one after another; each may fail at any call.
-/

namespace Forge.Catalog

/-! ### Mutations that run alone -/

section
variable {p : Pid} {w₀ w : World} {id : UUID} {l : Script}

/-- Alone, the row loaded is that of the start. -/
theorem ran_load {t : Timestamptz} {S S' : Snap} {tx : Tx} {row : Option ServiceRow}
    (h : Ran p (.start t) S (⟨.selectService id, row⟩ :: l) tx S') (hp : ∀ e ∈ S'.log, e.pid = p) :
    S.db.service id = row ∧ Ran p ⟨t, [], row.toList, []⟩ S l tx S' := by
  obtain ⟨ws, hplan, hran⟩ := h.alone hp
  have heval := (Stmt.plan_ok hplan).2
  simp only [Stmt.eval, Tx.view, Tx.start, List.foldl_nil, Except.ok.injEq, Prod.mk.injEq] at heval
  obtain ⟨rfl, rfl⟩ := heval
  exact ⟨rfl, hran⟩

/-- The columns of an aggregate satisfy the constraints of the table. -/
theorem checked_of {r : ServiceRow} {s : Service} (ht : r.tier = s.tier.v)
    (hl : r.lifecycle = s.lifecycle.text) : Stmt.Checked r := by
  refine ⟨by rw [ht]; exact ⟨s.tier.ge, s.tier.le⟩, ?_⟩
  rw [hl]
  cases s.lifecycle <;> simp [Lifecycle.text]

/-- `UPDATE` with the columns of an aggregate is rejected because of their texts only. -/
theorem eval_updateStmt_alone {now : Timestamptz} {t : Tables} {r : ServiceRow} {s : Service} {v : Int}
    (hr : t.service s.id.v = some r) : (updateStmt s v).eval now t =
      if r.version = v then .ok (1, [.setService s.id.v (updateCols s)]) else .ok (0, []) := by
  have hc : Stmt.Checked (r.set (updateCols s)) := checked_of rfl rfl
  simp only [Stmt.eval, hr, if_pos hc]

/-- `recordOwnership` opens its interval if the new id is free and the service exists. -/
theorem plan_openStmt_ok {now : Timestamptz} {t : Tables} {u : UUID} {s : Service}
    (htext : ∀ x ∈ (updateCols s).texts, TextOk x) (hu : t.history.any (·.id = u) = false)
    (hs : t.service s.id.v ≠ none) : ∃ ws, (openStmt u s).plan now t = .ok ((), ws) := by
  rw [Stmt.plan_of_taken (taken_openStmt htext u)]
  simp only [Stmt.eval, Stmt.planHistory, hu, if_neg hs]
  split
  · exact ⟨_, rfl⟩
  · exact ⟨_, rfl⟩

theorem any_closeHistory (t : Tables) (ids : List UUID) (valid_to : Timestamptz) (u : UUID) :
    ((Write.closeHistory ids valid_to).apply t).history.any (·.id = u) = t.history.any (·.id = u) := by
  simp only [Write.apply, List.any_map]
  congr 1
  funext h
  simp only [Function.comp]
  split <;> rfl

/-- The ids made in `w` are not those of rows of `t`. -/
def Fresh (t : Tables) (w : World) : Prop :=
  ∀ u ∈ w.ids, t.history.any (·.id = u) = false ∧ t.outbox.any (·.id = u) = false

variable {r : ServiceRow} {s' : Service} {v : Int}

/-- Alone, without faults and with fresh ids, `Update` fails only if the version is not the expected one,
or because of a text. -/
theorem UpdateFailed.alone (h : UpdateFailed p w₀ [⟨.selectService id, some r⟩] s' v w) (hp : Alone p w)
    (hf : w.faults = 0) (hfresh : Fresh w₀.db w) (hid : w₀.db.service id = some r → s'.id.v = id) :
    w₀.db.service id = some r ∧ (r.version ≠ v ∨ ¬ ∀ x ∈ (updateCols s').texts, TextOk x) := by
  cases h with
  | fault h => omega
  | stale h =>
    obtain ⟨t, tx, -, hran⟩ := h.ran
    obtain ⟨hr, hran⟩ := ran_load hran hp
    obtain ⟨ws, hplan, -⟩ := hran.alone hp
    have heval := (Stmt.plan_ok hplan).2
    rw [eval_updateStmt_alone (show Tables.service _ s'.id.v = some r by rw [hid hr]; exact hr)] at heval
    split at heval
    · cases heval
    · exact ⟨hr, .inl ‹_›⟩
  | update h hq =>
    obtain ⟨t, tx, htx, hran⟩ := h.ran
    obtain ⟨tx', htx', hq⟩ := hq
    cases htx.symm.trans htx'
    obtain ⟨hr, rfl, hf⟩ := ran_load hran hp
    have hS : w.snap = w₀.snap := hf.alone hp
    have hdb : w.db = w₀.db := congrArg Snap.db hS
    refine ⟨hr, .inr fun htext => ?_⟩
    rw [Stmt.plan_of_taken (taken_updateStmt.2 htext), eval_updateStmt_alone (show Tables.service _ s'.id.v = some r by
      rw [hid hr]; exact (congrArg (Tables.service · id) hdb).trans hr)] at hq
    split at hq <;> cases hq
  | close h hq =>
    obtain ⟨t, tx, htx, hran⟩ := h.ran
    obtain ⟨tx', htx', hq⟩ := hq
    obtain ⟨hr, hran⟩ := ran_load hran hp
    refine ⟨hr, .inr fun htext => ?_⟩
    rw [Stmt.plan_of_taken (taken_closeStmt htext)] at hq
    cases hq
  | @record n u e hn hu h hq =>
    obtain ⟨t, tx, htx, hran⟩ := h.ran
    obtain ⟨tx', htx', hq⟩ := hq
    cases htx.symm.trans htx'
    obtain ⟨hr, hran⟩ := ran_load hran hp
    obtain ⟨ws₂, hp₂, hran⟩ := hran.alone hp
    have htext := taken_updateStmt.1 (Stmt.plan_ok hp₂).1
    obtain ⟨cur, hcur, -, rfl⟩ := plan_updateStmt hp₂ hn
    obtain ⟨ws₃, hp₃, rfl, hf⟩ := hran.alone hp
    have hS : w.snap = w₀.snap := hf.alone hp
    have hdb : w.db = w₀.db := congrArg Snap.db hS
    have heval := (Stmt.plan_ok hp₃).2
    simp only [Stmt.eval, Except.ok.injEq, Prod.mk.injEq, true_and] at heval
    subst heval
    -- the new id is free and the service is there, so the interval can be opened
    have hfree : w.db.history.any (·.id = u) = false := by rw [hdb]; exact (hfresh u (World.mem_ids hu)).1
    have hthere : ((Write.setService s'.id.v (updateCols s')).apply w.db).service s'.id.v ≠ none := by
      rw [Write.service_set, hid hr, hdb, show w₀.db.service id = some r from hr]
      intro hnone
      cases hnone
    obtain ⟨ws, hok⟩ := plan_openStmt_ok htext (t := (Write.closeHistory _ _).apply
      ((Write.setService s'.id.v (updateCols s')).apply w.db)) ((any_closeHistory ..).trans hfree) hthere
    cases hok.symm.trans hq

variable [UuidLib] {ev : Int} {m : Mutation} {e : Err}

/-- The tables do not take what the mutation makes of the stored service. -/
def Mutation.Unstorable (m : Mutation) (r : ServiceRow) : Prop :=
  ∃ s s' now, scanService (some r) = .ok s ∧ m.apply now s = .ok s' ∧ ¬ s'.Storable

/-- Alone, without faults and with fresh ids, a mutation fails only because the domain refuses it, because
of a positive expected version that is not the stored one, or because the tables do not take its texts. -/
theorem MutateFailed.alone (h : MutateFailed p w₀ id ev m w e) (hp : Alone p w) (hf : w.faults = 0)
    (hfresh : Fresh w₀.db w) (hr : w₀.db.service id = some r) (hst : Stored r) :
    (∃ s, scanService (some r) = .ok s ∧ ∀ now, m.apply now s = .error e) ∨ (0 < ev ∧ ev ≠ r.version) ∨
      m.Unstorable r := by
  cases h with
  | fault h => omega
  | load hw h =>
    obtain ⟨t, tx, -, hran⟩ := hw.ran
    obtain ⟨s, hs, -, -⟩ := hst.scan
    rw [← show w₀.db.service id = _ from (ran_load hran hp).1, hr, hs] at h
    cases h
  | apply hw hs h =>
    obtain ⟨t, tx, -, hran⟩ := hw.ran
    cases hr.symm.trans (ran_load hran hp).1
    exact .inl ⟨_, hs, Mutation.apply_error h⟩
  | @update r' s s' now _ hs ha h =>
    have hid : w₀.db.service id = some r' → s'.id.v = id := fun hr' => by
      cases hr.symm.trans hr'
      rw [Mutation.id_of_apply ha, ← Tables.id_of_service hr, ← (hst.of_scan hs).1, insertRow]
    obtain ⟨hr', hwhy⟩ := h.alone hp hf hfresh hid
    cases hr.symm.trans hr'
    rcases hwhy with hv | htext
    · rw [← (hst.of_scan hs).1] at hv ⊢
      simp only [expectedVersionOr, insertRow] at hv ⊢
      split at hv <;> omega
    · exact .inr (.inr ⟨s, s', now, hs, ha, fun hstor => htext hstor.cols⟩)
  | @append r' s s' now n u v vs ev' es _ _ hs ha hn hes hv hw hq =>
    obtain ⟨t, tx, htx, hran⟩ := hw.ran
    obtain ⟨tx', htx', hq⟩ := hq
    cases htx.symm.trans htx'
    cases hr.symm.trans (ran_load hran hp).1
    have hdb : w.db = w₀.db := congrArg Snap.db (hw.snap_alone hp)
    obtain ⟨-, hev⟩ := hst.of_scan hs
    -- there is one event at most, so nothing has been appended yet
    obtain rfl : vs = [] := by
      rcases Mutation.apply_cases ha with rfl | ⟨e, hc⟩
      · simp [hev] at hes
      · rw [hc.events, hev] at hes
        have hlen := congrArg List.length hes
        simp only [List.length_append, List.length_map, List.length_cons, List.length_nil] at hlen
        exact List.eq_nil_of_length_eq_zero (by omega)
    obtain ⟨S₃, S₄, cur, ws, -, -, -, -, hplan, rfl⟩ := ran_mutateScript hs ha hst hn (by simp) hran
    have hmem : ev' ∈ s'.events := by simp [← hes]
    have hagg := Mutation.aggregateID_of_apply ha hev ev' hmem
    refine .inr (.inr ⟨s, s', now, hs, ha, fun hstor => ?_⟩)
    rw [Stmt.plan_of_taken (taken_outboxStmt hagg (hstor.events ev' hmem) v), eval_outboxStmt hagg] at hq
    split at hq
    · rename_i hany
      have hout : (Tx.view ⟨t, .setService id (updateCols s') :: .closeHistory (staleIds S₃.db s')
          (pgTime s'.updatedAt) :: (ws ++ []), [r], []⟩ w.db).outbox = w.db.outbox := by
        rcases plan_openStmt hplan with ⟨-, rfl⟩ | ⟨-, -, rfl⟩ <;> rfl
      rw [show ([].map fun v => Write.insertOutbox (outboxRowOf t id v)) = [] from rfl, hout, hdb,
        (hfresh v (World.mem_ids hv)).2] at hany
      cases hany
    · cases hq

/-- The invariant of a process that runs alone. -/
structure AloneInv (p : Pid) (w : World) : Prop where
  locks : w.LocksOk
  alone : Alone p w

/-- `p` runs alone and has no open transaction. -/
structure Idle (p : Pid) (w : World) : Prop extends AloneInv p w where
  tx : w.txs p = none

omit [UuidLib] in
theorem Idle.init (p : Pid) (db : Tables) : Idle p (.init db) :=
  ⟨⟨World.init_locksOk db, by simp [Alone, World.init]⟩, rfl⟩

omit [UuidLib] in
theorem AloneInv.keeps (p : Pid) : Keeps p (AloneInv p) where
  locksOk _ h := h.locks
  loc w w' h hl := by
    have hlog : w'.log = w.log := congrArg Snap.log hl.snap
    exact ⟨hl.locksOk h.locks, fun e he => h.alone e (hlog ▸ he)⟩

omit [UuidLib] in
theorem AloneInv.commit {tx : Tx} (h : AloneInv p w) (htx : w.txs p = some tx) :
    AloneInv p ((w.commit p tx).endTx p) := by
  refine ⟨World.Effect.locksOk h.locks (.commit htx), fun e he => ?_⟩
  rcases List.mem_append.1 he with he | he
  · exact h.alone e he
  · cases List.mem_singleton.1 he
    rfl

/-! ### How a command ends -/

/-- The changes a mutation to `s'` makes on the tables `t`; `ws` are those of its last statement on the
history. -/
def mutateWrites (t : Tables) (begun : Timestamptz) (s' : Service) (ws : List Write)
    (vs : List (UUID × Event)) : List Write :=
  .setService s'.id.v (updateCols s') :: .closeHistory (staleIds t s') (pgTime s'.updatedAt) ::
    (ws ++ vs.map fun v => .insertOutbox (outboxRowOf begun s'.id.v v))

/-- How a mutation of the service `id`, started alone in `w₀`, ends in `w`. -/
inductive MutationOutcome (w₀ : World) (id : UUID) (ev : Int) (m : Mutation) (res : Except Err Service)
    (w : World) : Prop
  | done {r : ServiceRow} {s s' : Service} {now : Time} {t : Timestamptz} {u : UUID}
      {vs : List (UUID × Event)} {ws : List Write} (hres : res = .ok { s' with events := [] })
      (hr : w₀.db.service id = some r) (hs : scanService (some r) = .ok s) (ha : m.apply now s = .ok s')
      (hv : r.version = expectedVersionOr ev r.version) (hvs : vs.map Prod.snd = s'.events)
      (hstor : s'.Storable)
      (hopen : (openStmt u s').plan t ([.setService id (updateCols s'),
        .closeHistory (staleIds w₀.db s') (pgTime s'.updatedAt)].foldl Write.apply w₀.db) = .ok ((), ws))
      (hdb : w.db = (mutateWrites w₀.db t s' ws vs).foldl Write.apply w₀.db) (hlog : w.log ≠ w₀.log)
      (hclock : ∃ rs, w₀.readings <+: rs ∧ rs ++ [now] <+: w.readings)
  | failed {e : Err} (hres : res = .error e) (hdb : w.db = w₀.db) (hlog : w.log = w₀.log)
      (hwhy : ∀ r, w₀.db.service id = some r → w.faults = 0 → Fresh w₀.db w →
        (∃ s e, scanService (some r) = .ok s ∧ ∀ now, m.apply now s = .error e) ∨
        (0 < ev ∧ ev ≠ r.version) ∨ m.Unstorable r)

theorem mutate_alone {sid : ServiceID} (hw₀ : Idle p w₀)
    (hst : ∀ r, w₀.db.service sid.v = some r → Stored r) {cs : List Choice} {res : Except Err Service}
    (h : (mutate sid ev m).run.exec (World.call p) cs w₀ = some (res, w)) :
    Idle p w ∧ Grown w₀ w ∧ MutationOutcome w₀ sid.v ev m res w := by
  have hsafe : Safe p (AloneInv p) (fun res w => w.txs p = none ∧ Grown w₀ w ∧
      MutationOutcome w₀ sid.v ev m res w) (mutate sid ev m).run w₀ := by
    rw [← Proc.bind_ret (ExceptT.run _)]
    refine safe_mutate (AloneInv.keeps p) hw₀.tx (fun e w₁ w' hI' ho' hg hfol hfail => ?_)
      (fun w₁ tx r s now s' hI₁ hg htx hd => ⟨hI₁.commit htx, ?_⟩)
    · intro w'' hoth hI''
      have hout := ho'.others hoth
      have hsnap := hout.snap_alone hI''.alone
      refine ⟨hout.tx, hout.grown, .failed rfl (congrArg Snap.db hsnap) (congrArg Snap.log hsnap)
        fun r hr hf hfresh => ?_⟩
      have hg'' : Grown w₁ w'' := hg.trans hoth.grown
      have hw₁ := hfail.alone (hI'.alone.of_follows hfol) (Nat.le_zero.1 (hf ▸ hg''.faults))
        (fun u hu => hfresh u (hg''.ids.subset hu)) hr (hst r hr)
      exact hw₁.imp (fun ⟨s, hs, ha⟩ => ⟨s, e, hs, ha⟩) id
    · intro w'' hoth hI''
      have hstor := hd.storable
      obtain ⟨t, n, u, vs, -, -, -, -, hran⟩ := hd.ran
      have hdb : w₁.db = w₀.db := congrArg Snap.db (hran.follows.alone hI₁.alone)
      have hlog : w₁.log = w₀.log := congrArg Snap.log (hran.follows.alone hI₁.alone)
      have hr := (ran_load hran hI₁.alone).1
      have htx' := hd.mutateTx (hst r hr)
      obtain ⟨cur, hcur, hver⟩ := htx'.current
      rw [hdb] at hcur
      cases hr.symm.trans hcur
      have hrow := (hst r hr).of_scan hd.loads
      have hid : s'.id.v = sid.v := by
        rw [Mutation.id_of_apply hd.applies, ← Tables.id_of_service hr, ← hrow.1, insertRow]
      have hsv : s.version = r.version := by rw [← hrow.1, insertRow]
      obtain ⟨S₃, S₄, u', vs', ws, hf₃, hf₄, -, hes, hplan, hwrites⟩ := htx'.writes
      have hS₃ : S₃.db = w₀.db := (congrArg Snap.db (hf₃.alone hI₁.alone)).symm.trans hdb
      have hS₄ : S₄.db = w₀.db := (congrArg Snap.db (hf₄.alone hI₁.alone)).symm.trans hdb
      rw [hS₃, hS₄] at hplan
      have hsnap := hoth.snap_alone hI''.alone
      have hgrown : Grown w₀ w'' := hg.trans ((Grown.commit p w₁ tx).trans hoth.grown)
      refine ⟨hoth.tx.trans (Function.update_self ..), hgrown,
        .done rfl hr hd.loads hd.applies (hsv ▸ hver) hes hstor hplan ?_ ?_ ?_⟩
      · rw [show w''.db = tx.view w₁.db from congrArg Snap.db hsnap, Tx.view, hwrites, hdb, hS₃, mutateWrites, hid]
      · rw [show w''.log = w₁.log ++ [_] from congrArg Snap.log hsnap, hlog]
        simp
      · obtain ⟨rs, h₁, h₂⟩ := hd.clock
        exact ⟨rs, h₁, h₂.trans hoth.readings⟩
  obtain ⟨hI, htx, hg, hout⟩ := hsafe.exec (Others.refl p) hw₀.toAloneInv h
  exact ⟨⟨hI, htx⟩, hg, hout⟩

/-- How a registration started alone in `w₀` ends in `w`. -/
inductive RegisterOutcome (w₀ : World) (inp : RegisterServiceInput) (res : Except Err Service) (w : World) :
    Prop
  | done {tenantID : TenantID} {name : ServiceName} {tier : Tier} {ownership : Ownership} {id u : UUID}
      {now : Time} {t : Timestamptz} {vs : List (UUID × Event)} {svc : Service}
      (hsvc : svc = Register ⟨id⟩ tenantID name inp.Description tier inp.Repository ownership now)
      (hres : res = .ok { svc with events := [] }) (hid : w₀.db.service id = none)
      (hfree : w₀.db.history.any (·.id = u) = false) (hvs : vs.map Prod.snd = svc.events)
      (hdb : w.db = (registerWrites t svc u vs).foldl Write.apply w₀.db)
      (hclock : ∃ rs, w₀.readings <+: rs ∧ rs ++ [now] <+: w.readings)
  | failed {e : Err} (hres : res = .error e) (hdb : w.db = w₀.db)

theorem RegisterService_alone {inp : RegisterServiceInput} (hw₀ : Idle p w₀) {cs : List Choice}
    {res : Except Err Service}
    (h : (RegisterService inp).run.exec (World.call p) cs w₀ = some (res, w)) :
    Idle p w ∧ Grown w₀ w ∧ RegisterOutcome w₀ inp res w := by
  have hsafe : Safe p (AloneInv p) (fun res w => w.txs p = none ∧ Grown w₀ w ∧ RegisterOutcome w₀ inp res w)
      (RegisterService inp).run w₀ := by
    rw [← Proc.bind_ret (ExceptT.run _)]
    have hstart : Out p w₀ w₀ := ⟨hw₀.tx, .refl .., .refl w₀⟩
    -- an error leaves the tables as they were
    have hfailed : ∀ {w' e}, Out p w₀ w' → Safe p (AloneInv p) (fun res w => w.txs p = none ∧ Grown w₀ w ∧
        RegisterOutcome w₀ inp res w) (Proc.ret (Except.error e)) w' := fun ho w'' hoth hI'' =>
      let hout := ho.others hoth
      ⟨hout.tx, hout.grown, .failed rfl (congrArg Snap.db (hout.snap_alone hI''.alone))⟩
    refine safe_RegisterService (AloneInv.keeps p) hw₀.tx (fun e _ => hfailed hstart)
      (fun w₁ svc e w₂ w' hreg hI' ho hg hfol hfail => hfailed (hreg.out.trans ho))
      (fun w₁ svc w₂ tx hreg hI₂ hg htx hd => ⟨hI₂.commit htx, ?_⟩)
    intro w'' hoth hI''
    obtain ⟨tenantID, name, tier, ownership, id, now, -, hsvc, -, hclock⟩ := hreg.svc_eq
    obtain ⟨t, u, vs, hvs, -, -, hran⟩ := hd.ran
    have hagg : ∀ v ∈ vs, v.2.AggregateID = svc.id.String := fun v hv => by
      have hmem : v.2 ∈ svc.events := hvs ▸ List.mem_map_of_mem hv
      rw [hsvc] at hmem ⊢
      rw [List.mem_singleton.1 hmem]
      rfl
    obtain ⟨S₃, hf₃, hfree, hid, -, rfl⟩ := ran_registerScript hagg hran
    have hdb : w₂.db = w₀.db := (congrArg Snap.db (hran.follows.alone hI₂.alone)).trans
      (congrArg Snap.db (hreg.out.snap_alone (hI₂.alone.of_follows hran.follows)))
    have hS₃ : S₃.db = w₀.db := (congrArg Snap.db (hf₃.alone hI₂.alone)).symm.trans hdb
    rw [show w₂.snap.db = w₀.db from hdb, hsvc] at hid
    have hsnap := hoth.snap_alone hI''.alone
    have hg₂ : Grown w₂ w'' := (Grown.commit p w₂ _).trans hoth.grown
    have hdb'' : w''.db = (registerWrites t svc u vs).foldl Write.apply w₀.db :=
      hdb ▸ (congrArg Snap.db hsnap : w''.db = Tx.view _ w₂.db)
    obtain ⟨rs, h₁, h₂⟩ := hclock
    exact ⟨hoth.tx.trans (Function.update_self ..), (hreg.out.grown.trans hg).trans hg₂,
      .done hsvc rfl hid (hS₃ ▸ hfree) hvs hdb'' ⟨rs, h₁, h₂.trans (hg.trans hg₂).readings⟩⟩
  obtain ⟨hI, htx, hg, hout⟩ := hsafe.exec (Others.refl p) hw₀.toAloneInv h
  exact ⟨⟨hI, htx⟩, hg, hout⟩

end

/-! ### Runs -/

/-- The commands of the catalog. -/
inductive CatalogCommand
  | register (inp : RegisterServiceInput)
  | mutation (c : Command)
deriving DecidableEq

section
variable [UuidLib]

def CatalogCommand.run : CatalogCommand → M Service
  | register inp => RegisterService inp
  | mutation c => c.run

/-- What the commands of a run were and what they returned. -/
abbrev Trace := List (CatalogCommand × Except Err Service)

/-- Commands run one after another by process 0, each with what the world decides about its calls. -/
def runAll : List (CatalogCommand × List Choice) → World → Option (Trace × World)
  | [], w => some ([], w)
  | (c, cs) :: rest, w => match c.run.run.exec (World.call 0) cs w with
    | some (res, w') => (runAll rest w').map fun x => ((c, res) :: x.1, x.2)
    | none => none

/-- A property that every command keeps holds after every run. -/
theorem runAll_induction (tr₀ : Trace) {P : Trace → World → Prop} {w₀ : World}
    (hP : ∀ tr w c cs res w', P tr w → c.run.run.exec (World.call 0) cs w = some (res, w') →
      P (tr ++ [(c, res)]) w')
    {cmds : List (CatalogCommand × List Choice)} {tr : Trace} {w : World} (h₀ : P tr₀ w₀)
    (h : runAll cmds w₀ = some (tr, w)) : P (tr₀ ++ tr) w := by
  induction cmds generalizing tr₀ tr w₀ with
  | nil =>
    cases h
    simpa using h₀
  | cons x rest ih =>
    obtain ⟨c, cs⟩ := x
    simp only [runAll] at h
    split at h
    · rename_i res w₁ hexec
      obtain ⟨⟨tr', w'⟩, hrest, heq⟩ := Option.map_eq_some_iff.1 h
      cases heq
      have := ih _ (hP _ _ _ _ _ _ h₀ hexec) hrest
      simpa using this
    · cases h

end

/-- A service is registered, deprecated and handed to another team, a change that fails at its
`UPDATE` is rolled back, and the service is retired. -/
def sampleRun : List (CatalogCommand × List Choice) :=
  [(.register ⟨UUID.String ⟨2⟩, "api", [], 1, [], "core", []⟩,
      [.uuid ⟨1⟩, .time 0, .time 0, .ok, .ok, .uuid ⟨10⟩, .ok, .uuid ⟨11⟩, .ok, .ok]),
    (.mutation (.changeLifecycle ⟨UUID.String ⟨1⟩, "deprecated", 0⟩),
      [.time 0, .ok, .time 5000, .ok, .ok, .uuid ⟨12⟩, .ok, .uuid ⟨13⟩, .ok, .ok]),
    (.mutation (.changeOwnership ⟨UUID.String ⟨1⟩, "ops", [], 0⟩),
      [.time 0, .ok, .time 6000, .ok, .ok, .uuid ⟨14⟩, .ok, .uuid ⟨15⟩, .ok, .ok]),
    (.mutation (.changeOwnership ⟨UUID.String ⟨1⟩, "web", [], 0⟩), [.time 0, .ok, .time 7000, .fault, .ok]),
    (.mutation (.retire ⟨UUID.String ⟨1⟩, 3⟩),
      [.time 0, .ok, .time 8000, .ok, .ok, .uuid ⟨16⟩, .ok, .uuid ⟨17⟩, .ok, .ok])]

end Forge.Catalog
