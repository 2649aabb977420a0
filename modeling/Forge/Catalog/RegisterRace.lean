import Forge.Catalog.Records
import Forge.Catalog.RegisterProgress
import Forge.Catalog.Sequential

/-!
# Registrations that race for one name

Any number of `RegisterService` calls whose tenant and name coincide. The row of the name is locked by
the first transaction that inserts it, so at most one call commits (`Race`), and a call that fails has
either found the name or been stopped at the unique index (`RegisterFailed.name_taken`): both are
`ErrNameConflict` (`registration_race`).
-/

namespace Forge

/-- The statement that was rejected, read on what the transaction sees. -/
theorem Rejected.plan {p : Pid} {w₀ w : World} {l : Script} {q : Stmt} {e : PgError}
    (h : Rejected p q w e) (hw : InTx p w₀ l w) :
    ∃ t tx, Ran p (.start t) w₀.snap l tx w.snap ∧ q.plan tx.begun (tx.view w.db) = .error e := by
  obtain ⟨tx, htx, hplan⟩ := h
  obtain ⟨t, tx', htx', hran⟩ := hw.ran
  obtain rfl : tx = tx' := Option.some.inj (htx.symm.trans htx')
  exact ⟨t, tx, hran, hplan⟩

namespace Catalog

/-! ### Why a registration fails -/

section
variable {p : Pid} {w₀ w : World} {svc : Service} {S S' : Snap} {tx : Tx} {t : Timestamptz}

/-- A registration records one event, about its service. -/
structure Service.New (s : Service) : Prop where
  event : ∃ e, s.events = [e] ∧ e.AggregateID = s.id.String ∧ e.EventType = str "catalog.service.registered"

theorem Service.new_Register {id : ServiceID} {T : TenantID} {N : ServiceName} {d r : GoString} {tier : Tier}
    {o : Ownership} {now : Time} : (Register id T N d tier r o now).New :=
  ⟨_, rfl, rfl, rfl⟩

theorem ran_select {row : Option ServiceRow} {T : UUID} {N : GoString}
    (h : Ran p (.start t) S [⟨.selectServiceByName T N, row⟩] tx S') :
    tx = .start t ∧ ∃ S₁, Follows p [] S₁ S' ∧ S₁.db.serviceByName T N = row := by
  obtain ⟨S₁, ws, -, hplan, htx, hf⟩ := h
  have heval := (Stmt.plan_ok hplan).2
  simp only [Stmt.eval, Tx.view, Tx.start, List.foldl_nil, Except.ok.injEq, Prod.mk.injEq] at heval
  obtain ⟨hrow, rfl⟩ := heval
  exact ⟨htx, S₁, hf.mono (by simp), hrow⟩

theorem ran_insert (h : Ran p (.start t) S [⟨.selectServiceByName svc.tenantID.v svc.name.v, none⟩,
    ⟨.insertService (insertRow svc), ()⟩] tx S') : tx = ⟨t, [.insertService (insertRow svc)], [], []⟩ := by
  obtain ⟨S₁, ws₁, -, hp₁, S₂, ws₂, -, hp₂, htx, -⟩ := h
  obtain rfl : [] = ws₁ := congrArg Prod.snd (Except.ok.inj (Stmt.plan_ok hp₁).2)
  obtain ⟨-, -, rfl⟩ := plan_insertService hp₂
  exact htx

theorem plan_historyStmt_ok {now : Timestamptz} {t : Tables} {u : UUID} (hst : svc.Storable)
    (hu : t.history.any (·.id = u) = false) (hs : t.service svc.id.v ≠ none) :
    (historyStmt u svc).plan now t = .ok ((), [.insertHistory (firstOwner u svc)]) := by
  rw [Stmt.plan_of_taken (taken_historyStmt hst.cols u)]
  simp only [Stmt.eval, Stmt.planHistory, hu, if_neg hs]
  rfl

/-- Without faults, with ids that no row has and texts that the tables take, a registration fails because of
its name only. -/
theorem RegisterFailed.name_taken [UuidLib] {e : Err} (h : RegisterFailed p w₀ svc w e) (hnew : svc.New)
    (hst : svc.Storable) (hf : w.faults = 0) (hid : w.db.Unused svc.id.v) (hun : ∀ u, (p, u) ∈ w.draws → w.db.Unused u) :
    ∃ S r, Follows p [] S w.snap ∧ S.db.serviceByName svc.tenantID.v svc.name.v = some r ∧
      (e = ErrNameConflict ∨ scanService (some r) = .error e) := by
  cases h with
  | fault h => omega
  | taken hs hw =>
    obtain ⟨t, tx, -, hran⟩ := hw.ran
    obtain ⟨-, S₁, hf₁, hr⟩ := ran_select hran
    exact ⟨S₁, _, hf₁, hr, .inl rfl⟩
  | corrupt hs hw =>
    obtain ⟨t, tx, -, hran⟩ := hw.ran
    obtain ⟨-, S₁, hf₁, hr⟩ := ran_select hran
    exact ⟨S₁, _, hf₁, hr, .inr hs⟩
  | @insert pe hw hq =>
    obtain ⟨t, tx, hran, hplan⟩ := hq.plan hw
    obtain ⟨rfl, -⟩ := ran_select hran
    have hck : Stmt.Checked (insertRow svc) := checked_of rfl rfl
    rw [Stmt.plan_of_taken (taken_insertService hst.cols)] at hplan
    simp only [Stmt.eval, Tx.view, Tx.start, List.foldl_nil, if_pos hck] at hplan
    split at hplan
    · rename_i hany
      cases hplan
      obtain ⟨r', hr', he⟩ := List.any_eq_true.1 hany
      have hname : r'.tenant_id = svc.tenantID.v ∧ r'.name = svc.name.v :=
        (of_decide_eq_true he).resolve_left (hid.service r' hr')
      cases hfind : w.db.serviceByName svc.tenantID.v svc.name.v with
      | some r => exact ⟨w.snap, r, .refl .., hfind, .inl rfl⟩
      | none => exact absurd (decide_eq_true hname) (List.find?_eq_none.1 hfind r' hr')
    · cases hplan
  | @history u pe e hu hw hq =>
    obtain ⟨t, tx, hran, hplan⟩ := hq.plan hw
    obtain rfl := ran_insert hran
    have hfree : w.db.history.any (·.id = u) = false :=
      List.any_eq_false.2 fun h hh => by simpa using ((hun u hu).history h hh).1
    have hserv : (w.db.services ++ [insertRow svc]).find? (·.id = svc.id.v) ≠ none := by
      intro hnone
      simpa [insertRow] using List.find?_eq_none.1 hnone (insertRow svc) (by simp)
    cases hplan.symm.trans (plan_historyStmt_ok hst hfree hserv)
  | @append u v vs ev es pe e hes hv hw hq =>
    obtain ⟨ev₀, hev, hagg, -⟩ := hnew.event
    -- the one event is the one whose row was rejected
    obtain ⟨rfl, rfl⟩ : vs = [] ∧ ev = ev₀ := by
      rw [hev] at hes
      have hlen := congrArg List.length hes
      simp only [List.length_append, List.length_map, List.length_cons, List.length_nil] at hlen
      obtain rfl : vs = [] := List.eq_nil_of_length_eq_zero (by omega)
      exact ⟨rfl, (List.cons.inj hes).1⟩
    obtain ⟨t, tx, hran, hplan⟩ := hq.plan hw
    obtain ⟨-, -, -, -, -, rfl⟩ := ran_registerScript (by simp) hran
    have hfree : w.db.outbox.any (·.id = v) = false :=
      List.any_eq_false.2 fun o ho => by simpa using ((hun v hv).outbox o ho).1
    rw [Stmt.plan_of_taken (taken_outboxStmt hagg (hst.events ev (by simp [hev])) v), eval_outboxStmt hagg, Tx.view,
      foldl_registerWrites] at hplan
    simp only [registered, List.map_nil, List.append_nil, hfree, Bool.false_eq_true, if_false] at hplan
    cases hplan

/-- The transaction of a registration when it commits: neither the id nor the name are taken. -/
theorem RegisterDone.tx_eq [UuidLib] (h : RegisterDone p w₀ svc w tx) (hnew : svc.New) :
    ∃ begun u v ev, (p, u) ∈ w.draws ∧ (p, v) ∈ w.draws ∧ ev.EventType = str "catalog.service.registered" ∧
      tx = ⟨begun, registerWrites begun svc u [(v, ev)], [], []⟩ ∧ w.db.service svc.id.v = none ∧
      w.db.serviceByName svc.tenantID.v svc.name.v = none := by
  obtain ⟨t, u, vs, hvs, hu, hv, hran⟩ := h.ran
  obtain ⟨ev, hev, hagg, hty⟩ := hnew.event
  obtain ⟨⟨v, ev'⟩, rfl⟩ : ∃ ve, vs = [ve] := by
    have hlen := congrArg List.length hvs
    rw [List.length_map, hev] at hlen
    exact List.length_eq_one_iff.1 hlen
  obtain rfl : ev' = ev := (List.cons.inj (hvs.trans hev)).1
  obtain ⟨S₃, -, -, hid, hname, htx⟩ := ran_registerScript (by simpa using hagg) hran
  exact ⟨t, u, v, ev', hu, hv _ List.mem_cons_self, hty, htx, hid, hname⟩

theorem RegisterDone.view [UuidLib] (h : RegisterDone p w₀ svc w tx) (hnew : svc.New) :
    ∃ begun u v ev, (p, u) ∈ w.draws ∧ (p, v) ∈ w.draws ∧
      ev.EventType = str "catalog.service.registered" ∧
      tx.view w.db = registered w.db svc u [outboxRowOf begun svc.id.v (v, ev)] ∧
      w.db.serviceByName svc.tenantID.v svc.name.v = none := by
  obtain ⟨t, u, v, ev, hu, hv, hty, rfl, -, hname⟩ := h.tx_eq hnew
  refine ⟨t, u, v, ev, hu, hv, hty, ?_, hname⟩
  rw [Tx.view, foldl_registerWrites]
  rfl

end

/-! ### The race -/

/-- The texts of an input that the domain takes as they are: the tables take them too. -/
structure RegisterServiceInput.Storable (inp : RegisterServiceInput) : Prop where
  description : TextOk inp.Description
  repository : TextOk inp.Repository
  ownership : ∀ o, NewOwnership inp.OwningTeam inp.OnCallRef = .ok o → TextOk o.OwningTeam ∧ TextOk o.OnCallRef

section
variable (t₀ : Tables) (T : TenantID) (N : ServiceName)

/-- The call `p` has registered `svc`; nothing else has been committed since the tables were `t₀`. -/
structure Won (p : Pid) (svc : Service) (w : World) : Prop where
  tenantID : svc.tenantID = T
  name : svc.name = N
  free : t₀.serviceByName T.v N.v = none
  drawn : (p, svc.id.v) ∈ w.draws
  log : ∃ e, w.log = [e] ∧ e.pid = p ∧ e.before = t₀
  db : ∃ begun u v ev, (p, u) ∈ w.draws ∧ (p, v) ∈ w.draws ∧
    ev.EventType = str "catalog.service.registered" ∧
    w.db = registered t₀ svc u [outboxRowOf begun svc.id.v (v, ev)]

/-- What is committed while calls race for the name `N` of the tenant `T`: nothing, or one
registration by a process of `ps`. -/
structure Race (ps : Pid → Prop) (w : World) : Prop where
  locksOk : w.LocksOk
  committed : (w.log = [] ∧ w.db = t₀) ∨ ∃ p svc, ps p ∧ Won t₀ T N p svc w

end

section
variable {t₀ : Tables} {T : TenantID} {N : ServiceName} {ps : Pid → Prop} {p q : Pid} {w w' : World}
  {svc : Service}

theorem Won.of_grown (h : Won t₀ T N p svc w) (hg : Grown w w') (hdb : w'.db = w.db) (hlog : w'.log = w.log) :
    Won t₀ T N p svc w' where
  tenantID := h.tenantID
  name := h.name
  free := h.free
  drawn := hg.draws.subset h.drawn
  log := hlog ▸ h.log
  db := by
    obtain ⟨begun, u, v, ev, hu, hv, hty, he⟩ := h.db
    exact ⟨begun, u, v, ev, hg.draws.subset hu, hg.draws.subset hv, hty, hdb.trans he⟩

theorem Won.serviceByName (h : Won t₀ T N p svc w) : w.db.serviceByName T.v N.v = some (insertRow svc) := by
  obtain ⟨begun, u, v, ev, -, -, -, he⟩ := h.db
  rw [he]
  refine (List.find?_append ..).trans ?_
  rw [show t₀.services.find? _ = none from h.free]
  simp [insertRow, h.tenantID, h.name]

namespace Race

theorem init (t₀ : Tables) (T : TenantID) (N : ServiceName) (ps : Pid → Prop) :
    Race t₀ T N ps (.init t₀) :=
  ⟨World.init_locksOk t₀, .inl ⟨rfl, rfl⟩⟩

theorem keeps (p : Pid) : Keeps p (Race t₀ T N ps) where
  locksOk _ h := h.locksOk
  loc w w' h hl := by
    have hsnap := hl.snap
    have hdb : w'.db = w.db := congrArg Snap.db hsnap
    have hlog : w'.log = w.log := congrArg Snap.log hsnap
    refine ⟨hl.locksOk h.locksOk, h.committed.imp (fun ⟨h₁, h₂⟩ => ⟨hlog.trans h₁, hdb.trans h₂⟩) ?_⟩
    rintro ⟨q, svc, hq, hwon⟩
    exact ⟨q, svc, hq, hwon.of_grown hl.grown hdb hlog⟩

/-- The tables are those of the start until somebody wins, and do not change after that. -/
theorem earlier {ks : List Key} {S : Snap} (h : Race t₀ T N ps w) (hf : Follows p ks S w.snap) :
    S.db = t₀ ∨ S = w.snap := by
  obtain ⟨l, hl, hc, -⟩ := hf.log
  have hlast : l = [] → S = w.snap := by
    rintro rfl
    obtain ⟨db, log⟩ := S
    simp only [List.append_nil] at hl
    simp only [World.snap, Snap.mk.injEq]
    exact ⟨(show w.db = db from hc).symm, hl.symm⟩
  rcases h.committed with ⟨hlog, -⟩ | ⟨q, svc, -, hwon⟩
  · exact .inr (hlast (List.append_eq_nil_iff.1 (hl.symm.trans hlog)).2)
  · obtain ⟨e, he, -, hbefore⟩ := hwon.log
    rcases List.append_eq_singleton_iff.1 (hl.symm.trans he) with ⟨-, rfl⟩ | ⟨-, hnil⟩
    · exact .inl (hc.1.symm.trans hbefore)
    · exact .inr (hlast hnil)

/-- An id made for a process that has not won is the id of no row. -/
theorem unused {u : UUID} (h : Race t₀ T N ps w) (hfresh : FreshDraws t₀ w) (hu : (p, u) ∈ w.draws)
    (hp : ∀ e ∈ w.log, e.pid ≠ p) : w.db.Unused u := by
  have h₀ := hfresh.unused u (World.mem_ids hu)
  rcases h.committed with ⟨-, hdb⟩ | ⟨q, svc, -, hwon⟩
  · rwa [hdb]
  · obtain ⟨e, he, hpid, -⟩ := hwon.log
    obtain ⟨begun, u', v, ev, hu', hv, -, hdb⟩ := hwon.db
    have hne : ∀ x, (q, x) ∈ w.draws → x ≠ u := by
      rintro x hx rfl
      exact hp e (by simp [he]) (hpid.trans (hfresh.owner hx hu))
    rw [hdb]
    refine ⟨fun r hr => ?_, fun r hr => ?_, fun o ho => ?_, h₀.idem⟩
    · rcases List.mem_append.1 hr with hr | hr
      · exact h₀.service r hr
      · exact List.mem_singleton.1 hr ▸ hne _ hwon.drawn
    · rcases List.mem_append.1 hr with hr | hr
      · exact h₀.history r hr
      · exact List.mem_singleton.1 hr ▸ ⟨hne _ hu', hne _ hwon.drawn⟩
    · rcases List.mem_append.1 ho with ho | ho
      · exact h₀.outbox o ho
      · exact List.mem_singleton.1 ho ▸ ⟨hne _ hv, hne _ hwon.drawn⟩

/-- Whoever commits has won, and nobody had won before. -/
theorem won [UuidLib] {tx : Tx} {w₀ : World} (h : Race t₀ T N ps w) (hnew : svc.New) (hT : svc.tenantID = T)
    (hN : svc.name = N) (hid : (p, svc.id.v) ∈ w.draws) (hd : RegisterDone p w₀ svc w tx) :
    Won t₀ T N p svc ((w.commit p tx).endTx p) := by
  obtain ⟨begun, u, v, ev, hu, hv, hty, hview, hname⟩ := hd.view hnew
  rw [hT, hN] at hname
  rcases h.committed with ⟨hlog, hdb⟩ | ⟨q, svc', -, hwon⟩
  · rw [hdb] at hname hview
    have hlog' : ∀ c : Commit, w.log ++ [c] = [c] := fun c => by rw [hlog, List.nil_append]
    exact ⟨hT, hN, hname, hid, ⟨_, hlog' _, rfl, hdb⟩, begun, u, v, ev, hu, hv, hty,
      (congrArg tx.view hdb).trans hview⟩
  · rw [hwon.serviceByName] at hname
    cases hname

end Race

/-- A valid registration of the name. -/
def Registers [UuidLib] (inp : RegisterServiceInput) (T : TenantID) (N : ServiceName) : Prop :=
  ∃ tier ownership, inp.parse = .ok (T, N, tier, ownership)

theorem ownership_of_parse [UuidLib] {inp : RegisterServiceInput} {tier : Tier} {o : Ownership}
    (h : inp.parse = .ok (T, N, tier, o)) : NewOwnership inp.OwningTeam inp.OnCallRef = .ok o := by
  unfold RegisterServiceInput.parse at h
  cases hT : TenantIDFromString inp.TenantID with
  | error e => rw [hT] at h; cases h
  | ok T' => cases hN : NewServiceName inp.Name with
    | error e => rw [hT, hN] at h; cases h
    | ok N' => cases ht : NewTier inp.Tier with
      | error e => rw [hT, hN, ht] at h; cases h
      | ok tier' => cases ho : NewOwnership inp.OwningTeam inp.OnCallRef with
        | error e => rw [hT, hN, ht, ho] at h; cases h
        | ok o' =>
          rw [hT, hN, ht, ho] at h
          cases h
          rfl

/-- What a storable input registers is storable. -/
theorem Registering.storable [UuidLib] {inp : RegisterServiceInput} {w₀ : World} (h : Registering p w inp w₀ svc)
    (hinp : inp.Storable) : svc.Storable := by
  obtain ⟨tenantID, name, tier, ownership, id, now, hparse, rfl, -, -⟩ := h.svc_eq
  exact storable_Register hinp.description hinp.repository (hinp.ownership _ (ownership_of_parse hparse))

/-- What a call of the race with the input `inp` has returned. -/
def Raced (t₀ : Tables) (T : TenantID) (N : ServiceName) (inp : RegisterServiceInput) (p : Pid) :
    Except Err Service → World → Prop
  | .ok s, w => ∃ svc, Won t₀ T N p svc w ∧ s = { svc with events := [] }
  | .error e, w => inp.Storable → w.faults = 0 → FreshDraws t₀ w → (∀ c ∈ w.log, c.pid ≠ p) ∧
      w.db.serviceByName T.v N.v ≠ none ∧ (t₀.serviceByName T.v N.v = none → e = ErrNameConflict)

theorem RegisterFailed.raced [UuidLib] {inp : RegisterServiceInput} {w₀ w₁ : World} {e : Err} (hI : Race t₀ T N ps w)
    (hinp : Registers inp T N) (hreg : Registering p (.init t₀) inp w₀ svc) (hout : Out p w₀ w)
    (hg : Grown w₁ w) (hf : Follows p [] w₁.snap w.snap) (h : RegisterFailed p w₀ svc w₁ e) :
    Raced t₀ T N inp p (.error e) w := by
  intro hst hfaults hfresh
  have hsvcst := hreg.storable hst
  obtain ⟨tenantID, name, tier, ownership, id, now, hparse, hsvc, ⟨ds, -, hds⟩, -⟩ := hreg.svc_eq
  obtain ⟨tier', ownership', hparse'⟩ := hinp
  obtain ⟨rfl, rfl, -⟩ : tenantID = T ∧ name = N ∧ _ := by
    simpa using Except.ok.inj (hparse.symm.trans hparse')
  have hlog : ∀ c ∈ w.log, c.pid ≠ p := by
    obtain ⟨l, hl, -, hne⟩ := (hreg.out.trans hout).follows.log
    intro c hc
    exact hne c (by simpa [show w.log = _ from hl, World.snap, World.init] using hc)
  -- what the failing transaction saw was unused too
  have hun : ∀ u, (p, u) ∈ w.draws → w₁.db.Unused u := by
    intro u hu
    rcases hI.earlier hf with h₁ | h₁
    · exact (show w₁.db = t₀ from h₁) ▸ hfresh.unused u (World.mem_ids hu)
    · rw [show w₁.db = w.db from congrArg Snap.db h₁]
      exact hI.unused hfresh hu hlog
  have hid : (p, svc.id.v) ∈ w.draws := by
    rw [hsvc]
    exact hout.grown.draws.subset (hds.subset (by simp [Register]))
  obtain ⟨S, r, hS, hr, he⟩ := h.name_taken (hsvc ▸ Service.new_Register) hsvcst (by have := hg.faults; omega)
    (hun _ hid) fun u hu => hun u (hg.draws.subset hu)
  rw [hsvc] at hr
  have hr : S.db.serviceByName tenantID.v name.v = some r := hr
  refine ⟨hlog, fun hnone => ?_, fun hfree => ?_⟩
  · rcases hI.earlier (hS.trans hf) with h₁ | h₁
    · rcases hI.committed with ⟨-, hdb⟩ | ⟨q, svc', -, hwon⟩
      · rw [hdb, ← h₁, hr] at hnone
        cases hnone
      · rw [hwon.serviceByName] at hnone
        cases hnone
    · rw [h₁] at hr
      cases hr.symm.trans hnone
  · rcases he with he | he
    · exact he
    · -- the row was written by the winner, so it is not corrupt
      rcases hI.earlier (hS.trans hf) with h₁ | h₁
      · rw [h₁, hfree] at hr
        cases hr
      · rcases hI.committed with ⟨-, hdb⟩ | ⟨q, svc', -, hwon⟩
        · rw [h₁, show w.snap.db = t₀ from hdb, hfree] at hr
          cases hr
        · rw [h₁, show w.snap.db = w.db from rfl, hwon.serviceByName] at hr
          cases hr
          rw [scanService_insertRow] at he
          cases he

theorem safe_raced [UuidLib] {inp : RegisterServiceInput} (hinp : Registers inp T N) (hp : ps p) :
    Safe p (Race t₀ T N ps) (Raced t₀ T N inp p) (RegisterService inp).run (.init t₀) := by
  rw [← Proc.bind_ret (ExceptT.run _)]
  refine safe_RegisterService (Race.keeps p) rfl (fun e he => ?_) ?_ ?_
  · obtain ⟨tier, ownership, hok⟩ := hinp
    rw [hok] at he
    cases he
  · intro w₀ svc e w₁ w' hreg _ hout hg hf hfail w'' ho hI''
    exact hfail.raced hI'' hinp hreg (hout.others ho) (hg.trans ho.grown) (hf.trans ho.follows_nil)
  · intro w₀ svc w₁ tx hreg hI₁ hg htx hd
    obtain ⟨tenantID, name, tier, ownership, id, now, hparse, hsvc, ⟨ds, -, hds⟩, -⟩ := hreg.svc_eq
    obtain ⟨tier', ownership', hparse'⟩ := hinp
    obtain ⟨rfl, rfl, -⟩ : tenantID = T ∧ name = N ∧ _ := by
      simpa using Except.ok.inj (hparse.symm.trans hparse')
    have hwon : Won t₀ tenantID name p svc ((w₁.commit p tx).endTx p) := by
      refine hI₁.won (hsvc ▸ Service.new_Register) (by rw [hsvc]; rfl) (by rw [hsvc]; rfl) ?_ hd
      rw [hsvc]
      exact hg.draws.subset (hds.subset (by simp [Register]))
    refine ⟨⟨(World.Effect.commit htx).locksOk hI₁.locksOk, .inr ⟨p, svc, hp, hwon⟩⟩, ?_⟩
    intro w₂ ho hI₂
    -- nobody can win after `p`
    refine ⟨svc, ?_, rfl⟩
    rcases hI₂.earlier ho.follows_nil with h | h
    · have := hwon.serviceByName
      rw [show ((w₁.commit p tx).endTx p).db = t₀ from h, hwon.free] at this
      cases this
    · exact hwon.of_grown ho.grown (congrArg Snap.db h).symm (congrArg Snap.log h).symm

/-- What `svc` is in the tables after its registration: one row, one interval of its history and one
event. -/
structure RegisteredOnce (db : Tables) (svc : Service) : Prop where
  service : (db.services.filter fun r => r.tenant_id = svc.tenantID.v ∧ r.name = svc.name.v) = [insertRow svc]
  history : ∃ h, db.history.filter (·.service_id = svc.id.v) = [h]
  outbox : ∃ o, db.outbox.filter (·.aggregate_id = svc.id.v) = [o] ∧
    o.event_type = str "catalog.service.registered"

theorem Won.registeredOnce (h : Won t₀ T N p svc w) (hfresh : FreshDraws t₀ w) : RegisteredOnce w.db svc := by
  obtain ⟨begun, u, v, ev, -, -, hty, hdb⟩ := h.db
  have hun := hfresh.unused _ (World.mem_ids h.drawn)
  have hname : (t₀.services.filter fun r => r.tenant_id = T.v ∧ r.name = N.v) = [] :=
    List.filter_eq_nil_iff.2 fun r hr => List.find?_eq_none.1 h.free r hr
  have hhist : t₀.history.filter (·.service_id = svc.id.v) = [] :=
    List.filter_eq_nil_iff.2 fun r hr => by simpa using (hun.history r hr).2
  have hout : t₀.outbox.filter (·.aggregate_id = svc.id.v) = [] :=
    List.filter_eq_nil_iff.2 fun o ho => by simpa using (hun.outbox o ho).2
  rw [hdb]
  refine ⟨?_, ⟨firstOwner u svc, ?_⟩, outboxRowOf begun svc.id.v (v, ev), ?_, hty⟩
  · rw [h.tenantID, h.name]
    refine (List.filter_append ..).trans ?_
    rw [hname]
    simp [insertRow, h.tenantID, h.name]
  · refine (List.filter_append ..).trans ?_
    rw [hhist]
    simp [firstOwner]
  · refine (List.filter_append ..).trans ?_
    rw [hout]
    simp [outboxRowOf]

theorem race_run [UuidLib] {inps : Pid → Option RegisterServiceInput}
    (hin : ∀ p inp, inps p = some inp → Registers inp T N) {ms : List (Move Pid Choice)}
    {s : Pool Pid Call Call.Ans (Except Err Service) World}
    (hrun : (registerPool t₀ inps).run World.machine ms = some s) :
    Race t₀ T N (fun p => inps p ≠ none) s.world ∧
      ∀ p inp res, inps p = some inp → s.result? p = some res → Raced t₀ T N inp p res s.world := by
  obtain ⟨hI, hs⟩ := safe_run (Q := fun p res w => ∀ inp, inps p = some inp → Raced t₀ T N inp p res w)
    (fun p => Race.keeps p) (Race.init t₀ T N _) (fun p prog hp => by
      obtain ⟨inp, hinp, rfl⟩ := Option.map_eq_some_iff.1 hp
      have hp : inps p ≠ none := by
        rw [hinp]
        simp
      refine (safe_raced (hin p inp hinp) hp).mono fun res w _ hr inp' hinp' => ?_
      cases hinp.symm.trans hinp'
      exact hr) hrun
  exact ⟨hI, fun p inp res hinp hres => hs p _ (Pool.procs_of_result hres) _ (.refl ..) hI inp hinp⟩

/-- Registrations that race for one name, which is taken or whose texts the tables take. Each makes ten
calls at most, and as long as one has not returned some call can be made. When all have returned: if the
name was free, one of them has registered its service and all others report the conflict; if it was
taken, all have failed and the tables are as they were. -/
theorem registration_race [UuidLib] {db : Tables} {inps : Pid → Option RegisterServiceInput}
    (hin : ∀ p inp, inps p = some inp → Registers inp T N)
    (hst : db.serviceByName T.v N.v = none → ∀ p inp, inps p = some inp → inp.Storable)
    {ms : List (Move Pid Choice)} {s : Pool Pid Call Call.Ans (Except Err Service) World}
    (hrun : (registerPool db inps).run World.machine ms = some s) (hfaults : s.world.faults = 0)
    (hfresh : FreshDraws db s.world) :
    (∀ p, Pool.callsOf p ms ≤ 10) ∧
    (∀ p prog, s.procs p = some prog → prog.result? = none →
      ∃ q c s', s.step World.machine (.call q c) = some s' ∧ s'.world.faults = 0) ∧
    ((∀ p, inps p ≠ none → (s.result? p).isSome) →
      (db.serviceByName T.v N.v = none → (∃ p, inps p ≠ none) → ∃ p svc,
        s.result? p = some (.ok svc) ∧ svc.tenantID = T ∧ svc.name = N ∧
        (∀ q, inps q ≠ none → q ≠ p → s.result? q = some (.error ErrNameConflict)) ∧
        RegisteredOnce s.world.db svc) ∧
      (db.serviceByName T.v N.v ≠ none →
        (∀ p, inps p ≠ none → ∃ e, s.result? p = some (.error e)) ∧ s.world.db = db)) := by
  obtain ⟨hrace, hraced⟩ := race_run hin hrun
  -- what a call has returned that was asked to register the free name
  have hres : db.serviceByName T.v N.v = none → ∀ p, inps p ≠ none → ∀ e, s.result? p = some (.error e) →
      (∀ c ∈ s.world.log, c.pid ≠ p) ∧ s.world.db.serviceByName T.v N.v ≠ none ∧ e = ErrNameConflict := by
    intro hfree p hp e he
    obtain ⟨inp, hinp⟩ := Option.ne_none_iff_exists'.1 hp
    obtain ⟨hlog, hfound, hconflict⟩ := hraced p inp _ hinp he (hst hfree p inp hinp) hfaults hfresh
    exact ⟨hlog, hfound, hconflict hfree⟩
  have hok : ∀ p, inps p ≠ none → ∀ x, s.result? p = some (.ok x) →
      ∃ svc, Won db T N p svc s.world ∧ x = { svc with events := [] } := by
    intro p hp x hx
    obtain ⟨inp, hinp⟩ := Option.ne_none_iff_exists'.1 hp
    exact hraced p inp _ hinp hx
  refine ⟨fun p => ?_, fun p prog hp hnone => ?_, fun hdone => ⟨fun hfree hcall => ?_, fun htaken => ?_⟩⟩
  · refine Pool.calls_le (fun prog hp => ?_) hrun
    obtain ⟨inp, -, rfl⟩ := Option.map_eq_some_iff.1 hp
    exact within_RegisterService inp
  · obtain ⟨q, c, s', hstep, hf⟩ := register_progress hrun hfresh.nodup hp hnone
    exact ⟨q, c, s', hstep, hf.trans hfaults⟩
  · -- somebody has won: whoever failed has found the name
    obtain ⟨p, svc, hp, hwon⟩ : ∃ p svc, inps p ≠ none ∧ Won db T N p svc s.world := by
      rcases hrace.committed with ⟨-, hdb⟩ | hwon
      · obtain ⟨q, hq⟩ := hcall
        obtain ⟨res, hr⟩ := Option.isSome_iff_exists.1 (hdone q hq)
        cases res with
        | ok svc =>
          obtain ⟨svc', hwon, -⟩ := hok q hq _ hr
          exact ⟨q, svc', hq, hwon⟩
        | error e => exact absurd (hdb ▸ hfree) (hres hfree q hq e hr).2.1
      · exact hwon
    obtain ⟨e, he, hpid, -⟩ := hwon.log
    obtain ⟨res, hr⟩ := Option.isSome_iff_exists.1 (hdone p hp)
    cases res with
    | error e' =>
      exact absurd hpid ((hres hfree p hp e' hr).1 e (by simp [he]))
    | ok svc' =>
      obtain ⟨svc₁, hwon₁, rfl⟩ := hok p hp _ hr
      refine ⟨p, _, hr, hwon₁.tenantID, hwon₁.name, fun q hq hqp => ?_, ?_⟩
      · obtain ⟨res, hr'⟩ := Option.isSome_iff_exists.1 (hdone q hq)
        cases res with
        | ok svc₂ =>
          obtain ⟨_, hwon₂, -⟩ := hok q hq _ hr'
          obtain ⟨e₂, he₂, hpid₂, -⟩ := hwon₂.log
          obtain rfl : e = e₂ := List.singleton_inj.1 (he.symm.trans he₂)
          exact absurd (hpid₂.symm.trans hpid) hqp
        | error e₂ => rw [hr', (hres hfree q hq e₂ hr').2.2]
      · have := hwon₁.registeredOnce hfresh
        exact ⟨this.service, this.history, this.outbox⟩
  · have hnone : ∀ q svc, ¬ Won db T N q svc s.world := fun q svc h => htaken h.free
    refine ⟨fun p hp => ?_, ?_⟩
    · obtain ⟨res, hr⟩ := Option.isSome_iff_exists.1 (hdone p hp)
      cases res with
      | ok svc =>
        obtain ⟨svc', hwon, -⟩ := hok p hp _ hr
        exact absurd hwon (hnone p svc')
      | error e => exact ⟨e, hr⟩
    · rcases hrace.committed with ⟨-, hdb⟩ | ⟨q, svc, -, hwon⟩
      · exact hdb
      · exact absurd hwon (hnone q svc)

/-- Two registrations of the name `api`, written differently. -/
def racers : Pid → Option RegisterServiceInput
  | 0 => some ⟨UUID.String ⟨2⟩, "api", [], 1, [], "core", []⟩
  | 1 => some ⟨UUID.String ⟨2⟩, " api ", [], 2, [], "web", []⟩
  | _ => none

/-- Both look for the name before either inserts it; the second waits at its `INSERT`. -/
def raceMoves : List (Move Pid Choice) :=
  [.call 0 (.uuid ⟨1⟩), .call 0 (.time 0), .call 0 (.time 0), .call 1 (.uuid ⟨5⟩), .call 1 (.time 0),
    .call 1 (.time 0), .call 0 .ok, .call 1 .ok, .call 0 .ok, .call 0 (.uuid ⟨10⟩), .call 0 .ok,
    .call 0 (.uuid ⟨11⟩), .call 0 .ok, .call 0 .ok, .call 1 .ok, .call 1 .ok]

attribute [local instance] UuidLib.canonical

theorem registration_race_sample : ∃ s, (registerPool .empty racers).run World.machine raceMoves = some s ∧
    ∃ p svc, s.result? p = some (.ok svc) ∧
      (∀ q, racers q ≠ none → q ≠ p → s.result? q = some (.error ErrNameConflict)) ∧
      RegisteredOnce s.world.db svc := by
  have h : ((registerPool .empty racers).run World.machine raceMoves).map
      (fun s => (s.world.faults, s.world.ids, (s.result? 0).isSome, (s.result? 1).isSome)) =
        some (0, [⟨1⟩, ⟨5⟩, ⟨10⟩, ⟨11⟩], true, true) := by decide +kernel
  obtain ⟨s, hs, hobs⟩ := Option.map_eq_some_iff.1 h
  simp only [Prod.mk.injEq] at hobs
  obtain ⟨hfaults, hids, h₀, h₁⟩ := hobs
  have hin : ∀ p inp, racers p = some inp →
      Registers inp ⟨⟨2⟩⟩ ⟨"api", by decide +kernel, by decide +kernel⟩ := by
    intro p inp hp
    rcases p with _ | _ | p
    · cases hp
      exact ⟨⟨1, by decide, by decide⟩, ⟨"core", [], by decide, by decide, by decide⟩, by decide +kernel⟩
    · cases hp
      exact ⟨⟨2, by decide, by decide⟩, ⟨"web", [], by decide, by decide, by decide⟩, by decide +kernel⟩
    · cases hp
  have hst : ∀ p inp, racers p = some inp → inp.Storable := by
    intro p inp hp
    rcases p with _ | _ | p
    · cases hp
      refine ⟨by decide, by decide, fun o ho => ?_⟩
      cases (show NewOwnership "core" [] = .ok ⟨"core", [], by decide, by decide, by decide⟩ by decide).symm.trans ho
      exact ⟨by decide, by decide⟩
    · cases hp
      refine ⟨by decide, by decide, fun o ho => ?_⟩
      cases (show NewOwnership "web" [] = .ok ⟨"web", [], by decide, by decide, by decide⟩ by decide).symm.trans ho
      exact ⟨by decide, by decide⟩
    · cases hp
  have hfresh : FreshDraws .empty s.world := .empty (by rw [hids]; decide)
  have hdone : ∀ p, racers p ≠ none → (s.result? p).isSome := by
    intro p hp
    rcases p with _ | _ | p
    · exact h₀
    · exact h₁
    · exact absurd rfl hp
  obtain ⟨p, svc, hp, -, -, hq, honce⟩ :=
    ((registration_race hin (fun _ => hst) hs hfaults hfresh).2.2 hdone).1 rfl ⟨0, Option.some_ne_none _⟩
  exact ⟨s, hs, p, svc, hp, hq, honce⟩

/-- A registration whose description is a NUL byte, which no text column takes. -/
def unstorable : RegisterServiceInput := ⟨UUID.String ⟨2⟩, "api", [0x00], 1, [], "core", []⟩

/-- A valid registration of a free name that runs alone, without a failure, and yet does not succeed. -/
theorem unstorable_registration : ∃ s, (registerPool .empty fun p => if p = 0 then some unstorable else none).run
      World.machine [.call 0 (.uuid ⟨1⟩), .call 0 (.time 0), .call 0 (.time 0), .call 0 .ok, .call 0 .ok, .call 0 .ok] =
      some s ∧ s.world.faults = 0 ∧ FreshDraws .empty s.world ∧
    Registers unstorable Service.sample.tenantID Service.sample.name ∧
    s.result? 0 = some (.error (wrapPg "insert service" .other)) ∧ s.world.db.services = [] := by
  have h : ((registerPool .empty fun p => if p = 0 then some unstorable else none).run World.machine
      [.call 0 (.uuid ⟨1⟩), .call 0 (.time 0), .call 0 (.time 0), .call 0 .ok, .call 0 .ok, .call 0 .ok]).map
        (fun s => ((s.world.faults, s.world.ids), s.world.db.services, (s.result? 0).map (Except.map fun _ => ()))) =
      some ((0, [⟨1⟩]), [], some (.error (wrapPg "insert service" .other))) := by decide +kernel
  obtain ⟨s, hs, hobs⟩ := Option.map_eq_some_iff.1 h
  simp only [Prod.mk.injEq] at hobs
  obtain ⟨⟨hfaults, hids⟩, hrows, hres⟩ := hobs
  refine ⟨s, hs, hfaults, .empty (by rw [hids]; decide), ?_, ?_, hrows⟩
  · exact ⟨⟨1, by decide, by decide⟩, ⟨"core", [], by decide, by decide, by decide⟩, by decide +kernel⟩
  · obtain ⟨r, hr, herr⟩ := Option.map_eq_some_iff.1 hres
    cases r with
    | ok svc => cases herr
    | error e => rw [hr, Except.error.inj herr]

end

end Catalog

end Forge
