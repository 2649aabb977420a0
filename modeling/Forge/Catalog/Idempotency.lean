import Forge.Catalog.RegisterRace
import Forge.Catalog.RequestHash

/-!
# Retries of one registration

Any number of `POST /services` requests with one `Idempotency-Key` and one body. `Lookup`, the
registering transaction and `Save` are three steps, so a request that looks the key up while another
one is between its `Lookup` and its `Save` finds no record, and then a taken name
(`retry_conflict`). If every request but the first looks its key up after the record has been saved
(`Turns`), and the database takes the key and the texts of the body, the run goes through the stages of
`Phase`, the requests can go on in turns until each has its answer (`retry_progress`), and all answers
are the one saved (`retries_answered_alike`).
-/

namespace Forge.Catalog

/-- The input of the command that a request asks for. -/
def RegisterServiceRequest.input (req : RegisterServiceRequest) : RegisterServiceInput :=
  ⟨req.TenantID, req.Name, req.Description, req.Tier, req.Repository, req.OwningTeam, req.OnCallRef⟩

/-- Requests with the same key and the same body that start together on the tables `db`. -/
def retryPool [UuidLib] (db : Tables) (post : Post) (ps : Pid → Bool) : Pool Pid Call Call.Ans Response World :=
  ⟨.init db, fun p => if ps p then some post.handle else none⟩

/-- Whoever looks the key up is the first to do so or finds its record. -/
def Turns (key : GoString) (log : List Commit) : Prop :=
  ∀ pre e post, log = pre ++ e :: post → e.tx.writes = [] → pre = [] ∨ e.before.idemRow key ≠ none

theorem Turns.of_append {key : GoString} {log l : List Commit} (h : Turns key (log ++ l)) : Turns key log := by
  intro pre e post he
  exact h pre e (post ++ l) (by rw [he]; simp)

theorem Turns.last {key : GoString} {log : List Commit} {e : Commit} (h : Turns key (log ++ [e]))
    (he : e.tx.writes = []) : log = [] ∨ e.before.idemRow key ≠ none :=
  h log e [] rfl he

theorem Turns.snoc {key : GoString} {log : List Commit} {e : Commit} (h : Turns key log)
    (he : e.tx.writes = [] → log = [] ∨ e.before.idemRow key ≠ none) : Turns key (log ++ [e]) := by
  intro pre e' post heq hw
  rcases List.append_eq_append_iff.1 heq with ⟨l, rfl, hl⟩ | ⟨l, rfl, hl⟩
  · cases l with
    | nil =>
      cases hl
      simpa using he hw
    | cons x l => simp at hl
  · cases l with
    | nil =>
      cases hl
      simpa using he hw
    | cons x l =>
      cases hl
      exact h pre e' l rfl hw

/-- What the requests have in common: the tables they start on, their key and their body, and the tenant
and the name they register. -/
structure Retry where
  db : Tables
  post : Post
  tenantID : TenantID
  name : ServiceName

abbrev Retry.key (R : Retry) : GoString := R.post.key

abbrev Retry.hash (R : Retry) : GoString := R.post.hash

section
variable (R : Retry)

/-- What is assumed of a run up to `w`. -/
structure Trusted (w : World) : Prop where
  faults : w.faults = 0
  fresh : FreshDraws R.db w
  turns : Turns R.key w.log

/-- The tables after the registration of `svc`. -/
def RegisteredAs (svc : Service) (db : Tables) : Prop :=
  svc.tenantID = R.tenantID ∧ svc.name = R.name ∧ ∃ u o, db = registered R.db svc u [o]

/-- The tables after the registration of `svc` and the `Save` of its representation. -/
def SavedAs (svc : Service) (db : Tables) : Prop :=
  svc.tenantID = R.tenantID ∧ svc.name = R.name ∧ ∃ u o v, db =
    { registered R.db svc u [o] with idem := R.db.idem ++ [⟨v, R.key, R.hash, 201, toResponse svc⟩] }

/-- How far the requests have come. -/
inductive Phase (w : World) : Prop
  | start (hlog : w.log = []) (hdb : w.db = R.db)
  | looked {e₁ : Commit} (hlog : w.log = [e₁]) (hdb : w.db = R.db)
  | registered {e₁ e₂ : Commit} (hlog : w.log = [e₁, e₂]) (hpid : e₂.pid = e₁.pid) (hdb : w.db = e₂.after)
      (hreg : ∃ svc, RegisteredAs R svc w.db)
  | saved {e₁ e₂ e₃ : Commit} {l : List Commit} (hlog : w.log = e₁ :: e₂ :: e₃ :: l) (hpid₂ : e₂.pid = e₁.pid)
      (hpid₃ : e₃.pid = e₁.pid) (hdb : w.db = e₃.after) (hsaved : ∃ svc, SavedAs R svc w.db)

structure RetryInv (w : World) : Prop where
  locksOk : w.LocksOk
  phase : Trusted R w → Phase R w

/-- The answer to a request is the representation that has been saved. -/
def Answered (r : Response) (w : World) : Prop := Trusted R w →
  ∃ svc e₁ e₂ e₃ l, w.log = e₁ :: e₂ :: e₃ :: l ∧ SavedAs R svc e₃.after ∧
    r.Status = 201 ∧ r.Body = .ok (toResponse svc)

end

section
variable {R : Retry} {p : Pid} {w w' : World} {svc : Service}

theorem Trusted.of_grown (h : Trusted R w') (hg : Grown w w') (hlog : w.log <+: w'.log) : Trusted R w := by
  obtain ⟨l, hl⟩ := hlog
  have hf := hg.faults
  exact ⟨by have := h.faults; omega, h.fresh.of_grown hg, (hl ▸ h.turns).of_append⟩

theorem Trusted.of_follows {ks : List Key} (h : Trusted R w') (hf : Follows p ks w.snap w'.snap)
    (hg : Grown w w') : Trusted R w := by
  obtain ⟨l, hl, -⟩ := hf.log
  exact h.of_grown hg ⟨l, hl.symm⟩

theorem RetryInv.keeps (p : Pid) : Keeps p (RetryInv R) where
  locksOk _ h := h.locksOk
  loc w w' h hl := by
    have hsnap := hl.snap
    have hdb : w'.db = w.db := congrArg Snap.db hsnap
    have hlog : w'.log = w.log := congrArg Snap.log hsnap
    refine ⟨hl.locksOk h.locksOk, fun ht => ?_⟩
    have ht' : Trusted R w := ht.of_grown hl.grown ⟨[], by rw [hlog, List.append_nil]⟩
    cases h.phase ht' with
    | start h₁ h₂ => exact .start (hlog.trans h₁) (hdb.trans h₂)
    | looked h₁ h₂ => exact .looked (hlog.trans h₁) (hdb.trans h₂)
    | registered h₁ h₂ h₃ h₄ => exact .registered (hlog.trans h₁) h₂ (hdb.trans h₃) (hdb ▸ h₄)
    | saved h₁ h₂ h₃ h₄ h₅ => exact .saved (hlog.trans h₁) h₂ h₃ (hdb.trans h₄) (hdb ▸ h₅)

theorem Trusted.of_commit {tx : Tx} (h : Trusted R (w.commit p tx)) : Trusted R w :=
  h.of_grown (Grown.auto p w tx) (List.prefix_append ..)

theorem RegisteredAs.idemRow {db : Tables} (h : RegisteredAs R svc db) : db.idemRow R.key = R.db.idemRow R.key := by
  obtain ⟨-, -, u, o, rfl⟩ := h
  rfl

theorem SavedAs.idemRow {db : Tables} (h : SavedAs R svc db) (hrec : R.db.idemRow R.key = none) :
    ∃ v, db.idemRow R.key = some ⟨v, R.key, R.hash, 201, toResponse svc⟩ := by
  obtain ⟨-, -, u, o, v, rfl⟩ := h
  refine ⟨v, (List.find?_append ..).trans ?_⟩
  rw [show R.db.idem.find? _ = none from hrec]
  simp

/-- A look at the key moves the requests from the start, or finds the record. -/
theorem RetryInv.look (h : RetryInv R w) (hrec : R.db.idemRow R.key = none) (p : Pid) (tx : Tx)
    (htx : tx.writes = []) : RetryInv R (w.commit p tx) := by
  have hdb : (w.commit p tx).db = w.db := by
    show tx.view w.db = w.db
    rw [Tx.view, htx]
    rfl
  refine ⟨h.locksOk.congr rfl rfl, fun ht => ?_⟩
  have hturn : w.log = [] ∨ w.db.idemRow R.key ≠ none := ht.turns.last htx
  have hlog : (w.commit p tx).log = w.log ++ [⟨p, tx, w.db, tx.view w.db⟩] := rfl
  cases h.phase ht.of_commit with
  | start h₁ h₂ =>
    rw [h₁] at hlog
    exact .looked hlog (hdb.trans h₂)
  | looked h₁ h₂ =>
    rw [h₁, h₂, hrec] at hturn
    simp at hturn
  | registered h₁ h₂ h₃ h₄ =>
    obtain ⟨svc, hsvc⟩ := h₄
    rw [h₁, hsvc.idemRow, hrec] at hturn
    simp at hturn
  | saved h₁ h₂ h₃ h₄ h₅ =>
    rw [h₁] at hlog
    exact .saved hlog h₂ h₃ (hdb.trans h₄) (hdb ▸ h₅)

/-- `p` has found no record, and has committed nothing since. -/
def LookedUp (R : Retry) (p : Pid) (w : World) : Prop := Trusted R w →
  ∃ e₁ l, w.log = e₁ :: l ∧ e₁.pid = p ∧ ∀ e ∈ l, e.pid ≠ p

theorem LookedUp.follows {ks : List Key} (h : LookedUp R p w) (hf : Follows p ks w.snap w'.snap)
    (hg : Grown w w') : LookedUp R p w' := by
  intro ht
  obtain ⟨e₁, l, hl, hp, hne⟩ := h (ht.of_follows hf hg)
  obtain ⟨l', hl', -, hne'⟩ := hf.log
  refine ⟨e₁, l ++ l', (show w'.log = _ from hl').trans (by rw [show w.snap.log = _ from hl]; simp), hp, ?_⟩
  intro e he
  exact (List.mem_append.1 he).elim (hne e) (hne' e)

/-- While `p` is registering, nothing has been committed but its look at the key. -/
theorem LookedUp.alone (h : LookedUp R p w) (hI : RetryInv R w) (ht : Trusted R w) :
    w.db = R.db ∧ ∃ e₁, w.log = [e₁] ∧ e₁.pid = p := by
  obtain ⟨e₁, l, hl, hp, hne⟩ := h ht
  cases hI.phase ht with
  | start h₁ h₂ =>
    rw [hl] at h₁
    cases h₁
  | looked h₁ h₂ =>
    obtain ⟨rfl, rfl⟩ := List.cons.inj (hl.symm.trans h₁)
    exact ⟨h₂, e₁, h₁, hp⟩
  | registered h₁ h₂ =>
    obtain ⟨rfl, rfl⟩ := List.cons.inj (hl.symm.trans h₁)
    exact absurd (h₂.trans hp) (hne _ (by simp))
  | saved h₁ h₂ =>
    obtain ⟨rfl, rfl⟩ := List.cons.inj (hl.symm.trans h₁)
    exact absurd (h₂.trans hp) (hne _ (by simp))

/-- `p` has registered `svc`, and has committed nothing since. -/
def Saving (R : Retry) (p : Pid) (svc : Service) (w : World) : Prop := Trusted R w →
  ∃ e₁ e₂ l, w.log = e₁ :: e₂ :: l ∧ e₁.pid = p ∧ RegisteredAs R svc e₂.after ∧ ∀ e ∈ l, e.pid ≠ p

theorem Saving.follows {ks : List Key} (h : Saving R p svc w) (hf : Follows p ks w.snap w'.snap)
    (hg : Grown w w') : Saving R p svc w' := by
  intro ht
  obtain ⟨e₁, e₂, l, hl, hp, hreg, hne⟩ := h (ht.of_follows hf hg)
  obtain ⟨l', hl', -, hne'⟩ := hf.log
  refine ⟨e₁, e₂, l ++ l', (show w'.log = _ from hl').trans (by rw [show w.snap.log = _ from hl]; simp), hp, hreg, ?_⟩
  intro e he
  exact (List.mem_append.1 he).elim (hne e) (hne' e)

theorem Saving.alone (h : Saving R p svc w) (hI : RetryInv R w) (ht : Trusted R w) :
    RegisteredAs R svc w.db ∧ ∃ e₁ e₂, w.log = [e₁, e₂] ∧ e₁.pid = p ∧ e₂.pid = p := by
  obtain ⟨e₁, e₂, l, hl, hp, hreg, hne⟩ := h ht
  cases hI.phase ht with
  | start h₁ h₂ =>
    rw [hl] at h₁
    cases h₁
  | looked h₁ h₂ =>
    rw [hl] at h₁
    cases h₁
  | registered h₁ h₂ h₃ =>
    rw [hl] at h₁
    cases h₁
    exact ⟨h₃ ▸ hreg, e₁, e₂, hl, hp, h₂.trans hp⟩
  | saved h₁ h₂ h₃ =>
    rw [hl] at h₁
    cases h₁
    exact absurd (h₃.trans hp) (hne _ (by simp))

theorem LookedUp.registered {tx : Tx} {svc : Service} {u : UUID} {o : OutboxRow} (hlook : LookedUp R p w)
    (hI : RetryInv R w) (htx : w.txs p = some tx) (hT : svc.tenantID = R.tenantID) (hN : svc.name = R.name)
    (hview : tx.view w.db = registered w.db svc u [o]) :
    RetryInv R ((w.commit p tx).endTx p) ∧ Saving R p svc ((w.commit p tx).endTx p) := by
  have hlog : ((w.commit p tx).endTx p).log = w.log ++ [⟨p, tx, w.db, tx.view w.db⟩] := rfl
  have hbefore : Trusted R ((w.commit p tx).endTx p) → Trusted R w := fun ht =>
    ht.of_grown (.commit p w tx) (List.prefix_append ..)
  refine ⟨⟨(World.Effect.commit htx).locksOk hI.locksOk, fun ht => ?_⟩, fun ht => ?_⟩
  · obtain ⟨hdb, e₁, he₁, hp⟩ := hlook.alone hI (hbefore ht)
    rw [he₁] at hlog
    exact .registered hlog hp.symm rfl ⟨svc, hT, hN, u, o, hview.trans (by rw [hdb])⟩
  · obtain ⟨hdb, e₁, he₁, hp⟩ := hlook.alone hI (hbefore ht)
    rw [he₁] at hlog
    exact ⟨e₁, _, [], hlog, hp, ⟨hT, hN, u, o, hview.trans (by rw [hdb])⟩, by simp⟩

theorem Post.textOk_hash (r : Post) : TextOk r.hash := by
  have hdigit : ∀ n < 16, Json.plain (hex.digit n) = true := by decide
  refine .of_plain fun b hb => ?_
  obtain ⟨c, -, hc⟩ := List.mem_flatMap.1 hb
  simp only [List.mem_cons, List.not_mem_nil, or_false] at hc
  have hlt := c.toNat_lt
  rcases hc with rfl | rfl
  · exact hdigit _ (by omega)
  · exact hdigit _ (Nat.mod_lt _ (by decide))

/-- The record of a service that the tables have taken can be saved too. -/
theorem taken_insertIdem (hkey : TextOk R.key) (hst : svc.Storable) (u : UUID) :
    (Stmt.insertIdem ⟨u, R.key, R.hash, 201, toResponse svc⟩).Taken := by
  refine ⟨fun x hx => ?_, fun x hx => ?_⟩
  · simp only [Stmt.texts, List.mem_cons, List.not_mem_nil, or_false] at hx
    rcases hx with rfl | rfl
    · exact hkey
    · exact R.post.textOk_hash
  · simp only [Stmt.jsonTexts, ServiceResponse.texts, toResponse, List.mem_cons, List.not_mem_nil, or_false] at hx
    have hcols := hst.cols
    simp only [ServiceCols.texts, updateCols, List.forall_mem_cons] at hcols
    obtain ⟨hd, hl, hr, hteam, honcall, -⟩ := hcols
    rcases hx with rfl | rfl | rfl | rfl | rfl | rfl | rfl | rfl
    · exact (TextOk.of_plain (plain_String svc.id.v)).2
    · exact (TextOk.of_plain (plain_String svc.tenantID.v)).2
    · exact svc.name.textOk.2
    · exact hd.2
    · exact hl.2
    · exact hr.2
    · exact hteam.2
    · exact honcall.2

/-- The record can be saved: nobody else has saved one. -/
theorem Saving.plan {u : UUID} (h : Saving R p svc w) (hI : RetryInv R w) (ht : Trusted R w)
    (hrec : R.db.idemRow R.key = none) (hkey : TextOk R.key) (hst : svc.Storable) (hu : (p, u) ∈ w.draws)
    (now : Timestamptz) : (Stmt.insertIdem ⟨u, R.key, R.hash, 201, toResponse svc⟩).plan now w.db =
      .ok ((), [.insertIdem ⟨u, R.key, R.hash, 201, toResponse svc⟩]) := by
  obtain ⟨⟨-, -, u', o, hdb⟩, -⟩ := h.alone hI ht
  have hidem : w.db.idem = R.db.idem := by rw [hdb]; rfl
  have hfree : R.db.idem.any (·.idem_key = R.key) = false :=
    List.any_eq_false.2 fun i hi => List.find?_eq_none.1 hrec i hi
  have hid : R.db.idem.any (·.id = u) = false :=
    List.any_eq_false.2 fun i hi => by simpa using (ht.fresh.unused u (World.mem_ids hu)).idem i hi
  rw [Stmt.plan_of_taken (taken_insertIdem hkey hst u)]
  simp only [Stmt.eval, hidem, hfree, hid, Bool.false_eq_true, if_false]

theorem Saving.saved {u : UUID} (tx : Tx) (h : Saving R p svc w) (hI : RetryInv R w)
    (ht : Trusted R w) (htx : tx.writes = [.insertIdem ⟨u, R.key, R.hash, 201, toResponse svc⟩]) :
    Phase R (w.commit p tx) ∧ ∃ e₁ e₂ e₃, (w.commit p tx).log = [e₁, e₂, e₃] ∧
      SavedAs R svc e₃.after := by
  obtain ⟨⟨hT, hN, u', o, hdb⟩, e₁, e₂, hlog, hp₁, hp₂⟩ := h.alone hI ht
  have hview : SavedAs R svc (tx.view w.db) := by
    refine ⟨hT, hN, u', o, u, ?_⟩
    rw [Tx.view, htx, hdb]
    rfl
  have hlog' : (w.commit p tx).log = [e₁, e₂, ⟨p, tx, w.db, tx.view w.db⟩] := by
    show w.log ++ [_] = _
    rw [hlog]
    rfl
  exact ⟨.saved hlog' (hp₂.trans hp₁.symm) hp₁.symm rfl ⟨svc, hview⟩, e₁, e₂, _, hlog', hview⟩

theorem safe_insertIdem {r : Response} {u : UUID} {onErr : PgError → Err} (hrec : R.db.idemRow R.key = none)
    (hkey : TextOk R.key) (hst : svc.Storable) (hsave : Saving R p svc w) (hu : (p, u) ∈ w.draws) (hstatus : r.Status = 201)
    (hbody : r.Body = .ok (toResponse svc)) : Safe p (RetryInv R) (Answered R)
      ((M.exec .pool (.insertIdem ⟨u, R.key, R.hash, 201, toResponse svc⟩) onErr).run >>= fun _ => .ret r) w := by
  rw [M.run_exec_bind]
  refine safe_pool (RetryInv.keeps p) (fun w₁ ho _ w₂ ho₂ _ ht => ?_) (fun w₁ t e ho hI₁ hplan w₂ ho₂ _ ht => ?_)
    fun w₁ t a ws ho hI₁ hplan _ => ?_
  · have h₁ : w₁.faults + 1 ≤ w₂.faults := ho₂.faults
    have h₂ := ht.faults
    omega
  · have ht₁ := ht.of_follows ho₂.follows_nil ho₂.grown
    cases hplan.symm.trans
      ((hsave.follows ho.follows_nil ho.grown).plan hI₁ ht₁ hrec hkey hst (ho.grown.draws.subset hu) _)
  · have hsave₁ := hsave.follows ho.follows_nil ho.grown
    have hws : Trusted R w₁ → ws = [.insertIdem ⟨u, R.key, R.hash, 201, toResponse svc⟩] := fun ht => by
      have := hsave₁.plan hI₁ ht hrec hkey hst (ho.grown.draws.subset hu) (pgTime t)
      exact congrArg Prod.snd (Except.ok.inj (hplan.symm.trans this))
    refine ⟨⟨hI₁.locksOk.congr rfl rfl, fun ht => ?_⟩, fun w₂ ho₂ _ ht => ?_⟩
    · exact (hsave₁.saved _ hI₁ ht.of_commit (hws ht.of_commit)).1
    · have ht₁ := (ht.of_follows ho₂.follows_nil ho₂.grown).of_commit
      obtain ⟨-, e₁, e₂, e₃, hlog, hsaved⟩ := hsave₁.saved ((Tx.start (pgTime t)).ran _ a ws) hI₁ ht₁ (hws ht₁)
      obtain ⟨l, hl, -⟩ := ho₂.log
      rw [hlog] at hl
      exact ⟨svc, e₁, e₂, e₃, l, hl, hsaved, hstatus, hbody⟩

theorem safe_Save {r : Response} (hrec : R.db.idemRow R.key = none) (hkey : TextOk R.key) (hst : svc.Storable)
    (hsave : Saving R p svc w) (hstatus : r.Status = 201) (hbody : r.Body = .ok (toResponse svc)) :
    Safe p (RetryInv R) (Answered R)
      ((idempotency.Save R.key R.hash 201 (toResponse svc)).run >>= fun _ => .ret r) w := by
  simp only [idempotency.Save, M.run_bind_bind]
  refine safe_M_newID (RetryInv.keeps p) fun w₁ u ho₁ _ _ hg₁ => ?_
  refine safe_insertIdem hrec hkey hst ?_ (by simp) hstatus hbody
  have hf : Follows p [] w.snap ({ w₁ with draws := w₁.draws ++ [(p, u)] } : World).snap := ho₁.follows_nil
  exact hsave.follows hf hg₁

end

section
variable [UuidLib] {R : Retry} {p : Pid} {w : World}

/-- With its name free, the only registration does not fail. -/
theorem LookedUp.not_failed {w₀ w₁ w' : World} {svc : Service} {e : Err}
    (hlook : LookedUp R p w) (hsvc : svc.New) (hst : svc.Storable) (hid : (p, svc.id.v) ∈ w'.draws)
    (hname : R.db.serviceByName svc.tenantID.v svc.name.v = none) (hout : Out p w w')
    (hI : RetryInv R w') (hg : Grown w₁ w') (hf : Follows p [] w₁.snap w'.snap)
    (hfail : RegisterFailed p w₀ svc w₁ e) : ¬ Trusted R w' := by
  intro ht
  obtain ⟨hdb, e₁, hlog, hp⟩ := (hlook.follows hout.follows hout.grown).alone hI ht
  have halone : ∀ e ∈ w'.snap.log, e.pid = p := by
    intro e he
    rw [show w'.snap.log = [e₁] from hlog] at he
    exact List.mem_singleton.1 he ▸ hp
  have hsnap := hf.alone halone
  have hdb₁ : w₁.db = R.db := (congrArg Snap.db hsnap).symm.trans hdb
  obtain ⟨S, r, hS, hr, -⟩ := hfail.name_taken hsvc hst (by have := hg.faults; have := ht.faults; omega)
    (hdb₁ ▸ ht.fresh.unused _ (World.mem_ids hid))
    fun u hu => hdb₁ ▸ ht.fresh.unused _ (World.mem_ids (hg.draws.subset hu))
  have hS' := (hS.trans hf).alone halone
  rw [← hS', show w'.snap.db = R.db from hdb, hname] at hr
  cases hr

/-- After the registration: the record is saved, and then the answer is given. -/
theorem safe_registerFresh {req : RegisterServiceRequest} {tier : Tier} {ownership : Ownership}
    (hparse : req.input.parse = .ok (R.tenantID, R.name, tier, ownership)) (htext : req.input.Storable)
    (hkey : TextOk R.key) (hname : R.db.serviceByName R.tenantID.v R.name.v = none) (hrec : R.db.idemRow R.key = none) (htx : w.txs p = none)
    (hlook : LookedUp R p w) :
    Safe p (RetryInv R) (Answered R) (Handlers.registerFresh true R.key R.hash req) w := by
  -- what is known of the service that is registered
  have hnew : ∀ {w₀ svc}, Registering p w req.input w₀ svc → svc.New ∧ (p, svc.id.v) ∈ w₀.draws ∧
        svc.tenantID = R.tenantID ∧ svc.name = R.name := by
    intro w₀ svc hreg
    obtain ⟨tenantID, name, tier', ownership', id, now, hparse', hsvc, ⟨ds, -, hds⟩, -⟩ := hreg.svc_eq
    cases hparse.symm.trans hparse'
    subst hsvc
    exact ⟨Service.new_Register, hds.subset (by simp [Register]), rfl, rfl⟩
  refine safe_RegisterService (RetryInv.keeps p) htx (fun e he => ?_) ?_ ?_
  · cases hparse.symm.trans he
  · intro w₀ svc e w₁ w' hreg _ hout hg hf hfail w'' ho hI'' ht
    obtain ⟨hsvc, hid, hT, hN⟩ := hnew hreg
    have hout'' := hout.others ho
    exact absurd ht (hlook.not_failed hsvc (hreg.storable htext) (hout''.grown.draws.subset hid)
      (by rw [hT, hN, hname]) (hreg.out.trans hout'') hI'' (hg.trans ho.grown) (hf.trans ho.follows_nil) hfail)
  · intro w₀ svc w₁ tx hreg hI₁ hg htx hd
    obtain ⟨hsvc, -, hT, hN⟩ := hnew hreg
    obtain ⟨begun, u, v, ev, -, -, -, hview, -⟩ := hd.view hsvc
    have hf : Follows p [] w₀.snap w₁.snap := by
      obtain ⟨t, _, _, -, -, -, hran⟩ := hd.ran
      exact hran.follows.mono (by simp)
    have hlook₁ := hlook.follows (hreg.out.follows.trans hf) (hreg.out.grown.trans hg)
    obtain ⟨hI₂, hsave⟩ := hlook₁.registered hI₁ htx hT hN hview
    refine ⟨hI₂, ?_⟩
    exact safe_Save hrec hkey ⟨(hreg.storable htext).cols, fun _ he => absurd he List.not_mem_nil⟩ hsave rfl rfl

/-- A request, from its look at the key on. -/
theorem safe_retry {req : RegisterServiceRequest} {tier : Tier} {ownership : Ownership} (hkey : R.key ≠ [])
    (hbody : readBody R.post.body = .ok req)
    (hparse : req.input.parse = .ok (R.tenantID, R.name, tier, ownership)) (htext : req.input.Storable)
    (hkeyText : TextOk R.key) (hname : R.db.serviceByName R.tenantID.v R.name.v = none)
    (hrec : R.db.idemRow R.key = none) : Safe p (RetryInv R) (Answered R) R.post.handle (.init R.db) := by
  have htaken : (Stmt.selectIdem R.key).Taken :=
    ⟨fun _ hx => List.mem_singleton.1 hx ▸ hkeyText, fun _ hx => absurd hx List.not_mem_nil⟩
  simp only [Post.handle, hbody, Handlers.Register, ne_eq, hkey, not_false_eq_true, and_self, if_true,
    idempotency.Lookup]
  refine safe_pool (RetryInv.keeps p) (fun w₁ ho _ w₂ ho₂ _ ht => ?_) (fun w₁ t e ho hI₁ hplan => ?_)
    fun w₁ t a ws ho hI₁ hplan _ => ?_
  · have h₁ : w₁.faults + 1 ≤ w₂.faults := ho₂.faults
    have h₂ := ht.faults
    omega
  · rw [Stmt.plan_of_taken htaken] at hplan
    cases hplan
  · cases (Stmt.plan_ok hplan).2
    have hI₂ := hI₁.look hrec p ((Tx.start (pgTime t)).ran (.selectIdem R.key) (w₁.db.idemRow R.key) []) rfl
    refine ⟨hI₂, ?_⟩
    cases hrow : w₁.db.idemRow R.key with
    | some r =>
      intro w₂ ho₂ _ ht
      have ht₂ := ht.of_follows ho₂.follows_nil ho₂.grown
      -- a record is found only after it has been saved
      cases hI₁.phase ht₂.of_commit with
      | start h₁ h₂ => cases hrow.symm.trans (h₂ ▸ hrec)
      | looked h₁ h₂ => cases hrow.symm.trans (h₂ ▸ hrec)
      | registered h₁ h₂ h₃ h₄ =>
        obtain ⟨svc, hsvc⟩ := h₄
        cases hrow.symm.trans (hsvc.idemRow.trans hrec)
      | @saved e₁ e₂ e₃ l h₁ h₂ h₃ h₄ h₅ =>
        obtain ⟨svc, hsvc⟩ := h₅
        obtain ⟨v, hv⟩ := hsvc.idemRow hrec
        cases hrow.symm.trans hv
        obtain ⟨l', hl', -⟩ := ho₂.log
        have hl : ∀ c : Commit, w₁.log ++ [c] ++ l' = e₁ :: e₂ :: e₃ :: (l ++ [c] ++ l') := fun c => by
          rw [h₁]
          rfl
        exact ⟨svc, e₁, e₂, e₃, _, hl'.trans (hl _), h₄ ▸ hsvc, rfl, rfl⟩
    | none =>
      refine safe_registerFresh hparse htext hkeyText hname hrec ho.tx fun ht => ?_
      -- no record: nobody has looked before
      have hlog : w₁.log = [] := (ht.turns.last rfl).resolve_right (not_not_intro hrow)
      have hl : ∀ c : Commit, w₁.log ++ [c] = [c] := fun c => by rw [hlog, List.nil_append]
      exact ⟨_, [], hl _, rfl, by simp⟩

/-- All requests, along a run. -/
theorem retry_run {req : RegisterServiceRequest} {tier : Tier} {ownership : Ownership} {ps : Pid → Bool}
    {ms : List (Move Pid Choice)} {s : Pool Pid Call Call.Ans Response World} (hkey : R.key ≠ [])
    (hbody : readBody R.post.body = .ok req)
    (hparse : req.input.parse = .ok (R.tenantID, R.name, tier, ownership)) (htext : req.input.Storable)
    (hkeyText : TextOk R.key) (hname : R.db.serviceByName R.tenantID.v R.name.v = none)
    (hrec : R.db.idemRow R.key = none) (hrun : (retryPool R.db R.post ps).run World.machine ms = some s) :
    RetryInv R s.world ∧ ∀ p r, s.result? p = some r → Answered R r s.world := by
  obtain ⟨hI, hs⟩ := safe_run (Q := fun _ => Answered R) (fun p => RetryInv.keeps p)
    (⟨World.init_locksOk _, fun _ => .start rfl rfl⟩ : RetryInv R (.init R.db)) (fun p prog hp => by
      simp only [retryPool] at hp
      split at hp <;> cases hp
      exact safe_retry hkey hbody hparse htext hkeyText hname hrec) hrun
  exact ⟨hI, fun p r hr => hs p _ (Pool.procs_of_result hr) _ (.refl ..) hI⟩

end

/-! ### Progress -/

section
variable [UuidLib] {R : Retry} {p : Pid} {w w' : World}

/-- A request looks its key up once, registers its service and saves the answer. -/
theorem obeys_handle {post : Post} {req : RegisterServiceRequest} (hkey : post.key ≠ [])
    (hbody : readBody post.body = .ok req) : post.handle.Obeys (Pace.May post.key) Pace.next
      (fun _ st => st.stage = .out) ⟨.asking, [], 13⟩ := by
  simp only [Post.handle, hbody, Handlers.Register, ne_eq, hkey, not_false_eq_true, and_self, if_true,
    idempotency.Lookup]
  refine obeys_exec ⟨Nat.succ_pos _, rfl, rfl⟩ (fun row => ?_) fun e => rfl
  cases row with
  | some rec => rfl
  | none =>
    refine (obeys_RegisterService req.input 2).bind fun r st hst => ?_
    obtain ⟨hout, hleft⟩ := hst
    cases r with
    | error e => exact hout
    | ok svc =>
      simp only [if_true, idempotency.Save, M.run_bind_bind]
      have hasking : st.stage ≠ .asking := by
        rw [hout]
        decide
      refine obeys_perform .newID ⟨Nat.zero_lt_of_lt hleft, hasking⟩ fun u => ?_
      exact obeys_exec ⟨Nat.sub_pos_of_lt hleft, hout, rfl⟩ (fun _ => hout) fun _ => hout

theorem within_handle {post : Post} {req : RegisterServiceRequest} (hkey : post.key ≠ [])
    (hbody : readBody post.body = .ok req) : post.handle.Within 13 :=
  within_of_obeys (obeys_handle hkey hbody)

/-- The call is a look at a key. -/
def Call.isLookup : Call → Bool
  | .exec .pool (.selectIdem _) => true
  | _ => false

omit [UuidLib] in
theorem Pace.May.lookup {key : GoString} {st : Pace} {op : Call} (h : st.May key op)
    (hop : Call.isLookup op = true) : st.stage = .asking ∧ op = .exec .pool (.selectIdem key) := by
  unfold Call.isLookup at hop
  split at hop
  · obtain ⟨-, hst, rfl⟩ := h
    exact ⟨hst, rfl⟩
  · cases hop

omit [UuidLib] in
/-- Whoever does anything else than looking the key up keeps to the turns. -/
theorem Turns.call {key : GoString} {st : Pace} {op : Call} {c : Choice} {a : op.Ans} (h : Turns key w.log)
    (hmay : st.May key op) (htr : st.Tracks p w) (hop : Call.isLookup op = false)
    (hc : World.call p op c w = some (a, w')) : Turns key w'.log := by
  cases World.call_did hc with
  | commit htx => exact h.snoc fun hw => absurd hw (htr.wrote hmay.2 _ htx)
  | @auto q _ ws t hplan _ =>
    rcases hmay.pool.2 with ⟨-, rfl⟩ | ⟨r, -, rfl, hkey⟩
    · cases hop
    · refine h.snoc fun hw => .inr fun hnone => ?_
      have heval := (Stmt.plan_ok hplan).2
      have hany : w.db.idem.any (·.idem_key = r.idem_key) = false :=
        List.any_eq_false.2 fun i hi => hkey ▸ List.find?_eq_none.1 hnone i hi
      simp only [Stmt.eval, hany, Bool.false_eq_true, if_false] at heval
      -- the record is new, so it is written
      split at heval <;> cases heval
      cases hw
  | _ => exact h

/-- Nobody has crashed and somebody has not returned: some request can go on without a fault, in turns. -/
theorem retry_progress {req : RegisterServiceRequest} {tier : Tier} {ownership : Ownership} {ps : Pid → Bool}
    {ms : List (Move Pid Choice)} {s : Pool Pid Call Call.Ans Response World} (hkey : R.key ≠ [])
    (hbody : readBody R.post.body = .ok req)
    (hparse : req.input.parse = .ok (R.tenantID, R.name, tier, ownership)) (htext : req.input.Storable)
    (hkeyText : TextOk R.key) (hname : R.db.serviceByName R.tenantID.v R.name.v = none)
    (hrec : R.db.idemRow R.key = none) (hrun : (retryPool R.db R.post ps).run World.machine ms = some s)
    (ht : Trusted R s.world) (hlive : ∀ p, ps p = true → s.procs p ≠ none)
    {prog : Proc Call Call.Ans Response} (hp : s.procs p = some prog) (hres : prog.result? = none) :
    ∃ q c s', s.step World.machine (.call q c) = some s' ∧ s'.world.faults = 0 ∧ Turns R.key s'.world.log := by
  have hstart : (retryPool R.db R.post ps).Obeying (Pace.May R.key) Pace.next (fun _ st => st.stage = .out)
      Pace.Tracks Pace.idle := by
    intro p
    dsimp only [retryPool]
    cases ps p with
    | false => exact Pace.tracks_init rfl rfl p R.db
    | true => exact ⟨_, obeys_handle hkey hbody, Pace.tracks_init rfl rfl p R.db⟩
  obtain ⟨hK, hob⟩ := Pace.obeying_run (.init R.db) hstart hrun
  obtain ⟨hI, hans⟩ := retry_run hkey hbody hparse htext hkeyText hname hrec hrun
  have hstep : ∀ {q op k c a w'}, s.procs q = some (.call op k) → World.call q op c s.world = some (a, w') →
      w'.faults = s.world.faults → Turns R.key w'.log →
      ∃ q c s', s.step World.machine (.call q c) = some s' ∧ s'.world.faults = 0 ∧ Turns R.key s'.world.log := by
    intro q op k c a w' hq hc hf hturns
    refine ⟨q, c, ⟨w', Function.update s.procs q (some (k a))⟩, ?_, hf.trans ht.faults, hturns⟩
    simp only [Pool.step, hq, World.machine, hc]
  by_cases hother : ∃ q op k, s.procs q = some (.call op k) ∧ Call.isLookup op = false
  · -- somebody is past its look at the key: it goes on, or whoever holds the row does
    obtain ⟨q₀, op, k, hq₀, hop⟩ := hother
    obtain ⟨q, op', k', c, a, w', st, hq, hc, hf, hmay, htr, hwho⟩ :=
      Pace.progress hK hob (fun _ _ h => h) ht.fresh.nodup hq₀
    have hop' : Call.isLookup op' = false := by
      rcases hwho with rfl | hst
      · cases hq.symm.trans hq₀
        exact hop
      · by_contra hl
        cases hst.symm.trans (hmay.lookup (Bool.not_eq_false _ ▸ hl)).1
    exact hstep hq hc hf (ht.turns.call hmay htr hop' hc)
  · -- everybody has returned or is about to look the key up
    have hlook : ∀ {q op k}, s.procs q = some (.call op k) → Call.isLookup op = true := fun {q op k} hq => by
      by_contra hl
      exact hother ⟨q, op, k, hq, Bool.not_eq_true _ ▸ hl⟩
    have hnobody : s.world.log = [] ∨ s.world.db.idemRow R.key ≠ none := by
      -- whoever has committed first has not returned before its record was saved
      have hfirst : ∀ e ∈ s.world.log, s.world.log.length < 3 → False := by
        intro e he hlen
        have hps : ps e.pid = true := by
          have := pids_run rfl hrun e he
          simp only [retryPool, ne_eq, ite_eq_right_iff, reduceCtorEq, imp_false, not_not] at this
          exact this
        cases hproc : s.procs e.pid with
        | none => exact hlive _ hps hproc
        | some prog =>
          obtain ⟨st, hobey, htr⟩ := hob.live hproc
          cases prog with
          | ret r =>
            obtain ⟨svc, e₁, e₂, e₃, l, hlog, -⟩ := hans e.pid r (by simp [Pool.result?, hproc, Proc.result?]) ht
            simp only [hlog, List.length_cons] at hlen
            omega
          | call op k => exact htr.asking (hobey.1.lookup (hlook hproc)).1 e he rfl
      cases hI.phase ht with
      | start hlog => exact .inl hlog
      | @looked e₁ hlog => exact (hfirst e₁ (by simp [hlog]) (by simp [hlog])).elim
      | @registered e₁ e₂ hlog => exact (hfirst e₁ (by simp [hlog]) (by simp [hlog])).elim
      | saved _ _ _ _ hsaved =>
        obtain ⟨svc, hsv⟩ := hsaved
        obtain ⟨v, hv⟩ := hsv.idemRow hrec
        exact .inr (by simp [hv])
    cases prog with
    | ret r => cases hres
    | call op k =>
      obtain ⟨st, hobey, -⟩ := hob.live hp
      obtain ⟨-, rfl⟩ := hobey.1.lookup (hlook hp)
      have htaken : (Stmt.selectIdem R.key).Taken :=
        ⟨fun _ hx => List.mem_singleton.1 hx ▸ hkeyText, fun _ hx => absurd hx List.not_mem_nil⟩
      have hc : World.call p (.exec .pool (.selectIdem R.key)) (.time 0) s.world = some (.ok (s.world.db.idemRow R.key),
          s.world.commit p ((Tx.start (pgTime 0)).ran (.selectIdem R.key) (s.world.db.idemRow R.key) [])) := by
        simp [World.call, Stmt.plan_of_taken htaken, Stmt.eval, World.blocked]
      exact hstep hp hc rfl (ht.turns.snoc fun _ => hnobody)

end

/-! ### The answers -/

section
variable [UuidLib] {R : Retry}

/-- The service rows of the tenant with the name. -/
def rowsNamed (T : TenantID) (N : ServiceName) (t : Tables) : List ServiceRow :=
  t.services.filter fun r => r.tenant_id = T.v ∧ r.name = N.v

/-- The request has been answered with the representation of `svc`. -/
def CreatedAs (s : Pool Pid Call Call.Ans Response World) (svc : Service) (p : Pid) : Prop :=
  ∃ r, s.result? p = some r ∧ r.Status = 201 ∧ r.Body = .ok (toResponse svc)

/-- What all answers of `s` have in common: they are the representation of the one service of the name. -/
structure AnsweredAlike (T : TenantID) (N : ServiceName) (s : Pool Pid Call Call.Ans Response World) : Prop where
  once : (rowsNamed T N s.world.db).length ≤ 1
  created : ∀ p r, s.result? p = some r → ∃ svc, CreatedAs s svc p ∧ rowsNamed T N s.world.db = [insertRow svc]
  alike : ∀ p q r r', s.result? p = some r → s.result? q = some r' → r'.Body = r.Body

omit [UuidLib] in
/-- The rows of the name when nothing else but `svc` has been registered. -/
theorem filter_registered {t : Tables} {svc : Service} {T : TenantID} {N : ServiceName}
    (hname : t.serviceByName T.v N.v = none) (hT : svc.tenantID = T) (hN : svc.name = N) :
    ((t.services ++ [insertRow svc]).filter fun r => r.tenant_id = T.v ∧ r.name = N.v) = [insertRow svc] := by
  have hnil : (t.services.filter fun r => r.tenant_id = T.v ∧ r.name = N.v) = [] :=
    List.filter_eq_nil_iff.2 fun r hr => List.find?_eq_none.1 hname r hr
  rw [List.filter_append, hnil]
  simp [insertRow, hT, hN]

omit [UuidLib] in
/-- At most one row has the name. -/
theorem Phase.once {w : World} (h : Phase R w) (hname : R.db.serviceByName R.tenantID.v R.name.v = none) :
    (rowsNamed R.tenantID R.name w.db).length ≤ 1 := by
  have hnil : rowsNamed R.tenantID R.name R.db = [] :=
    List.filter_eq_nil_iff.2 fun r hr => List.find?_eq_none.1 hname r hr
  cases h with
  | start _ h₂ => rw [h₂, hnil]; exact Nat.zero_le _
  | looked _ h₂ => rw [h₂, hnil]; exact Nat.zero_le _
  | registered _ _ _ h₄ =>
    obtain ⟨svc, hT, hN, u, o, hdb⟩ := h₄
    rw [hdb]
    exact (congrArg List.length (filter_registered hname hT hN)).le
  | saved _ _ _ _ h₅ =>
    obtain ⟨svc, hT, hN, u, o, v, hdb⟩ := h₅
    rw [hdb]
    exact (congrArg List.length (filter_registered hname hT hN)).le

omit [UuidLib] in
/-- The answers of a run in turns are alike. -/
theorem answeredAlike_of {s : Pool Pid Call Call.Ans Response World} (hI : RetryInv R s.world)
    (hans : ∀ p r, s.result? p = some r → Answered R r s.world) (ht : Trusted R s.world)
    (hname : R.db.serviceByName R.tenantID.v R.name.v = none) (hrec : R.db.idemRow R.key = none) :
    AnsweredAlike R.tenantID R.name s := by
  -- every answer is the representation that the third commit has saved
  have hsaved : ∀ p r, s.result? p = some r → ∃ svc e₁ e₂ e₃ l, s.world.log = e₁ :: e₂ :: e₃ :: l ∧
      s.world.db = e₃.after ∧ SavedAs R svc e₃.after ∧ r.Status = 201 ∧ r.Body = .ok (toResponse svc) := by
    intro p r hr
    obtain ⟨svc, e₁, e₂, e₃, l, hlog, hsv, hst, hb⟩ := hans p r hr ht
    refine ⟨svc, e₁, e₂, e₃, l, hlog, ?_, hsv, hst, hb⟩
    cases hI.phase ht with
    | start h₁ => cases hlog.symm.trans h₁
    | looked h₁ => cases hlog.symm.trans h₁
    | registered h₁ => cases hlog.symm.trans h₁
    | saved h₁ _ _ h₄ =>
      cases hlog.symm.trans h₁
      exact h₄
  refine ⟨(hI.phase ht).once hname, fun p r hr => ?_, fun p q r r' hr hr' => ?_⟩
  · obtain ⟨svc, e₁, e₂, e₃, l, -, hdb, ⟨hT, hN, u, o, v, hsv⟩, hst, hb⟩ := hsaved p r hr
    refine ⟨svc, ⟨r, hr, hst, hb⟩, ?_⟩
    rw [hdb, hsv]
    exact filter_registered hname hT hN
  · obtain ⟨svc, e₁, e₂, e₃, l, hlog, -, hsv, -, hb⟩ := hsaved p r hr
    obtain ⟨svc', e₁', e₂', e₃', l', hlog', -, hsv', -, hb'⟩ := hsaved q r' hr'
    cases hlog.symm.trans hlog'
    obtain ⟨v, hv⟩ := hsv.idemRow hrec
    obtain ⟨v', hv'⟩ := hsv'.idemRow hrec
    have hbody : toResponse svc' = toResponse svc :=
      congrArg IdemRow.response_body (Option.some.inj (hv'.symm.trans hv))
    rw [hb, hb', hbody]

/-- Requests with one key and one valid body whose name is free, in every run in which every request but
the first looks its key up after the record of the first has been saved, and the database takes the key and
the texts of the body. Each makes thirteen calls at most; unless one has crashed, as long as one has not
returned some call can be made in turns; all answers are alike; and when all have returned there is one
service of the name and every request has been answered with its representation. -/
theorem retries_answered_alike {req : RegisterServiceRequest} {tier : Tier} {ownership : Ownership}
    {ps : Pid → Bool} {ms : List (Move Pid Choice)} {s : Pool Pid Call Call.Ans Response World}
    (hkey : R.key ≠ []) (hbody : readBody R.post.body = .ok req)
    (hparse : req.input.parse = .ok (R.tenantID, R.name, tier, ownership)) (htext : req.input.Storable)
    (hkeyText : TextOk R.key) (hname : R.db.serviceByName R.tenantID.v R.name.v = none)
    (hrec : R.db.idemRow R.key = none) (hrun : (retryPool R.db R.post ps).run World.machine ms = some s)
    (hfaults : s.world.faults = 0) (hfresh : FreshDraws R.db s.world) (hturns : Turns R.key s.world.log) :
    (∀ p, Pool.callsOf p ms ≤ 13) ∧
    ((∀ p, ps p = true → s.procs p ≠ none) → ∀ p prog, s.procs p = some prog → prog.result? = none →
      ∃ q c s', s.step World.machine (.call q c) = some s' ∧ s'.world.faults = 0 ∧ Turns R.key s'.world.log) ∧
    AnsweredAlike R.tenantID R.name s ∧
    ((∃ p, ps p = true) → (∀ p, ps p = true → (s.result? p).isSome) →
      ∃ svc, rowsNamed R.tenantID R.name s.world.db = [insertRow svc] ∧ ∀ p, ps p = true → CreatedAs s svc p) := by
  have ht : Trusted R s.world := ⟨hfaults, hfresh, hturns⟩
  obtain ⟨hI, hans⟩ := retry_run hkey hbody hparse htext hkeyText hname hrec hrun
  have halike := answeredAlike_of hI hans ht hname hrec
  refine ⟨fun p => ?_, fun hlive p prog hp hres => ?_, halike, fun hsome hdone => ?_⟩
  · refine Pool.calls_le (fun prog hp => ?_) hrun
    simp only [retryPool] at hp
    split at hp <;> cases hp
    exact within_handle hkey hbody
  · exact retry_progress hkey hbody hparse htext hkeyText hname hrec hrun ht hlive hp hres
  · obtain ⟨p, hp⟩ := hsome
    obtain ⟨r, hr⟩ := Option.isSome_iff_exists.1 (hdone p hp)
    obtain ⟨svc, ⟨r₁, hr₁, -, hb₁⟩, hrows⟩ := halike.created p r hr
    refine ⟨svc, hrows, fun q hq => ?_⟩
    obtain ⟨r', hr'⟩ := Option.isSome_iff_exists.1 (hdone q hq)
    obtain ⟨svc', ⟨r₂, hr₂, hst₂, -⟩, -⟩ := halike.created q r' hr'
    exact ⟨r₂, hr₂, hst₂, (halike.alike p q r₁ r₂ hr₁ hr₂).trans hb₁⟩

end

theorem turns_of_tail {key : GoString} {log : List Commit}
    (h : (log.tail.all fun e => e.tx.writes ≠ [] ∨ (e.before.idemRow key).isSome) = true) : Turns key log := by
  intro pre e post hlog hw
  rcases pre with _ | ⟨x, pre⟩
  · exact .inl rfl
  · rw [hlog, List.cons_append, List.tail_cons, List.all_eq_true] at h
    have he := of_decide_eq_true (h e (by simp))
    exact .inr (Option.isSome_iff_ne_none.1 (he.resolve_left (not_not_intro hw)))

/-- Two requests that register the name `api`. -/
def sampleRetry : Retry := ⟨.empty, ⟨"k", sampleBody "api"⟩, Service.sample.tenantID, Service.sample.name⟩

def sampleRequest : RegisterServiceRequest := ⟨UUID.String ⟨2⟩, "api", [], 1, [], "core", []⟩

/-- The first request registers the service and saves its representation. -/
def firstRequest : List (Move Pid Choice) :=
  [.call 0 (.uuid ⟨1⟩), .call 0 (.time 0), .call 0 (.time 0), .call 0 .ok, .call 0 .ok, .call 0 (.uuid ⟨10⟩),
    .call 0 .ok, .call 0 (.uuid ⟨11⟩), .call 0 .ok, .call 0 .ok, .call 0 (.uuid ⟨12⟩), .call 0 (.time 0)]

attribute [local instance] UuidLib.canonical

theorem readBody_sampleRetry : readBody sampleRetry.post.body = .ok sampleRequest := by decide +kernel

theorem parse_sampleRequest : sampleRequest.input.parse = .ok (sampleRetry.tenantID, sampleRetry.name,
    ⟨1, by decide, by decide⟩, ⟨"core", [], by decide, by decide, by decide⟩) := by decide +kernel

theorem storable_sampleRequest : sampleRequest.input.Storable := by
  refine ⟨by decide, by decide, fun o ho => ?_⟩
  cases (ownership_of_parse parse_sampleRequest).symm.trans ho
  exact ⟨by decide, by decide⟩

theorem retries_answered_alike_sample : ∃ s, (retryPool sampleRetry.db sampleRetry.post (· < 2)).run World.machine
      (.call 0 (.time 0) :: firstRequest ++ [.call 1 (.time 0)]) = some s ∧
    AnsweredAlike sampleRetry.tenantID sampleRetry.name s ∧
    ∃ svc, rowsNamed sampleRetry.tenantID sampleRetry.name s.world.db = [insertRow svc] ∧
      ∀ p < 2, CreatedAs s svc p := by
  have h : ((retryPool sampleRetry.db sampleRetry.post (· < 2)).run World.machine
      (.call 0 (.time 0) :: firstRequest ++ [.call 1 (.time 0)])).map (fun s => (s.world.faults, s.world.ids,
        s.world.log.tail.all fun e => e.tx.writes ≠ [] ∨ (e.before.idemRow sampleRetry.key).isSome,
        (s.result? 0).isSome, (s.result? 1).isSome)) = some (0, [⟨1⟩, ⟨10⟩, ⟨11⟩, ⟨12⟩], true, true, true) := by
    decide +kernel
  obtain ⟨s, hs, hobs⟩ := Option.map_eq_some_iff.1 h
  simp only [Prod.mk.injEq] at hobs
  obtain ⟨hfaults, hids, hturns, h₀, h₁⟩ := hobs
  obtain ⟨-, -, halike, hall⟩ := retries_answered_alike (by decide) readBody_sampleRetry parse_sampleRequest
    storable_sampleRequest (by decide) rfl rfl hs hfaults (.empty (by rw [hids]; decide)) (turns_of_tail hturns)
  obtain ⟨svc, hrows, hcreated⟩ := hall ⟨0, rfl⟩ fun p hp => by
    rcases p with _ | _ | p
    · exact h₀
    · exact h₁
    · have hlt : p + 2 < 2 := of_decide_eq_true hp
      omega
  exact ⟨s, hs, halike, svc, hrows, fun p hp => hcreated p (by simpa using hp)⟩

/-- Both requests look the key up before either has saved its record: the second is told of a
conflict. -/
theorem retry_conflict : ∃ s, (retryPool sampleRetry.db sampleRetry.post (· < 2)).run World.machine
      (.call 0 (.time 0) :: .call 1 (.time 0) :: firstRequest ++
        [.call 1 (.uuid ⟨5⟩), .call 1 (.time 0), .call 1 (.time 0), .call 1 .ok, .call 1 .ok]) = some s ∧
    s.world.faults = 0 ∧ FreshDraws sampleRetry.db s.world ∧ (s.result? 0).map (·.Status) = some 201 ∧
    (s.result? 1).map (·.Status) = some 409 ∧ ¬ AnsweredAlike sampleRetry.tenantID sampleRetry.name s := by
  have h : ((retryPool sampleRetry.db sampleRetry.post (· < 2)).run World.machine
      (.call 0 (.time 0) :: .call 1 (.time 0) :: firstRequest ++
        [.call 1 (.uuid ⟨5⟩), .call 1 (.time 0), .call 1 (.time 0), .call 1 .ok, .call 1 .ok])).map
        (fun s => (s.world.faults, s.world.ids, (s.result? 0).map (·.Status), (s.result? 1).map (·.Status))) =
      some (0, [⟨1⟩, ⟨10⟩, ⟨11⟩, ⟨12⟩, ⟨5⟩], some 201, some 409) := by decide +kernel
  obtain ⟨s, hs, hobs⟩ := Option.map_eq_some_iff.1 h
  simp only [Prod.mk.injEq] at hobs
  obtain ⟨hfaults, hids, h₀, h₁⟩ := hobs
  refine ⟨s, hs, hfaults, .empty (by rw [hids]; decide), h₀, h₁, fun hall => ?_⟩
  obtain ⟨r, hr, hst⟩ := Option.map_eq_some_iff.1 h₁
  obtain ⟨svc, ⟨r', hr', hst', -⟩, -⟩ := hall.created 1 r hr
  cases hr.symm.trans hr'
  cases hst.symm.trans hst'

end Forge.Catalog
