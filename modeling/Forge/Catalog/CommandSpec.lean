import Forge.Catalog.Commands

/-!
# What the commands do among other processes

`safe_mutate` and `safe_RegisterService` follow the two transactions of the catalog call by call and
say once, for any invariant `I` of the world, what is left to show of a command: that `I` survives its
commit, knowing which statements it ran on which tables (`MutateDone`, `RegisterDone`), and what
follows the return, knowing in the case of an error why it was returned (`MutateFailed`,
`RegisterFailed`).
-/

namespace Forge.Catalog

section
variable {p : Pid} {I : World → Prop} {α : Type} {Q : α → World → Prop} {w₀ w : World} {l : Script}

theorem safe_M_exec (hI : Keeps p I) {q : Stmt} {onErr : PgError → Err}
    {k : Except Err q.Ans → Proc Call Call.Ans α} (hIw : I w) (hw : InTx p w₀ l w)
    (herr : ∀ e w', I w' → Grown w w' → InTx p w₀ l w' →
      (0 < w'.faults ∨ Rejected p q w' e) → Safe p I Q (k (.error (onErr e))) w')
    (hok : ∀ a w', I w' → Grown w w' → InTx p w₀ (l ++ [⟨q, a⟩]) w' → Safe p I Q (k (.ok a)) w') :
    Safe p I Q ((M.exec .tx q onErr).run >>= k) w := by
  rw [M.run_exec_bind]
  exact safe_exec hI hIw hw herr hok

theorem safe_M_now (hI : Keeps p I) {k : Except Err Time → Proc Call Call.Ans α}
    (h : ∀ w₁ t, Others p w w₁ → I w₁ → let w' := { w₁ with readings := w₁.readings ++ [t] }
      I w' → Grown w w' → Safe p I Q (k (.ok t)) w') :
    Safe p I Q ((M.perform .now).run >>= k) w :=
  safe_now hI h

theorem safe_M_newID (hI : Keeps p I) {k : Except Err UUID → Proc Call Call.Ans α}
    (h : ∀ w₁ u, Others p w w₁ → I w₁ → let w' := { w₁ with draws := w₁.draws ++ [(p, u)] }
      I w' → Grown w w' → Safe p I Q (k (.ok u)) w') :
    Safe p I Q ((M.perform .newID).run >>= k) w :=
  safe_newID hI h

/-! ### Events -/

abbrev outboxStmt (u : UUID) (e : Event) : Stmt :=
  .insertOutbox u e.AggregateID e.EventType e.envelope (pgTime e.OccurredAt)

theorem taken_outboxStmt {e : Event} {id : ServiceID} (hid : e.AggregateID = id.String)
    (h : ∀ x ∈ e.envelope.texts, 0x00 ∉ x) (u : UUID) : (outboxStmt u e).Taken := by
  refine ⟨fun x hx => ?_, h⟩
  simp only [Stmt.texts, List.mem_cons, List.not_mem_nil, or_false] at hx
  rcases hx with rfl | rfl
  · exact hid ▸ .of_plain (plain_String id.v)
  · exact e.textOk_EventType

/-- The statements of `Append`, with the id of each row. -/
def appendScript (vs : List (UUID × Event)) : Script := vs.map fun v => ⟨outboxStmt v.1 v.2, ()⟩

theorem safe_Append (hI : Keeps p I) {events : List Event} {k : Except Err Unit → Proc Call Call.Ans α}
    (hIw : I w) (hw : InTx p w₀ l w)
    (herr : ∀ e w' vs u ev es, I w' → Grown w w' → vs.map Prod.snd ++ ev :: es = events → (p, u) ∈ w'.draws →
      InTx p w₀ (l ++ appendScript vs) w' → (0 < w'.faults ∨ ∃ pe, Rejected p (outboxStmt u ev) w' pe) →
      Safe p I Q (k (.error e)) w')
    (hok : ∀ w' vs, I w' → Grown w w' → vs.map Prod.snd = events → (∀ v ∈ vs, (p, v.1) ∈ w'.draws) →
      InTx p w₀ (l ++ appendScript vs) w' → Safe p I Q (k (.ok ())) w') :
    Safe p I Q ((Append events).run >>= k) w := by
  induction events generalizing l w with
  | nil => exact hok w [] hIw (.refl w) rfl (by simp) (by simpa [appendScript] using hw)
  | cons ev events ih =>
    simp only [Append, M.run_bind_bind]
    refine safe_M_newID hI fun w₁ u ho hI₁ hI₂ hg => ?_
    have h₁ : InTx p w₀ l { w₁ with draws := w₁.draws ++ [(p, u)] } :=
      ⟨(hw.others (hI.locksOk _ hIw) ho).ran, hw.grown.trans hg⟩
    refine safe_M_exec hI hI₂ h₁ (fun e w' hI' hg' h' hc => ?_) (fun a w' hI' hg' h' => ?_)
    · exact herr _ w' [] u ev events hI' (hg.trans hg') rfl (hg'.draws.subset (by simp))
        (by simpa [appendScript] using h') (hc.imp id (.intro e))
    · refine ih hI' h' (fun e w'' vs u' ev' es hI'' hg'' hes hu' h'' hc => ?_)
        (fun w'' vs hI'' hg'' hvs hu' h'' => ?_)
      · exact herr e w'' ((u, ev) :: vs) u' ev' es hI'' (hg.trans (hg'.trans hg'')) (by simp [hes]) hu'
          (by simpa [appendScript, outboxStmt] using h'') hc
      · refine hok w'' ((u, ev) :: vs) hI'' (hg.trans (hg'.trans hg'')) (by simp [hvs]) ?_
          (by simpa [appendScript, outboxStmt] using h'')
        rintro v (_ | ⟨_, hv⟩)
        · exact (hg'.trans hg'').draws.subset (by simp)
        · exact hu' v hv

/-- A transaction around `fn`: it is rolled back when `fn` fails and committed when it returns. -/
theorem safe_Execute (hI : Keeps p I) {β : Type} {fn : M β} {k : Except Err β → Proc Call Call.Ans α}
    (hw : Out p w₀ w) (herr : ∀ e w', I w' → Grown w w' → Out p w₀ w' → 0 < w'.faults →
      Safe p I Q (k (.error e)) w')
    (hfn : ∀ w', I w' → Grown w w' → InTx p w₀ [] w' → Safe p I Q (fn.run >>= fun r => match r with
      | .error e => .call .rollback fun _ => k (.error e)
      | .ok a => .call .commit fun r => match r with
        | .error e => k (.error (wrapPg "commit tx" e))
        | .ok () => k (.ok a)) w') : Safe p I Q ((Execute fn).run >>= k) w := by
  rw [run_Execute_bind]
  exact safe_begin hI hw (fun w' => herr _ w') hfn

/-! ### Repository -/

theorem safe_FindByID [UuidLib] (hI : Keeps p I) {sid : ServiceID}
    {k : Except Err Service → Proc Call Call.Ans α} (hIw : I w) (hw : InTx p w₀ l w)
    (herr : ∀ e w', I w' → Grown w w' → InTx p w₀ l w' → 0 < w'.faults → Safe p I Q (k (.error e)) w')
    (hok : ∀ row w', I w' → Grown w w' → InTx p w₀ (l ++ [⟨.selectService sid.v, row⟩]) w' →
      Safe p I Q (k (scanService row)) w') : Safe p I Q ((FindByID .tx sid).run >>= k) w := by
  simp only [FindByID, M.run_bind_bind]
  refine safe_M_exec hI hIw hw (fun e w' hI' hg' h' hc => ?_) hok
  rcases hc with hc | ⟨tx, -, hc⟩
  · exact herr _ w' hI' hg' h' hc
  · cases hc

abbrev updateStmt (s : Service) (expectedVersion : Int) : Stmt :=
  .updateService s.id.v expectedVersion (updateCols s)

abbrev closeStmt (s : Service) : Stmt :=
  .closeOwnership s.id.v (pgTime s.updatedAt) s.ownership.OwningTeam s.ownership.OnCallRef

abbrev openStmt (u : UUID) (s : Service) : Stmt :=
  .openOwnership ⟨u, s.id.v, s.ownership.OwningTeam, s.ownership.OnCallRef, pgTime s.updatedAt, none⟩

/-- The statements that write an aggregate have their texts taken if the first of them has. -/
theorem taken_updateStmt {s : Service} {v : Int} : (updateStmt s v).Taken ↔ ∀ x ∈ (updateCols s).texts, TextOk x :=
  and_iff_left fun _ hx => nomatch hx

theorem taken_closeStmt {s : Service} (h : ∀ x ∈ (updateCols s).texts, TextOk x) : (closeStmt s).Taken :=
  ⟨fun x hx => h x (by simp_all [Stmt.texts, ServiceCols.texts, updateCols]), fun _ hx => nomatch hx⟩

theorem taken_openStmt {s : Service} (h : ∀ x ∈ (updateCols s).texts, TextOk x) (u : UUID) : (openStmt u s).Taken :=
  taken_closeStmt h

/-- Why `Update` fails, in a transaction that has run `l`. -/
inductive UpdateFailed (p : Pid) (w₀ : World) (l : Script) (s : Service) (expectedVersion : Int)
    (w : World) : Prop
  | fault (h : 0 < w.faults)
  | stale {l' : Script} (h : InTx p w₀ (l ++ ⟨updateStmt s expectedVersion, (0 : Nat)⟩ :: l') w)
  | update {e : PgError} (h : InTx p w₀ l w) (hq : Rejected p (updateStmt s expectedVersion) w e)
  | close {n : Nat} {e : PgError} (h : InTx p w₀ (l ++ [⟨updateStmt s expectedVersion, n⟩]) w)
      (hq : Rejected p (closeStmt s) w e)
  | record {n : Nat} {u : UUID} {e : PgError} (hn : n ≠ 0) (hu : (p, u) ∈ w.draws)
      (h : InTx p w₀ (l ++ [⟨updateStmt s expectedVersion, n⟩, ⟨closeStmt s, ()⟩]) w)
      (hq : Rejected p (openStmt u s) w e)

theorem safe_Update [UuidLib] (hI : Keeps p I) {s : Service} {expectedVersion : Int}
    {k : Except Err Unit → Proc Call Call.Ans α} (hIw : I w) (hw : InTx p w₀ l w)
    (herr : ∀ e w' l', I w' → Grown w w' → InTx p w₀ l' w' →
      UpdateFailed p w₀ l s expectedVersion w' → Safe p I Q (k (.error e)) w')
    (hok : ∀ w' n u, I w' → Grown w w' → n ≠ 0 → (p, u) ∈ w'.draws → InTx p w₀
      (l ++ [⟨updateStmt s expectedVersion, n⟩, ⟨closeStmt s, ()⟩, ⟨openStmt u s, ()⟩]) w' →
      Safe p I Q (k (.ok ())) w') : Safe p I Q ((Update s expectedVersion).run >>= k) w := by
  simp only [Update, M.run_bind_bind]
  refine safe_M_exec hI hIw hw (fun e w₁ hI₁ hg₁ h₁ hc => ?_) (fun n w₁ hI₁ hg₁ h₁ => ?_)
  · exact herr _ w₁ l hI₁ hg₁ h₁ (hc.elim .fault (.update h₁))
  dsimp only
  by_cases hn : n = 0
  · -- no row was updated: whatever the second look finds is an error
    subst hn
    simp only [if_pos, M.run_bind_bind, M.run_lift_bind]
    refine safe_FindByID hI hI₁ h₁ (fun e w₂ hI₂ hg₂ h₂ hc => ?_) (fun row w₂ hI₂ hg₂ h₂ => ?_)
    · exact herr _ w₂ _ hI₂ (hg₁.trans hg₂) h₂ (.fault hc)
    · have hst : UpdateFailed p w₀ l s expectedVersion w₂ := .stale (by simpa using h₂)
      cases scanService row with
      | error e => exact herr _ w₂ _ hI₂ (hg₁.trans hg₂) h₂ hst
      | ok s' => exact herr _ w₂ _ hI₂ (hg₁.trans hg₂) h₂ hst
  · simp only [if_neg hn, recordOwnership, M.run_bind_bind]
    refine safe_M_exec hI hI₁ h₁ (fun e w₂ hI₂ hg₂ h₂ hc => ?_) (fun a w₂ hI₂ hg₂ h₂ => ?_)
    · exact herr _ w₂ _ hI₂ (hg₁.trans hg₂) h₂ (hc.elim .fault (.close h₂))
    refine safe_M_newID hI fun w₃ u ho hI₃ hI₄ hg₄ => ?_
    have h₃ := h₂.others (hI.locksOk _ hI₂) ho
    rw [List.append_assoc] at h₃
    have h₄ : InTx p w₀ (l ++ [⟨updateStmt s expectedVersion, n⟩, ⟨closeStmt s, ()⟩])
        { w₃ with draws := w₃.draws ++ [(p, u)] } :=
      ⟨h₃.ran, h₂.grown.trans hg₄⟩
    have hg : Grown w { w₃ with draws := w₃.draws ++ [(p, u)] } := hg₁.trans (hg₂.trans hg₄)
    refine safe_M_exec hI hI₄ h₄ (fun e w₅ hI₅ hg₅ h₅ hc => ?_) (fun a w₅ hI₅ hg₅ h₅ => ?_)
    · exact herr _ w₅ _ hI₅ (hg.trans hg₅) h₅
        (hc.elim .fault (.record hn (hg₅.draws.subset (by simp)) h₅))
    · exact hok w₅ n u hI₅ (hg.trans hg₅) hn (hg₅.draws.subset (by simp)) (by simpa using h₅)

end

/-! ### Mutating commands -/

section
variable [UuidLib]

/-- The statements of a mutation that commits: `r` was loaded as `s`, which became `s'`. -/
def mutateScript (id : UUID) (ev : Int) (r : ServiceRow) (s s' : Service) (n : Nat) (u : UUID)
    (vs : List (UUID × Event)) : Script :=
  [⟨.selectService id, some r⟩, ⟨updateStmt s' (expectedVersionOr ev s.version), n⟩,
    ⟨closeStmt s', ()⟩, ⟨openStmt u s', ()⟩] ++ appendScript vs

/-- What is known of a mutation begun after `w₀` when it commits `tx` in `w`. -/
structure MutateDone (p : Pid) (w₀ : World) (id : UUID) (ev : Int) (m : Mutation) (w : World) (tx : Tx)
    (r : ServiceRow) (s : Service) (now : Time) (s' : Service) : Prop where
  loads : scanService (some r) = .ok s
  applies : m.apply now s = .ok s'
  ran : ∃ t n u vs, n ≠ 0 ∧ vs.map Prod.snd = s'.events ∧ (p, u) ∈ w.draws ∧ (∀ v ∈ vs, (p, v.1) ∈ w.draws) ∧
    Ran p (.start t) w₀.snap (mutateScript id ev r s s' n u vs) tx w.snap
  clock : ∃ rs, w₀.readings <+: rs ∧ rs ++ [now] <+: w.readings

/-- Why a mutation begun after `w₀` fails, in the world `w` before it is rolled back. -/
inductive MutateFailed (p : Pid) (w₀ : World) (id : UUID) (ev : Int) (m : Mutation) (w : World) :
    Err → Prop
  | fault {e : Err} (h : 0 < w.faults) : MutateFailed p w₀ id ev m w e
  | load {row : Option ServiceRow} {e : Err} (hw : InTx p w₀ [⟨.selectService id, row⟩] w)
      (h : scanService row = .error e) : MutateFailed p w₀ id ev m w e
  | apply {r : ServiceRow} {s : Service} {now : Time} {e : Err}
      (hw : InTx p w₀ [⟨.selectService id, some r⟩] w) (hs : scanService (some r) = .ok s)
      (h : m.apply now s = .error e) : MutateFailed p w₀ id ev m w e
  | update {r : ServiceRow} {s s' : Service} {now : Time} {e : Err}
      (hs : scanService (some r) = .ok s) (ha : m.apply now s = .ok s')
      (h : UpdateFailed p w₀ [⟨.selectService id, some r⟩] s' (expectedVersionOr ev s.version) w) :
      MutateFailed p w₀ id ev m w e
  | append {r : ServiceRow} {s s' : Service} {now : Time} {n : Nat} {u v : UUID}
      {vs : List (UUID × Event)} {ev' : Event} {es : List Event} {pe : PgError} {e : Err}
      (hs : scanService (some r) = .ok s) (ha : m.apply now s = .ok s') (hn : n ≠ 0)
      (hes : vs.map Prod.snd ++ ev' :: es = s'.events) (hv : (p, v) ∈ w.draws)
      (hw : InTx p w₀ (mutateScript id ev r s s' n u vs) w) (hq : Rejected p (outboxStmt v ev') w pe) :
      MutateFailed p w₀ id ev m w e

variable {p : Pid} {I : World → Prop} {α : Type} {Q : α → World → Prop} {w₀ w : World}

theorem safe_mutate (hI : Keeps p I) {id : ServiceID} {ev : Int} {m : Mutation}
    {k : Except Err Service → Proc Call Call.Ans α} (hw : w.txs p = none)
    (herr : ∀ e w₁ w', I w' → Out p w w' → Grown w₁ w' → Follows p [] w₁.snap w'.snap →
      MutateFailed p w id.v ev m w₁ e → Safe p I Q (k (.error e)) w')
    (hok : ∀ w₁ tx r s now s', I w₁ → Grown w w₁ → w₁.txs p = some tx →
      MutateDone p w id.v ev m w₁ tx r s now s' →
      I ((w₁.commit p tx).endTx p) ∧
        Safe p I Q (k (.ok { s' with events := [] })) ((w₁.commit p tx).endTx p)) :
    Safe p I Q ((mutate id ev m).run >>= k) w := by
  refine safe_Execute hI (show Out p w w from ⟨hw, .refl .., .refl w⟩)
    (fun e w' hI' hg' ho' hf => herr e w' w' hI' ho' (.refl w') (.refl ..) (.fault hf)) fun w₁ hI₁ hg₁ h₁ => ?_
  -- every failure inside the transaction is rolled back
  have hroll : ∀ {l e w₂}, I w₂ → InTx p w l w₂ → MutateFailed p w id.v ev m w₂ e →
      Safe p I Q (.call .rollback fun _ => k (.error e)) w₂ := fun {l e w₂} hI₂ h₂ hf =>
    safe_rollback hI hI₂ h₂ fun w' hI' hg' hs ho => herr e w₂ w' hI' ho hg' hs hf
  simp only [mutateTx, M.run_bind_bind]
  refine safe_FindByID hI hI₁ h₁ (fun e w₂ hI₂ hg₂ h₂ hc => hroll hI₂ h₂ (.fault hc))
    (fun row w₂ hI₂ hg₂ h₂ => ?_)
  cases hs : scanService row with
  | error e => exact hroll hI₂ h₂ (.load h₂ hs)
  | ok s =>
    obtain ⟨r, rfl⟩ : ∃ r, row = some r := by cases row <;> [cases hs; exact ⟨_, rfl⟩]
    refine safe_M_now hI fun w₃ now ho₃ hI₃ hI₄ hg₄ => ?_
    have h₃ := h₂.others (hI.locksOk _ hI₂) ho₃
    have h₄ : InTx p w [⟨.selectService id.v, some r⟩] { w₃ with readings := w₃.readings ++ [now] } :=
      ⟨h₃.ran, h₂.grown.trans hg₄⟩
    simp only [M.run_ofExcept_bind]
    cases ha : m.apply now s with
    | error e => exact hroll hI₄ h₄ (.apply h₄ hs ha)
    | ok s' =>
      dsimp only
      refine safe_Update hI hI₄ h₄ (fun e w₅ l hI₅ hg₅ h₅ hf => hroll hI₅ h₅ (.update hs ha hf))
        (fun w₅ n u hI₅ hg₅ hn hu h₅ => ?_)
      refine safe_Append hI hI₅ h₅ (fun e w₆ vs v ev' es hI₆ hg₆ hes hv h₆ hc => ?_)
        (fun w₆ vs hI₆ hg₆ hes hv h₆ => ?_)
      · exact hroll hI₆ h₆ (hc.elim .fault fun ⟨_, hq⟩ => .append hs ha hn hes hv h₆ hq)
      · refine safe_commit hI hI₆ h₆ (fun w' hI' hg' ho' hf => ?_) (fun w₇ t tx hI₇ hg₇ htx hr => ?_)
        · exact herr _ w' w' hI' ho' (.refl w') (.refl ..) (.fault hf)
        · refine hok w₇ tx r s now s' hI₇ (h₆.grown.trans hg₇) htx ⟨hs, ha, ?_, ?_⟩
          · exact ⟨t, n, u, vs, hn, hes, (hg₆.trans hg₇).draws.subset hu,
              fun v hvs => hg₇.draws.subset (hv v hvs), hr⟩
          · exact ⟨w₃.readings, h₃.grown.readings, (hg₅.trans (hg₆.trans hg₇)).readings⟩

/-! ### Registration -/

abbrev historyStmt (u : UUID) (s : Service) : Stmt :=
  .insertHistory ⟨u, s.id.v, s.ownership.OwningTeam, s.ownership.OnCallRef, pgTime s.createdAt, none⟩

omit [UuidLib] in
theorem taken_selectServiceByName (s : Service) :
    (Stmt.selectServiceByName s.tenantID.v s.name.v).Taken :=
  ⟨fun _ hx => List.mem_singleton.1 hx ▸ s.name.textOk, fun _ hx => nomatch hx⟩

omit [UuidLib] in
theorem taken_insertService {s : Service} (h : ∀ x ∈ (updateCols s).texts, TextOk x) :
    (Stmt.insertService (insertRow s)).Taken := by
  refine ⟨fun x hx => ?_, fun _ hx => nomatch hx⟩
  rcases List.mem_cons.1 hx with rfl | hx
  · exact s.name.textOk
  · exact h x hx

omit [UuidLib] in
theorem taken_historyStmt {s : Service} (h : ∀ x ∈ (updateCols s).texts, TextOk x) (u : UUID) :
    (historyStmt u s).Taken :=
  taken_closeStmt h

/-- The statements of a registration that commits. -/
def registerScript (svc : Service) (u : UUID) (vs : List (UUID × Event)) : Script :=
  [⟨.selectServiceByName svc.tenantID.v svc.name.v, none⟩, ⟨.insertService (insertRow svc), ()⟩,
    ⟨historyStmt u svc, ()⟩] ++ appendScript vs

/-- What is known of the registration of `svc` begun after `w₀` when it commits `tx` in `w`. -/
structure RegisterDone (p : Pid) (w₀ : World) (svc : Service) (w : World) (tx : Tx) : Prop where
  ran : ∃ t u vs, vs.map Prod.snd = svc.events ∧ (p, u) ∈ w.draws ∧ (∀ v ∈ vs, (p, v.1) ∈ w.draws) ∧
    Ran p (.start t) w₀.snap (registerScript svc u vs) tx w.snap

/-- Why a registration of `svc` begun after `w₀` fails, in the world `w` before it is rolled back. -/
inductive RegisterFailed (p : Pid) (w₀ : World) (svc : Service) (w : World) : Err → Prop
  | fault {e : Err} (h : 0 < w.faults) : RegisterFailed p w₀ svc w e
  | taken {r : ServiceRow} {s : Service} (hs : scanService (some r) = .ok s)
      (hw : InTx p w₀ [⟨.selectServiceByName svc.tenantID.v svc.name.v, some r⟩] w) :
      RegisterFailed p w₀ svc w ErrNameConflict
  | corrupt {r : ServiceRow} {e : Err} (hs : scanService (some r) = .error e)
      (hw : InTx p w₀ [⟨.selectServiceByName svc.tenantID.v svc.name.v, some r⟩] w) :
      RegisterFailed p w₀ svc w e
  | insert {pe : PgError} (hw : InTx p w₀ [⟨.selectServiceByName svc.tenantID.v svc.name.v, none⟩] w)
      (hq : Rejected p (.insertService (insertRow svc)) w pe) :
      RegisterFailed p w₀ svc w (insertErr pe)
  | history {u : UUID} {pe : PgError} {e : Err} (hu : (p, u) ∈ w.draws)
      (hw : InTx p w₀ [⟨.selectServiceByName svc.tenantID.v svc.name.v, none⟩,
        ⟨.insertService (insertRow svc), ()⟩] w)
      (hq : Rejected p (historyStmt u svc) w pe) : RegisterFailed p w₀ svc w e
  | append {u v : UUID} {vs : List (UUID × Event)} {ev' : Event} {es : List Event} {pe : PgError} {e : Err}
      (hes : vs.map Prod.snd ++ ev' :: es = svc.events) (hv : (p, v) ∈ w.draws)
      (hw : InTx p w₀ (registerScript svc u vs) w) (hq : Rejected p (outboxStmt v ev') w pe) :
      RegisterFailed p w₀ svc w e

theorem safe_registerTx (hI : Keeps p I) {svc : Service} {k : Except Err Service → Proc Call Call.Ans α}
    (hw : w.txs p = none)
    (herr : ∀ e w₁ w', I w' → Out p w w' → Grown w₁ w' → Follows p [] w₁.snap w'.snap →
      RegisterFailed p w svc w₁ e → Safe p I Q (k (.error e)) w')
    (hok : ∀ w₁ tx, I w₁ → Grown w w₁ → w₁.txs p = some tx → RegisterDone p w svc w₁ tx →
      I ((w₁.commit p tx).endTx p) ∧
        Safe p I Q (k (.ok { svc with events := [] })) ((w₁.commit p tx).endTx p)) :
    Safe p I Q ((Execute (registerTx svc)).run >>= k) w := by
  refine safe_Execute hI (show Out p w w from ⟨hw, .refl .., .refl w⟩)
    (fun e w' hI' hg' ho' hf => herr e w' w' hI' ho' (.refl w') (.refl ..) (.fault hf)) fun w₁ hI₁ hg₁ h₁ => ?_
  have hroll : ∀ {l e w₂}, I w₂ → InTx p w l w₂ → RegisterFailed p w svc w₂ e →
      Safe p I Q (.call .rollback fun _ => k (.error e)) w₂ := fun {l e w₂} hI₂ h₂ hf =>
    safe_rollback hI hI₂ h₂ fun w' hI' hg' hs ho => herr e w₂ w' hI' ho hg' hs hf
  simp only [registerTx, M.run_bind_bind, M.run_lift_bind, FindByTenantAndName]
  refine safe_M_exec hI hI₁ h₁ (fun e w₂ hI₂ hg₂ h₂ hc => ?_) (fun row w₂ hI₂ hg₂ h₂ => ?_)
  · rcases hc with hc | ⟨tx, -, hc⟩
    · exact hroll hI₂ h₂ (.fault hc)
    · rw [Stmt.plan_of_taken (taken_selectServiceByName svc)] at hc
      cases hc
  simp only [M.run_ofExcept_bind]
  cases row with
  | some r =>
    cases hs : scanService (some r) with
    | ok s => exact hroll hI₂ h₂ (.taken hs h₂)
    | error e =>
      simp only [if_pos (scanService_some_ne hs), M.run_throw_bind]
      exact hroll hI₂ h₂ (.corrupt hs h₂)
  | none =>
    simp only [scanService, ne_eq, not_true_eq_false, if_false, Insert, M.run_bind_bind]
    refine safe_M_exec hI hI₂ h₂ (fun e w₃ hI₃ hg₃ h₃ hc => ?_) (fun a w₃ hI₃ hg₃ h₃ => ?_)
    · exact hroll hI₃ h₃ (hc.elim .fault (.insert h₃))
    refine safe_M_newID hI fun w₄ u ho₄ hI₄ hI₅ hg₅ => ?_
    have h₅ : InTx p w [⟨.selectServiceByName svc.tenantID.v svc.name.v, none⟩,
        ⟨.insertService (insertRow svc), ()⟩] { w₄ with draws := w₄.draws ++ [(p, u)] } :=
      ⟨(h₃.others (hI.locksOk _ hI₃) ho₄).ran, h₃.grown.trans hg₅⟩
    refine safe_M_exec hI hI₅ h₅ (fun e w₆ hI₆ hg₆ h₆ hc => ?_) (fun a w₆ hI₆ hg₆ h₆ => ?_)
    · exact hroll hI₆ h₆ (hc.elim .fault (.history (hg₆.draws.subset (by simp)) h₆))
    refine safe_Append hI hI₆ h₆ (fun e w₇ vs v ev' es hI₇ hg₇ hes hv h₇ hc => ?_)
      (fun w₇ vs hI₇ hg₇ hes hv h₇ => ?_)
    · exact hroll hI₇ h₇ (hc.elim .fault fun hq => hq.elim fun _ hq => .append hes hv h₇ hq)
    · refine safe_commit hI hI₇ h₇ (fun w' hI' hg' ho' hf => ?_) (fun w₈ t tx hI₈ hg₈ htx hr => ?_)
      · exact herr _ w' w' hI' ho' (.refl w') (.refl ..) (.fault hf)
      · refine hok w₈ tx hI₈ (h₇.grown.trans hg₈) htx ⟨t, u, vs, hes, ?_, ?_, hr⟩
        · exact (hg₆.trans (hg₇.trans hg₈)).draws.subset (by simp)
        · exact fun v hvs => hg₈.draws.subset (hv v hvs)

/-- `p` has been registering with the inputs `inp` since `w` and is about to begin the transaction that
registers `svc`. -/
structure Registering (p : Pid) (w : World) (inp : RegisterServiceInput) (w₀ : World) (svc : Service) :
    Prop where
  svc_eq : ∃ tenantID name tier ownership id now, inp.parse = .ok (tenantID, name, tier, ownership) ∧
    svc = Register ⟨id⟩ tenantID name inp.Description tier inp.Repository ownership now ∧
    (∃ ds, w.draws <+: ds ∧ ds ++ [(p, id)] <+: w₀.draws) ∧ (∃ rs, w.readings <+: rs ∧ rs ++ [now] <+: w₀.readings)
  out : Out p w w₀

theorem safe_RegisterService (hI : Keeps p I) {inp : RegisterServiceInput}
    {k : Except Err Service → Proc Call Call.Ans α} (hw : w.txs p = none)
    (hinv : ∀ e, inp.parse = .error e → Safe p I Q (k (.error e)) w)
    (herr : ∀ w₀ svc e w₁ w', Registering p w inp w₀ svc → I w' → Out p w₀ w' → Grown w₁ w' →
      Follows p [] w₁.snap w'.snap → RegisterFailed p w₀ svc w₁ e → Safe p I Q (k (.error e)) w')
    (hok : ∀ w₀ svc w₁ tx, Registering p w inp w₀ svc → I w₁ → Grown w₀ w₁ → w₁.txs p = some tx →
      RegisterDone p w₀ svc w₁ tx → I ((w₁.commit p tx).endTx p) ∧
        Safe p I Q (k (.ok { svc with events := [] })) ((w₁.commit p tx).endTx p)) :
    Safe p I Q ((RegisterService inp).run >>= k) w := by
  rw [RegisterService_eq, M.run_bind_bind, M.run_ofExcept_bind]
  cases hp : inp.parse with
  | error e => exact hinv e hp
  | ok x =>
    simp only [M.run_bind_bind]
    refine safe_M_newID hI fun w₁ id ho₁ hI₁ hI₂ hg₂ => ?_
    refine safe_M_now hI fun w₃ now ho₃ hI₃ hI₄ hg₄ => ?_
    have hout : Out p w { w₃ with readings := w₃.readings ++ [now] } := by
      have h₁ : Out p w w₁ := (show Out p w w from ⟨hw, .refl .., .refl w⟩).others ho₁
      have h₂ : Out p w { w₁ with draws := w₁.draws ++ [(p, id)] } := ⟨h₁.tx, h₁.follows, hg₂⟩
      have h₃ := h₂.others ho₃
      exact ⟨h₃.tx, h₃.follows, hg₂.trans hg₄⟩
    have hreg : Registering p w inp { w₃ with readings := w₃.readings ++ [now] }
        (Register ⟨id⟩ x.1 x.2.1 inp.Description x.2.2.1 inp.Repository x.2.2.2 now) :=
      ⟨⟨x.1, x.2.1, x.2.2.1, x.2.2.2, id, now, hp, rfl, ⟨w₁.draws, ho₁.grown.draws, ho₃.grown.draws⟩,
        ⟨w₃.readings, (hg₂.trans ho₃.grown).readings, List.prefix_refl _⟩⟩, hout⟩
    exact safe_registerTx hI hout.tx (fun e w₅ w' => herr _ _ e w₅ w' hreg) fun w₅ tx => hok _ _ w₅ tx hreg

end

end Forge.Catalog
