import Forge.Catalog.NoLostUpdate
import Forge.Catalog.RegisterRace

/-!
# What every committed row satisfies

The rule that a service in production has an on-call reference is checked by two operations on two
different fields: a promotion looks at the ownership it has loaded, a change of ownership at the
lifecycle. What makes this safe is that an `UPDATE` writes all columns of one aggregate: even when it
overwrites a newer row, the lifecycle and the ownership it leaves were checked together (`Sound`).
-/

namespace Forge.Catalog

/-- The rules for a row of `catalog_services`. -/
structure RowOk (r : ServiceRow) : Prop where
  onCall : r.lifecycle = str "production" → r.on_call_ref ≠ []
  team : r.owning_team ≠ []
  tier : 1 ≤ r.tier ∧ r.tier ≤ 4
  label : dns1123Label.rmatch r.name = true
  length : 1 ≤ r.name.length ∧ r.name.length ≤ 63

/-- The row of an aggregate that has an on-call reference if it is in production. -/
def Sound (r : ServiceRow) : Prop :=
  ∃ s : Service, insertRow s = r ∧ (s.lifecycle = .production → s.ownership.hasOnCall = true)

def AllSound (t : Tables) : Prop := ∀ r ∈ t.services, Sound r

section
variable {r : ServiceRow} {s s' : Service} {t : Tables}

theorem Sound.stored (h : Sound r) : Stored r := by
  obtain ⟨s, hs, -⟩ := h
  exact ⟨s, hs⟩

theorem Sound.rowOk (h : Sound r) : RowOk r := by
  obtain ⟨s, rfl, hp⟩ := h
  have hname := s.name.nameOk
  unfold NameOk at hname
  refine ⟨fun hl => ?_, s.ownership.team_ne, ⟨s.tier.ge, s.tier.le⟩, ?_, ?_⟩
  · have hprod : s.lifecycle = .production := by
      have hl : s.lifecycle.text = Lifecycle.production.text := hl
      exact Except.ok.inj ((ParseLifecycle_text _).symm.trans ((congrArg ParseLifecycle hl).trans (ParseLifecycle_text _)))
    exact of_decide_eq_true (hp hprod)
  · show dns1123Label.rmatch s.name.v = true
    by_contra hm
    exact hname (.inr (.inr (Bool.eq_false_iff.2 hm)))
  · show 1 ≤ s.name.v.length ∧ s.name.v.length ≤ 63
    omega

/-- What the domain makes of an aggregate that was loaded from a sound row. -/
theorem Sound.apply [UuidLib] {m : Mutation} {now : Time} (h : Sound r) (hs : scanService (some r) = .ok s)
    (ha : m.apply now s = .ok s') : s'.lifecycle = .production → s'.ownership.hasOnCall = true := by
  rcases Mutation.apply_cases ha with rfl | ⟨e, hc⟩
  · obtain ⟨s₀, rfl, hp⟩ := h
    rw [scanService_insertRow] at hs
    cases hs
    exact hp
  · exact hc.onCall

/-- All columns of an `UPDATE` come from one aggregate. -/
theorem Sound.set (h : Sound r) (hs : s'.lifecycle = .production → s'.ownership.hasOnCall = true) :
    Sound (r.set (updateCols s')) := by
  obtain ⟨s, rfl, -⟩ := h
  exact ⟨{ s' with id := s.id, tenantID := s.tenantID, name := s.name, createdAt := s.createdAt }, rfl, hs⟩

end

/-! ### Runs of all commands -/

section
variable [UuidLib]

/-- The commands `cmds`, each a process of its own, over the tables `db`. -/
def catalogPool (db : Tables) (cmds : Pid → Option CatalogCommand) :
    Pool Pid Call Call.Ans (Except Err Service) World :=
  ⟨.init db, fun p => (cmds p).map (·.run.run)⟩

omit [UuidLib] in
/-- Every committed state is sound. -/
structure SoundInv (w : World) : Prop where
  locks : w.LocksOk
  db : AllSound w.db
  log : ∀ e ∈ w.log, AllSound e.before ∧ AllSound e.after

variable {p : Pid} {w w₀ : World} {tx : Tx}

omit [UuidLib] in
theorem SoundInv.keeps (p : Pid) : Keeps p SoundInv where
  locksOk _ h := h.locks
  loc _ _ h hl := ⟨hl.locksOk h.locks, hl.db ▸ h.db, hl.log ▸ h.log⟩

omit [UuidLib] in
theorem SoundInv.commit (h : SoundInv w) (htx : w.txs p = some tx) (hdb : AllSound (tx.view w.db)) :
    SoundInv ((w.commit p tx).endTx p) := by
  refine ⟨World.Effect.locksOk h.locks (.commit htx), hdb, fun e he => ?_⟩
  rcases List.mem_append.1 he with he | he
  · exact h.log e he
  · cases List.mem_singleton.1 he
    exact ⟨h.db, hdb⟩

theorem SoundInv.register (h : SoundInv w) (htx : w.txs p = some tx) {svc : Service} (hnew : svc.New)
    (hexp : svc.lifecycle = .experimental) (hd : RegisterDone p w₀ svc w tx) :
    SoundInv ((w.commit p tx).endTx p) := by
  obtain ⟨begun, u, v, ev, -, -, -, hview, -⟩ := hd.view hnew
  refine h.commit htx fun r hr => ?_
  rw [hview] at hr
  rcases List.mem_append.1 hr with hr | hr
  · exact h.db r hr
  · refine ⟨svc, (List.mem_singleton.1 hr).symm, fun hp => ?_⟩
    rw [hexp] at hp
    cases hp

theorem SoundInv.mutate (h : SoundInv w) (htx : w.txs p = some tx) {id : UUID} {ev : Int} {m : Mutation}
    {r : ServiceRow} {s s' : Service} {now : Time} (hd : MutateDone p w₀ id ev m w tx r s now s') :
    SoundInv ((w.commit p tx).endTx p) := by
  obtain ⟨S, hS, hsel⟩ := hd.load
  have hr : Sound r := hS.past (fun e he => (h.log e he).1) h.db r (Tables.mem_of_service hsel)
  refine h.commit htx fun r' hr' => ?_
  rw [(hd.mutateTx hr.stored).services_view] at hr'
  obtain ⟨r₀, hr₀, rfl⟩ := List.mem_map.1 hr'
  split
  · exact (h.db r₀ hr₀).set (hr.apply hd.loads hd.applies)
  · exact h.db r₀ hr₀

theorem SoundInv.safe (c : CatalogCommand) (hw : w.txs p = none) :
    Safe p SoundInv (fun _ _ => True) c.run.run w := by
  rw [← Proc.bind_ret (ExceptT.run _)]
  cases c with
  | register inp =>
    refine safe_RegisterService (keeps p) hw (fun _ _ _ _ _ => trivial)
      (fun _ _ _ _ _ _ _ _ _ _ _ _ _ _ => trivial) fun w₀ svc w₁ tx hreg hI _ htx hd => ?_
    obtain ⟨tenantID, name, tier, ownership, id, now, -, rfl, -⟩ := hreg.svc_eq
    exact ⟨hI.register htx Service.new_Register rfl hd, fun _ _ _ => trivial⟩
  | mutation c =>
    rw [show (CatalogCommand.mutation c).run = c.run from rfl, c.run_eq, M.run_bind_bind, M.run_ofExcept_bind]
    cases hparse : c.parse with
    | error e => exact fun _ _ _ => trivial
    | ok x =>
      exact safe_mutate (keeps p) hw (fun _ _ _ _ _ _ _ _ _ _ _ => trivial)
        fun w₁ tx r s now s' hI _ htx hd => ⟨hI.mutate htx hd, fun _ _ _ => trivial⟩

theorem SoundInv.run {db : Tables} {cmds : Pid → Option CatalogCommand} (h : AllSound db)
    {ms : List (Move Pid Choice)} {s : Pool Pid Call Call.Ans (Except Err Service) World}
    (hs : (catalogPool db cmds).run World.machine ms = some s) : SoundInv s.world := by
  refine (safe_run (Q := fun _ _ _ => True) keeps ⟨World.init_locksOk db, h, by simp [catalogPool, World.init]⟩
    (fun p prog hp => ?_) hs).1
  obtain ⟨c, -, rfl⟩ := Option.map_eq_some_iff.1 hp
  exact safe c rfl

/-- In every run of any commands, with crashes and failures anywhere, every committed state has only
rows that satisfy the rules. -/
theorem rows_ok {db : Tables} {cmds : Pid → Option CatalogCommand} (h : AllSound db)
    {ms : List (Move Pid Choice)} {s : Pool Pid Call Call.Ans (Except Err Service) World}
    (hs : (catalogPool db cmds).run World.machine ms = some s) :
    (∀ r ∈ s.world.db.services, RowOk r) ∧
      ∀ e ∈ s.world.log, ∀ r ∈ e.after.services, RowOk r := by
  have hI := SoundInv.run h hs
  exact ⟨fun r hr => (hI.db r hr).rowOk, fun e he r hr => ((hI.log e he).2 r hr).rowOk⟩

end

/-- A promotion, and a change of ownership that drops the on-call reference and expects version 2. -/
def skewedCommands : Pid → Option CatalogCommand
  | 0 => some (.mutation (.changeLifecycle ⟨UUID.String ⟨1⟩, "production", 0⟩))
  | 1 => some (.mutation (.changeOwnership ⟨UUID.String ⟨1⟩, "ops", [], 2⟩))
  | _ => none

/-- The tables with `Service.sample` as a team with an on-call reference owns it. -/
def onCallTables : Tables :=
  ⟨[{ insertRow Service.sample with on_call_ref := "pager" }],
    [⟨⟨10⟩, ⟨1⟩, "core", "pager", 0, none⟩], [], []⟩

attribute [local instance] UuidLib.canonical

/-- Both load version 1, and the change of ownership then overwrites the promotion. -/
theorem rows_ok_sample : AllSound onCallTables ∧ ∃ s, (catalogPool onCallTables skewedCommands).run World.machine
      (loadMoves 0 ++ loadMoves 1 ++ storeMoves 0 ⟨20⟩ ⟨21⟩ ++ storeMoves 1 ⟨30⟩ ⟨31⟩) = some s ∧
    (s.world.db.services.map fun r => (r.lifecycle, r.on_call_ref, r.version)) = [(str "experimental", [], 2)] ∧
    ∀ r ∈ s.world.db.services, RowOk r := by
  have hsound : AllSound onCallTables := by
    intro r hr
    cases List.mem_singleton.1 hr
    refine ⟨{ Service.sample with ownership := ⟨"core", "pager", by decide, by decide, by decide⟩ }, rfl,
      fun h => ?_⟩
    cases h
  have h : ((catalogPool onCallTables skewedCommands).run World.machine
      (loadMoves 0 ++ loadMoves 1 ++ storeMoves 0 ⟨20⟩ ⟨21⟩ ++ storeMoves 1 ⟨30⟩ ⟨31⟩)).map (fun s =>
        s.world.db.services.map fun r => (r.lifecycle, r.on_call_ref, r.version)) =
      some [(str "experimental", [], 2)] := by decide +kernel
  obtain ⟨s, hs, hrows⟩ := Option.map_eq_some_iff.1 h
  exact ⟨hsound, s, hs, hrows, (rows_ok hsound hs).1⟩

end Forge.Catalog
