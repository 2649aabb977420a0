import Forge.Catalog.CommandTx

/-!
# Concurrent mutations and lost updates

Any number of mutating commands run over one database. `NoLostUpdate c e` says that the commit `e` of
the command `c` replaced exactly the row the command had loaded by what the domain made of it.

`UPDATE` compares the stored version with the client's `ExpectedVersion` when it is positive, but
writes the columns and the version made from the row loaded before. A client that names a version ahead
of the one its command loads therefore overwrites a commit that raised the stored version to that
number in between (`lost_update`). This is the only way: in a run no command of which is ahead of what
it loaded, every commit replaces the row it had loaded (`noLostUpdate_iff`).
-/

namespace Forge.Catalog

/-! ### Rows only get newer -/

/-- Every row of `t` is still there in `t'`, unchanged or with a larger version. -/
def Newer (t t' : Tables) : Prop :=
  ∀ id r, t.service id = some r → ∃ r', t'.service id = some r' ∧ (r.version < r'.version ∨ r' = r)

theorem Newer.trans {t t' t'' : Tables} (h : Newer t t') (h' : Newer t' t'') : Newer t t'' := by
  intro id r hr
  obtain ⟨r', hr', hv⟩ := h id r hr
  obtain ⟨r'', hr'', hv'⟩ := h' id r' hr'
  refine ⟨r'', hr'', ?_⟩
  rcases hv with hv | rfl <;> rcases hv' with hv' | rfl
  · exact .inl (hv.trans hv')
  · exact .inl hv
  · exact .inl hv'
  · exact .inr rfl

theorem Newer.chain {t t' : Tables} {l : List Commit} (h : Chain t l t')
    (hl : ∀ e ∈ l, Newer e.before e.after) : Newer t t' :=
  h.rel (fun _ _ r hr => ⟨r, hr, .inr rfl⟩) (fun _ _ _ => .trans) hl

/-! ### Commits of mutating commands -/

/-- The command `c` of the commit `e` did not name a version ahead of the one it loaded. -/
def NotAhead (c : Command) (e : Commit) : Prop :=
  ∃ r, e.tx.loaded = [r] ∧ (c.ExpectedVersion ≤ 0 ∨ c.ExpectedVersion ≤ r.version)

section
variable [UuidLib]

/-- The commit `e` of the command `c` replaced the row the command had loaded: the row it found is the
one loaded, the row it left is the domain operation applied to it, and no other row changed. The
version is raised by one if the operation changed the aggregate, and else the row is the same. -/
def NoLostUpdate (c : Command) (e : Commit) : Prop :=
  ∃ id m r s now s', c.parse = .ok (id, m) ∧ e.tx.loaded = [r] ∧ e.before.service id.v = some r ∧
    scanService (some r) = .ok s ∧ m.apply now s = .ok s' ∧ e.after.service id.v = some (insertRow s') ∧
    (∀ id' ≠ id.v, e.after.service id' = e.before.service id') ∧
    (s' = s → insertRow s' = r) ∧ (s' ≠ s → (insertRow s').version = r.version + 1)

theorem NoLostUpdate.newer {c : Command} {e : Commit} (h : NoLostUpdate c e) : Newer e.before e.after := by
  obtain ⟨id, m, r, s, now, s', -, -, hb, -, -, ha, ho, hsame, hdiff⟩ := h
  intro id' r' hr'
  by_cases hid : id' = id.v
  · subst hid
    cases hb.symm.trans hr'
    refine ⟨_, ha, ?_⟩
    by_cases hs : s' = s
    · exact .inr (hsame hs)
    · exact .inl (by rw [hdiff hs]; omega)
  · exact ⟨r', (ho id' hid).trans hr', .inr rfl⟩

/-- What is true of every commit of a mutating command. -/
structure MutateCommit (c : Command) (e : Commit) (id : ServiceID) (m : Mutation) (r cur : ServiceRow)
    (s : Service) (now : Time) (s' : Service) : Prop where
  parse : c.parse = .ok (id, m)
  loaded : e.tx.loaded = [r]
  stored : insertRow s = r
  loads : scanService (some r) = .ok s
  applies : m.apply now s = .ok s'
  current : e.before.service id.v = some cur
  version : cur.version = expectedVersionOr c.ExpectedVersion r.version
  after : e.after.service id.v = some (cur.set (updateCols s'))
  others : ∀ id' ≠ id.v, e.after.service id' = e.before.service id'

namespace MutateCommit

variable {c : Command} {e : Commit} {id : ServiceID} {m : Mutation} {r cur : ServiceRow} {s s' : Service}
  {now : Time} (h : MutateCommit c e id m r cur s now s')
include h

theorem noLostUpdate (hcur : cur = r) : NoLostUpdate c e := by
  subst hcur
  refine ⟨id, m, cur, s, now, s', h.parse, h.loaded, h.current, h.loads, h.applies, ?_, h.others, ?_⟩
  · rw [h.after, ← h.stored]
    rcases Mutation.apply_cases h.applies with rfl | ⟨e, hc⟩
    · rw [insertRow_set]
    · rw [hc.set]
  · refine ⟨fun hs => hs ▸ h.stored, fun hs => ?_⟩
    rcases Mutation.apply_cases h.applies with rfl | ⟨e, hc⟩
    · exact absurd rfl hs
    · rw [← h.stored]
      exact hc.version

/-- A command that replaced what it had loaded was not ahead of it. -/
theorem notAhead (hn : NoLostUpdate c e) : NotAhead c e := by
  obtain ⟨id', m', r', s₁, now', s₁', hp, hl, hb, -⟩ := hn
  cases h.parse.symm.trans hp
  cases h.loaded.symm.trans hl
  cases h.current.symm.trans hb
  have hv := h.version
  unfold expectedVersionOr at hv
  refine ⟨r, h.loaded, ?_⟩
  split at hv <;> omega

end MutateCommit

theorem MutateDone.mutateCommit {c : Command} {id : ServiceID} {m : Mutation} (hparse : c.parse = .ok (id, m))
    {p : Pid} {w₀ w : World} {tx : Tx} {r : ServiceRow} {s s' : Service} {now : Time}
    (h : MutateDone p w₀ id.v c.ExpectedVersion m w tx r s now s') (hr : Stored r) :
    ∃ cur, MutateCommit c ⟨p, tx, w.db, tx.view w.db⟩ id m r cur s now s' := by
  have hm := h.mutateTx hr
  obtain ⟨cur, hcur, hver⟩ := hm.current
  have hrow := (hr.of_scan h.loads).1
  have hver' : cur.version = expectedVersionOr c.ExpectedVersion r.version := by
    rw [hver, ← hrow, insertRow]
  exact ⟨cur, hparse, hm.loaded, hrow, h.loads, h.applies, hcur, hver', by rw [hm.service_view, hcur]; rfl,
    fun id' hid => hm.service_view_ne w.db hid⟩

/-! ### Runs -/

/-- The commands `cmds`, each a process of its own, over the tables `db`. -/
def commandPool (db : Tables) (cmds : Pid → Option Command) :
    Pool Pid Call Call.Ans (Except Err Service) World :=
  ⟨.init db, fun p => (cmds p).map (·.run.run)⟩

/-- What holds in every world the commands `cmds` reach from the tables `db`. -/
structure CommandInv (db : Tables) (cmds : Pid → Option Command) (w : World) : Prop where
  locks : w.LocksOk
  chain : Chain db w.log w.db
  stored : AllStored w.db
  commits : ∀ e ∈ w.log, AllStored e.before ∧ ∃ c, cmds e.pid = some c ∧
    ∃ id m r cur s now s', MutateCommit c e id m r cur s now s'
  good : (∀ e ∈ w.log, ∃ c, cmds e.pid = some c ∧ NotAhead c e) →
    ∀ e ∈ w.log, ∃ c, cmds e.pid = some c ∧ NoLostUpdate c e

variable {db : Tables} {cmds : Pid → Option Command} {p : Pid} {w : World}

theorem CommandInv.keeps (p : Pid) : Keeps p (CommandInv db cmds) where
  locksOk _ h := h.locks
  loc w w' h hl := by
    have hs : w'.snap = w.snap := hl.snap
    have hdb : w'.db = w.db := congrArg Snap.db hs
    have hlog : w'.log = w.log := congrArg Snap.log hs
    exact ⟨hl.locksOk h.locks, hdb ▸ hlog ▸ h.chain, hdb ▸ h.stored, hlog ▸ h.commits, hlog ▸ h.good⟩

/-- The row a command replaces is the one it loaded, unless it named a version ahead of that. -/
theorem current_eq {S : Snap} {id : UUID} {r cur : ServiceRow} {ev : Int}
    (hS : Follows p [] S w.snap) (hr : S.db.service id = some r) (hcur : w.db.service id = some cur)
    (hv : cur.version = expectedVersionOr ev r.version) (hev : ev ≤ 0 ∨ ev ≤ r.version)
    (hgood : ∀ e ∈ w.log, ∃ c, cmds e.pid = some c ∧ NoLostUpdate c e) : cur = r := by
  obtain ⟨l, hl, hc, -⟩ := hS.log
  have hnew : Newer S.db w.db := .chain hc fun e he => by
    obtain ⟨c, -, hn⟩ := hgood e (show e ∈ w.snap.log from hl ▸ List.mem_append_right _ he)
    exact hn.newer
  obtain ⟨cur', hcur', hlt⟩ := hnew id r hr
  cases hcur.symm.trans hcur'
  rcases hlt with hlt | rfl
  · unfold expectedVersionOr at hv
    split at hv <;> omega
  · rfl

/-- The commit of a mutation keeps the invariant. -/
theorem CommandInv.commit (h : CommandInv db cmds w) {c : Command} (hc : cmds p = some c) {w₀ : World}
    {id : ServiceID} {m : Mutation} (hparse : c.parse = .ok (id, m)) {tx : Tx} (htx : w.txs p = some tx)
    {r : ServiceRow} {s s' : Service} {now : Time}
    (hd : MutateDone p w₀ id.v c.ExpectedVersion m w tx r s now s') :
    CommandInv db cmds ((w.commit p tx).endTx p) := by
  obtain ⟨S, hS, hsel⟩ := hd.load
  have hr : Stored r := hS.past (fun e he => (h.commits e he).1) h.stored _ _ hsel
  have hm := hd.mutateTx hr
  obtain ⟨cur, hmc⟩ := MutateDone.mutateCommit hparse hd hr
  refine ⟨World.Effect.locksOk h.locks (.commit htx), h.chain.append ⟨rfl, rfl⟩, ?_, ?_, fun hna => ?_⟩
  · intro id' r' hr'
    by_cases hid : id' = id.v
    · subst hid
      cases hmc.after.symm.trans hr'
      exact (h.stored _ _ hmc.current).set s'
    · exact h.stored _ _ ((hm.service_view_ne w.db hid).symm.trans hr')
  · intro e he
    rcases List.mem_append.1 he with he | he
    · exact h.commits e he
    · cases List.mem_singleton.1 he
      exact ⟨h.stored, c, hc, id, m, r, cur, s, now, s', hmc⟩
  · have hgood := h.good fun e he => hna e (List.mem_append_left _ he)
    intro e he
    rcases List.mem_append.1 he with he' | he'
    · exact hgood e he'
    · obtain ⟨c', hc', r', hl', hev⟩ := hna e he
      cases List.mem_singleton.1 he'
      cases hc.symm.trans hc'
      cases hm.loaded.symm.trans hl'
      exact ⟨c, hc, hmc.noLostUpdate (current_eq hS hsel hmc.current hmc.version hev hgood)⟩

theorem CommandInv.safe {c : Command} (hc : cmds p = some c) (hw : w.txs p = none) :
    Safe p (CommandInv db cmds) (fun _ _ => True) c.run.run w := by
  rw [c.run_eq, ← Proc.bind_ret (ExceptT.run _), M.run_bind_bind, M.run_ofExcept_bind]
  cases hparse : c.parse with
  | error e => exact fun _ _ _ => trivial
  | ok x =>
    exact safe_mutate (keeps p) hw (fun e w₁ w' _ _ _ _ _ _ _ _ => trivial)
      fun w₁ tx r s now s' hI hg htx hd => ⟨hI.commit hc hparse htx hd, fun _ _ _ => trivial⟩

theorem CommandInv.init (h : AllStored db) : CommandInv db cmds (.init db) :=
  ⟨World.init_locksOk db, rfl, h, by simp [World.init], by simp [World.init]⟩

theorem CommandInv.run (h : AllStored db) {ms : List (Move Pid Choice)}
    {s : Pool Pid Call Call.Ans (Except Err Service) World}
    (hs : (commandPool db cmds).run World.machine ms = some s) : CommandInv db cmds s.world := by
  refine (safe_run (Q := fun _ _ _ => True) keeps (init h) (fun p prog hp => ?_) hs).1
  simp only [commandPool, Option.map_eq_some_iff] at hp
  obtain ⟨c, hc, rfl⟩ := hp
  exact safe hc rfl

/-- In every run of mutating commands, with crashes and failures anywhere: the commits follow one
another without a gap and each of them replaced exactly the row its command had loaded, if and only if
no command that committed had named a version ahead of the one it loaded. -/
theorem noLostUpdate_iff (h : AllStored db) {ms : List (Move Pid Choice)}
    {s : Pool Pid Call Call.Ans (Except Err Service) World}
    (hs : (commandPool db cmds).run World.machine ms = some s) :
    (Chain db s.world.log s.world.db ∧
      ∀ e ∈ s.world.log, ∃ c, cmds e.pid = some c ∧ NoLostUpdate c e) ↔
      ∀ e ∈ s.world.log, ∃ c, cmds e.pid = some c ∧ NotAhead c e := by
  have hinv := CommandInv.run h hs
  refine ⟨fun ⟨_, hn⟩ e he => ?_, fun hna => ⟨hinv.chain, hinv.good hna⟩⟩
  obtain ⟨c, hc, hn⟩ := hn e he
  obtain ⟨-, c', hc', id, m, r, cur, s, now, s', hmc⟩ := hinv.commits e he
  cases hc.symm.trans hc'
  exact ⟨c, hc, hmc.notAhead hn⟩

end

/-! ### Two clients and one service -/

/-- The versions of the row of `id` that a commit loaded, found and left. -/
structure CommitVersions where
  pid : Pid
  loaded : List Int
  found : Option Int
  left : Option Int
deriving DecidableEq

def versionsOf (id : UUID) (e : Commit) : CommitVersions :=
  ⟨e.pid, e.tx.loaded.map (·.version), (e.before.service id).map (·.version), (e.after.service id).map (·.version)⟩

/-- One client deprecates the service, expecting version 2; the other hands it to a new team. -/
def racingCommands : Pid → Option Command
  | 0 => some (.changeLifecycle ⟨UUID.String ⟨1⟩, str "deprecated", 2⟩)
  | 1 => some (.changeOwnership ⟨UUID.String ⟨1⟩, str "ops", str "pager", 0⟩)
  | _ => none

/-- The calls of a mutation up to its clock reading. -/
def loadMoves (p : Pid) : List (Move Pid Choice) := [.call p (.time 0), .call p .ok, .call p (.time 5000)]

/-- The calls of a mutation from its `UPDATE` on. -/
def storeMoves (p : Pid) (u v : UUID) : List (Move Pid Choice) :=
  [.call p .ok, .call p .ok, .call p (.uuid u), .call p .ok, .call p (.uuid v), .call p .ok, .call p .ok]

attribute [local instance] UuidLib.canonical

theorem noLostUpdate_iff_serial :
    AllStored sampleTables ∧ ∃ s, (commandPool sampleTables racingCommands).run World.machine
        (loadMoves 1 ++ storeMoves 1 ⟨20⟩ ⟨21⟩ ++ loadMoves 0 ++ storeMoves 0 ⟨30⟩ ⟨31⟩) = some s ∧
      s.world.log.map (versionsOf ⟨1⟩) = [⟨1, [1], some 1, some 2⟩, ⟨0, [2], some 2, some 3⟩] ∧
      ∀ e ∈ s.world.log, ∃ c, racingCommands e.pid = some c ∧ NoLostUpdate c e := by
  have h : ((commandPool sampleTables racingCommands).run World.machine
      (loadMoves 1 ++ storeMoves 1 ⟨20⟩ ⟨21⟩ ++ loadMoves 0 ++ storeMoves 0 ⟨30⟩ ⟨31⟩)).map
        (fun s => s.world.log.map (versionsOf ⟨1⟩)) =
      some [⟨1, [1], some 1, some 2⟩, ⟨0, [2], some 2, some 3⟩] := by decide +kernel
  obtain ⟨s, hs, hlog⟩ := Option.map_eq_some_iff.1 h
  refine ⟨allStored_sampleTables, s, hs, hlog,
    ((noLostUpdate_iff allStored_sampleTables hs).2 fun e he => ?_).2⟩
  have hm : versionsOf ⟨1⟩ e ∈ [⟨1, [1], some 1, some 2⟩, ⟨0, [2], some 2, some 3⟩] :=
    hlog ▸ List.mem_map_of_mem he
  simp only [versionsOf, List.mem_cons, CommitVersions.mk.injEq, List.not_mem_nil, or_false,
    List.map_eq_singleton_iff] at hm
  rcases hm with ⟨hp, ⟨r, hr, hv⟩, -⟩ | ⟨hp, ⟨r, hr, hv⟩, -⟩ <;> rw [hp]
  · exact ⟨_, rfl, r, hr, .inl (by decide)⟩
  · exact ⟨_, rfl, r, hr, .inr (by rw [hv]; decide)⟩

/-- The first client loads version 1, the second one commits version 2, and the first one then finds
the version it named and writes version 2 again, over the change of the second. -/
theorem lost_update : AllStored sampleTables ∧ ∃ s, (commandPool sampleTables racingCommands).run
      World.machine (loadMoves 0 ++ loadMoves 1 ++ storeMoves 1 ⟨20⟩ ⟨21⟩ ++ storeMoves 0 ⟨30⟩ ⟨31⟩) =
        some s ∧
    s.world.log.map (versionsOf ⟨1⟩) = [⟨1, [1], some 1, some 2⟩, ⟨0, [1], some 2, some 2⟩] ∧
    ¬ ∀ e ∈ s.world.log, ∃ c, racingCommands e.pid = some c ∧ NoLostUpdate c e := by
  have h : ((commandPool sampleTables racingCommands).run World.machine
      (loadMoves 0 ++ loadMoves 1 ++ storeMoves 1 ⟨20⟩ ⟨21⟩ ++ storeMoves 0 ⟨30⟩ ⟨31⟩)).map
        (fun s => s.world.log.map (versionsOf ⟨1⟩)) =
      some [⟨1, [1], some 1, some 2⟩, ⟨0, [1], some 2, some 2⟩] := by decide +kernel
  obtain ⟨s, hs, hlog⟩ := Option.map_eq_some_iff.1 h
  refine ⟨allStored_sampleTables, s, hs, hlog, fun hn => ?_⟩
  have hmem : ⟨0, [1], some 2, some 2⟩ ∈ s.world.log.map (versionsOf ⟨1⟩) := by
    rw [hlog]; simp
  obtain ⟨e, he, hlast⟩ := List.mem_map.1 hmem
  simp only [versionsOf, CommitVersions.mk.injEq, List.map_eq_singleton_iff] at hlast
  obtain ⟨hpid, ⟨r, hload, hv⟩, hbefore, -⟩ := hlast
  obtain ⟨c, hc, id, m, r', s₀, now, s', hparse, hloaded, hb, -⟩ := hn e he
  rw [hpid] at hc
  cases hc
  have hid : (Command.changeLifecycle ⟨UUID.String ⟨1⟩, str "deprecated", 2⟩).parse =
    .ok (⟨⟨1⟩⟩, .changeLifecycle .deprecated) := by decide +kernel
  cases hparse.symm.trans hid
  cases hload.symm.trans hloaded
  rw [hb, Option.map_some, Option.some.injEq, hv] at hbefore
  cases hbefore

end Forge.Catalog
