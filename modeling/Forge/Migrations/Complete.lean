import Forge.Migrations.Once

/-!
# What a successful `Migrate` says

`Migrate` skips a file when its version is recorded. Names such as `1_a.up.sql` and `01_b.up.sql` have the
same version, so the second of two such files is never committed: the run that applies the first fails at
the second, and every later run returns without an error. Where the versions are distinct, a run that
returned without an error has found all files committed or has committed them.
-/

namespace Forge.Migrations

/-- In every run of any number of processes, one after another or interleaved, failing or crashing
anywhere: when a process has returned without an error, every file is committed exactly if the versions of
the files are distinct. Each process applies its files in ascending order. -/
theorem migrated_iff [SortLib] {fsys : FS} {ps : Pid → Bool} {ms : List (Move Pid Choice)}
    {s : Pool Pid Op Op.Ans (Except Err Unit) Database}
    (hrun : (migratePool ps).run (Database.machine fsys) ms = some s) :
    (∀ p, s.result? p = some (.ok ()) →
      ((∀ n ∈ fsys.upFiles, n ∈ s.world.committed.map (·.2)) ↔ (fsys.upFiles.map version).Nodup)) ∧
    ∀ p, (s.world.committedBy p).Pairwise fun n n' => version n < version n' := by
  obtain ⟨hI, hcomplete⟩ := migrate_run hrun
  refine ⟨fun p hp => ⟨fun hall => ?_, fun hdistinct n hn => ?_⟩, hI.ascending⟩
  · refine (fsys.nodup.filter _).map_on fun n hn n' hn' hv => ?_
    exact List.inj_on_of_nodup_map hI.committed_nodup (hall n hn) (hall n' hn') hv
  · have hr := hcomplete p _ hp rfl n hn
    rw [hI.recorded] at hr
    obtain ⟨x, hx, hv⟩ := List.mem_map.1 hr
    rw [← List.inj_on_of_nodup_map hdistinct (hI.up x hx) hn hv]
    exact List.mem_map_of_mem hx

section
attribute [local instance] SortLib.insertion

def twoFiles : FS := ⟨[("0001_catalog.up.sql", some "CREATE"), ("0002_tenant.up.sql", some "ALTER")], by decide⟩

/-- A first process crashes in its second transaction, and a second one does the rest. -/
def restarted : List (Move Pid Choice) :=
  [.call 0 .ok, .call 0 (.rows []), .call 0 .ok, .call 0 .ok, .call 0 .ok, .call 0 .ok, .call 0 .ok, .call 0 .ok,
    .call 0 .ok, .call 0 .ok, .call 0 .ok, .crash 0,
    .call 1 .ok, .call 1 (.rows [1]), .call 1 .ok, .call 1 .ok, .call 1 .ok, .call 1 .ok, .call 1 .ok, .call 1 .ok]

theorem migrated_sample :
    ∃ s, (migratePool (· < 2)).run (Database.machine twoFiles) restarted = some s ∧
      s.result? 1 = some (.ok ()) ∧ ∀ n ∈ twoFiles.upFiles, n ∈ s.world.committed.map (·.2) := by
  have h : ((migratePool (· < 2)).run (Database.machine twoFiles) restarted).map (fun s => s.result? 1) =
      some (some (.ok ())) := by decide +kernel
  obtain ⟨s, hs, hres⟩ := Option.map_eq_some_iff.1 h
  exact ⟨s, hs, hres, ((migrated_iff hs).1 1 hres).2 (by decide +kernel)⟩

def sameVersion : FS := ⟨[("01_b.up.sql", some "B"), ("1_a.up.sql", some "A")], by decide⟩

/-- A first run commits `01_b.up.sql` and fails at `1_a.up.sql`; a second run returns without an error. -/
def skipped : List (Move Pid Choice) :=
  [.call 0 .ok, .call 0 (.rows []), .call 0 .ok, .call 0 .ok, .call 0 .ok, .call 0 .ok, .call 0 .ok, .call 0 .ok,
    .call 0 .ok, .call 0 .ok, .call 0 .ok, .call 0 .ok, .call 0 .ok,
    .call 1 .ok, .call 1 (.rows [1]), .call 1 .ok]

theorem migration_skipped :
    ∃ s, (migratePool (· < 2)).run (Database.machine sameVersion) skipped = some s ∧
      s.result? 0 = some (.error (.pg .uniqueViolation)) ∧ s.result? 1 = some (.ok ()) ∧
      (∀ n ∈ sameVersion.upFiles, (parseVersion n).isOk) ∧
      str "1_a.up.sql" ∈ sameVersion.upFiles ∧ str "1_a.up.sql" ∉ s.world.committed.map (·.2) := by
  have h : ((migratePool (· < 2)).run (Database.machine sameVersion) skipped).map
      (fun s => (s.result? 0, s.result? 1, s.world.committed)) =
      some (some (.error (.pg .uniqueViolation)), some (.ok ()), [(0, str "01_b.up.sql")]) := by decide +kernel
  obtain ⟨s, hs, hobs⟩ := Option.map_eq_some_iff.1 h
  simp only [Prod.mk.injEq] at hobs
  obtain ⟨h₀, h₁, hcommitted⟩ := hobs
  refine ⟨s, hs, h₀, h₁, by decide +kernel, by decide +kernel, ?_⟩
  rw [hcommitted]
  decide +kernel

end

end Forge.Migrations
