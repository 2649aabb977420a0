import Forge.Migrations.Migrate

/-!
# Concurrent migrations

`Inv` ties `schema_migrations` to the files whose text was committed. No lock is taken between the read of
the applied versions and the migrations, so several processes may apply the same file; but the row with its
version is inserted in the same transaction, and two rows with one version are never both inserted. What a
process relies on is that the others leave its transaction alone and that no recorded version disappears
(`Unmoved`), so every process keeps the invariant however stale or incomplete its read was.
-/

namespace Forge.Migrations

/-- The version in the name of a file. -/
def version (name : GoString) : Int := (parseVersion name).toOption.getD 0

theorem version_eq {name : GoString} {v : Int} (h : parseVersion name = .ok v) : version name = v := by
  unfold version
  rw [h]
  rfl

/-! ### What a call does -/

namespace Database

variable {fsys : FS} {p q : Pid} {c : Choice} {w w' : Database}

theorem call_ensureTable {a : Op.ensureTable.Ans} (h : call p fsys .ensureTable c w = some (a, w')) :
    w' = w := by
  rcases c with _ | _ | _ | _ | _ <;> cases h
  · rfl
  · rfl

theorem call_selectVersions {a : Op.selectVersions.Ans} (h : call p fsys .selectVersions c w = some (a, w')) :
    w' = w ∧ ∀ vs, a = .ok (.ok vs) → vs ⊆ w.recorded := by
  rcases c with _ | vs | _ | _ | _
  case rows =>
    simp only [call] at h
    split at h
    · rename_i hvs
      cases h
      refine ⟨rfl, fun vs' heq => ?_⟩
      cases heq
      exact hvs
    · cases h
  all_goals cases h
  all_goals exact ⟨rfl, fun vs heq => by cases heq⟩

theorem call_readDir {a : Op.readDir.Ans} (h : call p fsys .readDir c w = some (a, w')) :
    w' = w ∧ ∀ names, a = .ok names → names = fsys.entries.map (·.1) := by
  rcases c with _ | _ | _ | _ | _ <;> cases h
  · exact ⟨rfl, fun names heq => (Except.ok.inj heq).symm⟩
  · exact ⟨rfl, fun names heq => by cases heq⟩

theorem call_readFile {name : GoString} {a : (Op.readFile name).Ans}
    (h : call p fsys (.readFile name) c w = some (a, w')) : w' = w := by
  rcases c with _ | _ | _ | _ | _
  case ok =>
    simp only [call] at h
    split at h <;> cases h
    rfl
  all_goals cases h
  rfl

theorem call_begin {a : Op.begin.Ans} (h : call p fsys .begin c w = some (a, w')) :
    (a = .ok () ∧ w.txs p = none ∧ w' = w.put p []) ∨ (∃ e, a = .error e) ∧ w' = w := by
  rcases c with _ | _ | _ | e | _
  case ok =>
    simp only [call] at h
    split at h <;> cases h
    exact .inl ⟨rfl, ‹_›, rfl⟩
  all_goals cases h
  exact .inr ⟨⟨e, rfl⟩, rfl⟩

theorem call_execFile {name text : GoString} {a : (Op.execFile name text).Ans}
    (h : call p fsys (.execFile name text) c w = some (a, w')) :
    (∃ files, a = .ok () ∧ w.txs p = some files ∧ w' = w.put p (files ++ [name])) ∨
      (∃ e, a = .error e) ∧ w' = w := by
  rcases c with _ | _ | _ | e | _
  case ok =>
    simp only [call] at h
    split at h <;> cases h
    exact .inl ⟨_, rfl, ‹_›, rfl⟩
  all_goals cases h
  exact .inr ⟨⟨e, rfl⟩, rfl⟩

theorem call_insertVersion {v : Int} {a : (Op.insertVersion v).Ans}
    (h : call p fsys (.insertVersion v) c w = some (a, w')) :
    (a = .ok () ∧ v ∉ w.recorded ∧ v ∉ w.inserted.map (·.2) ∧
      w' = { w with inserted := w.inserted ++ [(p, v)] }) ∨ (∃ e, a = .error e) ∧ w' = w := by
  rcases c with _ | _ | _ | e | _
  case ok =>
    simp only [call] at h
    split at h
    · cases h
      exact .inr ⟨⟨_, rfl⟩, rfl⟩
    · split at h <;> cases h
      exact .inl ⟨rfl, ‹_›, ‹_›, rfl⟩
  all_goals cases h
  exact .inr ⟨⟨e, rfl⟩, rfl⟩

theorem call_commit {a : Op.commit.Ans} (h : call p fsys .commit c w = some (a, w')) :
    (∃ files, w.txs p = some files ∧ w' = w.commit p files) ∨ (∃ e, a = .error e) ∧ w' = w.endTx p := by
  rcases c with _ | _ | _ | e | e
  case fails =>
    cases h
    exact .inr ⟨⟨e, rfl⟩, rfl⟩
  case ok | lost =>
    simp only [call] at h
    split at h <;> cases h
    exact .inl ⟨_, ‹_›, rfl⟩
  all_goals cases h

theorem call_rollback {a : Op.rollback.Ans} (h : call p fsys .rollback c w = some (a, w')) :
    w' = w.endTx p := by
  rcases c with _ | _ | _ | _ | _ <;> cases h
  · rfl
  · rfl

/-- A call touches what belongs to its process, and adds to what is recorded. -/
theorem call_cases {op : Op} {a : op.Ans} (h : call p fsys op c w = some (a, w')) :
    w' = w ∨ (∃ files, w' = w.put p files) ∨ (∃ v, w' = { w with inserted := w.inserted ++ [(p, v)] }) ∨
    (∃ files, w' = w.commit p files) ∨ w' = w.endTx p := by
  cases op with
  | ensureTable => exact .inl (call_ensureTable h)
  | selectVersions => exact .inl (call_selectVersions h).1
  | readDir => exact .inl (call_readDir h).1
  | readFile name => exact .inl (call_readFile h)
  | begin =>
    rcases call_begin h with ⟨-, -, hw⟩ | ⟨-, hw⟩
    · exact .inr (.inl ⟨_, hw⟩)
    · exact .inl hw
  | execFile name text =>
    rcases call_execFile h with ⟨files, -, -, hw⟩ | ⟨-, hw⟩
    · exact .inr (.inl ⟨_, hw⟩)
    · exact .inl hw
  | insertVersion v =>
    rcases call_insertVersion h with ⟨-, -, -, hw⟩ | ⟨-, hw⟩
    · exact .inr (.inr (.inl ⟨v, hw⟩))
    · exact .inl hw
  | commit =>
    rcases call_commit h with ⟨files, -, hw⟩ | ⟨-, hw⟩
    · exact .inr (.inr (.inr (.inl ⟨files, hw⟩)))
    · exact .inr (.inr (.inr (.inr hw)))
  | rollback => exact .inr (.inr (.inr (.inr (call_rollback h))))

end Database

/-! ### What is a process's own -/

/-- What `p` has in the database: its open transaction, its uncommitted rows, the files it has committed,
and versions it knows to be recorded. -/
structure At (p : Pid) (tx : Option (List GoString)) (vs : List Int) (names : List GoString) (rs : List Int)
    (w : Database) : Prop where
  tx : w.txs p = tx
  inserted : w.insertedBy p = vs
  committed : w.committedBy p = names
  recorded : rs ⊆ w.recorded

/-- The others leave what belongs to `p` alone. -/
structure Unmoved (p : Pid) (w w' : Database) : Prop where
  tx : w'.txs p = w.txs p
  inserted : w'.insertedBy p = w.insertedBy p
  committed : w'.committedBy p = w.committedBy p
  recorded : w.recorded ⊆ w'.recorded

theorem Unmoved.refl (p : Pid) (w : Database) : Unmoved p w w := ⟨rfl, rfl, rfl, fun _ h => h⟩

theorem Unmoved.trans {p : Pid} {w w' w'' : Database} (h : Unmoved p w w') (h' : Unmoved p w' w'') :
    Unmoved p w w'' :=
  ⟨h'.tx.trans h.tx, h'.inserted.trans h.inserted, h'.committed.trans h.committed,
    fun _ hv => h'.recorded (h.recorded hv)⟩

section
variable {p q : Pid} {w w' : Database} {tx : Option (List GoString)} {vs rs : List Int} {names : List GoString}

theorem At.unmoved (h : At p tx vs names rs w) (hu : Unmoved p w w') : At p tx vs names rs w' :=
  ⟨hu.tx.trans h.tx, hu.inserted.trans h.inserted, hu.committed.trans h.committed,
    fun _ hv => hu.recorded (h.recorded hv)⟩

theorem At.put (h : At p tx vs names rs w) (files : List GoString) :
    At p (some files) vs names rs (w.put p files) :=
  ⟨Function.update_self .., h.inserted, h.committed, h.recorded⟩

theorem At.insert (h : At p tx vs names rs w) (v : Int) :
    At p tx (vs ++ [v]) names rs { w with inserted := w.inserted ++ [(p, v)] } := by
  refine ⟨h.tx, ?_, h.committed, h.recorded⟩
  rw [← h.inserted]
  simp [Database.insertedBy, List.filter_append]

theorem insertedBy_filter_ne (h : q ≠ p) : ((w.inserted.filter (·.1 ≠ p)).filter (·.1 = q)).map (·.2) =
    w.insertedBy q := by
  unfold Database.insertedBy
  rw [List.filter_filter]
  congr 1
  refine List.filter_congr fun x _ => ?_
  by_cases hx : x.1 = q
  · simp [hx, h]
  · simp [hx]

theorem Unmoved.put (h : q ≠ p) (files : List GoString) : Unmoved q w (w.put p files) :=
  ⟨Function.update_of_ne h _ _, rfl, rfl, fun _ hv => hv⟩

theorem Unmoved.insert (h : q ≠ p) (v : Int) :
    Unmoved q w { w with inserted := w.inserted ++ [(p, v)] } := by
  refine ⟨rfl, ?_, rfl, fun _ hv => hv⟩
  simp [Database.insertedBy, List.filter_append, h.symm]

theorem Unmoved.endTx (h : q ≠ p) : Unmoved q w (w.endTx p) :=
  ⟨Function.update_of_ne h _ _, insertedBy_filter_ne h, rfl, fun _ hv => hv⟩

theorem Unmoved.commit (h : q ≠ p) (files : List GoString) : Unmoved q w (w.commit p files) := by
  refine ⟨Function.update_of_ne h _ _, insertedBy_filter_ne h, ?_, fun _ hv => List.mem_append_left _ hv⟩
  have hnone : (files.map (p, ·)).filter (·.1 = q) = [] := by
    rw [List.filter_eq_nil_iff]
    intro x hx
    obtain ⟨n, -, rfl⟩ := List.mem_map.1 hx
    simp [h.symm]
  simp only [Database.committedBy, Database.commit, List.filter_append, hnone, List.append_nil]

theorem Unmoved.call {fsys : FS} {op : Op} {c : Choice} {a : op.Ans} (h : p ≠ q)
    (hc : Database.call p fsys op c w = some (a, w')) : Unmoved q w w' := by
  rcases Database.call_cases hc with rfl | ⟨files, rfl⟩ | ⟨v, rfl⟩ | ⟨files, rfl⟩ | rfl
  · exact .refl q _
  · exact .put h.symm files
  · exact .insert h.symm v
  · exact .commit h.symm files
  · exact .endTx h.symm

end

/-! ### The invariant -/

structure Inv (fsys : FS) (w : Database) : Prop where
  recorded : w.recorded = w.committed.map fun x => version x.2
  nodup : (w.recorded ++ w.inserted.map (·.2)).Nodup
  up : ∀ x ∈ w.committed, x.2 ∈ fsys.upFiles
  ascending : ∀ p, (w.committedBy p).Pairwise fun n n' => version n < version n'

namespace Inv

variable {fsys : FS} {p : Pid} {w : Database} {tx : Option (List GoString)} {vs rs : List Int}
  {names : List GoString}

theorem init (fsys : FS) : Inv fsys .empty :=
  ⟨rfl, List.nodup_nil, fun _ hx => absurd hx List.not_mem_nil, fun _ => List.Pairwise.nil⟩

theorem committed_nodup (h : Inv fsys w) : ((w.committed.map (·.2)).map version).Nodup := by
  rw [List.map_map]
  exact h.recorded ▸ h.nodup.of_append_left

theorem put (h : Inv fsys w) (files : List GoString) : Inv fsys (w.put p files) :=
  ⟨h.recorded, h.nodup, h.up, h.ascending⟩

theorem endTx (h : Inv fsys w) : Inv fsys (w.endTx p) :=
  ⟨h.recorded, h.nodup.sublist ((List.Sublist.refl _).append (List.filter_sublist.map _)), h.up, h.ascending⟩

theorem insert (h : Inv fsys w) {v : Int} (hr : v ∉ w.recorded) (hi : v ∉ w.inserted.map (·.2)) :
    Inv fsys { w with inserted := w.inserted ++ [(p, v)] } := by
  refine ⟨h.recorded, ?_, h.up, h.ascending⟩
  rw [List.map_append, ← List.append_assoc]
  exact h.nodup.append (List.nodup_singleton v) (by simp [hr, hi])

theorem version_recorded (h : Inv fsys w) {n : GoString} (hn : n ∈ w.committedBy p) :
    version n ∈ w.recorded := by
  obtain ⟨x, hx, rfl⟩ := List.mem_map.1 hn
  rw [h.recorded]
  exact List.mem_map_of_mem (f := fun x => version x.2) (List.mem_filter.1 hx).1

/-- The commit of a migration: one file, and the row with its version. -/
theorem commit {n : GoString} (h : Inv fsys w) (hat : At p (some [n]) [version n] names rs w)
    (hn : n ∈ fsys.upFiles) (hle : ∀ n' ∈ names, version n' ≤ version n) :
    Inv fsys (w.commit p [n]) ∧ At p none [] (names ++ [n]) (version n :: rs) (w.commit p [n]) := by
  have hrecorded : (w.commit p [n]).recorded = w.recorded ++ [version n] := by
    rw [← hat.inserted]
    rfl
  have hby : ∀ q, (w.commit p [n]).committedBy q = w.committedBy q ++ if p = q then [n] else [] := by
    intro q
    simp only [Database.committedBy, Database.commit, List.filter_append, List.map_append]
    split <;> simp_all
  -- the version is an uncommitted row of this process, so it is not recorded
  have hnew : version n ∉ w.recorded := by
    have hmem : version n ∈ w.insertedBy p := by
      rw [hat.inserted]
      exact List.mem_singleton.2 rfl
    obtain ⟨x, hx, hxv⟩ := List.mem_map.1 hmem
    rw [← hxv]
    exact fun hr => (List.disjoint_of_nodup_append h.nodup) hr (List.mem_map_of_mem (List.mem_filter.1 hx).1)
  refine ⟨⟨?_, ?_, ?_, fun q => ?_⟩, ⟨Function.update_self .., ?_, ?_, ?_⟩⟩
  · rw [hrecorded, h.recorded]
    simp [Database.commit]
  · have hperm : (w.inserted.filter (·.1 = p) ++ w.inserted.filter (·.1 ≠ p)).Perm w.inserted := by
      simpa using List.filter_append_perm (fun x => decide (x.1 = p)) w.inserted
    have hall := (hperm.map (·.2)).append_left w.recorded
    rw [List.map_append, ← List.append_assoc] at hall
    exact hall.nodup_iff.2 h.nodup
  · intro x hx
    rcases List.mem_append.1 hx with hx | hx
    · exact h.up x hx
    · rw [List.mem_singleton.1 hx]
      exact hn
  · rw [hby q]
    split
    · rename_i hq
      subst hq
      refine List.pairwise_append.2 ⟨h.ascending p, List.pairwise_singleton .., fun n' hn' m hm => ?_⟩
      rw [List.mem_singleton.1 hm]
      have hne : version n' ≠ version n := fun he => hnew (he ▸ h.version_recorded hn')
      have := hle n' (hat.committed ▸ hn')
      omega
    · rw [List.append_nil]
      exact h.ascending q
  · have hnone : (w.inserted.filter (·.1 ≠ p)).filter (·.1 = p) = [] := by simp [List.filter_filter]
    simp only [Database.insertedBy, Database.commit, hnone, List.map_nil]
  · rw [hby p, if_pos rfl, hat.committed]
  · rw [hrecorded]
    refine List.cons_subset.2 ⟨by simp, fun v hv => List.mem_append_left _ (hat.recorded hv)⟩

end Inv

/-! ### Every process keeps it -/

/-- Without an error, every file has its version recorded. -/
def Complete (fsys : FS) (r : Except Err Unit) (w : Database) : Prop :=
  r = .ok () → ∀ n ∈ fsys.upFiles, version n ∈ w.recorded

def Safe (fsys : FS) (p : Pid) (prog : Code (Except Err Unit)) (w : Database) : Prop :=
  prog.Rg (Database.call p fsys) (Inv fsys) (Unmoved p) (fun _ _ => True) (Complete fsys) w

section
variable {fsys : FS} {p : Pid} {w : Database} {tx : Option (List GoString)} {vs rs : List Int}
  {names : List GoString}

theorem safe_call {op : Op} {k : op.Ans → Code (Except Err Unit)} (hat : At p tx vs names rs w)
    (h : ∀ w₁, Inv fsys w₁ → At p tx vs names rs w₁ → ∀ c a w₂, Database.call p fsys op c w₁ = some (a, w₂) →
      Inv fsys w₂ ∧ Safe fsys p (k a) w₂) : Safe fsys p (.call op k) w :=
  fun w₁ hu hI => ⟨trivial, h w₁ hI (hat.unmoved hu)⟩

theorem safe_error (e : Err) : Safe fsys p (.ret (.error e)) w := by
  intro w₁ _ _ h
  cases h

/-- A failed statement: the transaction is rolled back. -/
theorem safe_rollback (hat : At p tx vs names rs w) (e : Err) :
    Safe fsys p (perform .rollback >>= fun _ => return .error e) w := by
  refine safe_call hat fun w₁ hI _ c a w₂ hc => ?_
  obtain rfl := Database.call_rollback hc
  exact ⟨hI.endTx, safe_error e⟩

/-- The loop. `names` are the files this process has committed so far, and `rs` holds the versions of all
files but the pending ones. -/
theorem safe_applyAll {pending : List migration}
    (hname : ∀ m ∈ pending, m.name ∈ fsys.upFiles ∧ version m.name = m.version)
    (hsorted : pending.Pairwise fun m m' => m.version ≤ m'.version)
    (hle : ∀ n ∈ names, ∀ m ∈ pending, version n ≤ m.version)
    (hall : ∀ n ∈ fsys.upFiles, version n ∈ rs ∨ ∃ m ∈ pending, m.version = version n)
    (hat : At p none [] names rs w) : Safe fsys p (applyAll pending) w := by
  induction pending generalizing w names rs with
  | nil =>
    intro w₁ hu _ _ n hn
    rcases hall n hn with hr | ⟨m, hm, -⟩
    · exact (hat.unmoved hu).recorded hr
    · cases hm
  | cons m pending ih =>
    obtain ⟨hm, hversion⟩ := hname m List.mem_cons_self
    obtain ⟨hfirst, hsorted⟩ := List.pairwise_cons.1 hsorted
    refine safe_call hat fun w₁ hI₁ hat₁ c a w₂ hc => ?_
    obtain rfl := Database.call_readFile hc
    refine ⟨hI₁, ?_⟩
    rcases a with e | content
    · exact safe_error _
    refine safe_call hat₁ fun w₃ hI₃ hat₃ c a w₄ hc => ?_
    rcases Database.call_begin hc with ⟨rfl, -, rfl⟩ | ⟨⟨e, rfl⟩, rfl⟩
    swap
    · exact ⟨hI₃, safe_error e⟩
    refine ⟨hI₃.put [], safe_call (hat₃.put []) fun w₅ hI₅ hat₅ c a w₆ hc => ?_⟩
    rcases Database.call_execFile hc with ⟨files, rfl, htx, rfl⟩ | ⟨⟨e, rfl⟩, rfl⟩
    swap
    · exact ⟨hI₅, safe_rollback hat₅ _⟩
    obtain rfl : [] = files := Option.some.inj (hat₅.tx.symm.trans htx)
    refine ⟨hI₅.put _, safe_call (hat₅.put _) fun w₇ hI₇ hat₇ c a w₈ hc => ?_⟩
    rcases Database.call_insertVersion hc with ⟨rfl, hr, hi, rfl⟩ | ⟨⟨e, rfl⟩, rfl⟩
    swap
    · exact ⟨hI₇, safe_rollback hat₇ e⟩
    refine ⟨hI₇.insert hr hi, safe_call (hat₇.insert m.version) fun w₉ hI₉ hat₉ c a w₁₀ hc => ?_⟩
    rcases Database.call_commit hc with ⟨files, htx, rfl⟩ | ⟨⟨e, rfl⟩, rfl⟩
    swap
    · exact ⟨hI₉.endTx, safe_error e⟩
    obtain rfl : [m.name] = files := Option.some.inj (hat₉.tx.symm.trans htx)
    rw [← hversion] at hat₉
    obtain ⟨hI, hat'⟩ := hI₉.commit hat₉ hm fun n' hn' => hversion ▸ hle n' hn' m List.mem_cons_self
    refine ⟨hI, ?_⟩
    rcases a with e | u
    · -- done, but reported as failed
      exact safe_error e
    refine ih (fun m' hm' => hname m' (List.mem_cons_of_mem _ hm')) hsorted ?_ ?_ hat'
    · intro n hn m' hm'
      rcases List.mem_append.1 hn with hn | hn
      · exact hle n hn m' (List.mem_cons_of_mem _ hm')
      · rw [List.mem_singleton.1 hn, hversion]
        exact hfirst m' hm'
    · intro n hn
      rcases hall n hn with hr | ⟨m', hm', hv⟩
      · exact .inl (List.mem_cons_of_mem _ hr)
      rcases List.mem_cons.1 hm' with rfl | hm'
      · exact .inl (by rw [← hv, ← hversion]; exact List.mem_cons_self)
      · exact .inr ⟨m', hm', hv⟩

/-- The pending files are the `*.up.sql` files whose version is not among the applied ones. -/
theorem pendingOf_ok {applied : List Int} {entries : List GoString} {pending : List migration}
    (h : pendingOf applied entries = .ok pending) :
    (∀ m ∈ pending, m.name ∈ entries.filter (HasSuffix · upSql) ∧ version m.name = m.version) ∧
      ∀ n ∈ entries.filter (HasSuffix · upSql), version n ∈ applied ∨ ∃ m ∈ pending, m.version = version n := by
  induction entries generalizing pending with
  | nil =>
    cases h
    exact ⟨fun _ hm => absurd hm List.not_mem_nil, fun _ hn => absurd hn List.not_mem_nil⟩
  | cons name entries ih =>
    simp only [pendingOf] at h
    split at h
    · -- not a migration
      rename_i hsuffix
      rw [List.filter_cons_of_neg (by simpa using hsuffix)]
      exact ih h
    rename_i hsuffix
    rw [List.filter_cons_of_pos (by simpa using hsuffix)]
    rcases hparse : parseVersion name with err | v
    · rw [hparse] at h
      cases h
    rcases hrest : pendingOf applied entries with err | rest
    · rw [hparse, hrest] at h
      cases h
    obtain ⟨hname, hall⟩ := ih hrest
    rw [hparse, hrest] at h
    have hv := version_eq hparse
    have hpending : pending = if v ∈ applied then rest else ⟨v, name⟩ :: rest := (Except.ok.inj h).symm
    split at hpending
    · rename_i happlied
      subst hpending
      refine ⟨fun m hm => ?_, fun n hn => ?_⟩
      · exact ⟨List.mem_cons_of_mem _ (hname m hm).1, (hname m hm).2⟩
      · rcases List.mem_cons.1 hn with rfl | hn
        · exact .inl (hv ▸ happlied)
        · exact hall n hn
    · subst hpending
      refine ⟨fun m hm => ?_, fun n hn => ?_⟩
      · rcases List.mem_cons.1 hm with rfl | hm
        · exact ⟨List.mem_cons_self, hv⟩
        · exact ⟨List.mem_cons_of_mem _ (hname m hm).1, (hname m hm).2⟩
      · rcases List.mem_cons.1 hn with rfl | hn
        · exact .inr ⟨_, List.mem_cons_self, hv.symm⟩
        · rcases hall n hn with hr | ⟨m, hm, hmv⟩
          · exact .inl hr
          · exact .inr ⟨m, List.mem_cons_of_mem _ hm, hmv⟩

/-- What follows the read of the directory. -/
theorem safe_pending [SortLib] {applied : List Int} (hat : At p none [] [] applied w)
    (x : Except Err (List migration)) : pendingOf applied (fsys.entries.map (·.1)) = x →
    Safe fsys p (match x with
      | .error err => return .error err
      | .ok pending => applyAll (SortLib.slice pending)) w := by
  intro hx
  rcases x with err | pending
  · exact safe_error err
  obtain ⟨hname, hall⟩ := pendingOf_ok hx
  have hperm := SortLib.perm pending
  refine safe_applyAll (fun m hm => hname m (hperm.mem_iff.1 hm)) (SortLib.sorted pending) ?_ ?_ hat
  · intro n hn
    cases hn
  · intro n hn
    rcases hall n hn with hr | ⟨m, hm, hv⟩
    · exact .inl hr
    · exact .inr ⟨m, hperm.mem_iff.2 hm, hv⟩

theorem safe_Migrate [SortLib] (hat : At p none [] [] [] w) : Safe fsys p Migrate w := by
  refine safe_call hat fun w₁ hI₁ hat₁ c a w₂ hc => ?_
  obtain rfl := Database.call_ensureTable hc
  refine ⟨hI₁, ?_⟩
  rcases a with e | u
  · exact safe_error _
  refine safe_call hat₁ fun w₃ hI₃ hat₃ c a w₄ hc => ?_
  obtain ⟨rfl, happlied⟩ := Database.call_selectVersions hc
  refine ⟨hI₃, ?_⟩
  rcases a with e | e | applied
  · exact safe_error _
  · exact safe_error _
  have hat₄ : At p none [] [] applied w₄ := ⟨hat₃.tx, hat₃.inserted, hat₃.committed, happlied _ rfl⟩
  refine safe_call hat₄ fun w₅ hI₅ hat₅ c a w₆ hc => ?_
  obtain ⟨rfl, hentries⟩ := Database.call_readDir hc
  refine ⟨hI₅, ?_⟩
  rcases a with e | entries
  · exact safe_error _
  obtain rfl := hentries _ rfl
  exact safe_pending hat₅ _ rfl

end

theorem migrate_run [SortLib] {fsys : FS} {ps : Pid → Bool} {ms : List (Move Pid Choice)}
    {s : Pool Pid Op Op.Ans (Except Err Unit) Database}
    (hrun : (migratePool ps).run (Database.machine fsys) ms = some s) :
    Inv fsys s.world ∧ ∀ p r, s.result? p = some r → Complete fsys r s.world := by
  have hstart : ∀ p, At p none [] [] [] Database.empty := fun p => ⟨rfl, rfl, rfl, fun _ hv => hv⟩
  obtain ⟨hI, hs⟩ := Pool.rg_run (R := Unmoved) (G := fun _ _ => True) (Q := fun _ => Complete fsys)
    (fun p w => .refl p w) (fun p _ _ _ => Unmoved.trans) (fun p q op c a w w' hne _ hc => .call hne hc)
    (fun p w hI => ⟨hI.endTx, fun q hne => .endTx hne.symm⟩) (fun c w w' _ he => by cases he) (Inv.init fsys)
    (fun p prog hp => by
      simp only [migratePool] at hp
      split at hp <;> cases hp
      exact safe_Migrate (hstart p)) hrun
  exact ⟨hI, fun p r hr => hs.ret (fun p w => .refl p w) hI (Pool.procs_of_result hr)⟩

/-- Any number of processes, in any interleaving, with crashes at any point and reads of any part of
`schema_migrations`: no file is committed twice, and the recorded versions are those of the committed
files. -/
theorem migrations_once [SortLib] {fsys : FS} {ps : Pid → Bool} {ms : List (Move Pid Choice)}
    {s : Pool Pid Op Op.Ans (Except Err Unit) Database}
    (hrun : (migratePool ps).run (Database.machine fsys) ms = some s) :
    (s.world.committed.map (·.2)).Nodup ∧
      s.world.recorded = s.world.committed.map fun x => version x.2 := by
  obtain ⟨hI, -⟩ := migrate_run hrun
  refine ⟨?_, hI.recorded⟩
  exact hI.committed_nodup.of_map _

section
attribute [local instance] SortLib.insertion

def oneFile : FS := ⟨[("0001_catalog.up.sql", some "CREATE")], by decide⟩

/-- Two processes read before either has committed, and execute the same file. The second waits for the
first, and then its row is refused. -/
def bothApply : List (Move Pid Choice) :=
  [.call 0 .ok, .call 1 .ok, .call 0 (.rows []), .call 1 (.rows []), .call 0 .ok, .call 1 .ok, .call 0 .ok,
    .call 1 .ok, .call 0 .ok, .call 1 .ok, .call 0 .ok, .call 1 .ok, .call 0 .ok, .call 0 .ok, .call 1 .ok,
    .call 1 .ok]

theorem migrations_once_sample :
    ∃ s, (migratePool (· < 2)).run (Database.machine oneFile) bothApply = some s ∧
      s.result? 0 = some (.ok ()) ∧ s.result? 1 = some (.error (.pg .uniqueViolation)) ∧
      (s.world.committed.map (·.2)).Nodup ∧
      s.world.recorded = s.world.committed.map fun x => version x.2 := by
  have h : ((migratePool (· < 2)).run (Database.machine oneFile) bothApply).map
      (fun s => (s.result? 0, s.result? 1)) =
      some (some (.ok ()), some (.error (.pg .uniqueViolation))) := by decide +kernel
  obtain ⟨s, hs, hobs⟩ := Option.map_eq_some_iff.1 h
  simp only [Prod.mk.injEq] at hobs
  exact ⟨s, hs, hobs.1, hobs.2, migrations_once hs⟩

end

end Forge.Migrations
