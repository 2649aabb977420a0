import Mathlib.Data.List.Sort
import Forge.Lib.Proc
import Forge.Lib.Sprintf
import Forge.Platform.Apperr

/-!
# Migrations at startup (`platform/postgres/migrate.go`)

`Migrate` as a process over the file system and the database. `Database` has the versions recorded in
`schema_migrations`, the rows other transactions cannot see yet, and for every process the files it has
executed in its open transaction; `committed` notes which process committed which file. A call can fail
with any error, the read of `schema_migrations` can stop early without one, and a commit can be reported as
failed although it was done. A row whose version is recorded is refused; one whose version another
transaction has inserted waits for that transaction.
-/

namespace Forge.Migrations

open GoString

/-! ### Names of files -/

/-- `strings.IndexByte`. -/
def IndexByte (s : GoString) (b : UInt8) : Int :=
  match s.findIdx? (· = b) with
  | some i => i
  | none => -1

def HasSuffix (s suffix : GoString) : Bool := suffix.isSuffixOf s

/-- The error of `strconv.ParseInt`: a number that is too large, or no number. -/
def numError (s : GoString) : Err :=
  let digits := match s with
    | b :: rest => if b = 0x2D ∨ b = 0x2B then rest else s
    | [] => []
  .ext (str "strconv.ParseInt: parsing " ++ Fmt.Quote s ++ str ": " ++
    if (parseDigits digits).isSome then str "value out of range" else str "invalid syntax")

def parseVersion (name : GoString) : Except Err Int :=
  let idx := IndexByte name 0x5F
  if idx ≤ 0 then
    .error (.ext (str "migration " ++ Fmt.Quote name ++ str " must be named <version>_<desc>.up.sql"))
  else match ParseInt (name.take idx.toNat) with
    | some v => .ok v
    | none => .error (.wrap (str "migration " ++ Fmt.Quote name ++ str " has non-numeric version")
        (numError (name.take idx.toNat)))

def upSql : GoString := ".up.sql"

/-- A directory: no two entries have the same name. An entry without text cannot be read. -/
structure FS where
  entries : List (GoString × Option GoString)
  nodup : (entries.map (·.1)).Nodup

/-- The `*.up.sql` files. -/
def FS.upFiles (fsys : FS) : List GoString := (fsys.entries.map (·.1)).filter (HasSuffix · upSql)

structure migration where
  version : Int
  name : GoString
deriving DecidableEq

/-- The loop over the entries. -/
def pendingOf (applied : List Int) : List GoString → Except Err (List migration)
  | [] => .ok []
  | name :: entries =>
    if !HasSuffix name upSql then pendingOf applied entries
    else do
      let version ← parseVersion name
      let pending ← pendingOf applied entries
      return if version ∈ applied then pending else ⟨version, name⟩ :: pending

/-- What `sort.Slice` promises: it sorts by version, and leaves open how equal versions are ordered. -/
class SortLib where
  slice : List migration → List migration
  perm : ∀ l, (slice l).Perm l
  sorted : ∀ l, (slice l).Pairwise fun m m' => m.version ≤ m'.version

/-- Insertion sort, which keeps the order of equal versions. -/
@[reducible] def SortLib.insertion : SortLib where
  slice := List.insertionSort fun m m' => m.version ≤ m'.version
  perm := List.perm_insertionSort _
  sorted := fun l => List.pairwise_insertionSort _ l

/-! ### The database -/

inductive Op
  | ensureTable
  | selectVersions
  | readDir
  | readFile (name : GoString)
  | begin
  -- the text of a file, with the name it was read under
  | execFile (name text : GoString)
  | insertVersion (v : Int)
  | commit
  | rollback

/-- `rows.Scan` can fail after `pool.Query` succeeded. -/
def Op.Result : Op → Type
  | selectVersions => Except Err (List Int)
  | readDir => List GoString
  | readFile _ => GoString
  | _ => Unit

abbrev Op.Ans (op : Op) : Type := Except Err op.Result

inductive Choice
  | ok
  | rows (vs : List Int)
  | scanFails (e : Err)
  | fails (e : Err)
  -- the commit is done, but reported as failed
  | lost (e : Err)

abbrev Pid := Nat

structure Database where
  recorded : List Int
  inserted : List (Pid × Int)
  txs : Pid → Option (List GoString)
  committed : List (Pid × GoString)

namespace Database

def empty : Database := ⟨[], [], fun _ => none, []⟩

variable (w : Database) (p : Pid)

/-- The uncommitted rows of a process. -/
def insertedBy : List Int := (w.inserted.filter (·.1 = p)).map (·.2)

/-- What a process has committed. -/
def committedBy : List GoString := (w.committed.filter (·.1 = p)).map (·.2)

def put (files : List GoString) : Database := { w with txs := Function.update w.txs p (some files) }

def endTx : Database :=
  { w with txs := Function.update w.txs p none, inserted := w.inserted.filter (·.1 ≠ p) }

def commit (files : List GoString) : Database :=
  { recorded := w.recorded ++ w.insertedBy p
    inserted := w.inserted.filter (·.1 ≠ p)
    txs := Function.update w.txs p none
    committed := w.committed ++ files.map (p, ·) }

def call (fsys : FS) : (op : Op) → Choice → Database → Option (op.Ans × Database)
  | .ensureTable, .ok, w => some (.ok (), w)
  | .selectVersions, .rows vs, w => if vs ⊆ w.recorded then some (.ok (.ok vs), w) else none
  | .selectVersions, .scanFails e, w => some (.ok (.error e), w)
  | .readDir, .ok, w => some (.ok (fsys.entries.map (·.1)), w)
  | .readFile name, .ok, w => match fsys.entries.lookup name with
    | some (some text) => some (.ok text, w)
    | _ => none
  | .begin, .ok, w => match w.txs p with
    | none => some (.ok (), w.put p [])
    | some _ => none
  | .execFile name _, .ok, w => match w.txs p with
    | some files => some (.ok (), w.put p (files ++ [name]))
    | none => none
  | .insertVersion v, .ok, w =>
    if v ∈ w.recorded then some (.error (.pg .uniqueViolation), w)
    else if v ∈ w.inserted.map (·.2) then none
    else some (.ok (), { w with inserted := w.inserted ++ [(p, v)] })
  | .commit, .ok, w => match w.txs p with
    | some files => some (.ok (), w.commit p files)
    | none => none
  | .commit, .lost e, w => match w.txs p with
    | some files => some (.error e, w.commit p files)
    | none => none
  | .commit, .fails e, w => some (.error e, w.endTx p)
  | .rollback, .ok, w => some (.ok (), w.endTx p)
  | .rollback, .fails e, w => some (.error e, w.endTx p)
  | _, .fails e, w => some (.error e, w)
  | _, _, _ => none

/-- The connection of a process that crashes is closed, and its transaction rolled back. -/
def machine (fsys : FS) : Machine Pid Op Op.Ans Choice Database where
  call := fun p => call p fsys
  crash := fun p w => w.endTx p
  env := fun _ _ => none

end Database

/-! ### Migrate -/

abbrev Code (α : Type) : Type := Proc Op Op.Ans α

def perform (op : Op) : Code op.Ans := Proc.perform op

/-- The loop over the pending migrations. -/
def applyAll : List migration → Code (Except Err Unit)
  | [] => return .ok ()
  | m :: pending => do
    match ← perform (.readFile m.name) with
    | .error err => return .error (.wrap (str "read " ++ m.name) err)
    | .ok content =>
    match ← perform .begin with
    | .error err => return .error err
    | .ok () =>
    match ← perform (.execFile m.name content) with
    | .error err =>
      let _ ← perform .rollback
      return .error (.wrap (str "apply " ++ m.name) err)
    | .ok () =>
    match ← perform (.insertVersion m.version) with
    | .error err =>
      let _ ← perform .rollback
      return .error err
    | .ok () =>
    match ← perform .commit with
    | .error err => return .error err
    | .ok () => applyAll pending

def Migrate [SortLib] : Code (Except Err Unit) := do
  match ← perform .ensureTable with
  | .error err => return .error (.wrap "ensure migrations table" err)
  | .ok () =>
  match ← perform .selectVersions with
  | .error err => return .error (.wrap "read applied migrations" err)
  | .ok (.error err) => return .error err
  | .ok (.ok applied) =>
  match ← perform .readDir with
  | .error err => return .error (.wrap "read migrations dir" err)
  | .ok entries =>
  match pendingOf applied entries with
  | .error err => return .error err
  | .ok pending => applyAll (SortLib.slice pending)

/-- Processes that start with an empty database and run `Migrate` over the same files. -/
def migratePool [SortLib] (ps : Pid → Bool) : Pool Pid Op Op.Ans (Except Err Unit) Database :=
  ⟨.empty, fun p => if ps p then some Migrate else none⟩

end Forge.Migrations
