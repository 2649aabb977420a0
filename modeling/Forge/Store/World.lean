import Forge.Lib.Proc
import Forge.Store.Tables
import Mathlib.Data.List.Sort
import Mathlib.Data.Prod.Lex

/-!
# Postgres and the event bus as one environment

`World` is everything outside the processes: the committed tables, the open transactions with their
row locks, and the stream of the bus. `World.call` answers one call of a process.

Transactions run under READ COMMITTED. A statement is read on the latest committed tables with the
transaction's own changes on top; it waits (has no answer) while another open transaction holds a
key of a row it would change or insert; a row selected `FOR UPDATE SKIP LOCKED` is taken only if
nobody else holds it and its latest version still satisfies the condition. A commit applies all
changes at once and is appended to `log`; a rollback or a crash of the process drops them.

`World.Effect` says once what a call can do, and `Others p` what the calls of the others look like
to `p`: its transaction and the rows it has locked stay as they are, and the committed tables move on
by whole commits of other processes.
-/

namespace Forge

open Catalog

abbrev Pid := Nat

/-! ### The event bus -/

structure Msg where
  subject : GoString
  id : GoString
  data : Envelope
deriving DecidableEq

/-- The stream: the messages it has accepted (acknowledged or about to be), those it has stored, and
those sent to it whose sender has given up waiting. -/
structure Bus where
  accepted : List (Msg × Time)
  stream : List (Msg × Time)
  inflight : List Msg

/-- `Duplicates` of `EnsureStream`: two minutes. -/
def Duplicates : Time := 120000000000

/-- A message is accepted; it is stored unless its id was stored inside the window. -/
def Bus.accept (b : Bus) (m : Msg) (t : Time) : Bus :=
  { b with
    accepted := b.accepted ++ [(m, t)]
    stream :=
      if b.stream.any fun s => s.1.id = m.id ∧ t < s.2 + Duplicates then b.stream
      else b.stream ++ [(m, t)] }

/-! ### Transactions -/

structure Tx where
  /-- What `now()` is in the transaction. -/
  begun : Timestamptz
  writes : List Write
  /-- The service rows read by their id (a history variable). -/
  loaded : List ServiceRow
  /-- The outbox rows the claiming query has taken. -/
  claimed : List UUID

namespace Tx

def start (t : Timestamptz) : Tx := ⟨t, [], [], []⟩

/-- The tables as the transaction sees them. -/
def view (tx : Tx) (t : Tables) : Tables := tx.writes.foldl Write.apply t

def keys (tx : Tx) : List Key := tx.writes.flatMap Write.keys ++ tx.claimed.map .outbox

end Tx

/-- One committed transaction: the tables it was applied to and those it left. -/
structure Commit where
  pid : Pid
  tx : Tx
  before : Tables
  after : Tables

/-! ### Calls -/

/-- Where a statement runs: in the open transaction, or by itself. -/
inductive DBTX
  | tx | pool

inductive Call
  | now
  | newID
  | begin
  | commit
  | rollback
  | exec (db : DBTX) (q : Stmt)
  /-- The query of `ClaimBatch`; its rows are fetched one by one with `next`. -/
  | claim
  | next
  | publish (subject msgID : GoString) (data : Envelope)

abbrev Call.Ans : Call → Type
  | now => Time
  | newID => UUID
  | begin => Except PgError Unit
  | commit => Except PgError Unit
  | rollback => Unit
  | exec _ q => Except PgError q.Ans
  | claim => Except PgError Unit
  | next => Except PgError (Option OutboxRow)
  | publish .. => Except GoString Unit

/-- What the world decides about a call, or does by itself. -/
inductive Choice
  | ok
  | fault
  | time (t : Time)
  | uuid (u : UUID)
  | failed (text : GoString)
  /-- The claiming query of `p` passes over a row it cannot take. -/
  | skip (p : Pid)
  /-- The `i`-th message in flight reaches the stream. -/
  | deliver (i : Nat) (t : Time)

structure World where
  db : Tables
  txs : Pid → Option Tx
  locks : List (Pid × Key)
  /-- The rows of the claiming query of a process that it has not looked at. -/
  cursors : Pid → List OutboxRow
  log : List Commit
  bus : Bus
  /-- The clock readings, the new ids with the process each was made for, and the number of failed calls
  so far (history variables). -/
  readings : List Time
  draws : List (Pid × UUID)
  faults : Nat

namespace World

/-- The new ids. -/
def ids (w : World) : List UUID := w.draws.map (·.2)

theorem mem_ids {w : World} {p : Pid} {u : UUID} (h : (p, u) ∈ w.draws) : u ∈ w.ids :=
  List.mem_map.2 ⟨(p, u), h, rfl⟩

def init (db : Tables) : World := ⟨db, fun _ => none, [], fun _ => [], [], ⟨[], [], []⟩, [], [], 0⟩

def blocked (w : World) (p : Pid) (ks : List Key) : Bool := w.locks.any fun l => l.1 ≠ p ∧ l.2 ∈ ks

def put (w : World) (p : Pid) (tx : Tx) (ks : List Key) : World :=
  { w with txs := Function.update w.txs p (some tx), locks := w.locks ++ ks.map (p, ·) }

def endTx (w : World) (p : Pid) : World :=
  { w with txs := Function.update w.txs p none, locks := w.locks.filter (·.1 ≠ p) }

def commit (w : World) (p : Pid) (tx : Tx) : World :=
  { w with db := tx.view w.db, log := w.log ++ [⟨p, tx, w.db, tx.view w.db⟩] }

def setCursor (w : World) (p : Pid) (l : List OutboxRow) : World :=
  { w with cursors := Function.update w.cursors p l }

def fault (w : World) : World := { w with faults := w.faults + 1 }

end World

/-- The service rows a statement has read by their id. -/
def Stmt.loads : (q : Stmt) → q.Ans → List ServiceRow
  | .selectService _, a => a.toList
  | _, _ => []

def Tx.ran (tx : Tx) (q : Stmt) (a : q.Ans) (ws : List Write) : Tx :=
  { tx with writes := tx.writes ++ ws, loaded := tx.loaded ++ q.loads a }

/-- The pending rows in the order of the claiming query. -/
def Tables.pending (t : Tables) : List OutboxRow :=
  (t.outbox.filter (·.published_at = none)).insertionSort fun o o' =>
    toLex (o.created_at, o.id) ≤ toLex (o'.created_at, o'.id)

namespace World

/-- The latest version of a row the claiming query of `p` may take. -/
def claimable (w : World) (p : Pid) (tx : Tx) (id : UUID) : Option OutboxRow :=
  match (tx.view w.db).outboxRow id with
  | some o => if o.published_at = none ∧ w.blocked p [.outbox id] = false then some o else none
  | none => none

def call (p : Pid) : Env Call Call.Ans Choice World
  | .now, .time t, w => some (t, { w with readings := w.readings ++ [t] })
  | .newID, .uuid u, w => some (u, { w with draws := w.draws ++ [(p, u)] })
  | .begin, .fault, w => some (.error .other, w.fault)
  | .begin, .time t, w => match w.txs p with
    | none => some (.ok (), w.put p (.start (pgTime t)) [])
    | some _ => none
  | .commit, .fault, w => some (.error .other, w.fault.endTx p)
  | .commit, .ok, w => match w.txs p with
    | some tx => some (.ok (), (w.commit p tx).endTx p)
    | none => none
  | .rollback, .ok, w => some ((), w.endTx p)
  | .exec _ _, .fault, w => some (.error .other, w.fault)
  | .exec .tx q, .ok, w => match w.txs p with
    | some tx => match q.plan tx.begun (tx.view w.db) with
      | .ok (a, ws) =>
        if w.blocked p (ws.flatMap Write.keys) then none
        else some (.ok a, w.put p (tx.ran q a ws) (ws.flatMap Write.keys))
      | .error e => some (.error e, w)
    | none => none
  | .exec .pool q, .time t, w => match q.plan (pgTime t) w.db with
    | .ok (a, ws) =>
      if w.blocked p (ws.flatMap Write.keys) then none
      else some (.ok a, w.commit p ((Tx.start (pgTime t)).ran q a ws))
    | .error e => some (.error e, w)
  | .claim, .fault, w => some (.error .other, w.fault)
  | .claim, .ok, w => match w.txs p with
    | some tx => some (.ok (), w.setCursor p (tx.view w.db).pending)
    | none => none
  | .next, .fault, w => some (.error .other, w.fault)
  | .next, .ok, w => match w.txs p with
    | some tx => match w.cursors p with
      | [] => some (.ok none, w)
      | o :: rest => match w.claimable p tx o.id with
        | some o' => some (.ok (some o'),
            (w.setCursor p rest).put p { tx with claimed := tx.claimed ++ [o.id] } [.outbox o.id])
        | none => none
    | none => none
  | .publish subject msgID data, .time t, w =>
    some (.ok (), { w with bus := w.bus.accept ⟨subject, msgID, data⟩ t })
  | .publish subject msgID data, .failed text, w =>
    some (.error text, { w with
      bus := { w.bus with inflight := w.bus.inflight ++ [⟨subject, msgID, data⟩] } })
  | _, _, _ => none

/-- What happens without a call: the claiming query of a process passes over a row that is locked or
no longer pending, and a message in flight reaches the stream. -/
def env : Choice → World → Option World
  | .skip p, w => match w.txs p with
    | some tx => match w.cursors p with
      | [] => none
      | o :: rest => match w.claimable p tx o.id with
        | some _ => none
        | none => some (w.setCursor p rest)
    | none => none
  | .deliver i t, w => match w.bus.inflight[i]? with
    | some m => some { w with
        bus := { w.bus.accept m t with inflight := w.bus.inflight.eraseIdx i } }
    | none => none
  | _, _ => none

/-- Any number of processes over one database and one stream. -/
def machine : Machine Pid Call Call.Ans Choice World := ⟨call, fun p w => w.endTx p, env⟩

end World

end Forge
