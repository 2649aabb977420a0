import Forge.Catalog.Sequential

/-!
# The outbox relay (`relay/relay.go`, `relay/postgres.go`, `platform/events/events.go`)

`ClaimBatch` claims pending outbox rows, publishes them one after another and marks them published in
one transaction; `DrainOnce` repeats it until a batch is not full. The rows of the claiming query are
fetched, and thereby locked, one by one. `DrainOnce` loops without a bound, so it is given fuel; without
fuel it has not returned (`none`).
-/

namespace Forge

open Catalog

/-- `JetStreamPublisher.Publish`. -/
def Publish (subject msgID : GoString) (data : Envelope) : M Unit := ExceptT.mk do
  match ← (Call.publish subject msgID data).perform with
  | .ok () => pure (.ok ())
  | .error text => pure (.error (.wrap (str "publish " ++ subject) (.ext text)))

theorem run_Publish_bind {γ : Type} (subject msgID : GoString) (data : Envelope)
    (k : Except Err Unit → Proc Call Call.Ans γ) :
    (Publish subject msgID data).run >>= k = .call (.publish subject msgID data) fun r => match r with
      | .ok () => k (.ok ())
      | .error text => k (.error (.wrap (str "publish " ++ subject) (.ext text))) := by
  show Proc.call _ _ = Proc.call _ _
  congr 1
  funext r
  cases r <;> rfl

namespace relay

/-- One outbox row to be relayed. -/
structure Record where
  ID : GoString
  AggregateID : GoString
  EventType : GoString
  Payload : Envelope
  OccurredAt : Time
deriving DecidableEq

/-- `rows.Scan`. -/
def scan (o : OutboxRow) : Record :=
  ⟨o.id.String, o.aggregate_id.String, o.event_type, o.payload, goTime o.occurred_at⟩

def claimQuery : M Unit := ExceptT.mk do
  match ← Call.claim.perform with
  | .ok () => pure (.ok ())
  | .error e => pure (.error (wrapPg "claim outbox" e))

/-- `rows.Next`; the error is that of `rows.Err`. -/
def rowsNext : M (Option OutboxRow) := ExceptT.mk do
  match ← Call.next.perform with
  | .ok o => pure (.ok o)
  | .error e => pure (.error (.pg e))

theorem run_claimQuery_bind {γ : Type} (k : Except Err Unit → Proc Call Call.Ans γ) :
    claimQuery.run >>= k = .call .claim fun r => match r with
      | .ok () => k (.ok ())
      | .error e => k (.error (wrapPg "claim outbox" e)) := by
  show Proc.call _ _ = Proc.call _ _
  congr 1
  funext r
  cases r <;> rfl

theorem run_rowsNext_bind {γ : Type} (k : Except Err (Option OutboxRow) → Proc Call Call.Ans γ) :
    rowsNext.run >>= k = .call .next fun r => match r with
      | .ok o => k (.ok o)
      | .error e => k (.error (.pg e)) := by
  show Proc.call _ _ = Proc.call _ _
  congr 1
  funext r
  cases r <;> rfl

/-- The rows of the claiming query, at most `limit`. -/
def fetch : (limit : Nat) → M (List Record)
  | 0 => pure []
  | limit + 1 => do
    match ← rowsNext with
    | none => return []
    | some o => return scan o :: (← fetch limit)

def publishAll (publish : Record → M Unit) : List Record → M (List GoString)
  | [] => pure []
  | r :: recs => do
    match ← ExceptT.lift (publish r).run with
    | .error e => throw (.wrap (str "publish " ++ r.ID) e)
    | .ok () => return r.ID :: (← publishAll publish recs)

/-- The part of `ClaimBatch` between the beginning and the end of the transaction. -/
def claimTx (limit : Nat) (publish : Record → M Unit) : M (List Record) := do
  claimQuery
  match ← fetch limit with
  | [] => return []
  | r :: recs =>
    let ids ← publishAll publish (r :: recs)
    M.exec .tx (.markPublished ids) (wrapPg "mark published")
    return r :: recs

def ClaimBatch (limit : Nat) (publish : Record → M Unit) : M Nat := ExceptT.mk do
  match ← Call.begin.perform with
  | .error e => pure (.error (wrapPg "begin" e))
  | .ok () => match ← (claimTx limit publish).run with
    | .error e => do
      Call.rollback.perform
      pure (.error e)
    | .ok [] => do
      Call.rollback.perform
      pure (.ok 0)
    | .ok recs => match ← Call.commit.perform with
      | .error e => pure (.error (wrapPg "commit" e))
      | .ok () => pure (.ok recs.length)

theorem run_ClaimBatch_bind {γ : Type} (limit : Nat) (publish : Record → M Unit)
    (k : Except Err Nat → Proc Call Call.Ans γ) :
    (ClaimBatch limit publish).run >>= k = .call .begin fun r => match r with
      | .error e => k (.error (wrapPg "begin" e))
      | .ok () => (claimTx limit publish).run >>= fun r => match r with
        | .error e => .call .rollback fun _ => k (.error e)
        | .ok [] => .call .rollback fun _ => k (.ok 0)
        | .ok (rec :: recs) => .call .commit fun r => match r with
          | .error e => k (.error (wrapPg "commit" e))
          | .ok () => k (.ok (rec :: recs).length) := by
  show Proc.call _ _ = Proc.call _ _
  congr 1
  funext r
  cases r with
  | error e => rfl
  | ok =>
    show (claimTx limit publish).run >>= _ >>= k = (claimTx limit publish).run >>= _
    rw [Proc.bind_assoc]
    congr 1
    funext r
    rcases r with e | _ | ⟨rec, recs⟩
    · rfl
    · rfl
    · show Proc.call _ _ = Proc.call _ _
      congr 1
      funext r
      cases r <;> rfl

/-- The fields of a relay that its loop reads. -/
structure Relay where
  subjectPrefix : GoString
  batch : Nat
  batch_pos : 0 < batch

def New (subjectPrefix : GoString) (batch : Int) : Relay :=
  if h : batch ≤ 0 then ⟨subjectPrefix, 100, by decide⟩ else ⟨subjectPrefix, batch.toNat, by omega⟩

namespace Relay

def subjectFor (r : Relay) (rec : Record) : GoString := r.subjectPrefix ++ str "." ++ rec.EventType

/-- The number of published events and the error, if any. -/
def DrainOnce (r : Relay) : (fuel total : Nat) → Proc Call Call.Ans (Option (Nat × Option Err))
  | 0, _ => pure none
  | fuel + 1, total => do
    match ← (ClaimBatch r.batch fun rec => Publish (r.subjectFor rec) rec.ID rec.Payload).run with
    | .error e => pure (some (total, some e))
    | .ok n => if n < r.batch then pure (some (total + n, none)) else r.DrainOnce fuel (total + n)

/-- `Run` until its context is cancelled after `ticks` ticks. -/
def Run (r : Relay) (fuel : Nat) : (ticks : Nat) → Proc Call Call.Ans Unit
  | 0 => pure ()
  | ticks + 1 => do
    let _ ← r.DrainOnce fuel 0
    r.Run fuel ticks

end Relay

end relay

end Forge
