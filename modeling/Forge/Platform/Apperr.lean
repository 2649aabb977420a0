import Forge.Lib.GoStrings

/-!
# Errors

`Err` is a Go `error` as the code builds it: an `*apperr.Error` with or without a cause, an
`fmt.Errorf("context: %w", cause)`, what the Postgres driver returned, or an error of other code of which
only the text matters. `HTTPStatus` finds the first `*apperr.Error` of the chain.
-/

namespace Forge

namespace apperr

inductive Kind
  | Internal | Validation | NotFound | Conflict | Unauthorized | Forbidden | PreconditionFailed
  | TooManyRequests | Unavailable
deriving DecidableEq, Repr

end apperr

/-- An error of the database driver, as far as the code looks at it: SQLSTATE 23505, or any other
failure of a statement (another violated constraint, a lost connection, a cancelled context). -/
inductive PgError
  | uniqueViolation
  | other
deriving DecidableEq, Repr

inductive Err
  | app (kind : apperr.Kind) (code message : GoString)
  | caused (kind : apperr.Kind) (code message : GoString) (cause : Err)
  | wrap (context : GoString) (cause : Err)
  | pg (e : PgError)
  | ext (text : GoString)
deriving DecidableEq, Repr

/-- `fmt.Errorf("context: %w", err)` for an error of the driver. -/
def wrapPg (context : GoString) (e : PgError) : Err := .wrap context (.pg e)

/-- `errors.Is(err, target)`. -/
def Err.Is (err target : Err) : Bool :=
  decide (err = target) || match err with
    | .app .. => false
    | .caused _ _ _ cause => cause.Is target
    | .wrap _ cause => cause.Is target
    | .pg _ => false
    | .ext _ => false

section
variable {α β : Type}

theorem ok_bind (a : α) (f : α → Except Err β) : (.ok a : Except Err α) >>= f = f a := rfl

theorem error_bind (e : Err) (f : α → Except Err β) : (.error e : Except Err α) >>= f = .error e := rfl

/-- Code that goes on after an error check returns only if the check passed. -/
theorem bind_eq_ok {x : Except Err α} {f : α → Except Err β} {b : β} :
    x >>= f = .ok b ↔ ∃ a, x = .ok a ∧ f a = .ok b := by
  cases x <;> simp [ok_bind, error_bind]

end

namespace apperr

def Validation (code message : GoString) : Err := .app .Validation code message
def NotFound (code message : GoString) : Err := .app .NotFound code message
def Conflict (code message : GoString) : Err := .app .Conflict code message
def Precondition (code message : GoString) : Err := .app .PreconditionFailed code message
def Unavailable (code message : GoString) : Err := .app .Unavailable code message
def Unauthorized (code message : GoString) : Err := .app .Unauthorized code message
def TooManyRequests (code message : GoString) : Err := .app .TooManyRequests code message
def Internal (code message : GoString) : Err := .app .Internal code message

def Kind.status : Kind → Nat
  | .Validation => 422
  | .NotFound => 404
  | .Conflict => 409
  | .Unauthorized => 401
  | .Forbidden => 403
  | .PreconditionFailed => 412
  | .TooManyRequests => 429
  | .Unavailable => 503
  | .Internal => 500

def HTTPStatus : Err → Nat
  | .app kind _ _ => kind.status
  | .caused kind _ _ _ => kind.status
  | .wrap _ cause => HTTPStatus cause
  | .pg _ => 500
  | .ext _ => 500

theorem Kind.status_ge (k : Kind) : 400 ≤ k.status := by cases k <;> decide

/-- No error is answered with a success status. -/
theorem HTTPStatus_ge (e : Err) : 400 ≤ HTTPStatus e := by
  induction e with
  | app kind => exact kind.status_ge
  | caused kind => exact kind.status_ge
  | wrap _ _ ih => exact ih
  | pg => simp [HTTPStatus]
  | ext => simp [HTTPStatus]

end apperr

end Forge
