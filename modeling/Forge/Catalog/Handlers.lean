import Forge.Catalog.Commands

/-!
# The HTTP handlers of the catalog (`catalog/api/handlers.go`) and the idempotency store

A handler is a process that returns the response it writes. What the JSON decoder makes of a body is
part of the request (`Except GoString _`: the value or the decoder's error text).
-/

namespace Forge

/-! ### Responses (`platform/httpx/response.go`) -/

structure ErrorBody where
  Code : GoString
  Message : GoString
deriving DecidableEq

structure Response where
  Status : Nat
  ETag : Option GoString
  Location : Option GoString
  /-- The header `Idempotency-Replayed`. -/
  Replayed : Bool
  Body : Except ErrorBody Catalog.ServiceResponse
deriving DecidableEq

/-- `apperr.As`: code and message of the first `*apperr.Error` of the chain. -/
def apperr.As : Err → Option (GoString × GoString)
  | .app _ code message => some (code, message)
  | .caused _ code message _ => some (code, message)
  | .wrap _ cause => As cause
  | .pg _ => none
  | .ext _ => none

namespace httpx

def Error (err : Err) : Response where
  Status := apperr.HTTPStatus err
  ETag := none
  Location := none
  Replayed := false
  Body := .error (match apperr.As err with
    | some (code, message) => ⟨code, message⟩
    | none => ⟨"INTERNAL", "an unexpected error occurred"⟩)

end httpx

namespace Catalog

open GoString

/-! ### Idempotency records (`platform/idempotency/idempotency.go`) -/

namespace idempotency

def Lookup (key : GoString) : M (Option IdemRow) :=
  M.exec .pool (.selectIdem key) (wrapPg "lookup idempotency key")

def Save (key requestHash : GoString) (status : Nat) (body : ServiceResponse) : M Unit := do
  let u ← M.perform .newID
  M.exec .pool (.insertIdem ⟨u, key, requestHash, status, body⟩) (wrapPg "save idempotency key")

end idempotency

/-! ### Handlers -/

structure RegisterServiceRequest where
  TenantID : GoString
  Name : GoString
  Description : GoString
  Tier : Int
  Repository : GoString
  OwningTeam : GoString
  OnCallRef : GoString
deriving DecidableEq

structure ChangeOwnershipRequest where
  OwningTeam : GoString
  OnCallRef : GoString
deriving DecidableEq

structure ChangeLifecycleRequest where
  Lifecycle : GoString
deriving DecidableEq

/-- The expected version in the header `If-Match`; `[]` is an absent header. -/
def ifMatch (header : GoString) : Int :=
  let raw := Trim header 0x22
  if raw = [] then 0
  else match ParseInt raw with
    | none => 0
    | some v => v

/-- The answer to a mutation. -/
def answer : Except Err Service → Response
  | .error e => httpx.Error e
  | .ok svc => ⟨200, some (FormatInt svc.version), none, false, .ok (toResponse svc)⟩

/-- What `httpx.Decode` answers to a body it cannot decode. -/
def invalidBody (text : GoString) : Response :=
  httpx.Error (apperr.Validation "INVALID_BODY" (str "request body is not valid JSON: " ++ text))

namespace Handlers

variable [UuidLib]

def ChangeOwnership (header id : GoString) (body : Except GoString ChangeOwnershipRequest) :
    Proc Call Call.Ans Response :=
  match body with
  | .error text => pure (invalidBody text)
  | .ok req => do
    let svc ← (Catalog.ChangeOwnership ⟨id, req.OwningTeam, req.OnCallRef, ifMatch header⟩).run
    pure (answer svc)

def ChangeLifecycle (header id : GoString) (body : Except GoString ChangeLifecycleRequest) :
    Proc Call Call.Ans Response :=
  match body with
  | .error text => pure (invalidBody text)
  | .ok req => do
    let svc ← (Catalog.ChangeLifecycle ⟨id, req.Lifecycle, ifMatch header⟩).run
    pure (answer svc)

def Retire (header id : GoString) : Proc Call Call.Ans Response := do
  let svc ← (RetireService ⟨id, ifMatch header⟩).run
  pure (answer svc)

/-- The part of `Register` after the lookup of the key. -/
def registerFresh (save : Bool) (idemKey hash : GoString) (req : RegisterServiceRequest) :
    Proc Call Call.Ans Response := do
  match ← (RegisterService ⟨req.TenantID, req.Name, req.Description, req.Tier, req.Repository,
    req.OwningTeam, req.OnCallRef⟩).run with
  | .error e => pure (httpx.Error e)
  | .ok svc =>
    let resp := toResponse svc
    if save then
      -- the error of `Save` is ignored
      let _ ← (idempotency.Save idemKey hash 201 resp).run
    pure ⟨201, some (FormatInt svc.version), some (str "/api/v1/services/" ++ svc.id.String), false,
      .ok resp⟩

/-- Why there is no decoded body. -/
inductive BodyError
  | unread | invalid
deriving DecidableEq

def BodyError.message : BodyError → GoString
  | unread => "request body could not be read"
  | invalid => "request body is not valid JSON"

/-- `Register`; `hash` is the hexadecimal SHA-256 of the body, `idem` says whether there is a store. -/
def Register (idem : Bool) (idemKey hash : GoString) (body : Except BodyError RegisterServiceRequest) :
    Proc Call Call.Ans Response :=
  match body with
  | .error e => pure (httpx.Error (apperr.Validation "INVALID_BODY" e.message))
  | .ok req =>
    if idemKey ≠ [] ∧ idem then do
      match ← (idempotency.Lookup idemKey).run with
      | .error e => pure (httpx.Error e)
      | .ok (some rec) => pure ⟨rec.response_status, none, none, true, .ok rec.response_body⟩
      | .ok none => registerFresh true idemKey hash req
    else registerFresh false idemKey hash req

end Handlers

/-! ### Requests that mutate a service -/

/-- A request for `PATCH …/ownership`, `PATCH …/lifecycle` or `DELETE`, without its `If-Match`. -/
inductive MutationRequest
  | ownership (id : GoString) (body : Except GoString ChangeOwnershipRequest)
  | lifecycle (id : GoString) (body : Except GoString ChangeLifecycleRequest)
  | delete (id : GoString)

namespace MutationRequest

def handle [UuidLib] (header : GoString) : MutationRequest → Proc Call Call.Ans Response
  | ownership id body => Handlers.ChangeOwnership header id body
  | lifecycle id body => Handlers.ChangeLifecycle header id body
  | delete id => Handlers.Retire header id

/-- The command a request is turned into, if its body can be decoded. -/
def command (expectedVersion : Int) : MutationRequest → Except GoString Command
  | ownership id body => body.map fun req =>
    .changeOwnership ⟨id, req.OwningTeam, req.OnCallRef, expectedVersion⟩
  | lifecycle id body => body.map fun req => .changeLifecycle ⟨id, req.Lifecycle, expectedVersion⟩
  | delete id => .ok (.retire ⟨id, expectedVersion⟩)

theorem handle_eq [UuidLib] (header : GoString) (req : MutationRequest) :
    req.handle header = match req.command (ifMatch header) with
      | .error text => pure (invalidBody text)
      | .ok c => c.run.run >>= fun r => pure (answer r) := by
  cases req with
  | ownership id body => cases body <;> rfl
  | lifecycle id body => cases body <;> rfl
  | delete id => rfl

theorem expectedVersion_command {req : MutationRequest} {v : Int} {c : Command}
    (h : req.command v = .ok c) : c.ExpectedVersion = v := by
  cases req with
  | ownership id body => cases body <;> cases h; rfl
  | lifecycle id body => cases body <;> cases h; rfl
  | delete id => cases h; rfl

/-- The text of the service id in the path. -/
def id : MutationRequest → GoString
  | ownership id _ => id
  | lifecycle id _ => id
  | delete id => id

/-- The service and the mutation a request asks for, if its body and its values are valid. -/
def parse [UuidLib] (req : MutationRequest) : Option (ServiceID × Mutation) :=
  match req.command 0 with
  | .error _ => none
  | .ok c => c.parse.toOption

/-- What a request asks for does not depend on its `If-Match`. -/
theorem parse_command [UuidLib] {req : MutationRequest} {v : Int} {c : Command}
    (h : req.command v = .ok c) : c.parse.toOption = req.parse := by
  cases req with
  | ownership id body => cases body <;> cases h; rfl
  | lifecycle id body => cases body <;> cases h; rfl
  | delete id => cases h; rfl

theorem parse_of_error [UuidLib] {req : MutationRequest} {v : Int} {text : GoString}
    (h : req.command v = .error text) : req.parse = none := by
  cases req with
  | ownership id body => cases body <;> cases h; rfl
  | lifecycle id body => cases body <;> cases h; rfl
  | delete id => cases h

end MutationRequest

end Catalog

end Forge
