import Forge.Catalog.Handlers
import Forge.Platform.Config
import Forge.Platform.Jwks
import Forge.Platform.RateLimit

/-!
# The API server (`cmd/api/main.go`, `platform/httpx`)

A request passes through the middleware in the order of `run`: `Recoverer`, `Correlate`, `Observe`, and under
`/api/v1` also `Authenticate` and `RateLimit`, before a handler of one of the modules sees it. Each of them is a
process over the calls it makes; what the handlers of the modules do is left open, and so is what the other
routes answer. `Timeout` only cancels the context of the calls, which may fail at any time in any case.

Any number of requests are served at once, over one cache of keys and one limiter. There is one clock, and the
document of the JWKS endpoint is a function of the time: a response carries the document of some moment between
the sending of its request and its arrival, at most five seconds later (the timeout of the client). `lag` bounds
the time in which a response that has arrived is parsed and stored.
-/

namespace Forge.api

open GoString httpx

/-! ### Token verification (`platform/httpx/auth.go`) -/

/-- `rsa.VerifyPKCS1v15` with SHA-256: of a key, a hash and a signature. -/
class Rsa where
  VerifyPKCS1v15 : PublicKey → GoString → GoString → Bool

/-- A slice of strings: what the array behind it holds, and its length. -/
structure Strings where
  elems : List GoString
  len : Nat
deriving DecidableEq

/-- A value decoded into a slice of strings; an element null keeps what the array behind the slice holds. -/
def Strings.decode (old : Strings) : Json → Option Strings
  | .null => some ⟨[], 0⟩
  | .array vs => do
    let elems ← vs.zipIdx.mapM fun (v, i) => jwt.stringField (old.elems.getD i []) v
    return ⟨elems ++ (if vs = [] then [] else old.elems.drop elems.length), elems.length⟩
  | _ => none

structure claims where
  RegisteredClaims : jwt.RegisteredClaims
  Email : GoString
  groups : Strings
deriving DecidableEq

namespace claims

def zero : claims := ⟨.zero, [], ⟨[], 0⟩⟩

def Groups (c : claims) : List GoString := c.groups.elems.take c.groups.len

variable [GoNumbers] [jwt.Library]

/-- One member of the object sets the field it names. -/
def set (c : claims) (m : GoString × Json) : Option claims :=
  if jwt.Named "email" m then (jwt.stringField c.Email m.2).map fun s => { c with Email := s }
  else if jwt.Named "groups" m then (c.groups.decode m.2).map fun g => { c with groups := g }
  else (jwt.Library.set c.RegisteredClaims m).map fun r => { c with RegisteredClaims := r }

/-- `json.Unmarshal` into the claims. -/
def unmarshal (data : GoString) : Option claims :=
  match Json.parse data with
  | some .null => some zero
  | some (.object ms) => ms.foldlM set zero
  | _ => none

end claims

structure Principal where
  Subject : GoString
  Email : GoString
  Groups : List GoString
deriving DecidableEq

def principalFromClaims (c : claims) : Principal := ⟨c.RegisteredClaims.Subject, c.Email, c.Groups⟩

inductive Verifier
  | HMACVerifier (secret : GoString)
  | JWKSVerifier (url issuer audience : GoString)
deriving DecidableEq

/-! ### Requests and responses -/

structure Request where
  Method : GoString
  Path : GoString
  /-- The headers under their canonical names. -/
  Header : List (GoString × GoString)
  RemoteAddr : GoString
deriving DecidableEq

/-- `r.Header.Get`: the first value, or the empty string. -/
def Request.Get (r : Request) (name : GoString) : GoString := ((r.Header.find? (·.1 = name)).map (·.2)).getD []

/-- The values of the request's context. -/
structure Context where
  CorrelationID : GoString
  principal : Option Principal
deriving DecidableEq

inductive Body
  | error (e : ErrorBody) (correlationID : GoString)
  | text (t : GoString)
deriving DecidableEq

/-- What is done with the response writer. -/
inductive Write
  | set (name value : GoString)
  | status (code : Nat)
  | body (b : Body)
deriving DecidableEq

/-- How a handler ended. -/
structure Outcome where
  writes : List Write
  panicked : Bool
deriving DecidableEq

def JSON (status : Nat) (b : Body) : List Write :=
  [.set "Content-Type" "application/json; charset=utf-8", .status status, .body b]

def Error (correlationID : GoString) (err : Err) : List Write :=
  JSON (apperr.HTTPStatus err) (.error (match apperr.As err with
    | some (code, message) => ⟨code, message⟩
    | none => ⟨"INTERNAL", "an unexpected error occurred"⟩) correlationID)

/-! ### The calls of a request -/

inductive Call
  | jwks (c : JWKSVerifier.Call)
  | now
  | newUUID
  | allow (key : GoString)
  /-- A handler of a module runs. `start` is the time at which `Observe` saw the request. -/
  | handle (start : Int) (ctx : Context) (r : Request)
  /-- Health checks, metrics, and what no route matches. -/
  | unauthenticated (r : Request)

abbrev Call.Ans : Call → Type
  | jwks c => c.Ans
  | now => Int
  | newUUID => UUID
  | allow _ => Bool
  | handle .. => Outcome
  | unauthenticated _ => Outcome

abbrev M (α : Type) : Type := Proc Call Call.Ans α

abbrev perform (op : Call) : M op.Ans := Proc.perform op

/-- The calls of the key cache as calls of the server. -/
def liftJwks {α : Type} : Proc JWKSVerifier.Call JWKSVerifier.Call.Ans α → M α
  | .ret a => .ret a
  | .call op k => .call (.jwks op) fun a => liftJwks (k a)

def invalidToken : Err := apperr.Unauthorized "INVALID_TOKEN" "token verification failed"

section
variable [GoNumbers] [jwt.Library] [Rsa]

/-- The end of `ParseWithClaims`: the signature has been verified, the claims are validated. -/
def validateClaims (v : jwt.Validator) (c : claims) : M (Except Err Principal) := do
  let now ← perform .now
  if jwt.Library.Validate v now c.RegisteredClaims then return .ok (principalFromClaims c) else return .error invalidToken

def Verifier.Verify (v : Verifier) (token : GoString) : M (Except Err Principal) :=
  match v with
  | HMACVerifier secret => match jwt.Library.parse claims.unmarshal ["HS256"] token with
    | none => return .error invalidToken
    | some t =>
      if t.Method.isHMAC ∧ t.Signature = jwt.hmacSHA256 secret t.text then
        validateClaims ⟨[], [], false⟩ t.Claims
      else return .error invalidToken
  | JWKSVerifier _ issuer audience => match jwt.Library.parse claims.unmarshal ["RS256"] token with
    | none => return .error invalidToken
    | some t =>
      if t.Method.isRSA then do
        match ← liftJwks (JWKSVerifier.keyForKID t.kid) with
        | .error _ => return .error invalidToken
        | .ok key =>
          if Rsa.VerifyPKCS1v15 key (sha256.Sum256 t.text) t.Signature then
            validateClaims ⟨issuer, audience, true⟩ t.Claims
          else return .error invalidToken
      else return .error invalidToken

/-! ### The middleware -/

abbrev Handler := Context → Request → M Outcome

def Recoverer (next : M Outcome) : M (List Write) := do
  let o ← next
  -- the request of the recovery is the one without a correlation id
  if o.panicked then return o.writes ++ Error [] (apperr.Internal "PANIC" "an unexpected error occurred")
  else return o.writes

def correlationHeader : GoString := "X-Correlation-Id"

/-- The id of the request, a new one if it has none. -/
def correlationID (r : Request) : M GoString :=
  if r.Get correlationHeader = [] then do
    let u ← perform .newUUID
    return u.String
  else return r.Get correlationHeader

def Correlate (next : Handler) (r : Request) : M Outcome := do
  let cid ← correlationID r
  let o ← next ⟨cid, none⟩ r
  return { o with writes := .set correlationHeader cid :: o.writes }

def Observe (next : Int → Handler) : Handler := fun ctx r => do
  let start ← perform .now
  next start ctx r

def Authenticate (v : Verifier) (next : Handler) : Handler := fun ctx r =>
  if str "Bearer " <+: r.Get "Authorization" then do
    match ← v.Verify (TrimPrefix (r.Get "Authorization") "Bearer ") with
    | .error e => return ⟨Error ctx.CorrelationID e, false⟩
    | .ok principal => next { ctx with principal := some principal } r
  else return ⟨Error ctx.CorrelationID (apperr.Unauthorized "MISSING_TOKEN" "a bearer token is required"), false⟩

def rateKey (ctx : Context) (r : Request) : GoString :=
  match ctx.principal with
  | some p => if p.Subject ≠ [] then p.Subject else r.RemoteAddr
  | none => r.RemoteAddr

def RateLimit (next : Handler) : Handler := fun ctx r => do
  if ← perform (.allow (rateKey ctx r)) then next ctx r
  else return ⟨.set "Retry-After" "1" ::
    Error ctx.CorrelationID (apperr.TooManyRequests "RATE_LIMITED" "rate limit exceeded"), false⟩

/-! ### The routes (`cmd/api/main.go`) -/

def buildVerifier (cfg : config.Auth) : Verifier :=
  if cfg.Mode = "jwks" then .JWKSVerifier cfg.JWKSURL cfg.Issuer cfg.Audience else .HMACVerifier cfg.HMACSecret

/-- The path belongs to the router mounted at `/api/v1`. -/
def underAPI (path : GoString) : Prop := path = "/api/v1" ∨ str "/api/v1/" <+: path

instance (path : GoString) : Decidable (underAPI path) :=
  inferInstanceAs (Decidable (path = str "/api/v1" ∨ str "/api/v1/" <+: path))

def router (v : Verifier) (start : Int) : Handler := fun ctx r =>
  if underAPI r.Path then
    Authenticate v (RateLimit fun ctx r => perform (.handle start ctx r)) ctx r
  else perform (.unauthenticated r)

def serveHTTP (cfg : config.Config) (r : Request) : M (List Write) :=
  Recoverer (Correlate (Observe (router (buildVerifier cfg.auth))) r)

end

/-! ### The world of the requests -/

/-- Five seconds, the timeout of the client that fetches the keys. -/
def clientTimeout : Int := 5000000000

section
variable {rps : ℚ} {burst : Nat}

structure World (rps : ℚ) (burst : Nat) where
  clock : Int
  verifier : JWKSVerifier
  limiter : keyedLimiter rps burst
  /-- When each request sent for the keys, and when it received them. -/
  sent : Nat → Option Int
  received : Nat → Option Int
  /-- When each request first looked at the clock (a history variable, as are those below). -/
  began : Nat → Option Int
  /-- A call to the endpoint failed for this request. -/
  failed : Nat → Bool
  /-- What the limiter was asked; the requests it let pass, with the time and the key; and the requests a
  handler was run for, with the key again. -/
  events : List Event
  admitted : List (Nat × ℚ × GoString)
  handled : List (Nat × GoString)

inductive Choice
  | ok
  | failed (text : GoString)
  /-- The response carries the document of this moment. -/
  | answer (u : Int)
  | id (u : UUID)
  | outcome (o : Outcome)
  /-- Time passes. -/
  | tick (d : Nat)
  /-- The limiter deletes the buckets nobody uses, for the `n`-th time. -/
  | sweep (n : Nat)

/-- What the server runs in: when it was started, the document of the JWKS endpoint at each time, and how long it
takes to store a document, in nanoseconds. -/
structure Site where
  boot : Nat
  endpoint : Int → HTTPResponse
  lag : Nat

/-- Seconds since the server was started. -/
def Site.seconds (site : Site) (t : Int) : ℚ := ((t - site.boot : Int) : ℚ) / 1000000000

namespace World

def init (site : Site) : World rps burst :=
  ⟨site.boot, .new, newKeyedLimiter rps burst, fun _ => none, fun _ => none, fun _ => none, fun _ => false, [], [], []⟩

def seconds (site : Site) (w : World rps burst) : ℚ := site.seconds w.clock

def begin (p : Nat) (w : World rps burst) : World rps burst :=
  { w with began := Function.update w.began p (some ((w.began p).getD w.clock)) }

def fail (p : Nat) (w : World rps burst) : World rps burst := { w with failed := Function.update w.failed p true }

/-- A call of the key cache by the request `p`. -/
def callJwks (site : Site) (p : Nat) : Env JWKSVerifier.Call JWKSVerifier.Call.Ans Choice (World rps burst)
  | .cached kid, .ok, w =>
    some ((w.verifier.keys kid, decide (w.clock - w.verifier.fetched < JWKSVerifier.ttl)), w)
  | .send, .failed text, w => some (.error (.ext text), w.fail p)
  | .send, .ok, w => some (.ok (), { w with sent := Function.update w.sent p (some w.clock) })
  | .receive, .failed text, w => some (.error (.ext text), w.fail p)
  | .receive, .answer u, w => match w.sent p with
    | some t =>
      if t ≤ u ∧ u ≤ w.clock ∧ w.clock ≤ t + clientTimeout then
        some (.ok (site.endpoint u), { w with received := Function.update w.received p (some w.clock) })
      else none
    | none => none
  | .store keys, .ok, w => match w.received p with
    | some t => if w.clock ≤ t + site.lag then some ((), { w with verifier := ⟨keys, w.clock⟩ }) else none
    | none => none
  | .key kid, .ok, w => some (w.verifier.keys kid, w)
  | _, _, _ => none

def askLimiter (site : Site) (p : Nat) (key : GoString) (w : World rps burst) : Bool × World rps burst :=
  let x := w.limiter.allow key (w.seconds site)
  (x.1, { w with
    limiter := x.2
    events := w.events ++ [.allow (w.seconds site) key]
    admitted := if x.1 then w.admitted ++ [(p, w.seconds site, key)] else w.admitted })

def call (site : Site) (p : Nat) : Env Call Call.Ans Choice (World rps burst)
  | .jwks c, χ, w => callJwks site p c χ w
  | .now, .ok, w => some (w.clock, w.begin p)
  | .newUUID, .id u, w => some (u, w)
  | .allow key, .ok, w => some (w.askLimiter site p key)
  | .handle _ ctx r, .outcome o, w => some (o, { w with handled := w.handled ++ [(p, rateKey ctx r)] })
  | .unauthenticated _, .outcome o, w => some (o, w)
  | _, _, _ => none

def env (site : Site) : Choice → World rps burst → Option (World rps burst)
  | .tick d, w => some { w with clock := w.clock + d }
  | .sweep n, w =>
    if w.seconds site = n * httpx.ttl then
      some { w with limiter := w.limiter.reap (n * httpx.ttl), events := w.events ++ [.sweep n] }
    else none
  | _, _ => none

def machine (site : Site) : Machine Nat Call Call.Ans Choice (World rps burst) :=
  ⟨call site, fun _ w => w, env site⟩

end World

/-- The server with these requests. -/
def server [GoNumbers] [jwt.Library] [Rsa] (rps : ℚ) (burst : Nat) (site : Site) (cfg : config.Config)
    (requests : Nat → Option Request) : Pool Nat Call Call.Ans (List Write) (World rps burst) :=
  ⟨.init site, fun p => (requests p).map (serveHTTP cfg)⟩

end

end Forge.api
