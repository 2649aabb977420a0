import Forge.Lib.Jwt
import Forge.Lib.Sprintf
import Forge.Platform.Apperr

/-!
# Configuration (`platform/config/config.go`)

`Load` reads the environment of the process; what cannot be parsed is replaced by its default, and the values are
then checked together. In production a configuration that passes has everything the verifier of signed tokens
needs (`jwks_of_production`).
-/

namespace Forge.config

open GoString

variable [GoNumbers]

structure Temporal where
  HostPort : GoString
  Namespace : GoString
  TaskQueue : GoString

structure Events where
  NATSURL : GoString
  StreamName : GoString
  SubjectPrefix : GoString

structure Relay where
  BatchSize : Int
  PollInterval : Int

structure Database where
  URL : GoString
  MaxConns : Int
  MinConns : Int
  MaxConnLifetime : Int
  MaxConnIdleTime : Int

structure Auth where
  Mode : GoString
  HMACSecret : GoString
  JWKSURL : GoString
  Issuer : GoString
  Audience : GoString
deriving DecidableEq

structure Telemetry where
  ServiceName : GoString
  OTLPEndpoint : GoString

structure RateLimit where
  RPS : GoNumbers.Float64
  Burst : Int

structure Config where
  Env : GoString
  HTTPAddr : GoString
  ShutdownTimeout : Int
  database : Database
  auth : Auth
  telemetry : Telemetry
  rateLimit : RateLimit
  events : Events
  relay : Relay
  temporal : Temporal

/-! ### Reading the environment -/

/-- `os.LookupEnv`. -/
abbrev Environ := GoString → Option GoString

/-- The value of a variable that is set to one. -/
def lookup (env : Environ) (key : GoString) : Option GoString := (env key).filter (· ≠ [])

def getStr (env : Environ) (key default : GoString) : GoString := (lookup env key).getD default

def getInt (env : Environ) (key : GoString) (default : Int) : Int := ((lookup env key).bind Atoi).getD default

def getFloat (env : Environ) (key : GoString) (default : GoNumbers.Float64) : GoNumbers.Float64 :=
  ((lookup env key).bind GoNumbers.ParseFloat).getD default

def getDur (env : Environ) (key : GoString) (default : Int) : Int :=
  ((lookup env key).bind GoNumbers.ParseDuration).getD default

def httpAddr (env : Environ) : GoString :=
  match lookup env "FORGE_HTTP_ADDR" with
  | some a => a
  | none => match lookup env "PORT" with
    | some p => str ":" ++ p
    | none => ":8080"

/-- The conversion to `int32`. -/
def int32 (n : Int) : Int := (BitVec.ofInt 32 n).toInt

def second : Int := 1000000000

namespace Config

def IsProduction (c : Config) : Prop := c.Env = "production"

instance (c : Config) : Decidable c.IsProduction := inferInstanceAs (Decidable (c.Env = str "production"))

/-- The problems with the way tokens are verified. The text of the last one quotes the mode, of which the escapes
are not modelled. -/
def authProblems (c : Config) : List GoString :=
  if c.auth.Mode = "hmac" then
    (if c.auth.HMACSecret = [] then [str "FORGE_AUTH_HMAC_SECRET is required when FORGE_AUTH_MODE=hmac"] else []) ++
      (if c.IsProduction then [str "FORGE_AUTH_MODE=hmac is not permitted in production; use jwks"] else [])
  else if c.auth.Mode = "jwks" then
    (if c.auth.JWKSURL = [] then [str "FORGE_AUTH_JWKS_URL is required when FORGE_AUTH_MODE=jwks"] else []) ++
      (if c.auth.Issuer = [] ∨ c.auth.Audience = [] then
        [str "FORGE_AUTH_ISSUER and FORGE_AUTH_AUDIENCE are required when FORGE_AUTH_MODE=jwks"] else [])
  else [str "FORGE_AUTH_MODE " ++ Fmt.Quote c.auth.Mode ++ str " is invalid (want hmac or jwks)"]

def problems (c : Config) : List GoString :=
  (if c.database.URL = [] then [str "FORGE_DB_URL is required"] else []) ++ c.authProblems ++
    (if c.database.MinConns > c.database.MaxConns then
      [str "FORGE_DB_MIN_CONNS must not exceed FORGE_DB_MAX_CONNS"] else [])

def validate (c : Config) : Except Err Unit :=
  if c.problems = [] then .ok ()
  else .error (.ext (str "invalid configuration: " ++ (str "; ").intercalate c.problems))

end Config

/-- The configuration before it is checked. -/
def read (env : Environ) : Config where
  Env := getStr env "FORGE_ENV" "development"
  HTTPAddr := httpAddr env
  ShutdownTimeout := getDur env "FORGE_SHUTDOWN_TIMEOUT" (15 * second)
  database := {
    URL := getStr env "FORGE_DB_URL" ""
    MaxConns := int32 (getInt env "FORGE_DB_MAX_CONNS" 10)
    MinConns := int32 (getInt env "FORGE_DB_MIN_CONNS" 2)
    MaxConnLifetime := getDur env "FORGE_DB_MAX_CONN_LIFETIME" (3600 * second)
    MaxConnIdleTime := getDur env "FORGE_DB_MAX_CONN_IDLE_TIME" (1800 * second) }
  auth := {
    Mode := getStr env "FORGE_AUTH_MODE" "hmac"
    HMACSecret := getStr env "FORGE_AUTH_HMAC_SECRET" ""
    JWKSURL := getStr env "FORGE_AUTH_JWKS_URL" ""
    Issuer := getStr env "FORGE_AUTH_ISSUER" ""
    Audience := getStr env "FORGE_AUTH_AUDIENCE" "" }
  telemetry := {
    ServiceName := getStr env "FORGE_OTEL_SERVICE_NAME" "forge-control-plane"
    OTLPEndpoint := getStr env "FORGE_OTEL_OTLP_ENDPOINT" "" }
  rateLimit := {
    RPS := getFloat env "FORGE_RATE_LIMIT_RPS" (GoNumbers.ofNat 50)
    Burst := getInt env "FORGE_RATE_LIMIT_BURST" 100 }
  events := {
    NATSURL := getStr env "FORGE_NATS_URL" "nats://localhost:4222"
    StreamName := getStr env "FORGE_EVENTS_STREAM" "FORGE_EVENTS"
    SubjectPrefix := getStr env "FORGE_EVENTS_SUBJECT_PREFIX" "forge.events" }
  relay := {
    BatchSize := getInt env "FORGE_RELAY_BATCH_SIZE" 100
    PollInterval := getDur env "FORGE_RELAY_POLL_INTERVAL" second }
  temporal := {
    HostPort := getStr env "FORGE_TEMPORAL_HOSTPORT" "localhost:7233"
    Namespace := getStr env "FORGE_TEMPORAL_NAMESPACE" "default"
    TaskQueue := getStr env "FORGE_TEMPORAL_TASK_QUEUE" "forge-provisioning" }

def Load (env : Environ) : Except Err Config := do
  (read env).validate
  return read env

/-! ### What passes -/

theorem no_problems_of_Load {env : Environ} {c : Config} (h : Load env = .ok c) : c.problems = [] := by
  obtain ⟨u, hval, hc⟩ := bind_eq_ok.1 h
  cases hc
  unfold Config.validate at hval
  split at hval
  · assumption
  · cases hval

/-- A configuration for production verifies tokens with published keys, and names the issuer and the audience. -/
theorem jwks_of_production {env : Environ} {c : Config} (h : Load env = .ok c) (hprod : c.IsProduction) :
    c.auth.Mode = "jwks" ∧ c.auth.Issuer ≠ [] ∧ c.auth.Audience ≠ [] := by
  have hp := no_problems_of_Load h
  simp only [Config.problems, List.append_eq_nil_iff] at hp
  obtain ⟨⟨-, hauth⟩, -⟩ := hp
  unfold Config.authProblems at hauth
  split at hauth
  · exact absurd (List.append_eq_nil_iff.1 hauth).2 (by simp)
  · split at hauth
    · rename_i hmode
      refine ⟨hmode, ?_⟩
      have hboth := (List.append_eq_nil_iff.1 hauth).2
      split at hboth
      · exact absurd hboth (List.cons_ne_nil _ _)
      · rename_i hne
        exact not_or.1 hne
    · exact absurd hauth (List.cons_ne_nil _ _)

end Forge.config
