import Forge.Lib.Base64
import Forge.Lib.Json
import Forge.Lib.Sha256

/-!
# JSON Web Tokens as `golang-jwt` reads them

A token is three base64 texts joined by dots: a JSON header that names the signing method, a JSON object of
claims, and the signature of the first two texts. `Library` is what a program gets from `golang-jwt`, with the laws
it can rely on: which tokens are parsed before their key is looked up, what the claims of a parsed token are, and
which claims are accepted once the signature is right. `Library.reference` is a library of this kind.
Floating-point numbers are a parameter: the dates of a token are JSON numbers, and are read as `float64`.
-/

namespace Forge

/-- `float64` and `time.Duration` as the Go library reads them from text; `none` is an error. -/
class GoNumbers where
  Float64 : Type
  ofNat : Nat → Float64
  ParseFloat : GoString → Option Float64
  /-- The time of so many seconds, without their fraction, in nanoseconds since 1970. -/
  Unix : Float64 → Int
  ParseDuration : GoString → Option Int

/-- Whole numbers only. -/
@[reducible] def GoNumbers.integers : GoNumbers where
  Float64 := Int
  ofNat n := n
  ParseFloat := GoString.ParseInt
  Unix f := f * 1000000000
  ParseDuration _ := none

namespace jwt

/-! ### Signing methods -/

inductive Method
  | HS256 | HS384 | HS512 | RS256 | RS384 | RS512 | ES256 | ES384 | ES512 | PS256 | PS384 | PS512 | EdDSA | none
deriving DecidableEq

namespace Method

def Alg : Method → GoString
  | HS256 => "HS256" | HS384 => "HS384" | HS512 => "HS512"
  | RS256 => "RS256" | RS384 => "RS384" | RS512 => "RS512"
  | ES256 => "ES256" | ES384 => "ES384" | ES512 => "ES512"
  | PS256 => "PS256" | PS384 => "PS384" | PS512 => "PS512"
  | EdDSA => "EdDSA" | none => "none"

def registered : List Method :=
  [HS256, HS384, HS512, RS256, RS384, RS512, ES256, ES384, ES512, PS256, PS384, PS512, EdDSA, none]

/-- The method is a `*SigningMethodHMAC`. -/
def isHMAC (m : Method) : Bool := m ∈ [HS256, HS384, HS512]

/-- The method is a `*SigningMethodRSA`; the methods with PSS padding are of another type. -/
def isRSA (m : Method) : Bool := m ∈ [RS256, RS384, RS512]

theorem eq_RS256 {m : Method} (h : m.Alg ∈ [str "RS256"]) : m = RS256 := by
  cases m <;> first | rfl | exact absurd h (by decide)

end Method

def GetSigningMethod (alg : GoString) : Option Method := Method.registered.find? (·.Alg = alg)

theorem GetSigningMethod_eq_some {alg : GoString} {m : Method} : GetSigningMethod alg = some m ↔ alg = m.Alg := by
  constructor
  · intro h
    simpa [eq_comm] using List.find?_some h
  · rintro rfl
    cases m <;> decide

/-- HMAC with SHA-256 (`crypto/hmac`). -/
def hmacSHA256 (key text : GoString) : GoString :=
  let k := if 64 < key.length then sha256.Sum256 key else key
  let k := k ++ List.replicate (64 - k.length) 0
  sha256.Sum256 (k.map (· ^^^ 0x5C) ++ sha256.Sum256 (k.map (· ^^^ 0x36) ++ text))

/-! ### Reading JSON -/

section
variable [GoNumbers]

mutual

/-- Every number of the value is one of `float64`. -/
def inRange : Json → Bool
  | .number text => (GoNumbers.ParseFloat text).isSome
  | .array vs => inRangeElems vs
  | .object ms => inRangeMembers ms
  | _ => true

def inRangeElems : List Json → Bool
  | [] => true
  | v :: vs => inRange v && inRangeElems vs

def inRangeMembers : List (GoString × Json) → Bool
  | [] => true
  | (_, v) :: ms => inRange v && inRangeMembers ms

end

/-- `json.Unmarshal` into a map. -/
def unmarshalMap (data : GoString) : Option (List (GoString × Json)) :=
  match Json.parse data with
  | some .null => some []
  | some (.object ms) => if inRangeMembers ms then some ms else none
  | _ => none

/-- The entry of the map, a string; of several members of one name the last one counts. -/
def stringEntry (ms : List (GoString × Json)) (key : GoString) : Option GoString :=
  match ms.reverse.find? (·.1 = key) with
  | some (_, .string s) => some s
  | _ => none

/-- A value decoded into a string that holds `old`. -/
def stringField (old : GoString) : Json → Option GoString
  | .string s => some s
  | .null => some old
  | _ => none

/-- `ClaimStrings.UnmarshalJSON`: one string, or an array of them. -/
def claimStrings (old : List GoString) : Json → Option (List GoString)
  | .string s => some [s]
  | .array vs => vs.mapM fun
    | .string s => some s
    | _ => none
  | .null => some old
  | _ => none

def isValidNumber (text : GoString) : Bool :=
  match Json.scanNumber text with
  | some (_, []) => true
  | _ => false

/-- A `*NumericDate`: null, a number, or a string that is one. -/
def numericDate : Json → Option (Option Int)
  | .null => some none
  | .number text => (GoNumbers.ParseFloat text).map fun f => some (GoNumbers.Unix f)
  | .string text =>
    if isValidNumber text then (GoNumbers.ParseFloat text).map fun f => some (GoNumbers.Unix f) else none
  | _ => none

end

/-! ### Claims -/

structure RegisteredClaims where
  Issuer : GoString
  Subject : GoString
  Audience : List GoString
  ExpiresAt : Option Int
  NotBefore : Option Int
  IssuedAt : Option Int
  ID : GoString
deriving DecidableEq

def RegisteredClaims.zero : RegisteredClaims := ⟨[], [], [], none, none, none, []⟩

/-- The member has this name; upper and lower case are the same to `encoding/json`. -/
def Named (name : GoString) (m : GoString × Json) : Prop := Json.foldName m.1 = Json.foldName name

instance (name : GoString) (m : GoString × Json) : Decidable (Named name m) :=
  inferInstanceAs (Decidable (Json.foldName m.1 = Json.foldName name))

/-- A member of the payload decoded into the claim `name` that holds `x`; other members do not change it. -/
def readMember {α : Type} (name : GoString) (read : α → Json → Option α) (x : α) (m : GoString × Json) : Option α :=
  if Named name m then read x m.2 else some x

theorem readMember_of_ne {α : Type} {name name' : GoString} {read : α → Json → Option α} {m : GoString × Json} (x : α)
    (hm : Named name' m) (hne : Json.foldName name' ≠ Json.foldName name) : readMember name read x m = some x :=
  if_neg fun hm' => hne (hm.symm.trans hm')

/-- The claims that are checked are what the members of the payload say. -/
structure Says [GoNumbers] (payload : List (GoString × Json)) (c : RegisteredClaims) : Prop where
  iss : payload.foldlM (readMember "iss" stringField) [] = some c.Issuer
  sub : payload.foldlM (readMember "sub" stringField) [] = some c.Subject
  aud : payload.foldlM (readMember "aud" claimStrings) [] = some c.Audience
  exp : payload.foldlM (readMember "exp" fun _ => numericDate) none = some c.ExpiresAt
  nbf : payload.foldlM (readMember "nbf" fun _ => numericDate) none = some c.NotBefore

/-! ### Tokens -/

structure Token (γ : Type) where
  Method : Method
  /-- The header `kid` if it is a string. -/
  kid : GoString
  Claims : γ
  /-- What is signed: the first two segments. -/
  text : GoString
  Signature : GoString
deriving DecidableEq

/-- `raw` is the compact form of the token: the header, the payload and the signature in base64, joined by dots. -/
structure Compact [GoNumbers] {γ : Type} (decode : GoString → Option γ) (raw : GoString) (t : Token γ)
    (header : List (GoString × Json)) (payload : GoString) : Prop where
  segments : ∃ h c s, raw.splitOn 0x2E = [h, c, s] ∧ t.text = h ++ 0x2E :: c ∧
    (Base64.DecodeString h).bind unmarshalMap = some header ∧ Base64.DecodeString c = some payload ∧
    Base64.DecodeString s = some t.Signature
  alg : stringEntry header "alg" = some t.Method.Alg
  kid : (stringEntry header "kid").getD [] = t.kid
  claims : decode payload = some t.Claims

/-- What `Validator` is asked for; an empty issuer or audience is not looked at. -/
structure Validator where
  expectedIss : GoString
  expectedAud : GoString
  requireExp : Bool

/-! ### The library -/

/-- The parts of `golang-jwt` behind `ParseWithClaims`, which parses the token, asks the caller for a key, verifies
the signature with it, and validates the claims. -/
class Library [GoNumbers] where
  /-- What happens before the key is asked for, with the methods of `WithValidMethods`. -/
  parse {γ : Type} (decode : GoString → Option γ) (valid : List GoString) (raw : GoString) : Option (Token γ)
  /-- One member of the payload decoded into `RegisteredClaims`; `none`: it has the wrong type. -/
  set : RegisteredClaims → GoString × Json → Option RegisteredClaims
  /-- `Validator.Validate` at this time. -/
  Validate : Validator → Int → RegisteredClaims → Bool
  /-- A token is parsed if it is in compact form and of a valid method. -/
  parse_iff {γ : Type} (decode : GoString → Option γ) (valid : List GoString) (raw : GoString) (t : Token γ) :
    parse decode valid raw = some t ↔ (∃ header payload, Compact decode raw t header payload) ∧ t.Method.Alg ∈ valid
  set_iss {c c' : RegisteredClaims} {m : GoString × Json} :
    set c m = some c' → readMember "iss" stringField c.Issuer m = some c'.Issuer
  set_sub {c c' : RegisteredClaims} {m : GoString × Json} :
    set c m = some c' → readMember "sub" stringField c.Subject m = some c'.Subject
  set_aud {c c' : RegisteredClaims} {m : GoString × Json} :
    set c m = some c' → readMember "aud" claimStrings c.Audience m = some c'.Audience
  set_exp {c c' : RegisteredClaims} {m : GoString × Json} :
    set c m = some c' → readMember "exp" (fun _ => numericDate) c.ExpiresAt m = some c'.ExpiresAt
  set_nbf {c c' : RegisteredClaims} {m : GoString × Json} :
    set c m = some c' → readMember "nbf" (fun _ => numericDate) c.NotBefore m = some c'.NotBefore
  /-- `WithIssuer`. -/
  Validate_iss {v : Validator} {now : Int} {c : RegisteredClaims} :
    Validate v now c = true → v.expectedIss ≠ [] → c.Issuer = v.expectedIss
  /-- `WithAudience`. -/
  Validate_aud {v : Validator} {now : Int} {c : RegisteredClaims} :
    Validate v now c = true → v.expectedAud ≠ [] → v.expectedAud ∈ c.Audience
  /-- `WithExpirationRequired`. -/
  Validate_requireExp {v : Validator} {now : Int} {c : RegisteredClaims} :
    Validate v now c = true → v.requireExp = true → c.ExpiresAt ≠ none
  Validate_exp {v : Validator} {now exp : Int} {c : RegisteredClaims} :
    Validate v now c = true → c.ExpiresAt = some exp → now < exp
  Validate_nbf {v : Validator} {now nbf : Int} {c : RegisteredClaims} :
    Validate v now c = true → c.NotBefore = some nbf → nbf ≤ now
  /-- There is no other reason to refuse a token that has a date of expiry. -/
  Validate_intro {v : Validator} {now exp : Int} {c : RegisteredClaims} (hexp : c.ExpiresAt = some exp) (hlt : now < exp)
    (hnbf : ∀ nbf, c.NotBefore = some nbf → nbf ≤ now) (haud : v.expectedAud ∈ c.Audience)
    (hiss : c.Issuer = v.expectedIss) : Validate v now c = true

/-- A field of the claims that each member of the payload is read into is what all of them say. -/
theorem foldlM_readMember {σ α : Type} {name : GoString} {read : α → Json → Option α} {f : σ → α}
    {set : σ → GoString × Json → Option σ} {c c' : σ} {ms : List (GoString × Json)}
    (hset : ∀ c m c', set c m = some c' → readMember name read (f c) m = some (f c'))
    (h : ms.foldlM set c = some c') : ms.foldlM (readMember name read) (f c) = some (f c') := by
  induction ms generalizing c with
  | nil =>
    cases h
    rfl
  | cons m ms ih =>
    rw [List.foldlM_cons] at h ⊢
    obtain ⟨c₁, hc₁, h⟩ := Option.bind_eq_some_iff.1 h
    rw [hset c m c₁ hc₁]
    exact ih h

/-! ### A library -/

namespace Reference

section
variable [GoNumbers]

def parse {γ : Type} (decode : GoString → Option γ) (valid : List GoString) (raw : GoString) : Option (Token γ) :=
  match raw.splitOn 0x2E with
  | [h, c, s] => do
    let header ← (Base64.DecodeString h).bind unmarshalMap
    let claims ← (Base64.DecodeString c).bind decode
    let alg ← stringEntry header "alg"
    let method ← GetSigningMethod alg
    if valid.any (· = method.Alg) then
      let sig ← Base64.DecodeString s
      return ⟨method, (stringEntry header "kid").getD [], claims, h ++ 0x2E :: c, sig⟩
    else none
  | _ => none

def set (c : RegisteredClaims) (m : GoString × Json) : Option RegisteredClaims :=
  if Named "iss" m then (stringField c.Issuer m.2).map fun s => { c with Issuer := s }
  else if Named "sub" m then (stringField c.Subject m.2).map fun s => { c with Subject := s }
  else if Named "aud" m then (claimStrings c.Audience m.2).map fun a => { c with Audience := a }
  else if Named "exp" m then (numericDate m.2).map fun t => { c with ExpiresAt := t }
  else if Named "nbf" m then (numericDate m.2).map fun t => { c with NotBefore := t }
  else if Named "iat" m then (numericDate m.2).map fun t => { c with IssuedAt := t }
  else if Named "jti" m then (stringField c.ID m.2).map fun s => { c with ID := s }
  else some c

end

def verifyExpiresAt (v : Validator) (now : Int) : Option Int → Bool
  | none => ! v.requireExp
  | some exp => now < exp

def verifyNotBefore (now : Int) : Option Int → Bool
  | none => true
  | some nbf => ! decide (now < nbf)

/-- A token whose audiences are all empty has none. -/
def verifyAudience (cmp : GoString) (aud : List GoString) : Bool := aud.flatten ≠ [] ∧ aud.any (· = cmp)

def Validate (v : Validator) (now : Int) (c : RegisteredClaims) : Bool :=
  verifyExpiresAt v now c.ExpiresAt && verifyNotBefore now c.NotBefore &&
    (decide (v.expectedAud = []) || verifyAudience v.expectedAud c.Audience) &&
    (decide (v.expectedIss = []) || decide (c.Issuer = v.expectedIss))

section
variable [GoNumbers] {c c' : RegisteredClaims} {m : GoString × Json}

theorem parse_iff {γ : Type} (decode : GoString → Option γ) (valid : List GoString) (raw : GoString) (t : Token γ) :
    parse decode valid raw = some t ↔
      (∃ header payload, Compact decode raw t header payload) ∧ t.Method.Alg ∈ valid := by
  constructor
  · intro h
    unfold parse at h
    split at h
    · rename_i hd c s hraw
      simp only [Option.bind_eq_bind, Option.bind_eq_some_iff] at h
      obtain ⟨header, ⟨hbytes, hhd, hheader⟩, claims, ⟨payload, hc, hclaims⟩, alg, halg, method, hmethod, h⟩ := h
      obtain rfl := GetSigningMethod_eq_some.1 hmethod
      split at h
      · rename_i hvalid
        obtain ⟨sig, hs, h⟩ := Option.bind_eq_some_iff.1 h
        cases h
        refine ⟨⟨header, payload, ⟨hd, c, s, hraw, rfl, ?_, hc, hs⟩, halg, rfl, hclaims⟩, by simpa using hvalid⟩
        rw [hhd]
        exact hheader
      · cases h
    · cases h
  · rintro ⟨⟨header, payload, ⟨hd, c, s, hraw, htext, hheader, hc, hs⟩, halg, hkid, hclaims⟩, hvalid⟩
    have hany : valid.any (· = t.Method.Alg) = true := by simpa using hvalid
    unfold parse
    rw [hraw]
    simp only [hheader, hc, Option.bind_some, Option.bind_eq_bind, hclaims, halg,
      GetSigningMethod_eq_some.2 rfl, hany, if_true, hs, hkid, ← htext]
    rfl

theorem set_says (h : set c m = some c') :
    readMember "iss" stringField c.Issuer m = some c'.Issuer ∧
    readMember "sub" stringField c.Subject m = some c'.Subject ∧
    readMember "aud" claimStrings c.Audience m = some c'.Audience ∧
    readMember "exp" (fun _ => numericDate) c.ExpiresAt m = some c'.ExpiresAt ∧
    readMember "nbf" (fun _ => numericDate) c.NotBefore m = some c'.NotBefore := by
  unfold set at h
  split at h
  · rename_i hm
    obtain ⟨s, hs, rfl⟩ := Option.map_eq_some_iff.1 h
    refine ⟨(if_pos hm).trans hs, ?_, ?_, ?_, ?_⟩ <;> exact readMember_of_ne _ hm (by decide)
  split at h
  · rename_i hm
    obtain ⟨s, hs, rfl⟩ := Option.map_eq_some_iff.1 h
    refine ⟨?_, (if_pos hm).trans hs, ?_, ?_, ?_⟩ <;> exact readMember_of_ne _ hm (by decide)
  split at h
  · rename_i hm
    obtain ⟨a, ha, rfl⟩ := Option.map_eq_some_iff.1 h
    refine ⟨?_, ?_, (if_pos hm).trans ha, ?_, ?_⟩ <;> exact readMember_of_ne _ hm (by decide)
  split at h
  · rename_i hm
    obtain ⟨t, ht, rfl⟩ := Option.map_eq_some_iff.1 h
    refine ⟨?_, ?_, ?_, (if_pos hm).trans ht, ?_⟩ <;> exact readMember_of_ne _ hm (by decide)
  split at h
  · rename_i hm
    obtain ⟨t, ht, rfl⟩ := Option.map_eq_some_iff.1 h
    refine ⟨?_, ?_, ?_, ?_, (if_pos hm).trans ht⟩ <;> exact readMember_of_ne _ hm (by decide)
  split at h
  · rename_i hm
    obtain ⟨t, -, rfl⟩ := Option.map_eq_some_iff.1 h
    refine ⟨?_, ?_, ?_, ?_, ?_⟩ <;> exact readMember_of_ne _ hm (by decide)
  split at h
  · rename_i hm
    obtain ⟨s, -, rfl⟩ := Option.map_eq_some_iff.1 h
    refine ⟨?_, ?_, ?_, ?_, ?_⟩ <;> exact readMember_of_ne _ hm (by decide)
  · rename_i hiss hsub haud hexp hnbf _ _
    cases h
    exact ⟨if_neg hiss, if_neg hsub, if_neg haud, if_neg hexp, if_neg hnbf⟩

end

section
variable {v : Validator} {now : Int} {c : RegisteredClaims}

theorem verifyExpiresAt_iff : verifyExpiresAt v now c.ExpiresAt = true ↔
    (v.requireExp = true → c.ExpiresAt ≠ none) ∧ ∀ exp, c.ExpiresAt = some exp → now < exp := by
  cases c.ExpiresAt <;> simp [verifyExpiresAt]

theorem verifyNotBefore_iff : verifyNotBefore now c.NotBefore = true ↔ ∀ nbf, c.NotBefore = some nbf → nbf ≤ now := by
  cases c.NotBefore <;> simp [verifyNotBefore]

theorem verifyAudience_iff {cmp : GoString} (hcmp : cmp ≠ []) : verifyAudience cmp c.Audience = true ↔ cmp ∈ c.Audience := by
  have hflat : cmp ∈ c.Audience → c.Audience.flatten ≠ [] := fun hmem hnil =>
    hcmp (List.flatten_eq_nil_iff.1 hnil _ hmem)
  simpa [verifyAudience] using hflat

theorem Validate_iff : Validate v now c = true ↔
    (v.requireExp = true → c.ExpiresAt ≠ none) ∧ (∀ exp, c.ExpiresAt = some exp → now < exp) ∧
      (∀ nbf, c.NotBefore = some nbf → nbf ≤ now) ∧ (v.expectedAud ≠ [] → v.expectedAud ∈ c.Audience) ∧
      (v.expectedIss ≠ [] → c.Issuer = v.expectedIss) := by
  have haud : (decide (v.expectedAud = []) || verifyAudience v.expectedAud c.Audience) = true ↔
      (v.expectedAud ≠ [] → v.expectedAud ∈ c.Audience) := by
    by_cases h : v.expectedAud = []
    · simp [h]
    · simp [h, verifyAudience_iff h]
  have hiss : (decide (v.expectedIss = []) || decide (c.Issuer = v.expectedIss)) = true ↔
      (v.expectedIss ≠ [] → c.Issuer = v.expectedIss) := by
    by_cases h : v.expectedIss = [] <;> simp [h]
  simp only [Validate, Bool.and_eq_true, verifyExpiresAt_iff, verifyNotBefore_iff, haud, hiss, and_assoc]

end

end Reference

@[reducible] def Library.reference [GoNumbers] : Library where
  parse := Reference.parse
  set := Reference.set
  Validate := Reference.Validate
  parse_iff := Reference.parse_iff
  set_iss h := (Reference.set_says h).1
  set_sub h := (Reference.set_says h).2.1
  set_aud h := (Reference.set_says h).2.2.1
  set_exp h := (Reference.set_says h).2.2.2.1
  set_nbf h := (Reference.set_says h).2.2.2.2
  Validate_iss h := (Reference.Validate_iff.1 h).2.2.2.2
  Validate_aud h := (Reference.Validate_iff.1 h).2.2.2.1
  Validate_requireExp h := (Reference.Validate_iff.1 h).1
  Validate_exp h := (Reference.Validate_iff.1 h).2.1 _
  Validate_nbf h := (Reference.Validate_iff.1 h).2.2.1 _
  Validate_intro hexp hlt hnbf haud hiss := by
    refine Reference.Validate_iff.2 ⟨fun _ => by simp [hexp], fun exp h => ?_, hnbf, fun _ => haud, fun _ => hiss⟩
    cases hexp.symm.trans h
    exact hlt

end jwt

end Forge
