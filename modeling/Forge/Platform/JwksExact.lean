import Mathlib.Data.Nat.Digits.Defs
import Forge.Platform.Jwks

/-!
# What a refresh installs

A refresh either refuses the document and leaves the cache alone, or installs, under each key id of an RSA entry,
the last such entry. The modulus is the number its field encodes, and so is the exponent as long as it is an
`int64`: `big.Int.Int64` of a larger one is its low 64 bits, and an empty field is the exponent 0
(`refresh_exact_iff`).
-/

namespace Forge.httpx

/-- The unsigned big-endian number a base64url field encodes. -/
def fieldNumber (s : GoString) : Option Nat :=
  (Base64.DecodeString s).map fun bytes => Nat.ofDigits 256 (bytes.reverse.map UInt8.toNat)

/-- The last RSA entry with this key id. -/
def lastRSA (doc : List JWK) (kid : GoString) : Option JWK :=
  (doc.filter fun k => k.Kty = str "RSA" ∧ k.Kid = kid).getLast?

/-- The keys are those of the document. -/
structure Exact (doc : List JWK) (keys : Keys) : Prop where
  kids : ∀ kid, (∃ key, keys kid = some key) ↔ ∃ k ∈ doc, k.Kty = str "RSA" ∧ k.Kid = kid
  last : ∀ kid k, lastRSA doc kid = some k → ∃ n e, fieldNumber k.N = some n ∧ fieldNumber k.E = some e ∧
    keys kid = some ⟨n, e⟩ ∧ 0 < e

/-- The fields of every RSA entry are base64url. -/
def Decodable (doc : List JWK) : Prop :=
  ∀ k ∈ doc, k.Kty = str "RSA" → (fieldNumber k.N).isSome ∧ (fieldNumber k.E).isSome

/-- The exponent of every RSA entry that is the last one with its key id is positive and an `int64`. -/
def InRange (doc : List JWK) : Prop :=
  ∀ kid k e, lastRSA doc kid = some k → fieldNumber k.E = some e → 0 < e ∧ e < 2 ^ 63

/-! ### Numbers -/

theorem SetBytes_eq (bytes : GoString) : BigInt.SetBytes bytes = Nat.ofDigits 256 (bytes.reverse.map UInt8.toNat) := by
  induction bytes using List.reverseRecOn with
  | nil => rfl
  | append_singleton bytes b ih =>
    rw [List.reverse_append, List.reverse_singleton, List.singleton_append, List.map_cons, Nat.ofDigits_cons, ← ih,
      BigInt.SetBytes, List.foldl_append]
    simp only [List.foldl_cons, List.foldl_nil, BigInt.SetBytes]
    ring

theorem Int64_eq_iff (n : Nat) : BigInt.Int64 n = n ↔ n < 2 ^ 63 := by
  rw [BigInt.Int64, BitVec.toInt_ofNat', Int.bmod_def]
  split <;> omega

/-! ### The loop over the entries -/

/-- The key of an entry. -/
def entryKey (k : JWK) : Option PublicKey := do
  let n ← fieldNumber k.N
  let e ← fieldNumber k.E
  return ⟨n, BigInt.Int64 e⟩

theorem parseKeys_skip {k : JWK} (h : k.Kty ≠ str "RSA") (parsed : Keys) (ks : List JWK) :
    parseKeys parsed (k :: ks) = parseKeys parsed ks :=
  if_pos h

theorem parseKeys_rsa {k : JWK} (h : k.Kty = str "RSA") (parsed : Keys) (ks : List JWK) :
    parseKeys parsed (k :: ks) = (entryKey k).elim (.error (.ext "illegal base64 data")) fun key =>
      parseKeys (Function.update parsed k.Kid (some key)) ks := by
  rw [parseKeys, if_neg (not_not.2 h)]
  unfold decodeField entryKey fieldNumber
  cases Base64.DecodeString k.N with
  | none => rfl
  | some n =>
    cases Base64.DecodeString k.E with
    | none => rfl
    | some e =>
      simp only [Option.map_some, Option.bind_eq_bind, Option.bind_some, SetBytes_eq]
      rfl

theorem isSome_entryKey (k : JWK) : (entryKey k).isSome ↔ (fieldNumber k.N).isSome ∧ (fieldNumber k.E).isSome := by
  unfold entryKey
  cases fieldNumber k.N <;> cases fieldNumber k.E <;> simp

theorem lastRSA_cons (k : JWK) (ks : List JWK) (kid : GoString) : lastRSA (k :: ks) kid =
    (lastRSA ks kid).or (if k.Kty = str "RSA" ∧ k.Kid = kid then some k else none) := by
  unfold lastRSA
  by_cases h : k.Kty = str "RSA" ∧ k.Kid = kid
  · rw [List.filter_cons_of_pos (by simpa using h), List.getLast?_cons, if_pos h]
    cases (ks.filter fun k => k.Kty = str "RSA" ∧ k.Kid = kid).getLast? <;> rfl
  · rw [List.filter_cons_of_neg (by simpa using h), if_neg h, Option.or_none]

theorem lastRSA_isSome {doc : List JWK} {kid : GoString} :
    (lastRSA doc kid).isSome ↔ ∃ k ∈ doc, k.Kty = str "RSA" ∧ k.Kid = kid := by
  rw [lastRSA, List.getLast?_isSome, ne_eq, List.filter_eq_nil_iff]
  simp

/-- The loop ends with the last RSA entry under each key id. -/
theorem parseKeys_ok {parsed keys : Keys} {doc : List JWK} (h : parseKeys parsed doc = .ok keys) :
    Decodable doc ∧ ∀ kid, keys kid = (lastRSA doc kid).elim (parsed kid) entryKey := by
  induction doc generalizing parsed with
  | nil =>
    cases h
    exact ⟨fun _ hk => absurd hk List.not_mem_nil, fun _ => rfl⟩
  | cons k ks ih =>
    by_cases hrsa : k.Kty = str "RSA"
    · rw [parseKeys_rsa hrsa] at h
      cases hkey : entryKey k with
      | none =>
        rw [hkey] at h
        cases h
      | some key =>
        rw [hkey] at h
        obtain ⟨hdec, hkeys⟩ := ih h
        have hfields := (isSome_entryKey k).1 (by rw [hkey]; rfl)
        refine ⟨List.forall_mem_cons.2 ⟨fun _ => hfields, hdec⟩, fun kid => ?_⟩
        rw [hkeys, lastRSA_cons]
        cases lastRSA ks kid with
        | some _ => rfl
        | none =>
          by_cases hkid : k.Kid = kid
          · simp [hrsa, hkid, hkey]
          · simp [hkid, Function.update_of_ne (Ne.symm hkid)]
    · rw [parseKeys_skip hrsa] at h
      obtain ⟨hdec, hkeys⟩ := ih h
      refine ⟨List.forall_mem_cons.2 ⟨fun he => absurd he hrsa, hdec⟩, fun kid => ?_⟩
      rw [hkeys, lastRSA_cons, if_neg fun he => hrsa he.1, Option.or_none]

theorem parseKeys_of_decodable {doc : List JWK} (h : Decodable doc) (parsed : Keys) :
    ∃ keys, parseKeys parsed doc = .ok keys := by
  induction doc generalizing parsed with
  | nil => exact ⟨parsed, rfl⟩
  | cons k ks ih =>
    obtain ⟨hk, hks⟩ := List.forall_mem_cons.1 h
    by_cases hrsa : k.Kty = str "RSA"
    · obtain ⟨key, hkey⟩ := Option.isSome_iff_exists.1 ((isSome_entryKey k).2 (hk hrsa))
      rw [parseKeys_rsa hrsa, hkey]
      exact ih hks _
    · rw [parseKeys_skip hrsa]
      exact ih hks _

section
variable {doc : List JWK} {keys : Keys} {kid : GoString}

/-- What is installed under a key id: the numbers of the last entry, of the exponent its low 64 bits. -/
theorem key_of_lastRSA {k : JWK} (h : parseKeys (fun _ => none) doc = .ok keys) (hk : lastRSA doc kid = some k) :
    ∃ n e, fieldNumber k.N = some n ∧ fieldNumber k.E = some e ∧ keys kid = some ⟨n, BigInt.Int64 e⟩ := by
  obtain ⟨hdec, hkeys⟩ := parseKeys_ok h
  have hmem := List.mem_filter.1 (List.mem_of_getLast? hk)
  obtain ⟨hN, hE⟩ := hdec k hmem.1 (of_decide_eq_true hmem.2).1
  obtain ⟨n, hn⟩ := Option.isSome_iff_exists.1 hN
  obtain ⟨e, he⟩ := Option.isSome_iff_exists.1 hE
  refine ⟨n, e, hn, he, ?_⟩
  rw [hkeys, hk, Option.elim_some, entryKey, hn, he]
  rfl

theorem installed_iff (h : parseKeys (fun _ => none) doc = .ok keys) :
    (∃ key, keys kid = some key) ↔ ∃ k ∈ doc, k.Kty = str "RSA" ∧ k.Kid = kid := by
  rw [← lastRSA_isSome]
  cases hk : lastRSA doc kid with
  | none =>
    rw [(parseKeys_ok h).2, hk]
    simp
  | some k =>
    obtain ⟨n, e, -, -, hkey⟩ := key_of_lastRSA h hk
    simp [hkey]

/-- The keys are those of the document exactly if the exponents are. -/
theorem exact_iff (h : parseKeys (fun _ => none) doc = .ok keys) : Exact doc keys ↔ InRange doc := by
  constructor
  · intro hexact kid k e hk he
    obtain ⟨n, e', -, he', hkey⟩ := key_of_lastRSA h hk
    obtain ⟨n', e'', -, he'', hkey', hpos⟩ := hexact.last kid k hk
    cases he.symm.trans he'
    cases he.symm.trans he''
    have hE : BigInt.Int64 e = e := congrArg PublicKey.E (Option.some.inj (hkey.symm.trans hkey'))
    exact ⟨hpos, (Int64_eq_iff e).1 hE⟩
  · intro hrange
    refine ⟨fun kid => installed_iff h, fun kid k hk => ?_⟩
    obtain ⟨n, e, hn, he, hkey⟩ := key_of_lastRSA h hk
    obtain ⟨hpos, hlt⟩ := hrange kid k e hk he
    rw [(Int64_eq_iff e).2 hlt] at hkey
    exact ⟨n, e, hn, he, hkey, hpos⟩

end

/-! ### A refresh -/

namespace JWKSVerifier

/-- A refresh of `v` with the response has refused it and changed nothing, or has installed the keys of its
document. -/
def ExactOrRefused (resp : HTTPResponse) (v v' : JWKSVerifier) (result : Except Err Unit) : Prop :=
  (∃ e, result = .error e ∧ v' = v) ∨
    result = .ok () ∧ ∃ doc, decodeDocument resp.Body = some doc ∧ Exact doc v'.keys

theorem parseResponse_ok {resp : HTTPResponse} {keys : Keys} (h : parseResponse resp = .ok keys) :
    resp.StatusCode = 200 ∧ ∃ doc, decodeDocument resp.Body = some doc ∧ parseKeys (fun _ => none) doc = .ok keys := by
  unfold parseResponse at h
  split at h
  · cases h
  · rename_i hstatus
    cases hdoc : decodeDocument resp.Body with
    | none =>
      rw [hdoc] at h
      cases h
    | some doc =>
      rw [hdoc] at h
      exact ⟨not_not.1 hstatus, doc, rfl, h⟩

section
variable {p : Nat} {w w' : World} {cs : List Choice} {result : Except Err Unit}

theorem storeParsed_exec {parsed : Except Err Keys}
    (h : (storeParsed parsed).exec (World.call p) cs w = some (result, w')) :
    (∃ e, result = .error e ∧ w' = w) ∨ ∃ keys t, parsed = .ok keys ∧ result = .ok () ∧ w'.verifier = ⟨keys, t⟩ := by
  cases parsed with
  | error e =>
    obtain ⟨rfl, rfl⟩ := Proc.exec_ret h
    exact .inl ⟨e, rfl, rfl⟩
  | ok keys =>
    rw [storeParsed, Call.perform, Proc.perform_bind] at h
    obtain ⟨c, cs, a, w₁, rfl, hstore, h⟩ := Proc.exec_call h
    obtain ⟨rfl, rfl⟩ := Proc.exec_ret h
    cases World.call_did hstore with
    | store _ t => exact .inr ⟨keys, t, rfl, rfl, rfl⟩

/-- A refresh that runs alone reads the document the endpoint serves. Either something fails, and the verifier is
as it was, or the keys of the document are stored. -/
theorem refresh_exec {resp : HTTPResponse} (hserved : w.served.getLast? = some resp)
    (h : refresh.exec (World.call p) cs w = some (result, w')) :
    (∃ e, result = .error e ∧ w'.verifier = w.verifier) ∨
      ∃ keys t, parseResponse resp = .ok keys ∧ result = .ok () ∧ w'.verifier = ⟨keys, t⟩ := by
  rw [refresh, Call.perform, Proc.perform_bind] at h
  obtain ⟨c, cs, a, w₁, rfl, hsend, h⟩ := Proc.exec_call h
  cases World.call_did hsend with
  | unsent text =>
    obtain ⟨rfl, rfl⟩ := Proc.exec_ret h
    exact .inl ⟨_, rfl, rfl⟩
  | send =>
    simp only [Call.perform, Proc.perform_bind] at h
    obtain ⟨c, cs, a, w₂, rfl, hreceive, h⟩ := Proc.exec_call h
    cases World.call_did hreceive with
    | unanswered text =>
      obtain ⟨rfl, rfl⟩ := Proc.exec_ret h
      exact .inl ⟨_, rfl, rfl⟩
    | @receive n i resp' hn hi hle =>
      -- nothing is served between the sending and the response
      have hsent : Function.update w.sent p (some (w.served.length - 1)) p = some n := hn
      rw [Function.update_self, Option.some.injEq] at hsent
      have hlt : i < w.served.length := (List.getElem?_eq_some_iff.1 hi).1
      obtain rfl : i = w.served.length - 1 := by omega
      obtain rfl : resp = resp' := by
        rw [List.getLast?_eq_getElem?] at hserved
        exact Option.some.inj (hserved.symm.trans hi)
      rcases storeParsed_exec h with ⟨e, hresult, rfl⟩ | hstored
      · exact .inl ⟨e, hresult, rfl⟩
      · exact .inr hstored

end

/-- The run in which nothing fails. -/
theorem refresh_stores {resp : HTTPResponse} {keys : Keys} (h : parseResponse resp = .ok keys) :
    ∃ w', refresh.exec (World.call 0) [.ok, .answer 0, .time 0] (World.init resp) = some (.ok (), w') ∧
      w'.verifier.keys = keys := by
  have hrun : refresh.exec (World.call 0) [.ok, .answer 0, .time 0] (World.init resp) =
      (storeParsed (parseResponse resp)).exec (World.call 0) [.time 0] { World.init resp with
        sent := Function.update (fun _ => none) 0 (some 0)
        received := Function.update (fun _ => none) 0 (some ⟨0, 0⟩) } := rfl
  rw [h] at hrun
  exact ⟨_, hrun, rfl⟩

/-- For every response the endpoint may serve: a refresh refuses it, leaving the cache as it was, or installs
exactly the keys of its document, if and only if no exponent of a document it accepts is 0 or too large for an
`int64`. -/
theorem refresh_exact_iff (resp : HTTPResponse) :
    (∀ p w cs result w', w.served.getLast? = some resp →
      refresh.exec (World.call p) cs w = some (result, w') → ExactOrRefused resp w.verifier w'.verifier result) ↔
    ∀ doc, resp.StatusCode = 200 → decodeDocument resp.Body = some doc → Decodable doc → InRange doc := by
  constructor
  · intro h doc hstatus hdoc hdec
    obtain ⟨keys, hkeys⟩ := parseKeys_of_decodable hdec fun _ => none
    have hparse : parseResponse resp = .ok keys := by
      rw [parseResponse, if_neg (not_not.2 hstatus), hdoc]
      exact hkeys
    obtain ⟨w', hrun, rfl⟩ := refresh_stores hparse
    rcases h 0 _ _ _ w' rfl hrun with ⟨e, he, -⟩ | ⟨-, doc', hdoc', hexact⟩
    · cases he
    · cases hdoc.symm.trans hdoc'
      exact (exact_iff hkeys).1 hexact
  · intro h p w cs result w' hserved hrun
    rcases refresh_exec hserved hrun with hfailed | ⟨keys, t, hparse, hresult, hverifier⟩
    · exact .inl hfailed
    · obtain ⟨hstatus, doc, hdoc, hkeys⟩ := parseResponse_ok hparse
      refine .inr ⟨hresult, doc, hdoc, ?_⟩
      rw [hverifier]
      exact (exact_iff hkeys).2 (h doc hstatus hdoc (parseKeys_ok hkeys).1)

/-! ### A long exponent -/

/-- A document with one RSA key. -/
def oneExponent (e : String) : HTTPResponse :=
  ⟨200, str "\x7b\"keys\":[\x7b\"kty\":\"RSA\",\"kid\":\"k\",\"n\":\"AQ\",\"e\":\"" ++ str e ++ str "\"\x7d]\x7d"⟩

def longExponent : JWK := ⟨"RSA", "k", "AQ", "AQAAAAAAAAAB"⟩

/-- The exponent of nine bytes, 2 ^ 64 + 1, is installed as 1. -/
theorem exponent_truncated : fieldNumber "AQAAAAAAAAAB" = some 18446744073709551617 ∧
    ∃ w', refresh.exec (World.call 0) [.ok, .answer 0, .time 0] (World.init (oneExponent "AQAAAAAAAAAB")) =
        some (.ok (), w') ∧ w'.verifier.keys "k" = some ⟨1, 1⟩ ∧
      ¬ ExactOrRefused (oneExponent "AQAAAAAAAAAB") JWKSVerifier.new w'.verifier (.ok ()) := by
  have hdoc : decodeDocument (oneExponent "AQAAAAAAAAAB").Body = some [longExponent] := by decide +kernel
  have hN : fieldNumber longExponent.N = some 1 := by decide +kernel
  have hE : fieldNumber longExponent.E = some 18446744073709551617 := by decide +kernel
  have hdec : Decodable [longExponent] := by
    intro k hk _
    rw [List.mem_singleton.1 hk, hN, hE]
    exact ⟨rfl, rfl⟩
  obtain ⟨keys, hkeys⟩ := parseKeys_of_decodable hdec fun _ => none
  have hparse : parseResponse (oneExponent "AQAAAAAAAAAB") = .ok keys := by
    rw [parseResponse, hdoc]
    exact hkeys
  have hlast : lastRSA [longExponent] "k" = some longExponent := by decide +kernel
  obtain ⟨w', hrun, hw⟩ := refresh_stores hparse
  refine ⟨hE, w', hrun, ?_, ?_⟩
  · obtain ⟨n, e, hn, he, hkey⟩ := key_of_lastRSA hkeys hlast
    cases hN.symm.trans hn
    cases hE.symm.trans he
    rw [hw, hkey]
    rfl
  · rintro (⟨e, he, -⟩ | ⟨-, doc, hdoc', hexact⟩)
    · cases he
    · cases hdoc.symm.trans hdoc'
      rw [hw, exact_iff hkeys] at hexact
      exact absurd (hexact "k" longExponent _ hlast hE).2 (by decide)

end JWKSVerifier

end Forge.httpx
