import Forge.Lib.Base64
import Forge.Lib.GoTime
import Forge.Lib.Json
import Forge.Lib.Protocol
import Forge.Lib.Sprintf
import Forge.Platform.Apperr

/-!
# The key cache of the token verifier (`platform/httpx/auth.go`)

`keyForKID` looks a key up in the cached JWKS document and fetches the document again if the cache is stale or
has no such key. Any number of requests do so at once: sending a request, receiving the response, storing its
keys and looking a key up are each one step, and the endpoint may change its document between any two of them.

`served` numbers the documents of the endpoint, and a stored refresh (`Refresh`) is dated by the number that was
current when its request was sent and the number of the document it carried. The cached keys are those of the
document stored last (`Dated`), so the cache is never behind a stored request as long as no response is stored
that is older than the request of a refresh stored before. Nothing in the code sees to that: two refreshes may
be stored in either order.
-/

namespace Forge.httpx

/-! ### The document -/

/-- `rsa.PublicKey`. -/
structure PublicKey where
  N : Nat
  E : Int
deriving DecidableEq

abbrev Keys := GoString → Option PublicKey

structure JWK where
  Kty : GoString
  Kid : GoString
  N : GoString
  E : GoString
deriving DecidableEq

/-- `big.Int.SetBytes`: the bytes are a big-endian number. -/
def BigInt.SetBytes (bytes : GoString) : Nat := bytes.foldl (fun n b => n * 256 + b.toNat) 0

/-- `big.Int.Int64`: the low 64 bits, read as a signed number. -/
def BigInt.Int64 (n : Nat) : Int := (BitVec.ofNat 64 n).toInt

/-- `base64.RawURLEncoding.DecodeString`; the error also names the offset. -/
def decodeField (s : GoString) : Except Err GoString :=
  match Base64.DecodeString s with
  | some bytes => .ok bytes
  | none => .error (.ext "illegal base64 data")

/-- The loop over the entries. -/
def parseKeys (parsed : Keys) : List JWK → Except Err Keys
  | [] => .ok parsed
  | k :: ks =>
    if k.Kty ≠ "RSA" then parseKeys parsed ks
    else do
      let nBytes ← decodeField k.N
      let eBytes ← decodeField k.E
      let key := ⟨BigInt.SetBytes nBytes, BigInt.Int64 (BigInt.SetBytes eBytes)⟩
      parseKeys (Function.update parsed k.Kid (some key)) ks

/-- `json.NewDecoder(resp.Body).Decode(&doc)`. -/
def decodeDocument (body : GoString) : Option (List JWK) :=
  (Json.decodeStructs "keys" ["kty", "kid", "n", "e"] body).map fun entries => entries.map fun
    | [kty, kid, n, e] => ⟨kty, kid, n, e⟩
    | _ => ⟨[], [], [], []⟩

structure HTTPResponse where
  StatusCode : Nat
  Body : GoString
deriving DecidableEq

/-- The part of `refresh` between the response and the store. -/
def parseResponse (resp : HTTPResponse) : Except Err Keys :=
  if resp.StatusCode ≠ 200 then
    .error (.ext (str "jwks endpoint returned status " ++ GoTime.decimals 3 resp.StatusCode))
  else match decodeDocument resp.Body with
    | none => .error (.ext "invalid JSON")
    | some doc => parseKeys (fun _ => none) doc

/-- The response serves `key` under `kid`. -/
def HTTPResponse.Serves (resp : HTTPResponse) (kid : GoString) (key : PublicKey) : Prop :=
  ∃ keys, parseResponse resp = .ok keys ∧ keys kid = some key

/-! ### The verifier -/

/-- The fields of the verifier that change. -/
structure JWKSVerifier where
  keys : Keys
  fetched : Int

namespace JWKSVerifier

/-- Ten minutes. -/
def ttl : Int := 600000000000

/-- `fetched` is the zero time, the beginning of the year 1. -/
def new : JWKSVerifier := ⟨fun _ => none, -62135596800000000000⟩

inductive Call
  /-- The first look at the cache: the key, and whether the cache is fresh. -/
  | cached (kid : GoString)
  | send
  | receive
  | store (keys : Keys)
  /-- The look at the cache after the refresh. -/
  | key (kid : GoString)

abbrev Call.Ans : Call → Type
  | cached _ => Option PublicKey × Bool
  | send => Except Err Unit
  | receive => Except Err HTTPResponse
  | store _ => Unit
  | key _ => Option PublicKey

abbrev Call.perform (op : Call) : Proc Call Call.Ans op.Ans := Proc.perform op

/-- The end of `refresh`: the keys are stored unless parsing them failed. -/
def storeParsed : Except Err Keys → Proc Call Call.Ans (Except Err Unit)
  | .error e => pure (.error e)
  | .ok keys => do
    (Call.store keys).perform
    pure (.ok ())

def refresh : Proc Call Call.Ans (Except Err Unit) := do
  match ← Call.send.perform with
  | .error e => pure (.error e)
  | .ok () => match ← Call.receive.perform with
    | .error e => pure (.error e)
    | .ok resp => storeParsed (parseResponse resp)

def notFound (kid : GoString) : Err := .ext (str "signing key " ++ Fmt.Quote kid ++ str " not found in JWKS")

def keyForKID (kid : GoString) : Proc Call Call.Ans (Except Err PublicKey) := do
  match ← (Call.cached kid).perform with
  | (some key, true) => pure (.ok key)
  | _ => match ← refresh with
    | .error e => pure (.error e)
    | .ok () => match ← (Call.key kid).perform with
      | some key => pure (.ok key)
      | none => pure (.error (notFound kid))

/-! ### The world of the verifiers -/

/-- A refresh: the number of the document that was current when its request was sent, and that of the document
it carried. -/
structure Refresh where
  sent : Nat
  doc : Nat
deriving DecidableEq

structure World where
  verifier : JWKSVerifier
  /-- Everything the endpoint has served; the last is current. -/
  served : List HTTPResponse
  /-- The requests that were sent, by the number of the current document, and the refreshes received and
  stored (history variables). -/
  sent : Nat → Option Nat
  received : Nat → Option Refresh
  stored : List Refresh

inductive Choice
  | ok
  | time (t : Int)
  | failed (text : GoString)
  /-- The response is the `i`-th one served. -/
  | answer (i : Nat)
  /-- The endpoint changes what it serves. -/
  | serve (resp : HTTPResponse)

namespace World

def init (resp : HTTPResponse) : World := ⟨new, [resp], fun _ => none, fun _ => none, []⟩

/-- A call of the process `p`. A response is one that was served between the sending and now. -/
def call (p : Nat) : Env Call Call.Ans Choice World
  | .cached kid, .time t, w => some ((w.verifier.keys kid, decide (t - w.verifier.fetched < ttl)), w)
  | .send, .failed text, w => some (.error (.ext text), w)
  | .send, .ok, w => some (.ok (), { w with sent := Function.update w.sent p (some (w.served.length - 1)) })
  | .receive, .failed text, w => some (.error (.ext text), w)
  | .receive, .answer i, w => match w.sent p, w.served[i]? with
    | some n, some resp =>
      if n ≤ i then some (.ok resp, { w with received := Function.update w.received p (some ⟨n, i⟩) }) else none
    | _, _ => none
  | .store keys, .time t, w =>
    some ((), { w with verifier := ⟨keys, t⟩, stored := w.stored ++ (w.received p).toList })
  | .key kid, .ok, w => some (w.verifier.keys kid, w)
  | _, _, _ => none

def env : Choice → World → Option World
  | .serve resp, w => some { w with served := w.served ++ [resp] }
  | _, _ => none

def machine : Machine Nat Call Call.Ans Choice World := ⟨call, fun _ w => w, env⟩

inductive Did (p : Nat) (w : World) : (op : Call) → op.Ans → World → Prop
  | cached (kid : GoString) (t : Int) :
      Did p w (.cached kid) (w.verifier.keys kid, decide (t - w.verifier.fetched < ttl)) w
  | unsent (text : GoString) : Did p w .send (.error (.ext text)) w
  | send : Did p w .send (.ok ()) { w with sent := Function.update w.sent p (some (w.served.length - 1)) }
  | unanswered (text : GoString) : Did p w .receive (.error (.ext text)) w
  | receive {n i : Nat} {resp : HTTPResponse} (hn : w.sent p = some n) (hi : w.served[i]? = some resp) (hle : n ≤ i) :
      Did p w .receive (.ok resp) { w with received := Function.update w.received p (some ⟨n, i⟩) }
  | store (keys : Keys) (t : Int) :
      Did p w (.store keys) () { w with verifier := ⟨keys, t⟩, stored := w.stored ++ (w.received p).toList }
  | key (kid : GoString) : Did p w (.key kid) (w.verifier.keys kid) w

theorem call_did {p : Nat} {w w' : World} {op : Call} {c : Choice} {a : op.Ans} (h : call p op c w = some (a, w')) :
    Did p w op a w' := by
  cases op with
  | cached kid =>
    cases c <;> cases h
    exact .cached kid _
  | send =>
    cases c <;> cases h
    · exact .send
    · exact .unsent _
  | receive =>
    cases c <;> simp only [call, reduceCtorEq] at h
    · cases h
      exact .unanswered _
    · split at h
      · rename_i hn hi
        split at h <;> cases h
        exact .receive hn hi ‹_›
      · cases h
  | store keys =>
    cases c <;> cases h
    exact .store keys _
  | key kid =>
    cases c <;> cases h
    exact .key kid

/-- The `i`-th document served has `key` under `kid`. -/
def ServedAt (w : World) (i : Nat) (kid : GoString) (key : PublicKey) : Prop :=
  ∃ resp, w.served[i]? = some resp ∧ resp.Serves kid key

end World

/-- Requests with tokens signed under these key ids, at a new verifier. -/
def requests (resp : HTTPResponse) (kids : Nat → Option GoString) :
    Pool Nat Call Call.Ans (Except Err PublicKey) World :=
  ⟨.init resp, fun p => (kids p).map keyForKID⟩

/-! ### What a request does -/

/-- Where a request is: it has not started, sends for the document, waits for it, has it, has stored its keys, or
has read its key from the cache. -/
inductive Phase
  | start
  | asking
  | waiting
  | holding (resp : HTTPResponse)
  | stored
  | found (key : PublicKey)
  | ended

namespace Phase

/-- The calls of a request with the key id `st.1`. -/
def May (st : GoString × Phase) (op : Call) : Prop :=
  match st.2, op with
  | start, .cached kid => kid = st.1
  | asking, .send => True
  | waiting, .receive => True
  | holding resp, .store keys => parseResponse resp = .ok keys
  | stored, .key kid => kid = st.1
  | _, _ => False

def after : Phase → (op : Call) → op.Ans → Phase
  | start, .cached _, (some key, true) => found key
  | start, .cached _, _ => asking
  | asking, .send, .ok () => waiting
  | waiting, .receive, .ok resp => holding resp
  | holding _, .store _, () => stored
  | stored, .key _, some key => found key
  | _, _, _ => ended

def next (st : GoString × Phase) (op : Call) (a : op.Ans) : GoString × Phase := (st.1, st.2.after op a)

/-- A key is returned as it was read. -/
def Returns : Except Err PublicKey → GoString × Phase → Prop
  | .ok key, st => st.2 = found key
  | .error _, _ => True

/-- What the phase of `p` says about the world: the response it has was served after its request was sent. -/
def Holds (p : Nat) (w : World) : Phase → Prop
  | holding resp => ∃ x, w.received p = some x ∧ x.sent ≤ x.doc ∧ w.served[x.doc]? = some resp
  | _ => True

end Phase

open Phase

theorem obeys_refresh {k : Except Err Unit → Proc Call Call.Ans (Except Err PublicKey)} {kid : GoString}
    (hok : (k (.ok ())).Obeys May next Returns (kid, stored))
    (herr : ∀ e st, (k (.error e)).Obeys May next Returns st) :
    (refresh >>= k).Obeys May next Returns (kid, asking) := by
  refine ⟨trivial, fun a => ?_⟩
  rcases a with e | u
  · exact herr e _
  refine ⟨trivial, fun a => ?_⟩
  rcases a with e | resp
  · exact herr e _
  show (storeParsed (parseResponse resp) >>= k).Obeys May next Returns (kid, holding resp)
  cases hparse : parseResponse resp with
  | error e => exact herr e _
  | ok keys => exact ⟨hparse, fun _ => hok⟩

theorem obeys_keyForKID (kid : GoString) : (keyForKID kid).Obeys May next Returns (kid, start) := by
  refine ⟨rfl, fun a => ?_⟩
  rcases a with ⟨_ | key, _ | _⟩
  case some.true => rfl
  all_goals
    refine obeys_refresh ⟨rfl, fun key => ?_⟩ fun _ _ => trivial
    cases key with
    | none => trivial
    | some key => rfl

/-! ### The cache is as old as the document stored last -/

/-- The cached keys are those of the document stored last, and every stored document was served after its request
was sent. -/
structure Dated (w : World) : Prop where
  cached : ∀ kid key, w.verifier.keys kid = some key →
    ∃ x, w.stored.getLast? = some x ∧ w.ServedAt x.doc kid key
  between : ∀ x ∈ w.stored, x.sent ≤ x.doc

/-- The request `p` is about the key id it was started with, and what its phase says holds. -/
def Tracks (kids : Nat → Option GoString) (p : Nat) (st : GoString × Phase) (w : World) : Prop :=
  (kids p = some st.1 ∨ st.2 = ended) ∧ st.2.Holds p w

section
variable {kids : Nat → Option GoString} {p : Nat} {st : GoString × Phase} {w w' : World}

/-- What was served stays in its place. -/
theorem served_mono {i : Nat} {resp : HTTPResponse} (hserved : w.served <+: w'.served) (h : w.served[i]? = some resp) :
    w'.served[i]? = some resp := by
  obtain ⟨l, hl⟩ := hserved
  rw [← hl, List.getElem?_append_left (List.getElem?_eq_some_iff.1 h).1]
  exact h

theorem Dated.congr (h : Dated w) (hv : w'.verifier = w.verifier) (hs : w'.stored = w.stored)
    (hserved : w.served <+: w'.served) : Dated w' := by
  constructor
  · rw [hv, hs]
    intro kid key hkey
    obtain ⟨x, hx, resp, hresp, hserves⟩ := h.cached kid key hkey
    exact ⟨x, hx, resp, served_mono hserved hresp, hserves⟩
  · rw [hs]
    exact h.between

theorem Dated.store {resp : HTTPResponse} {keys : Keys} {x : Refresh} (h : Dated w) (t : Int) (hle : x.sent ≤ x.doc)
    (hresp : w.served[x.doc]? = some resp) (hparse : parseResponse resp = .ok keys) :
    Dated { w with verifier := ⟨keys, t⟩, stored := w.stored ++ [x] } := by
  constructor
  · intro kid key hkey
    exact ⟨x, List.getLast?_concat, resp, hresp, keys, hparse, hkey⟩
  · intro y hy
    rcases List.mem_append.1 hy with hy | hy
    · exact h.between y hy
    · rw [List.mem_singleton.1 hy]
      exact hle

theorem Tracks.congr (h : Tracks kids p st w) (hr : w'.received p = w.received p)
    (hserved : w.served <+: w'.served) : Tracks kids p st w' := by
  obtain ⟨kid, phase⟩ := st
  refine ⟨h.1, ?_⟩
  have hphase := h.2
  cases phase with
  | holding resp =>
    obtain ⟨x, hx, hle, hresp⟩ := hphase
    exact ⟨x, hr.trans hx, hle, served_mono hserved hresp⟩
  | _ => trivial

theorem World.Did.others {op : Call} {a : op.Ans} (h : w.Did p op a w') :
    w'.served = w.served ∧ ∀ q, q ≠ p → w'.received q = w.received q := by
  cases h with
  | receive => exact ⟨rfl, fun q hq => Function.update_of_ne hq _ _⟩
  | _ => exact ⟨rfl, fun _ _ => rfl⟩

theorem Tracks.kid {op : Call} (htr : Tracks kids p st w) (hmay : May st op) : kids p = some st.1 := by
  obtain ⟨kid, phase⟩ := st
  rcases htr.1 with hkid | hended
  · exact hkid
  · cases hended
    exact hmay.elim

/-- A request moves on to its next phase, and the cache stays dated: the one response it may store was served
after its request was sent. -/
theorem Tracks.call {op : Call} {a : op.Ans} (hmay : May st op) (htr : Tracks kids p st w) (hw : Dated w)
    (h : World.Did p w op a w') : Dated w' ∧ Tracks kids p (next st op a) w' := by
  have hkid : kids p = some (next st op a).1 ∨ (next st op a).2 = ended := .inl (htr.kid hmay)
  obtain ⟨kid, phase⟩ := st
  cases phase with
  | start =>
    cases h with
    | cached kid' t =>
      refine ⟨hw, hkid, ?_⟩
      generalize w.verifier.keys kid' = key, decide (t - w.verifier.fetched < ttl) = fresh
      rcases key with _ | key <;> cases fresh <;> trivial
    | _ => exact hmay.elim
  | asking =>
    cases h with
    | unsent text => exact ⟨hw, hkid, trivial⟩
    | send => exact ⟨hw.congr rfl rfl (List.prefix_refl _), hkid, trivial⟩
    | _ => exact hmay.elim
  | waiting =>
    cases h with
    | unanswered text => exact ⟨hw, hkid, trivial⟩
    | @receive n i resp hn hi hle =>
      exact ⟨hw.congr rfl rfl (List.prefix_refl _), hkid, ⟨n, i⟩, Function.update_self .., hle, hi⟩
    | _ => exact hmay.elim
  | holding resp =>
    cases h with
    | store keys t =>
      obtain ⟨x, hx, hle, hresp⟩ := htr.2
      rw [hx]
      exact ⟨hw.store t hle hresp hmay, hkid, trivial⟩
    | _ => exact hmay.elim
  | stored =>
    cases h with
    | key kid' =>
      refine ⟨hw, hkid, ?_⟩
      generalize w.verifier.keys kid' = key
      cases key <;> trivial
    | _ => exact hmay.elim
  | found key => exact hmay.elim
  | ended => exact hmay.elim

/-- A response stored after a refresh was served no earlier than that refresh was sent for. -/
def InOrder (w : World) : Prop := w.stored.Pairwise fun x y => x.sent ≤ y.doc

/-- If the stores are in order, the cached keys were served since the sending of every refresh stored so far. -/
theorem Dated.since {kid : GoString} {key : PublicKey} (h : Dated w) (hord : InOrder w)
    (hkey : w.verifier.keys kid = some key) (x : Refresh) (hx : x ∈ w.stored) :
    ∃ i, x.sent ≤ i ∧ w.ServedAt i kid key := by
  obtain ⟨last, hlast, hserved⟩ := h.cached kid key hkey
  obtain ⟨l, hl⟩ := List.getLast?_eq_some_iff.1 hlast
  refine ⟨last.doc, ?_, hserved⟩
  unfold InOrder at hord
  rw [hl] at hx hord
  rcases List.mem_append.1 hx with hx | hx
  · exact (List.pairwise_append.1 hord).2.2 x hx last (List.mem_singleton_self _)
  · rw [List.mem_singleton.1 hx]
    exact h.between last (by rw [hl]; exact List.mem_append_right _ (List.mem_singleton_self _))

variable {resp : HTTPResponse} {ms : List (Move Nat Choice)}
  {s s' : Pool Nat Call Call.Ans (Except Err PublicKey) World}

/-- In every run the cache stays dated, and every request keeps to its phases. -/
theorem dated_run (h : (requests resp kids).run World.machine ms = some s) :
    Dated s.world ∧ s.Obeying May next Returns (Tracks kids) ([], ended) := by
  refine Pool.obeys_run (K := Dated) ?_ ?_ ?_ ?_ ?_ h
  · intro p op c a st w w' hmay htr hw hc
    have hdid := World.call_did hc
    obtain ⟨hw', htr'⟩ := htr.call hmay hw hdid
    obtain ⟨hserved, hothers⟩ := hdid.others
    refine ⟨hw', htr', fun q st' hq hst' => hst'.congr (hothers q hq) ?_⟩
    rw [hserved]
  · exact fun p w hw => ⟨hw, ⟨.inr rfl, trivial⟩, fun q st _ hst => hst⟩
  · intro c w w' hw hc
    cases c <;> cases hc
    exact ⟨hw.congr rfl rfl (List.prefix_append _ _), fun q st hst => hst.congr rfl (List.prefix_append _ _)⟩
  · exact ⟨nofun, nofun⟩
  · intro p
    cases hp : kids p with
    | none =>
      simp only [requests, hp, Option.map_none]
      exact ⟨.inr rfl, trivial⟩
    | some kid =>
      simp only [requests, hp, Option.map_some]
      exact ⟨(kid, start), obeys_keyForKID kid, .inl hp, trivial⟩

/-- The step that returns a key has read it from the cache. -/
theorem read_of_returns {p : Nat} {c : Choice} {key : PublicKey}
    (hs : s.Obeying May next Returns (Tracks kids) ([], ended))
    (hstep : s.step World.machine (.call p c) = some s') (hret : s'.result? p = some (.ok key)) :
    ∃ kid, kids p = some kid ∧ s.world.verifier.keys kid = some key := by
  rcases Pool.step_cases hstep with ⟨q, op, k, c', a, w, hm, hp, hc, rfl⟩ | ⟨q, hm, -⟩ | ⟨c', w, hm, -, -⟩
  · cases hm
    obtain ⟨⟨kid, phase⟩, hob, htr⟩ := hs.live hp
    have hk : k a = .ret (.ok key) := by simpa using Pool.procs_of_result hret
    have hfound : phase.after op a = found key := by
      have := hob.2 a
      rwa [hk] at this
    refine ⟨kid, htr.kid hob.1, ?_⟩
    -- only the two looks at the cache lead to a found key
    cases World.call_did hc with
    | cached kid' t =>
      cases phase with
      | start =>
        obtain rfl : kid' = kid := hob.1
        generalize s.world.verifier.keys kid' = key', decide (t - s.world.verifier.fetched < ttl) = fresh at hfound
        rcases key' with _ | key' <;> cases fresh <;> cases hfound
        rfl
      | _ => exact hob.1.elim
    | key kid' =>
      cases phase with
      | stored =>
        obtain rfl : kid' = kid := hob.1
        generalize s.world.verifier.keys kid' = key' at hfound
        cases key' <;> cases hfound
        rfl
      | _ => exact hob.1.elim
    | _ => cases phase <;> cases hfound
  · cases hm
  · cases hm

/-- In every run, however the requests interleave and whatever the endpoint serves: as long as the stores are in
order, a key that is returned after a refresh was stored was served when that refresh was sent for, or later. A
key the endpoint had withdrawn by then comes back only if it is served again. -/
theorem returned_key_served_since {p : Nat} {c : Choice} {key : PublicKey}
    (h : (requests resp kids).run World.machine ms = some s) (hord : InOrder s.world)
    (hstep : s.step World.machine (.call p c) = some s') (hret : s'.result? p = some (.ok key)) :
    ∃ kid, kids p = some kid ∧ ∀ x ∈ s.world.stored, ∃ i, x.sent ≤ i ∧ s.world.ServedAt i kid key := by
  obtain ⟨hw, hs⟩ := dated_run h
  obtain ⟨kid, hkid, hkey⟩ := read_of_returns hs hstep hret
  exact ⟨kid, hkid, hw.since hord hkey⟩

end

/-! ### A run -/

def oneKey (kid n : String) : HTTPResponse :=
  ⟨200, str "\x7b\"keys\":[\x7b\"kty\":\"RSA\",\"kid\":\"" ++ str kid ++ str "\",\"n\":\"" ++ str n ++
    str "\",\"e\":\"AQAB\"\x7d]\x7d"⟩

def sampleKids (p : Nat) : Option GoString :=
  if p = 1 then some "new" else some "old"

/-- The first request stores the old document before the second one sends for the new one. -/
def timelyStore : List (Move Nat Choice) :=
  ([.time 0, .ok, .answer 0, .time 0, .ok] : List Choice).map (.call 0) ++ [.env (.serve (oneKey "new" "Ag"))] ++
    ([.time 0, .ok, .answer 1, .time 0] : List Choice).map (.call 1)

theorem returned_key_served_since_sample :
    ∃ s s', (requests (oneKey "old" "AQ") sampleKids).run World.machine timelyStore = some s ∧
      s.step World.machine (.call 1 .ok) = some s' ∧ s'.result? 1 = some (.ok ⟨2, 65537⟩) ∧
      ∃ kid, sampleKids 1 = some kid ∧
        ∀ x ∈ s.world.stored, ∃ i, x.sent ≤ i ∧ s.world.ServedAt i kid ⟨2, 65537⟩ := by
  have h : ((requests (oneKey "old" "AQ") sampleKids).run World.machine timelyStore).map (fun s =>
      (s.world.stored, (s.step World.machine (.call 1 .ok)).map fun s' => s'.result? 1)) =
      some ([⟨0, 0⟩, ⟨1, 1⟩], some (some (.ok ⟨2, 65537⟩))) := by
    decide +kernel
  obtain ⟨s, hrun, hs⟩ := Option.map_eq_some_iff.1 h
  simp only [Prod.mk.injEq] at hs
  obtain ⟨hstored, hres⟩ := hs
  obtain ⟨s', hstep, hres⟩ := Option.map_eq_some_iff.1 hres
  have hord : InOrder s.world := by
    rw [InOrder, hstored]
    simp
  exact ⟨s, s', hrun, hstep, hres, returned_key_served_since hrun hord hstep hres⟩

/-- The first request has received the document with the old key when the endpoint withdraws it. The second
one sends for the new document and stores it, and only then the first one stores what it has. -/
def lateStore : List (Move Nat Choice) :=
  ([.time 0, .ok, .answer 0] : List Choice).map (.call 0) ++ [.env (.serve (oneKey "new" "Ag"))] ++
    ([.time 0, .ok, .answer 1, .time 0, .ok] : List Choice).map (.call 1) ++
    ([.time 0, .ok] : List Choice).map (.call 0)

/-- A document with one entry serves its key, and no other one. -/
theorem serves_oneKey_iff {kid n : String} {b : GoString} (hn : Base64.DecodeString (str n) = some b)
    (hdoc : decodeDocument (oneKey kid n).Body = some [⟨"RSA", str kid, str n, "AQAB"⟩]) {kid' : GoString}
    {key : PublicKey} : (oneKey kid n).Serves kid' key ↔ kid' = str kid ∧ key = ⟨BigInt.SetBytes b, 65537⟩ := by
  have hkeys : parseResponse (oneKey kid n) =
      .ok (Function.update (fun _ => none) (str kid) (some ⟨BigInt.SetBytes b, 65537⟩)) := by
    rw [parseResponse, if_neg (by simp [oneKey]), hdoc]
    simp only [parseKeys, decodeField, hn]
    rfl
  unfold HTTPResponse.Serves
  rw [hkeys]
  by_cases hkid : kid' = str kid
  · simp [hkid, eq_comm]
  · simp [hkid]

theorem serves_old_iff {kid : GoString} {key : PublicKey} :
    (oneKey "old" "AQ").Serves kid key ↔ kid = "old" ∧ key = ⟨1, 65537⟩ :=
  serves_oneKey_iff (b := [1]) (by decide) (by decide +kernel)

theorem serves_new_iff {kid : GoString} {key : PublicKey} :
    (oneKey "new" "Ag").Serves kid key ↔ kid = "new" ∧ key = ⟨2, 65537⟩ :=
  serves_oneKey_iff (b := [2]) (by decide) (by decide +kernel)

/-- A third request, made after everything was stored, gets the old key from the cache, although the endpoint had
withdrawn it before the second refresh was sent. -/
theorem withdrawn_key_returned :
    ∃ s s', (requests (oneKey "old" "AQ") sampleKids).run World.machine lateStore = some s ∧
      s.step World.machine (.call 2 (.time 0)) = some s' ∧ s'.result? 2 = some (.ok ⟨1, 65537⟩) ∧
      ∃ x ∈ s.world.stored, ∀ i, x.sent ≤ i → ∀ kid, ¬ s.world.ServedAt i kid ⟨1, 65537⟩ := by
  have h : ((requests (oneKey "old" "AQ") sampleKids).run World.machine lateStore).map (fun s =>
      (s.world.stored, s.world.served, (s.step World.machine (.call 2 (.time 0))).map fun s' => s'.result? 2)) =
      some ([⟨1, 1⟩, ⟨0, 0⟩], [oneKey "old" "AQ", oneKey "new" "Ag"], some (some (.ok ⟨1, 65537⟩))) := by
    decide +kernel
  obtain ⟨s, hrun, hs⟩ := Option.map_eq_some_iff.1 h
  simp only [Prod.mk.injEq] at hs
  obtain ⟨hstored, hserved, hres⟩ := hs
  obtain ⟨s', hstep, hres⟩ := Option.map_eq_some_iff.1 hres
  refine ⟨s, s', hrun, hstep, hres, ⟨1, 1⟩, ?_, ?_⟩
  · simp [hstored]
  · rintro i hi kid ⟨resp, hresp, hserves⟩
    rw [hserved] at hresp
    rcases i with _ | _ | i
    · exact absurd hi (by decide)
    · cases hresp
      cases (serves_new_iff.1 hserves).2
    · cases hresp

end JWKSVerifier

end Forge.httpx
