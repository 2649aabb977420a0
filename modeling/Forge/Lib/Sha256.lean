import Forge.Lib.GoStrings

/-!
# SHA-256 (`crypto/sha256`) and `encoding/hex`

The hash of FIPS 180-4 over byte strings, on 32-bit words.
-/

namespace Forge

namespace sha256

abbrev Word := BitVec 32

/-- The round constants. -/
def K : List Word :=
  [0x428a2f98, 0x71374491, 0xb5c0fbcf, 0xe9b5dba5, 0x3956c25b, 0x59f111f1, 0x923f82a4, 0xab1c5ed5,
   0xd807aa98, 0x12835b01, 0x243185be, 0x550c7dc3, 0x72be5d74, 0x80deb1fe, 0x9bdc06a7, 0xc19bf174,
   0xe49b69c1, 0xefbe4786, 0x0fc19dc6, 0x240ca1cc, 0x2de92c6f, 0x4a7484aa, 0x5cb0a9dc, 0x76f988da,
   0x983e5152, 0xa831c66d, 0xb00327c8, 0xbf597fc7, 0xc6e00bf3, 0xd5a79147, 0x06ca6351, 0x14292967,
   0x27b70a85, 0x2e1b2138, 0x4d2c6dfc, 0x53380d13, 0x650a7354, 0x766a0abb, 0x81c2c92e, 0x92722c85,
   0xa2bfe8a1, 0xa81a664b, 0xc24b8b70, 0xc76c51a3, 0xd192e819, 0xd6990624, 0xf40e3585, 0x106aa070,
   0x19a4c116, 0x1e376c08, 0x2748774c, 0x34b0bcb5, 0x391c0cb3, 0x4ed8aa4a, 0x5b9cca4f, 0x682e6ff3,
   0x748f82ee, 0x78a5636f, 0x84c87814, 0x8cc70208, 0x90befffa, 0xa4506ceb, 0xbef9a3f7, 0xc67178f2]

structure State where
  a : Word
  b : Word
  c : Word
  d : Word
  e : Word
  f : Word
  g : Word
  h : Word

namespace State

def init : State :=
  ⟨0x6a09e667, 0xbb67ae85, 0x3c6ef372, 0xa54ff53a, 0x510e527f, 0x9b05688c, 0x1f83d9ab, 0x5be0cd19⟩

def add (s t : State) : State :=
  ⟨s.a + t.a, s.b + t.b, s.c + t.c, s.d + t.d, s.e + t.e, s.f + t.f, s.g + t.g, s.h + t.h⟩

def words (s : State) : List Word := [s.a, s.b, s.c, s.d, s.e, s.f, s.g, s.h]

/-- One round, with its constant and its word of the message schedule. -/
def round (s : State) (kw : Word × Word) : State :=
  let S1 := s.e.rotateRight 6 ^^^ s.e.rotateRight 11 ^^^ s.e.rotateRight 25
  let ch := (s.e &&& s.f) ^^^ (~~~s.e &&& s.g)
  let t1 := s.h + S1 + ch + kw.1 + kw.2
  let S0 := s.a.rotateRight 2 ^^^ s.a.rotateRight 13 ^^^ s.a.rotateRight 22
  let maj := (s.a &&& s.b) ^^^ (s.a &&& s.c) ^^^ (s.b &&& s.c)
  ⟨t1 + (S0 + maj), s.a, s.b, s.c, s.d + t1, s.e, s.f, s.g⟩

end State

/-- `n` more words of the message schedule; `ws` is what there is, the latest word first. -/
def extend : Nat → List Word → List Word
  | 0, ws => ws
  | n + 1, ws =>
    let w15 := ws.getD 14 0
    let w2 := ws.getD 1 0
    let s0 := w15.rotateRight 7 ^^^ w15.rotateRight 18 ^^^ w15 >>> 3
    let s1 := w2.rotateRight 17 ^^^ w2.rotateRight 19 ^^^ w2 >>> 10
    extend n ((ws.getD 15 0 + s0 + ws.getD 6 0 + s1) :: ws)

/-- One block of sixteen words. -/
def block (s : State) (ws : List Word) : State :=
  s.add ((K.zip (extend 48 ws.reverse).reverse).foldl State.round s)

/-- The big-endian words of `data`. -/
def toWords : GoString → List Word
  | b₀ :: b₁ :: b₂ :: b₃ :: data =>
    .ofNat 32 (((b₀.toNat * 256 + b₁.toNat) * 256 + b₂.toNat) * 256 + b₃.toNat) :: toWords data
  | _ => []

/-- The last `k` bytes of `n`, big-endian. -/
def bigEndian : Nat → Nat → GoString
  | 0, _ => []
  | k + 1, n => bigEndian k (n / 256) ++ [.ofNat n]

/-- The message with its padding: a one bit, zeros up to a multiple of 64 bytes, and its length in bits. -/
def pad (data : GoString) : GoString :=
  data ++ 0x80 :: List.replicate ((119 - data.length % 64) % 64) 0 ++ bigEndian 8 (8 * data.length)

/-- The blocks of a padded message, at most `n` of them. -/
def blocks : Nat → State → List Word → State
  | 0, s, _ => s
  | n + 1, s, ws => if ws = [] then s else blocks n (block s (ws.take 16)) (ws.drop 16)

def Sum256 (data : GoString) : GoString :=
  let ws := toWords (pad data)
  (blocks ws.length .init ws).words.flatMap fun w => bigEndian 4 w.toNat

end sha256

namespace hex

def digit (n : Nat) : UInt8 := if n < 10 then .ofNat (0x30 + n) else .ofNat (0x57 + n)

def EncodeToString (src : GoString) : GoString :=
  src.flatMap fun b => [digit (b.toNat / 16), digit (b.toNat % 16)]

end hex

example : hex.EncodeToString (sha256.Sum256 "abc") =
    str "ba7816bf8f01cfea414140de5dae2223b00361a396177a9cb410ff61f20015ad" := by decide +kernel

example : hex.EncodeToString (sha256.Sum256 "abcdbcdecdefdefgefghfghighijhijkijkljklmklmnlmnomnopnopq") =
    str "248d6a61d20638b8e5c026930c3e6039a33ce45964ff2167f6ecedd419db06c1" := by decide +kernel

end Forge
