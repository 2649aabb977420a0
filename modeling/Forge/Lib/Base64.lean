import Mathlib.Logic.Basic
import Forge.Lib.GoStrings

/-!
# `base64.RawURLEncoding`

The URL alphabet without padding. The decoder skips line breaks and ignores the bits of the last character
that belong to no byte, as the one of `encoding/base64` does.
-/

namespace Forge.Base64

def alphabet (n : Nat) : UInt8 :=
  if n < 26 then .ofNat (0x41 + n)
  else if n < 52 then .ofNat (0x61 + (n - 26))
  else if n < 62 then .ofNat (0x30 + (n - 52))
  else if n = 62 then 0x2D else 0x5F

def index (b : UInt8) : Option Nat :=
  if 0x41 ≤ b ∧ b ≤ 0x5A then some (b.toNat - 0x41)
  else if 0x61 ≤ b ∧ b ≤ 0x7A then some (b.toNat - 0x61 + 26)
  else if 0x30 ≤ b ∧ b ≤ 0x39 then some (b.toNat - 0x30 + 52)
  else if b = 0x2D then some 62
  else if b = 0x5F then some 63
  else none

/-- The bits of the string, six at a time. -/
def sextets : GoString → List Nat
  | a :: b :: c :: s =>
    let n := a.toNat * 65536 + b.toNat * 256 + c.toNat
    n / 262144 :: n / 4096 % 64 :: n / 64 % 64 :: n % 64 :: sextets s
  | [a, b] =>
    let n := (a.toNat * 256 + b.toNat) * 4
    [n / 4096, n / 64 % 64, n % 64]
  | [a] =>
    let n := a.toNat * 16
    [n / 64, n % 64]
  | [] => []

def EncodeToString (s : GoString) : GoString := (sextets s).map alphabet

def unsextets : List Nat → Option GoString
  | i :: j :: k :: l :: s =>
    let n := i * 262144 + j * 4096 + k * 64 + l
    (unsextets s).map fun t => .ofNat (n / 65536) :: .ofNat (n / 256 % 256) :: .ofNat (n % 256) :: t
  | [i, j, k] =>
    let n := i * 4096 + j * 64 + k
    some [.ofNat (n / 1024), .ofNat (n / 4 % 256)]
  | [i, j] => some [.ofNat ((i * 64 + j) / 16)]
  | [_] => none
  | [] => some []

def isLineBreak (b : UInt8) : Bool := b = 0x0A ∨ b = 0x0D

def DecodeString (s : GoString) : Option GoString :=
  ((s.filter (! isLineBreak ·)).mapM index).bind unsextets

/-! ### Decoding what was encoded -/

theorem index_alphabet : ∀ n < 64, index (alphabet n) = some n := by decide

theorem not_isLineBreak_alphabet : ∀ n < 64, isLineBreak (alphabet n) = false := by decide

theorem sextets_lt (s : GoString) : ∀ n ∈ sextets s, n < 64 := by
  fun_induction sextets s with
  | case1 a b c s n ih =>
    have ha := a.toNat_lt
    have hb := b.toNat_lt
    have hc := c.toNat_lt
    simp only [List.mem_cons]
    rintro m (rfl | rfl | rfl | rfl | hm)
    · omega
    · omega
    · omega
    · omega
    · exact ih m hm
  | case2 a b n =>
    have ha := a.toNat_lt
    have hb := b.toNat_lt
    simp only [List.mem_cons, List.not_mem_nil, or_false]
    rintro m (rfl | rfl | rfl) <;> omega
  | case3 a n =>
    have ha := a.toNat_lt
    simp only [List.mem_cons, List.not_mem_nil, or_false]
    rintro m (rfl | rfl) <;> omega
  | case4 => simp

theorem unsextets_sextets (s : GoString) : unsextets (sextets s) = some s := by
  have hbyte : ∀ (b : UInt8) {m : Nat}, m = b.toNat → UInt8.ofNat m = b := by
    rintro b m rfl
    exact UInt8.ofNat_toNat
  fun_induction sextets s with
  | case1 a b c s n ih =>
    have ha := a.toNat_lt
    have hb := b.toNat_lt
    have hc := c.toNat_lt
    simp only [unsextets, ih, Option.map_some, Option.some.injEq, List.cons.injEq, and_true]
    exact ⟨hbyte a (by omega), hbyte b (by omega), hbyte c (by omega)⟩
  | case2 a b n =>
    have ha := a.toNat_lt
    have hb := b.toNat_lt
    simp only [unsextets, Option.some.injEq, List.cons.injEq, and_true]
    exact ⟨hbyte a (by omega), hbyte b (by omega)⟩
  | case3 a n =>
    have ha := a.toNat_lt
    simp only [unsextets, Option.some.injEq, List.cons.injEq, and_true]
    exact hbyte a (by omega)
  | case4 => rfl

theorem DecodeString_EncodeToString (s : GoString) : DecodeString (EncodeToString s) = some s := by
  have hlt := sextets_lt s
  have hfilter : (EncodeToString s).filter (! isLineBreak ·) = EncodeToString s := by
    rw [List.filter_eq_self]
    intro b hb
    obtain ⟨n, hn, rfl⟩ := List.mem_map.1 hb
    rw [not_isLineBreak_alphabet n (hlt n hn)]
    rfl
  have hindex : (EncodeToString s).mapM index = some (sextets s) := by
    rw [EncodeToString]
    generalize sextets s = l at hlt
    induction l with
    | nil => rfl
    | cons n l ih =>
      simp only [List.forall_mem_cons] at hlt
      rw [List.map_cons, List.mapM_cons, index_alphabet n hlt.1, ih hlt.2]
      rfl
  rw [DecodeString, hfilter, hindex]
  exact unsextets_sextets s

theorem EncodeToString_ne_nil {s : GoString} (h : s ≠ []) : EncodeToString s ≠ [] := by
  match s, h with
  | [_], _ => simp [EncodeToString, sextets]
  | [_, _], _ => simp [EncodeToString, sextets]
  | _ :: _ :: _ :: _, _ => simp [EncodeToString, sextets]

end Forge.Base64
