import Mathlib.Order.Lattice
import Mathlib.Data.Nat.Init
import Forge.Lib.GoStrings

/-!
# UUIDs

`UUID` is `uuid.UUID`, sixteen bytes read as one big-endian number, and `UUID.String` its canonical
text. `uuid.Parse` is not part of the repository: `UuidLib` stands for it, with the one law the code
relies on, that it reads back the canonical text. `UuidLib.canonical` reads that text and nothing
else.
-/

namespace Forge

open GoString

structure UUID where
  v : BitVec 128
deriving DecidableEq, Repr

namespace UUID

theorem toNat_injective : Function.Injective fun u : UUID => u.v.toNat := by
  rintro ⟨a⟩ ⟨b⟩ h
  exact congrArg UUID.mk (BitVec.eq_of_toNat_eq h)

/-- Postgres compares uuids bytewise, that is, as numbers. -/
instance : LinearOrder UUID := LinearOrder.lift' (fun u => u.v.toNat) toNat_injective

def unhexDigit (b : UInt8) : Option Nat :=
  if 0x30 ≤ b ∧ b ≤ 0x39 then some (b.toNat - 0x30)
  else if 0x61 ≤ b ∧ b ≤ 0x66 then some (b.toNat - 0x57) else none

def unhex (s : GoString) : Option Nat :=
  s.foldl (fun acc b => acc.bind fun n => (unhexDigit b).map (16 * n + ·)) (some 0)

/-- `uuid.UUID.String`: groups of 8, 4, 4, 4 and 12 digits. -/
def String (u : UUID) : GoString :=
  hex 8 (u.v.toNat / 16 ^ 24) ++ 0x2D :: (hex 4 (u.v.toNat / 16 ^ 20) ++ 0x2D ::
    (hex 4 (u.v.toNat / 16 ^ 16) ++ 0x2D :: (hex 4 (u.v.toNat / 16 ^ 12) ++ 0x2D ::
      hex 12 u.v.toNat)))

theorem length_hex (k n : Nat) : (hex k n).length = k := by
  induction k generalizing n with
  | zero => rfl
  | succ k ih => simp [hex, ih]

theorem unhexDigit_hexDigit : ∀ n < 16, unhexDigit (hexDigit n) = some n := by decide

theorem unhex_append {s t : GoString} :
    unhex (s ++ t) = (unhex s).bind fun m =>
      t.foldl (fun acc b => acc.bind fun n => (unhexDigit b).map (16 * n + ·)) (some m) := by
  unfold unhex
  rw [List.foldl_append]
  cases s.foldl (fun acc b => acc.bind fun n => (unhexDigit b).map (16 * n + ·)) (some 0) with
  | some m => rfl
  | none =>
    simp only [Option.bind_none]
    induction t with
    | nil => rfl
    | cons b t ih => simpa using ih

theorem unhex_hex (k n : Nat) : unhex (hex k n) = some (n % 16 ^ k) := by
  induction k generalizing n with
  | zero => simp [hex, unhex, Nat.mod_one]
  | succ k ih =>
    have hm : n % 16 ^ (k + 1) = 16 * (n / 16 % 16 ^ k) + n % 16 := by
      rw [Nat.pow_succ', Nat.mod_mul]; omega
    simp only [hex, unhex_append, ih, Option.bind_some, List.foldl_cons, List.foldl_nil,
      unhexDigit_hexDigit _ (Nat.mod_lt n (by decide)), Option.map_some, hm]

theorem hex_append (j k n : Nat) : hex j (n / 16 ^ k) ++ hex k n = hex (j + k) n := by
  induction k generalizing n with
  | zero => simp [hex]
  | succ k ih =>
    rw [hex, ← List.append_assoc, Nat.pow_succ', ← Nat.div_div_eq_div_mul, ih, Nat.add_succ, hex]

end UUID

/-- What the code uses of `github.com/google/uuid`. -/
class UuidLib where
  Parse : GoString → Option UUID
  parse_String : ∀ u : UUID, Parse u.String = some u

namespace UuidLib

/-- The text without its dashes, if they stand where the canonical text has them. -/
def undash (s : GoString) : Option GoString :=
  if s.length = 36 ∧ s[8]? = some 0x2D ∧ s[13]? = some 0x2D ∧ s[18]? = some 0x2D ∧ s[23]? = some 0x2D
  then some (s.take 8 ++ ((s.drop 9).take 4 ++ ((s.drop 14).take 4 ++ ((s.drop 19).take 4 ++ s.drop 24))))
  else none

theorem undash_groups {a b c d e : GoString} (ha : a.length = 8) (hb : b.length = 4)
    (hc : c.length = 4) (hd : d.length = 4) (he : e.length = 12) :
    undash (a ++ 0x2D :: (b ++ 0x2D :: (c ++ 0x2D :: (d ++ 0x2D :: e)))) =
      some (a ++ (b ++ (c ++ (d ++ e)))) := by
  simp [undash, List.drop_append, ha, hb, hc, hd, he, List.drop_eq_nil_of_le]

theorem undash_String (u : UUID) : undash u.String = some (hex 32 u.v.toNat) := by
  rw [UUID.String, undash_groups (UUID.length_hex ..) (UUID.length_hex ..) (UUID.length_hex ..)
    (UUID.length_hex ..) (UUID.length_hex ..)]
  have h12 := UUID.hex_append 4 12 u.v.toNat
  have h16 := UUID.hex_append 4 16 u.v.toNat
  have h20 := UUID.hex_append 4 20 u.v.toNat
  have h24 := UUID.hex_append 8 24 u.v.toNat
  rw [h12, h16, h20, h24]

/-- `Parse` on the canonical text. -/
@[reducible] def canonical : UuidLib where
  Parse s := ((undash s).bind UUID.unhex).map fun n => ⟨.ofNat 128 n⟩
  parse_String u := by
    have hlt : u.v.toNat < 16 ^ 32 := u.v.isLt
    rw [undash_String, Option.bind_some, UUID.unhex_hex, Nat.mod_eq_of_lt hlt, Option.map_some,
      BitVec.ofNat_toNat, BitVec.setWidth_eq]

end UuidLib

theorem UUID.String_inj {u u' : UUID} (h : u.String = u'.String) : u = u' := by
  have := UuidLib.canonical.parse_String u
  rw [h, UuidLib.canonical.parse_String u'] at this
  exact (Option.some.inj this).symm

end Forge
