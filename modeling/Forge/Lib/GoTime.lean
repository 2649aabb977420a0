import Forge.Lib.Json

/-!
# Times in UTC as text (`time.RFC3339Nano`, `time.RFC3339`)

The date of a day of the proleptic Gregorian calendar, and the text of a time. The text consists of plain
ASCII characters (`plain_RFC3339Nano`).
-/

namespace Forge.GoTime

def digit (n : Nat) : UInt8 := .ofNat (0x30 + n % 10)

/-- The decimal digits of `n`, at most `k` of them. -/
def decimals : Nat → Nat → GoString
  | 0, _ => []
  | k + 1, n => if n < 10 then [digit n] else decimals k (n / 10) ++ [digit n]

/-- The decimal digits of `n`, at least `width` of them. -/
def pad (width n : Nat) : GoString :=
  List.replicate (width - (decimals (n + 1) n).length) 0x30 ++ decimals (n + 1) n

structure Date where
  year : Int
  month : Nat
  day : Nat
deriving DecidableEq

/-- The date of a day, counted from 1970-01-01. Years are counted from March and grouped by 400, which
have 146097 days. -/
def date (days : Int) : Date :=
  let z := days + 719468
  let era := z / 146097
  let doe := (z - era * 146097).toNat
  let yoe := (doe - doe / 1460 + doe / 36524 - doe / 146096) / 365
  let doy := doe - (365 * yoe + yoe / 4 - yoe / 100)
  let mp := (5 * doy + 2) / 153
  let month := if mp < 10 then mp + 3 else mp - 9
  ⟨yoe + era * 400 + (if month ≤ 2 then 1 else 0), month, doy - (153 * mp + 2) / 5 + 1⟩

example : date 0 = ⟨1970, 1, 1⟩ ∧ date 19782 = ⟨2024, 2, 29⟩ ∧ date (-1) = ⟨1969, 12, 31⟩ := by decide

/-- The fraction of a second without its trailing zeros. -/
def fraction (nanos : Nat) : GoString :=
  match ((pad 9 nanos).reverse.dropWhile (· = 0x30)).reverse with
  | [] => []
  | ds => 0x2E :: ds

/-- `t.UTC().Format(time.RFC3339Nano)` for `t` nanoseconds since the epoch. -/
def RFC3339Nano (t : Int) : GoString :=
  let seconds := t / 1000000000
  let ofDay := (seconds % 86400).toNat
  let d := date (seconds / 86400)
  (if d.year < 0 then [0x2D] else []) ++ pad 4 d.year.natAbs ++ [0x2D] ++ pad 2 d.month ++ [0x2D] ++
    pad 2 d.day ++ [0x54] ++ pad 2 (ofDay / 3600) ++ [0x3A] ++ pad 2 (ofDay / 60 % 60) ++ [0x3A] ++
    pad 2 (ofDay % 60) ++ fraction (t % 1000000000).toNat ++ [0x5A]

example : RFC3339Nano 1700000000120000000 = str "2023-11-14T22:13:20.12Z" := by decide +kernel

/-- `t.UTC().Format(time.RFC3339)`: the fraction of the second is left out. -/
def RFC3339 (t : Int) : GoString := RFC3339Nano (t / 1000000000 * 1000000000)

example : RFC3339 1700000000120000000 = str "2023-11-14T22:13:20Z" := by decide +kernel

/-! ### Plain text -/

open Json

theorem plain_digit (n : Nat) : plain (digit n) = true := by
  have h : ∀ m < 10, plain (.ofNat (0x30 + m)) = true := by decide
  exact h _ (Nat.mod_lt n (by decide))

theorem plain_decimals (k n : Nat) : Plain (decimals k n) := by
  induction k generalizing n with
  | zero => simp [decimals, Plain]
  | succ k ih =>
    simp only [decimals]
    split
    · exact .singleton (plain_digit n)
    · exact (ih _).append (.singleton (plain_digit n))

theorem plain_pad (width n : Nat) : Plain (pad width n) := by
  refine Plain.append (fun b hb => ?_) (plain_decimals _ n)
  rw [(List.mem_replicate.1 hb).2]
  decide

theorem plain_fraction (nanos : Nat) : Plain (fraction nanos) := by
  unfold fraction
  split
  · simp [Plain]
  · intro b hb
    rcases List.mem_cons.1 hb with rfl | hb
    · decide
    have hb := List.mem_reverse.1 hb
    exact plain_pad 9 nanos b (List.mem_reverse.1 ((List.dropWhile_suffix _).subset hb))

theorem plain_RFC3339Nano (t : Int) : Plain (RFC3339Nano t) := by
  have hsign : ∀ y : Int, Plain (if y < 0 then [0x2D] else []) := by
    intro y
    split
    · exact .singleton (by decide)
    · simp [Plain]
  have hdash : Plain [0x2D] := .singleton (by decide)
  have hcolon : Plain [0x3A] := .singleton (by decide)
  exact (((((((((((((hsign _).append (plain_pad 4 _)).append hdash).append (plain_pad 2 _)).append
    hdash).append (plain_pad 2 _)).append (.singleton (by decide))).append (plain_pad 2 _)).append
    hcolon).append (plain_pad 2 _)).append hcolon).append (plain_pad 2 _)).append
    (plain_fraction _)).append (.singleton (by decide))

end Forge.GoTime
