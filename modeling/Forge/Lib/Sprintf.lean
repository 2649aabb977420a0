import Forge.Lib.Json

/-!
# `fmt.Sprintf` and `strconv.Quote`

The verbs `%s` and `%d` without flags and `%%`, on strings and integers, with what is printed for missing, extra
and ill-typed arguments. Other directives are not modelled (`none`). With the `%s` verbs alone and a string for
each, the result is the format with the strings in place of the verbs (`Sprintf_filled`).

`Quote` is what the verb `%q` prints for a string: quotes, backslashes, characters that are not printable and bytes
that are not UTF-8 are escaped.
-/

namespace Forge

/-- A Go value of the type `string` or `int`. -/
inductive GoValue
  | string (s : GoString)
  | int (n : Int)
deriving DecidableEq

namespace Fmt

open GoString

/-! ### Quoting -/

/-- The rune that these bytes encode. -/
def decodeRune : GoString → Nat
  | [b] => b.toNat
  | [b, b₁] => (b.toNat - 0xC0) * 0x40 + (b₁.toNat - 0x80)
  | [b, b₁, b₂] => ((b.toNat - 0xE0) * 0x40 + (b₁.toNat - 0x80)) * 0x40 + (b₂.toNat - 0x80)
  | [b, b₁, b₂, b₃] =>
    (((b.toNat - 0xF0) * 0x40 + (b₁.toNat - 0x80)) * 0x40 + (b₂.toNat - 0x80)) * 0x40 + (b₃.toNat - 0x80)
  | _ => 0

/-- The control and format characters, the separators but for the space, and the private and reserved ranges. -/
def unprintable : List (Nat × Nat) :=
  [(0, 0x1F), (0x7F, 0xA0), (0xAD, 0xAD), (0x600, 0x605), (0x61C, 0x61C), (0x6DD, 0x6DD), (0x70F, 0x70F),
    (0x890, 0x891), (0x8E2, 0x8E2), (0x1680, 0x1680), (0x180E, 0x180E), (0x2000, 0x200F), (0x2028, 0x202F),
    (0x205F, 0x206F), (0x3000, 0x3000), (0xD800, 0xF8FF), (0xFEFF, 0xFEFF), (0xFFF0, 0xFFFB), (0xFFFE, 0xFFFF),
    (0x110BD, 0x110BD), (0x110CD, 0x110CD), (0x13430, 0x1343F), (0x1BCA0, 0x1BCA3), (0x1D173, 0x1D17A),
    (0xE0000, 0xE00FF), (0xE01F0, 0x10FFFF)]

/-- `strconv.IsPrint`; the characters that Unicode has not assigned yet count as printable here, most of them. -/
def IsPrint (r : Nat) : Bool := ! unprintable.any fun x => x.1 ≤ r && r ≤ x.2

/-- `appendEscapedRune` for a rune that is not printable. -/
def escapeRune (r : Nat) : GoString :=
  match r with
  | 0x07 => "\\a"
  | 0x08 => "\\b"
  | 0x0C => "\\f"
  | 0x0A => "\\n"
  | 0x0D => "\\r"
  | 0x09 => "\\t"
  | 0x0B => "\\v"
  | r =>
    if r < 0x20 ∨ r = 0x7F then str "\\x" ++ hex 2 r
    else if r < 0x10000 then str "\\u" ++ hex 4 r
    else str "\\U" ++ hex 8 r

/-- The loop of `strconv.Quote`, over at most `n` runes. -/
def quoteRunes : Nat → GoString → GoString
  | 0, _ => []
  | _, [] => []
  | n + 1, b :: s => match Json.runeLen (b :: s) with
    | none => str "\\x" ++ hex 2 b.toNat ++ quoteRunes n s
    | some k =>
      let rune := (b :: s).take k
      (if b = 0x22 ∨ b = 0x5C then 0x5C :: rune
        else if IsPrint (decodeRune rune) then rune
        else escapeRune (decodeRune rune)) ++ quoteRunes n ((b :: s).drop k)

/-- `strconv.Quote`. -/
def Quote (s : GoString) : GoString := [0x22] ++ quoteRunes s.length s ++ [0x22]

-- a line feed, a letter of two bytes, a soft hyphen, and a byte that is no character
example : Quote [0x61, 0x0A, 0xC3, 0xA9, 0xC2, 0xAD, 0xFF] =
    str "\"a\\n" ++ [0xC3, 0xA9] ++ str "\\u00ad\\xff\"" := by decide +kernel

/-! ### Formats -/

def typeName : GoValue → GoString
  | .string _ => "string"
  | .int _ => "int"

/-- A value under `%v`. -/
def printValue : GoValue → GoString
  | .string s => s
  | .int n => FormatInt n

/-- A value under the verb `s` or `d`. -/
def printArg (verb : UInt8) (v : GoValue) : GoString :=
  match verb, v with
  | 0x73, .string s => s
  | 0x64, .int n => FormatInt n
  | _, _ => str "%!" ++ [verb] ++ str "(" ++ typeName v ++ str "=" ++ printValue v ++ str ")"

/-- What is printed for arguments that no verb has used. -/
def extra : List GoValue → GoString
  | [] => []
  | args =>
    str "%!(EXTRA " ++ (str ", ").intercalate (args.map fun v => typeName v ++ str "=" ++ printValue v) ++ str ")"

def Sprintf : GoString → List GoValue → Option GoString
  | [], args => some (extra args)
  | b :: format, args =>
    if b ≠ 0x25 then (Sprintf format args).map (b :: ·)
    else match format, args with
      | [], args => some (str "%!(NOVERB)" ++ extra args)
      | verb :: format, args =>
        if verb = 0x25 then (Sprintf format args).map (0x25 :: ·)
        else if verb ≠ 0x73 ∧ verb ≠ 0x64 then none
        else match args with
          | [] => (Sprintf format []).map (str "%!" ++ [verb] ++ str "(MISSING)" ++ ·)
          | v :: args => (Sprintf format args).map (printArg verb v ++ ·)

example : Sprintf "LIMIT %d" [.int 51] = some (str "LIMIT 51") := by decide +kernel

example : Sprintf "100%% %s %d" [.int 1] = some (str "100% %!s(int=1) %!d(MISSING)") := by decide +kernel

/-- The format has `n` verbs `%s` and no other directive. -/
inductive Verbs : GoString → Nat → Prop
  | text {t : GoString} (ht : 0x25 ∉ t) : Verbs t 0
  | verb {t f : GoString} {n : Nat} (ht : 0x25 ∉ t) (hf : Verbs f n) : Verbs (t ++ str "%s" ++ f) (n + 1)

/-- The last string is the format with the strings `ps` in place of its verbs, from left to right. -/
inductive Filled : GoString → List GoString → GoString → Prop
  | text {t : GoString} (ht : 0x25 ∉ t) : Filled t [] t
  | verb {t f p c : GoString} {ps : List GoString} (ht : 0x25 ∉ t) (hf : Filled f ps c) :
      Filled (t ++ str "%s" ++ f) (p :: ps) (t ++ p ++ c)

theorem Sprintf_cons {b : UInt8} (hb : b ≠ 0x25) (f : GoString) (args : List GoValue) :
    Sprintf (b :: f) args = (Sprintf f args).map (b :: ·) := by
  rw [Sprintf.eq_def]
  exact if_pos hb

theorem Sprintf_text {t : GoString} (ht : 0x25 ∉ t) (f : GoString) (args : List GoValue) :
    Sprintf (t ++ f) args = (Sprintf f args).map (t ++ ·) := by
  induction t with
  | nil => simp
  | cons b t ih =>
    rw [List.mem_cons, not_or] at ht
    rw [List.cons_append, Sprintf_cons (Ne.symm ht.1), ih ht.2, Option.map_map]
    rfl

theorem Sprintf_plain {t : GoString} (ht : 0x25 ∉ t) : Sprintf t [] = some t := by
  have := Sprintf_text ht [] []
  simpa [Sprintf, extra] using this

theorem Sprintf_verb (f p : GoString) (args : List GoValue) :
    Sprintf (str "%s" ++ f) (.string p :: args) = (Sprintf f args).map (p ++ ·) := by
  show Sprintf (0x25 :: 0x73 :: f) (.string p :: args) = _
  simp [Sprintf, printArg]

theorem Sprintf_percent (f : GoString) (args : List GoValue) :
    Sprintf (str "%%" ++ f) args = (Sprintf f args).map (str "%" ++ ·) := by
  show Sprintf (0x25 :: 0x25 :: f) args = (Sprintf f args).map (0x25 :: ·)
  simp [Sprintf]

theorem Sprintf_decimal (n : Int) : Sprintf (str "%d") [.int n] = some (FormatInt n) := by
  show Sprintf [0x25, 0x64] [.int n] = _
  simp [Sprintf, printArg, extra]

theorem Sprintf_filled {f : GoString} {ps : List GoString} (h : Verbs f ps.length) :
    ∃ c, Sprintf f (ps.map .string) = some c ∧ Filled f ps c := by
  generalize hn : ps.length = n at h
  induction h generalizing ps with
  | @text t ht =>
    cases List.eq_nil_of_length_eq_zero hn
    exact ⟨t, Sprintf_plain ht, .text ht⟩
  | @verb t f n ht hf ih =>
    obtain ⟨p, ps, rfl⟩ := List.exists_cons_of_length_eq_add_one hn
    obtain ⟨c, hc, hfilled⟩ := ih (by simpa using hn)
    refine ⟨t ++ p ++ c, ?_, .verb ht hfilled⟩
    rw [List.append_assoc, Sprintf_text ht, List.map_cons, Sprintf_verb, hc, Option.map_some, Option.map_some,
      List.append_assoc]

end Fmt

end Forge
