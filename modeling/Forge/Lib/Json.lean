import Forge.Lib.GoStrings

/-!
# JSON as `encoding/json` reads and writes it

`parse` accepts the texts `json.Unmarshal` accepts: the grammar of RFC 8259, any bytes from `0x20` on inside
strings, at most `maxNestingDepth` nested values. Strings are unquoted as the decoder does, invalid UTF-8 and
lone surrogates becoming U+FFFD. `unmarshalStrings` decodes into a struct whose fields are strings, and
`marshalStrings` encodes one. Strings of ASCII characters that need no escape (`Plain`) are read back as
they were written (`unmarshalStrings_marshalStrings`).
-/

namespace Forge

inductive Json
  | null
  | bool (b : Bool)
  | number (text : GoString)
  | string (s : GoString)
  | array (elems : List Json)
  | object (members : List (GoString × Json))

namespace Json

/-! ### UTF-8 -/

def isCont (b : UInt8) : Bool := 0x80 ≤ b && b ≤ 0xBF

/-- The length of the encoded rune `s` begins with, `none` if it begins with none. -/
def runeLen : GoString → Option Nat
  | [] => none
  | b :: s =>
    if b < 0x80 then some 1
    else match s with
      | [] => none
      | b₁ :: s =>
        if 0xC2 ≤ b ∧ b ≤ 0xDF ∧ isCont b₁ then some 2
        else match s with
          | [] => none
          | b₂ :: s =>
            if isCont b₁ ∧ isCont b₂ ∧ (b = 0xE0 ∧ 0xA0 ≤ b₁ ∨ 0xE1 ≤ b ∧ b ≤ 0xEC ∨
                b = 0xED ∧ b₁ ≤ 0x9F ∨ b = 0xEE ∨ b = 0xEF) then some 3
            else match s with
              | [] => none
              | b₃ :: _ =>
                if isCont b₁ ∧ isCont b₂ ∧ isCont b₃ ∧ (b = 0xF0 ∧ 0x90 ≤ b₁ ∨ 0xF1 ≤ b ∧ b ≤ 0xF3 ∨
                    b = 0xF4 ∧ b₁ ≤ 0x8F) then some 4
                else none

/-- `s` consists of encoded runes, at most `n` of them. -/
def validRunes : Nat → GoString → Bool
  | _, [] => true
  | 0, _ :: _ => false
  | n + 1, b :: s => match runeLen (b :: s) with
    | some k => validRunes n ((b :: s).drop k)
    | none => false

def ValidString (s : GoString) : Bool := validRunes s.length s

/-- U+FFFD. -/
def replacement : GoString := [0xEF, 0xBF, 0xBD]

def encodeRune (r : Nat) : GoString :=
  if r < 0x80 then [.ofNat r]
  else if r < 0x800 then [.ofNat (0xC0 + r / 64), .ofNat (0x80 + r % 64)]
  else if r < 0x10000 then [.ofNat (0xE0 + r / 4096), .ofNat (0x80 + r / 64 % 64), .ofNat (0x80 + r % 64)]
  else [.ofNat (0xF0 + r / 262144), .ofNat (0x80 + r / 4096 % 64), .ofNat (0x80 + r / 64 % 64),
    .ofNat (0x80 + r % 64)]

/-! ### Strings -/

def hexDigit (b : UInt8) : Option Nat :=
  if 0x30 ≤ b ∧ b ≤ 0x39 then some (b.toNat - 0x30)
  else if 0x61 ≤ b ∧ b ≤ 0x66 then some (b.toNat - 0x57)
  else if 0x41 ≤ b ∧ b ≤ 0x46 then some (b.toNat - 0x37)
  else none

def hex4 (a b c d : UInt8) : Option Nat := do
  return (← hexDigit a) * 4096 + (← hexDigit b) * 256 + (← hexDigit c) * 16 + (← hexDigit d)

/-- The escapes of one character, with what they stand for. -/
def escapes : List (UInt8 × UInt8) :=
  [(0x22, 0x22), (0x5C, 0x5C), (0x2F, 0x2F), (0x62, 0x08), (0x66, 0x0C), (0x6E, 0x0A), (0x72, 0x0D), (0x74, 0x09)]

/-- What stands up to the closing quote, still escaped, and the rest. -/
def scanString : GoString → Option (GoString × GoString)
  | [] => none
  | b :: s =>
    if b = 0x22 then some ([], s)
    else if b = 0x5C then
      match s with
      | 0x75 :: a :: b :: c :: d :: s =>
        if (hex4 a b c d).isSome then (scanString s).map fun x => (0x5C :: 0x75 :: a :: b :: c :: d :: x.1, x.2)
        else none
      | e :: s =>
        if (escapes.lookup e).isSome then (scanString s).map fun x => (0x5C :: e :: x.1, x.2) else none
      | [] => none
    else if b < 0x20 then none
    else (scanString s).map fun x => (b :: x.1, x.2)

/-- The low surrogate of a pair at the front of `s`. -/
def lowSurrogate : GoString → Option (Nat × GoString)
  | 0x5C :: 0x75 :: a :: b :: c :: d :: s => (hex4 a b c d).bind fun r =>
    if 0xDC00 ≤ r ∧ r < 0xE000 then some (r, s) else none
  | _ => none

/-- The characters of a scanned string; each round takes at least one byte off `s`. -/
def unquote : Nat → GoString → GoString
  | 0, _ => []
  | _, [] => []
  | n + 1, b :: s =>
    if b = 0x5C then
      match s with
      | 0x75 :: a :: b :: c :: d :: s =>
        let r := (hex4 a b c d).getD 0
        if 0xD800 ≤ r ∧ r < 0xDC00 then
          match lowSurrogate s with
          | some (r', s') => encodeRune (0x10000 + (r - 0xD800) * 0x400 + (r' - 0xDC00)) ++ unquote n s'
          | none => replacement ++ unquote n s
        else if 0xDC00 ≤ r ∧ r < 0xE000 then replacement ++ unquote n s
        else encodeRune r ++ unquote n s
      | e :: s => (escapes.lookup e).getD 0 :: unquote n s
      | [] => []
    else if b < 0x80 then b :: unquote n s
    else match runeLen (b :: s) with
      | some k => (b :: s).take k ++ unquote n ((b :: s).drop k)
      | none => replacement ++ unquote n s

/-! ### Values -/

def isSpace (b : UInt8) : Bool := b = 0x20 || b = 0x09 || b = 0x0D || b = 0x0A

def skipSpace (s : GoString) : GoString := s.dropWhile isSpace

def digits (s : GoString) : GoString × GoString := s.span GoString.isDigit

/-- The fraction and the exponent of a number: what is read, and the rest. -/
def scanFraction (s : GoString) : Option (GoString × GoString) :=
  match s with
  | 0x2E :: t => match digits t with
    | ([], _) => none
    | (ds, rest) => some (0x2E :: ds, rest)
  | _ => some ([], s)

def scanExponent (s : GoString) : Option (GoString × GoString) :=
  match s with
  | e :: t =>
    if e = 0x65 ∨ e = 0x45 then
      let (sign, t) : GoString × GoString := match t with
        | b :: t' => if b = 0x2B ∨ b = 0x2D then ([b], t') else ([], t)
        | [] => ([], t)
      match digits t with
      | ([], _) => none
      | (ds, rest) => some (e :: sign ++ ds, rest)
    else some ([], s)
  | [] => some ([], s)

def scanNumber (s : GoString) : Option (GoString × GoString) := do
  let (sign, s) : GoString × GoString := match s with
    | 0x2D :: t => ([0x2D], t)
    | _ => ([], s)
  let (whole, s) ← match s with
    | 0x30 :: t => some ([0x30], t)
    | _ => match digits s with
      | ([], _) => none
      | r => some r
  let (frac, s) ← scanFraction s
  let (exponent, s) ← scanExponent s
  return (sign ++ whole ++ frac ++ exponent, s)

def maxNestingDepth : Nat := 10000

def expect (b : UInt8) : GoString → Option GoString
  | [] => none
  | c :: s => if c = b then some s else none

def word (text : GoString) (v : Json) (s : GoString) : Option (Json × GoString) :=
  if text.isPrefixOf s then some (v, s.drop text.length) else none

mutual

/-- A value at the front of `s`, at most `n` values and members from here on. -/
def value (n depth : Nat) (s : GoString) : Option (Json × GoString) :=
  match n with
  | 0 => none
  | n + 1 => match skipSpace s with
    | [] => none
    | b :: s =>
      if b = 0x7B then
        if depth = maxNestingDepth then none
        else if (skipSpace s).head? = some 0x7D then some (.object [], (skipSpace s).tail)
        else (members n (depth + 1) s).map fun x => (.object x.1, x.2)
      else if b = 0x5B then
        if depth = maxNestingDepth then none
        else if (skipSpace s).head? = some 0x5D then some (.array [], (skipSpace s).tail)
        else (elements n (depth + 1) s).map fun x => (.array x.1, x.2)
      else if b = 0x22 then (scanString s).map fun x => (.string (unquote x.1.length x.1), x.2)
      else if b = 0x74 then word "true" (.bool true) (b :: s)
      else if b = 0x66 then word "false" (.bool false) (b :: s)
      else if b = 0x6E then word "null" .null (b :: s)
      else (scanNumber (b :: s)).map fun x => (.number x.1, x.2)

def members (n depth : Nat) (s : GoString) : Option (List (GoString × Json) × GoString) :=
  match n with
  | 0 => none
  | n + 1 => (expect 0x22 (skipSpace s)).bind fun s => (scanString s).bind fun (raw, s) =>
    (expect 0x3A (skipSpace s)).bind fun s => (value n depth s).bind fun (v, s) =>
      match skipSpace s with
      | [] => none
      | b :: s =>
        let m := (unquote raw.length raw, v)
        if b = 0x2C then (members n depth s).map fun x => (m :: x.1, x.2)
        else if b = 0x7D then some ([m], s)
        else none

def elements (n depth : Nat) (s : GoString) : Option (List Json × GoString) :=
  match n with
  | 0 => none
  | n + 1 => (value n depth s).bind fun (v, s) =>
    match skipSpace s with
    | [] => none
    | b :: s =>
      if b = 0x2C then (elements n depth s).map fun x => (v :: x.1, x.2)
      else if b = 0x5D then some ([v], s)
      else none

end

/-- A text has fewer values and members than bytes. -/
def parse (s : GoString) : Option Json :=
  (value (s.length + 1) 0 s).bind fun (v, rest) => if skipSpace rest = [] then some v else none

/-! ### Structs of strings -/

/-- The name under which a key is looked up when no field has exactly its name: letters in upper case, the
long s and the Kelvin sign among them. -/
def foldName : GoString → GoString
  | 0xC5 :: 0xBF :: s => 0x53 :: foldName s
  | 0xE2 :: 0x84 :: 0xAA :: s => 0x4B :: foldName s
  | b :: s => (if 0x61 ≤ b ∧ b ≤ 0x7A then b - 0x20 else b) :: foldName s
  | [] => []

/-- One member of the object sets the field it names; `none`: it has the wrong type. -/
def setField (names : List GoString) (values : List GoString) (m : GoString × Json) :
    Option (List GoString) :=
  match names.findIdx? fun name => foldName name = foldName m.1 with
  | none => some values
  | some i => match m.2 with
    | .string s => some (values.set i s)
    | .null => some values
    | _ => none

/-- `json.Unmarshal` into a struct with string fields of these names: their values, or an error. -/
def unmarshalStrings (names : List GoString) (data : GoString) : Option (List GoString) :=
  (parse data).bind fun
    | .null => some (names.map fun _ => [])
    | .object ms => ms.foldlM (setField names) (names.map fun _ => [])
    | _ => none

/-! ### A slice of structs of strings -/

/-- The value a `json.Decoder` reads first; what follows it is not looked at. -/
def decodeFirst (s : GoString) : Option Json := (value (s.length + 1) 0 s).map (·.1)

/-- A value decoded into a struct with string fields that holds `old`. -/
def decodeStrings (names old : List GoString) : Json → Option (List GoString)
  | .null => some old
  | .object ms => ms.foldlM (setField names) old
  | _ => none

/-- A slice of structs: what the array behind it holds, and its length. -/
structure Structs where
  elems : List (List GoString)
  len : Nat

namespace Structs

/-- A value decoded into a slice. The elements of an array are decoded over what the array behind the slice
holds, so that a field they do not name keeps the value of an earlier member of the same name. -/
def decode (names : List GoString) (old : Structs) : Json → Option Structs
  | .null => some ⟨[], 0⟩
  | .array [] => some ⟨[], 0⟩
  | .array vs => do
    let elems ← vs.zipIdx.mapM fun (v, i) => decodeStrings names (old.elems.getD i (names.map fun _ => [])) v
    return ⟨elems ++ old.elems.drop elems.length, elems.length⟩
  | _ => none

/-- One member of the object sets the slice if it names it. -/
def setMember (field : GoString) (names : List GoString) (old : Structs) (m : GoString × Json) : Option Structs :=
  if foldName m.1 = foldName field then old.decode names m.2 else some old

end Structs

/-- `Decoder.Decode` into a struct with one field, a slice of structs with string fields of these names. -/
def decodeStructs (field : GoString) (names : List GoString) (data : GoString) : Option (List (List GoString)) :=
  (decodeFirst data).bind fun
    | .null => some []
    | .object ms => do
      let s ← ms.foldlM (Structs.setMember field names) ⟨[], 0⟩
      return s.elems.take s.len
    | _ => none

/-! ### Encoding -/

def hexByte (n : Nat) : UInt8 := if n < 10 then .ofNat (0x30 + n) else .ofNat (0x57 + n)

/-- A character below `0x80`, escaped as the encoder escapes it for HTML. -/
def escapeByte (b : UInt8) : GoString :=
  if b = 0x22 ∨ b = 0x5C then [0x5C, b]
  else if b = 0x08 then [0x5C, 0x62]
  else if b = 0x0C then [0x5C, 0x66]
  else if b = 0x0A then [0x5C, 0x6E]
  else if b = 0x0D then [0x5C, 0x72]
  else if b = 0x09 then [0x5C, 0x74]
  else if b < 0x20 ∨ b = 0x3C ∨ b = 0x3E ∨ b = 0x26 then
    str "\\u00" ++ [hexByte (b.toNat / 16), hexByte (b.toNat % 16)]
  else [b]

/-- Each round takes at least one byte off `s`. -/
def escape : Nat → GoString → GoString
  | 0, _ => []
  | _, [] => []
  | n + 1, b :: s =>
    if b < 0x80 then escapeByte b ++ escape n s
    else match runeLen (b :: s) with
      | none => str "\\ufffd" ++ escape n s
      | some k =>
        (if (b :: s).take k = [0xE2, 0x80, 0xA8] then str "\\u2028"
          else if (b :: s).take k = [0xE2, 0x80, 0xA9] then str "\\u2029"
          else (b :: s).take k) ++ escape n ((b :: s).drop k)

def quoted (s : GoString) : GoString := 0x22 :: escape s.length s ++ [0x22]

/-- The members of an object of strings, and its closing brace. -/
def marshalMembers : List (GoString × GoString) → GoString
  | [] => [0x7D]
  | [(k, v)] => quoted k ++ 0x3A :: quoted v ++ [0x7D]
  | (k, v) :: ms => quoted k ++ 0x3A :: quoted v ++ 0x2C :: marshalMembers ms

/-- `json.Marshal` of a struct with string fields. -/
def marshalStrings (fields : List (GoString × GoString)) : GoString := 0x7B :: marshalMembers fields

/-! ### Reading back plain strings -/

/-- A printable ASCII character the encoder does not escape. -/
def plain (b : UInt8) : Bool :=
  0x20 ≤ b && b < 0x80 && b != 0x22 && b != 0x5C && b != 0x3C && b != 0x3E && b != 0x26

def Plain (s : GoString) : Prop := ∀ b ∈ s, plain b = true

theorem Plain.append {s t : GoString} (hs : Plain s) (ht : Plain t) : Plain (s ++ t) := by
  intro b hb
  rcases List.mem_append.1 hb with hb | hb
  · exact hs b hb
  · exact ht b hb

theorem Plain.singleton {b : UInt8} (h : plain b = true) : Plain [b] := by
  intro c hc
  rw [List.mem_singleton.1 hc]
  exact h

theorem plain_spec {b : UInt8} (h : plain b = true) :
    ¬ b < 0x20 ∧ b < 0x80 ∧ b ≠ 0x22 ∧ b ≠ 0x5C ∧ b ≠ 0x3C ∧ b ≠ 0x3E ∧ b ≠ 0x26 := by
  simp only [plain, Bool.and_eq_true, decide_eq_true_eq, bne_iff_ne] at h
  obtain ⟨⟨⟨⟨⟨⟨h₁, h₂⟩, h₃⟩, h₄⟩, h₅⟩, h₆⟩, h₇⟩ := h
  exact ⟨UInt8.not_lt.2 h₁, h₂, h₃, h₄, h₅, h₆, h₇⟩

theorem validString_plain {s : GoString} (h : Plain s) : ValidString s = true := by
  unfold ValidString
  induction s with
  | nil => rfl
  | cons b s ih =>
    have hb := (plain_spec (h b List.mem_cons_self)).2.1
    simp only [List.length_cons, validRunes, runeLen, hb, if_true, List.drop_succ_cons, List.drop_zero]
    exact ih fun c hc => h c (List.mem_cons_of_mem b hc)

theorem escapeByte_plain {b : UInt8} (h : plain b = true) : escapeByte b = [b] := by
  obtain ⟨h₁, -, h₃, h₄, h₅, h₆, h₇⟩ := plain_spec h
  -- the control characters lie below the printable ones
  have hne : ∀ c : UInt8, c < 0x20 → b ≠ c := fun c hc e => h₁ (e ▸ hc)
  simp [escapeByte, h₁, h₃, h₄, h₅, h₆, h₇, hne 0x08 (by decide), hne 0x09 (by decide),
    hne 0x0A (by decide), hne 0x0C (by decide), hne 0x0D (by decide)]

theorem quoted_plain {s : GoString} (h : Plain s) : quoted s = 0x22 :: s ++ [0x22] := by
  have hescape : escape s.length s = s := by
    induction s with
    | nil => rfl
    | cons b s ih =>
      have hb := h b List.mem_cons_self
      rw [List.length_cons, escape, if_pos (plain_spec hb).2.1, escapeByte_plain hb,
        ih fun c hc => h c (List.mem_cons_of_mem b hc)]
      rfl
  rw [quoted, hescape]

theorem unquote_plain {s : GoString} (h : Plain s) : unquote s.length s = s := by
  induction s with
  | nil => rfl
  | cons b s ih =>
    obtain ⟨-, hascii, -, hne, -⟩ := plain_spec (h b List.mem_cons_self)
    rw [List.length_cons, unquote.eq_def]
    dsimp only
    rw [if_neg hne, if_pos hascii, ih fun c hc => h c (List.mem_cons_of_mem b hc)]

theorem scanString_plain {v : GoString} (h : Plain v) (rest : GoString) :
    scanString (v ++ 0x22 :: rest) = some (v, rest) := by
  induction v with
  | nil =>
    rw [List.nil_append, scanString.eq_def]
    rfl
  | cons b v ih =>
    obtain ⟨hctl, -, hquote, hne, -⟩ := plain_spec (h b List.mem_cons_self)
    rw [List.cons_append, scanString.eq_def]
    dsimp only
    rw [if_neg hquote, if_neg hne, if_neg hctl, ih fun c hc => h c (List.mem_cons_of_mem b hc)]
    rfl

theorem skipSpace_cons {b : UInt8} (h : isSpace b = false) (s : GoString) : skipSpace (b :: s) = b :: s := by
  rw [skipSpace, List.dropWhile_cons, h]
  rfl

theorem value_quoted {v : GoString} (h : Plain v) (n depth : Nat) (rest : GoString) :
    value (n + 1) depth (quoted v ++ rest) = some (.string v, rest) := by
  rw [quoted_plain h, List.append_assoc, List.cons_append, value, skipSpace_cons (by decide)]
  simp [scanString_plain h, unquote_plain h]

theorem members_cons {k v : GoString} (hk : Plain k) (hv : Plain v) (n depth : Nat) (rest : GoString) :
    members (n + 2) depth (quoted k ++ 0x3A :: quoted v ++ 0x2C :: rest) =
      (members (n + 1) depth rest).map fun x => ((k, .string v) :: x.1, x.2) := by
  rw [quoted_plain hk, members]
  simp [skipSpace_cons, isSpace, expect, scanString_plain hk, unquote_plain hk, value_quoted hv]

theorem members_last {k v : GoString} (hk : Plain k) (hv : Plain v) (n depth : Nat) (rest : GoString) :
    members (n + 2) depth (quoted k ++ 0x3A :: quoted v ++ 0x7D :: rest) = some ([(k, .string v)], rest) := by
  rw [quoted_plain hk, members]
  simp [skipSpace_cons, isSpace, expect, scanString_plain hk, unquote_plain hk, value_quoted hv]

theorem members_marshalMembers {fields : List (GoString × GoString)} (hne : fields ≠ [])
    (h : ∀ x ∈ fields, Plain x.1 ∧ Plain x.2) {n : Nat} (hn : fields.length < n) (depth : Nat) :
    members n depth (marshalMembers fields) = some (fields.map fun x => (x.1, .string x.2), []) := by
  induction fields generalizing n with
  | nil => exact absurd rfl hne
  | cons x fields ih =>
    obtain ⟨k, v⟩ := x
    obtain ⟨⟨hk, hv⟩, h⟩ := List.forall_mem_cons.1 h
    obtain ⟨n, rfl⟩ : ∃ m, n = m + 2 := ⟨n - 2, by simp only [List.length_cons] at hn; omega⟩
    cases fields with
    | nil => exact members_last hk hv n depth []
    | cons y fields =>
      simp only [marshalMembers]
      rw [members_cons hk hv, ih (by simp) h (by simp only [List.length_cons] at hn ⊢; omega)]
      rfl

theorem length_lt_marshalMembers (fields : List (GoString × GoString)) :
    fields.length < (marshalMembers fields).length := by
  fun_induction marshalMembers fields with
  | case1 => decide
  | case2 k v =>
    simp only [List.length_cons, List.length_append, List.length_nil]
    omega
  | case3 k v ms _ ih =>
    simp only [List.length_cons, List.length_append]
    omega

theorem parse_marshalStrings {fields : List (GoString × GoString)} (hne : fields ≠ [])
    (h : ∀ x ∈ fields, Plain x.1 ∧ Plain x.2) :
    parse (marshalStrings fields) = some (.object (fields.map fun x => (x.1, .string x.2))) := by
  have hmem := members_marshalMembers hne h (Nat.lt_succ_of_lt (length_lt_marshalMembers fields)) (0 + 1)
  have hhead : (skipSpace (marshalMembers fields)).head? ≠ some 0x7D := by
    rcases fields with _ | ⟨⟨k, v⟩, _ | _⟩
    · exact absurd rfl hne
    all_goals
      simp only [marshalMembers, quoted, List.cons_append]
      rw [skipSpace_cons (by decide)]
      simp
  rw [parse, marshalStrings, List.length_cons, value, skipSpace_cons (by decide)]
  dsimp only
  rw [if_pos rfl, if_neg (by decide), if_neg hhead, hmem]
  rfl

/-- A member sets the field of its name, where the names are distinct. -/
theorem setField_append (names₁ names₂ values₁ values₂ : List GoString) (k v old : GoString)
    (hlen : values₁.length = names₁.length) (hk : ∀ name ∈ names₁, foldName name ≠ foldName k) :
    setField (names₁ ++ k :: names₂) (values₁ ++ old :: values₂) (k, .string v) =
      some (values₁ ++ v :: values₂) := by
  have hidx : (names₁ ++ k :: names₂).findIdx? (fun name => foldName name = foldName k) =
      some names₁.length := by
    rw [List.findIdx?_append, List.findIdx?_eq_none_iff.2 (by simpa using hk)]
    simp [List.findIdx?_cons]
  simp only [setField, hidx]
  rw [← hlen, List.set_append_right _ _ (Nat.le_refl _), Nat.sub_self]
  rfl

/-- A struct of plain strings is read back as it was written. -/
theorem unmarshalStrings_marshalStrings (fields : List (GoString × GoString)) (hne : fields ≠ [])
    (h : ∀ x ∈ fields, Plain x.1 ∧ Plain x.2) (hnodup : (fields.map fun x => foldName x.1).Nodup) :
    unmarshalStrings (fields.map (·.1)) (marshalStrings fields) = some (fields.map (·.2)) := by
  -- the first fields have been set, the others are still empty
  have hset : ∀ done rest : List (GoString × GoString),
      ((done ++ rest).map fun x => foldName x.1).Nodup →
      (rest.map fun x => (x.1, Json.string x.2)).foldlM (setField ((done ++ rest).map (·.1)))
        (done.map (·.2) ++ rest.map fun _ => []) = some ((done ++ rest).map (·.2)) := by
    intro done rest
    induction rest generalizing done with
    | nil => simp
    | cons x rest ih =>
      intro hnodup
      have hfirst : ∀ name ∈ done.map (·.1), foldName name ≠ foldName x.1 := by
        intro name hname
        obtain ⟨y, hy, rfl⟩ := List.mem_map.1 hname
        rw [List.map_append, List.nodup_append] at hnodup
        exact hnodup.2.2 _ (List.mem_map_of_mem hy) _ (by simp)
      have ih' := ih (done ++ [x]) (by simpa using hnodup)
      have hstep := setField_append (done.map (·.1)) (rest.map (·.1)) (done.map (·.2))
        (rest.map fun _ => []) x.1 x.2 [] (by simp) hfirst
      simp only [List.map_append, List.map_cons, List.append_assoc, List.map_nil, List.singleton_append,
        List.foldlM_cons] at ih' ⊢
      rw [hstep]
      exact ih'
  have hzero : (fields.map (·.1)).map (fun _ => ([] : GoString)) = fields.map fun _ => [] := by
    rw [List.map_map]
    rfl
  rw [unmarshalStrings, parse_marshalStrings hne h, Option.bind_some, hzero]
  exact hset [] fields hnodup

theorem unmarshalStrings_zip {names values : List GoString} (hlen : names.length = values.length)
    (hne : names ≠ []) (hnames : ∀ n ∈ names, Plain n) (hvalues : ∀ v ∈ values, Plain v)
    (hnodup : (names.map foldName).Nodup) :
    unmarshalStrings names (marshalStrings (names.zip values)) = some values := by
  have hfst : (names.zip values).map (·.1) = names := List.map_fst_zip (le_of_eq hlen)
  have hsnd : (names.zip values).map (·.2) = values := List.map_snd_zip (le_of_eq hlen.symm)
  have hback := unmarshalStrings_marshalStrings (names.zip values) ?_ ?_ ?_
  · rwa [hfst, hsnd] at hback
  · intro hnil
    rw [hnil] at hfst
    exact hne hfst.symm
  · intro x hx
    exact ⟨hnames _ (List.of_mem_zip hx).1, hvalues _ (List.of_mem_zip hx).2⟩
  · rw [← hfst, List.map_map] at hnodup
    exact hnodup

end Json

end Forge
