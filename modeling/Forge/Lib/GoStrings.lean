import Mathlib.Algebra.Group.Nat.Defs
import Mathlib.Data.List.Infix

/-!
# Go strings

A Go string is a sequence of bytes. `TrimSpace`, `Trim`, `ParseInt` and `FormatInt` are the
functions of `strings` and `strconv` with those names. `TrimSpace` removes the UTF-8 encodings of
the runes of `unicode.IsSpace` from both ends: UTF-8 is self-synchronising, so the first (last) rune
of a byte string is a given rune exactly if its encoding is a prefix (suffix) of the bytes.
-/

namespace Forge

abbrev GoString := List UInt8

/-- The bytes of a string literal. -/
def str (s : String) : GoString := s.toByteArray.data.toList

instance : Coe String GoString := ⟨str⟩

namespace GoString

/-- Strips prefixes from `ps` as long as there is one, at most `n` times. -/
def strip (ps : List GoString) : Nat → GoString → GoString
  | 0, s => s
  | n + 1, s => match ps.find? (·.isPrefixOf s) with
    | some p => strip ps n (s.drop p.length)
    | none => s

/-- No string of `ps` is a prefix of `s`. -/
def Clean (ps : List GoString) (s : GoString) : Prop := ∀ p ∈ ps, ¬ p <+: s

/-- The encodings of the white space runes: tab to carriage return, space, U+0085, U+00A0, U+1680,
U+2000 to U+200A, U+2028, U+2029, U+202F, U+205F, U+3000. -/
def spaces : List GoString :=
  [[0x09], [0x0A], [0x0B], [0x0C], [0x0D], [0x20], [0xC2, 0x85], [0xC2, 0xA0], [0xE1, 0x9A, 0x80],
   [0xE2, 0x80, 0x80], [0xE2, 0x80, 0x81], [0xE2, 0x80, 0x82], [0xE2, 0x80, 0x83],
   [0xE2, 0x80, 0x84], [0xE2, 0x80, 0x85], [0xE2, 0x80, 0x86], [0xE2, 0x80, 0x87],
   [0xE2, 0x80, 0x88], [0xE2, 0x80, 0x89], [0xE2, 0x80, 0x8A], [0xE2, 0x80, 0xA8],
   [0xE2, 0x80, 0xA9], [0xE2, 0x80, 0xAF], [0xE2, 0x81, 0x9F], [0xE3, 0x80, 0x80]]

def trimLeft (s : GoString) : GoString := strip spaces s.length s

def trimRight (s : GoString) : GoString :=
  (strip (spaces.map List.reverse) s.length s.reverse).reverse

def TrimSpace (s : GoString) : GoString := trimRight (trimLeft s)

/-- `strings.Trim(s, c)` for a one-byte cutset. -/
def Trim (s : GoString) (c : UInt8) : GoString :=
  ((s.dropWhile (· = c)).reverse.dropWhile (· = c)).reverse

def TrimPrefix (s p : GoString) : GoString := if p <+: s then s.drop p.length else s

def isDigit (b : UInt8) : Bool := 0x30 ≤ b && b ≤ 0x39

/-- The number a non-empty string of decimal digits writes. -/
def parseDigits (s : GoString) : Option Nat :=
  if s ≠ [] ∧ s.all isDigit then some (s.foldl (fun n b => 10 * n + (b.toNat - 0x30)) 0) else none

/-- `strconv.ParseInt(s, 10, 64)`, `none` for a syntax or range error. -/
def ParseInt : GoString → Option Int
  | [] => none
  | b :: s =>
    if b = 0x2D then (parseDigits s).bind fun n => if n ≤ 2 ^ 63 then some (-n) else none
    else (parseDigits (if b = 0x2B then s else b :: s)).bind fun n =>
      if n < 2 ^ 63 then some n else none

/-- `strconv.Atoi`, with 64-bit integers. -/
def Atoi (s : GoString) : Option Int := ParseInt s

/-- `strconv.FormatInt(n, 10)`. -/
def FormatInt (n : Int) : GoString := toString n

def hexDigit (n : Nat) : UInt8 := if n < 10 then .ofNat (0x30 + n) else .ofNat (0x57 + n)

/-- The last `k` hexadecimal digits of `n`. -/
def hex : Nat → Nat → GoString
  | 0, _ => []
  | k + 1, n => hex k (n / 16) ++ [hexDigit (n % 16)]

section strip
variable {ps : List GoString} {n : Nat} {s t : GoString}

theorem strip_clean (h : Clean ps s) : strip ps n s = s := by
  cases n with
  | zero => rfl
  | succ n =>
    have hf : ps.find? (·.isPrefixOf s) = none := by
      rw [List.find?_eq_none]
      intro p hp hpre
      exact h p hp (List.isPrefixOf_iff_prefix.1 hpre)
    simp only [strip, hf]

theorem clean_strip (hps : ∀ p ∈ ps, p ≠ []) (hn : s.length ≤ n) : Clean ps (strip ps n s) := by
  induction n generalizing s with
  | zero =>
    obtain rfl : s = [] := List.eq_nil_of_length_eq_zero (by omega)
    intro p hp hpre
    exact hps p hp (List.prefix_nil.1 hpre)
  | succ n ih =>
    simp only [strip]
    split
    · rename_i p hf
      have hpre : p <+: s := by simpa using List.find?_some hf
      have hp0 : 0 < p.length := List.length_pos_iff.2 (hps p (List.mem_of_find?_eq_some hf))
      have := hpre.length_le
      exact ih (by simp only [List.length_drop]; omega)
    · rename_i hf
      intro p hp hpre
      exact List.find?_eq_none.1 hf p hp (List.isPrefixOf_iff_prefix.2 hpre)

theorem strip_suffix : strip ps n s <:+ s := by
  induction n generalizing s with
  | zero => exact List.suffix_rfl
  | succ n ih =>
    simp only [strip]
    split
    · exact ih.trans (List.drop_suffix _ _)
    · exact List.suffix_rfl

theorem Clean.of_prefix (h : Clean ps s) (ht : t <+: s) : Clean ps t :=
  fun p hp hpre => h p hp (hpre.trans ht)

/-- What is stripped is a sequence of strings from `ps`. -/
theorem exists_strip (ps : List GoString) (n : Nat) (s : GoString) :
    ∃ ws : List GoString, (∀ w ∈ ws, w ∈ ps) ∧ s = ws.flatten ++ strip ps n s := by
  induction n generalizing s with
  | zero => exact ⟨[], by simp, rfl⟩
  | succ n ih =>
    simp only [strip]
    split
    · rename_i p hf
      have hpre : p <+: s := by simpa using List.find?_some hf
      obtain ⟨rest, rfl⟩ := hpre
      obtain ⟨ws, hws, hrest⟩ := ih rest
      rw [List.drop_left]
      refine ⟨p :: ws, List.forall_mem_cons.2 ⟨List.mem_of_find?_eq_some hf, hws⟩, ?_⟩
      rw [List.flatten_cons, List.append_assoc, ← hrest]
    · exact ⟨[], by simp, rfl⟩

/-- No string of `ps` is a proper prefix of another. -/
def PrefixFree (ps : List GoString) : Prop := ∀ p ∈ ps, ∀ q ∈ ps, p <+: q → p = q

/-- Stripping takes a sequence of strings from `ps` off the front, and stops where none follows. -/
theorem strip_append (hne : ∀ p ∈ ps, p ≠ []) (hfree : PrefixFree ps) {ws : List GoString} (hws : ∀ w ∈ ws, w ∈ ps)
    (h : Clean ps t) (hn : (ws.flatten ++ t).length ≤ n) : strip ps n (ws.flatten ++ t) = t := by
  induction ws generalizing n with
  | nil => exact strip_clean h
  | cons w ws ih =>
    obtain ⟨hw, htail⟩ := List.forall_mem_cons.1 hws
    rw [List.flatten_cons, List.append_assoc, List.length_append] at hn
    rw [List.flatten_cons, List.append_assoc]
    have hpos : 0 < w.length := List.length_pos_iff.2 (hne w hw)
    obtain ⟨n, rfl⟩ : ∃ m, n = m + 1 := ⟨n - 1, by omega⟩
    have hwpre : w <+: w ++ (ws.flatten ++ t) := List.prefix_append _ _
    cases hf : ps.find? (·.isPrefixOf (w ++ (ws.flatten ++ t))) with
    | none => exact absurd (List.isPrefixOf_iff_prefix.2 hwpre) (List.find?_eq_none.1 hf w hw)
    | some p =>
      have hp := List.mem_of_find?_eq_some hf
      have hpre : p <+: w ++ (ws.flatten ++ t) := by simpa using List.find?_some hf
      obtain rfl : p = w := by
        rcases List.prefix_or_prefix_of_prefix hpre hwpre with h | h
        · exact hfree p hp w hw h
        · exact (hfree w hw p hp h).symm
      simp only [strip, hf, List.drop_left]
      exact ih htail (by omega)

end strip

theorem spaces_ne_nil : ∀ p ∈ spaces, p ≠ [] := by decide

theorem spaces_reverse_ne_nil : ∀ p ∈ spaces.map List.reverse, p ≠ [] := by decide

theorem prefixFree_spaces : PrefixFree spaces := by
  unfold PrefixFree
  decide

theorem prefixFree_spaces_reverse : PrefixFree (spaces.map List.reverse) := by
  unfold PrefixFree
  decide

/-- The first byte of a white space rune is not a later byte of another. -/
theorem spaces_head : ∀ p ∈ spaces, ∀ q ∈ spaces, ∀ b ∈ p.head?, b ∉ q.tail := by
  have h : ∀ p ∈ spaces, ∀ q ∈ spaces, (p.head?.all fun b => !q.tail.contains b) = true := by decide
  intro p hp q hq b hb hmem
  have hall := h p hp q hq
  rw [Option.mem_def.1 hb, Option.all_some, Bool.not_eq_true', ← Bool.not_eq_true] at hall
  exact hall (List.contains_iff_mem.2 hmem)

/-- White space only. -/
def Blank (s : GoString) : Prop := ∃ ws : List GoString, (∀ w ∈ ws, w ∈ spaces) ∧ s = ws.flatten

/-- `t` is `s` without the white space at its ends. -/
structure Trimmed (s t : GoString) : Prop where
  ends : ∃ l r, Blank l ∧ Blank r ∧ s = l ++ t ++ r
  left : ∀ p ∈ spaces, ¬ p <+: t
  right : ∀ p ∈ spaces, ¬ p <:+ t

theorem reverse_flatten_mem {ps ws : List GoString} (h : ∀ w ∈ ws, w ∈ ps) :
    ∃ ws' : List GoString, (∀ w ∈ ws', w ∈ ps.map List.reverse) ∧ ws.flatten.reverse = ws'.flatten := by
  refine ⟨(ws.map List.reverse).reverse, fun w hw => ?_, List.reverse_flatten⟩
  obtain ⟨w', hw', rfl⟩ := List.mem_map.1 (List.mem_reverse.1 hw)
  exact List.mem_map_of_mem (h w' hw')

/-- White space after `t` makes no rune together with the end of `t`. -/
theorem clean_append {t r : GoString} (ht : Clean spaces t) (hne : t ≠ []) (hr : Blank r) : Clean spaces (t ++ r) := by
  intro p hp hpre
  obtain ⟨ws, hws, rfl⟩ := hr
  rcases List.prefix_or_prefix_of_prefix hpre (List.prefix_append t _) with h | ⟨p', rfl⟩
  · exact ht p hp h
  rw [List.prefix_append_right_inj] at hpre
  rcases p' with _ | ⟨b, p'⟩
  · exact ht _ hp (by rw [List.append_nil])
  rcases ws with _ | ⟨w, ws⟩
  · exact absurd (List.prefix_nil.1 hpre) (by simp)
  have hw := hws w List.mem_cons_self
  rcases w with _ | ⟨b', w⟩
  · exact spaces_ne_nil _ hw rfl
  obtain rfl : b = b' := (List.cons_prefix_cons.1 hpre).1
  refine spaces_head _ hw _ hp b rfl ?_
  rw [List.tail_append_of_ne_nil hne]
  simp

theorem clean_TrimSpace (s : GoString) : Clean spaces (TrimSpace s) := by
  have hl : Clean spaces (trimLeft s) := clean_strip spaces_ne_nil (Nat.le_refl _)
  refine hl.of_prefix ?_
  rw [← List.reverse_suffix, TrimSpace, trimRight, List.reverse_reverse]
  exact strip_suffix

theorem clean_TrimSpace_reverse (s : GoString) : Clean (spaces.map List.reverse) (TrimSpace s).reverse := by
  rw [TrimSpace, trimRight, List.reverse_reverse]
  exact clean_strip spaces_reverse_ne_nil (by rw [List.length_reverse])

theorem trimmed_TrimSpace (s : GoString) : Trimmed s (TrimSpace s) := by
  obtain ⟨ls, hls, hl⟩ := exists_strip spaces s.length s
  obtain ⟨rs, hrs, hr⟩ := exists_strip (spaces.map List.reverse) (trimLeft s).length (trimLeft s).reverse
  have hblank : Blank rs.flatten.reverse := by
    obtain ⟨ws, hws, heq⟩ := reverse_flatten_mem hrs
    rw [List.map_map, List.reverse_involutive.comp_self, List.map_id] at hws
    exact ⟨ws, hws, heq⟩
  refine ⟨⟨ls.flatten, rs.flatten.reverse, ⟨ls, hls, rfl⟩, hblank, ?_⟩, clean_TrimSpace s, fun p hp hsuf => ?_⟩
  · rw [TrimSpace, trimRight, List.append_assoc, ← List.reverse_append, ← hr, List.reverse_reverse]
    exact hl
  · exact clean_TrimSpace_reverse s _ (List.mem_map_of_mem hp) (List.reverse_prefix.2 hsuf)

theorem trimmed_iff {s t : GoString} : Trimmed s t ↔ TrimSpace s = t := by
  constructor
  · rintro ⟨⟨l, r, ⟨ls, hls, rfl⟩, hr, rfl⟩, hleft, hright⟩
    rcases eq_or_ne t [] with rfl | hne
    · -- nothing but white space, which is all taken off the front
      obtain ⟨rs, hrs, rfl⟩ := hr
      have hall : trimLeft (ls.flatten ++ [] ++ rs.flatten) = [] := by
        rw [List.append_nil, ← List.flatten_append, ← List.append_nil (ls ++ rs).flatten]
        exact strip_append spaces_ne_nil prefixFree_spaces
          (fun w hw => (List.mem_append.1 hw).elim (hls w) (hrs w)) hleft (Nat.le_refl _)
      rw [TrimSpace, hall]
      rfl
    · have hl : trimLeft (ls.flatten ++ t ++ r) = t ++ r := by
        rw [List.append_assoc]
        exact strip_append spaces_ne_nil prefixFree_spaces hls (clean_append hleft hne hr) (Nat.le_refl _)
      obtain ⟨rs, hrs, rfl⟩ := hr
      obtain ⟨rs', hrs', hrev⟩ := reverse_flatten_mem hrs
      have hclean : Clean (spaces.map List.reverse) t.reverse := by
        intro p hp hpre
        obtain ⟨q, hq, rfl⟩ := List.mem_map.1 hp
        exact hright q hq (List.reverse_prefix.1 hpre)
      rw [TrimSpace, hl, trimRight, ← List.length_reverse, List.reverse_append, hrev,
        strip_append spaces_reverse_ne_nil prefixFree_spaces_reverse hrs' hclean (Nat.le_refl _), List.reverse_reverse]
  · rintro rfl
    exact trimmed_TrimSpace s

theorem TrimSpace_idem (s : GoString) : TrimSpace (TrimSpace s) = TrimSpace s := by
  have h := trimmed_TrimSpace s
  exact trimmed_iff.1 ⟨⟨[], [], ⟨[], by simp, rfl⟩, ⟨[], by simp, rfl⟩, by simp⟩, h.left, h.right⟩

example : TrimSpace (str " \t payments " ++ [0xE2, 0x80, 0xA8]) = str "payments" := by decide

example : (ParseInt (str "-12"), ParseInt (str "9223372036854775808"), ParseInt (str "W/3")) =
    (some (-12), none, none) := by decide

end GoString

end Forge
