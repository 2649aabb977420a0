import Mathlib.Data.List.DropRight
import Forge.Lib.GoStrings
import Forge.Lib.Regex

/-!
# References of container images

The grammar `[registry[:port]/]path[:tag][@digest]`. A colon stands before a port, before a tag, in the host of
a registry and in a digest; after the last slash of a reference there is one exactly if it has a tag or a digest
(`colon_mem_lastPart`).
-/

namespace Forge

open GoString RegularExpression

namespace ImageGrammar

def digits : GoString := "0123456789"

def lowercase : GoString := "abcdefghijklmnopqrstuvwxyz"

def alphabet : GoString := lowercase ++ str "ABCDEFGHIJKLMNOPQRSTUVWXYZ"

def hexDigits : GoString := digits ++ str "abcdefABCDEF"

/-- One or more. -/
def many (r : RegularExpression UInt8) : RegularExpression UInt8 := r * r.star

/-- One or more `item`, with `sep` between them. -/
def sepBy (sep item : RegularExpression UInt8) : RegularExpression UInt8 := item * (sep * item).star

/-- `[a-zA-Z0-9]|[a-zA-Z0-9][a-zA-Z0-9-]*[a-zA-Z0-9]`. -/
def domainComponent : RegularExpression UInt8 :=
  cls (alphabet ++ digits) * (1 + (cls (alphabet ++ digits ++ str "-")).star * cls (alphabet ++ digits))

/-- A domain name, or an IPv6 address in brackets. -/
def host : RegularExpression UInt8 :=
  sepBy (cls ".") domainComponent + cls "[" * many (cls (hexDigits ++ str ":")) * cls "]"

def port : RegularExpression UInt8 := many (cls digits)

/-- `[a-z0-9]+((?:[._]|__|[-]+)[a-z0-9]+)*`. -/
def pathComponent : RegularExpression UInt8 :=
  sepBy (cls "._" + cls "_" * cls "_" + many (cls "-")) (many (cls (lowercase ++ digits)))

def path : RegularExpression UInt8 := sepBy (cls "/") pathComponent

/-- `[\w][\w.-]*`. -/
def tag : RegularExpression UInt8 :=
  cls (alphabet ++ digits ++ str "_") * (cls (alphabet ++ digits ++ str "_.-")).star

/-- `[A-Za-z][A-Za-z0-9]*(?:[-_+.][A-Za-z][A-Za-z0-9]*)*`. -/
def algorithm : RegularExpression UInt8 :=
  sepBy (cls "-_+.") (cls alphabet * (cls (alphabet ++ digits)).star)

end ImageGrammar

/-! ### The last part -/

/-- What follows the last slash. -/
def lastPart (image : GoString) : GoString := image.rtakeWhile (· ≠ 0x2F)

theorem lastPart_append {s t : GoString} (ht : 0x2F ∉ t) : lastPart (s ++ t) = lastPart s ++ t := by
  have hall : ∀ b ∈ t.reverse, decide (b ≠ 0x2F) = true := by
    intro b hb
    exact decide_eq_true fun he => ht (he ▸ List.mem_reverse.1 hb)
  rw [lastPart, List.rtakeWhile, List.reverse_append, List.takeWhile_append_of_pos hall, List.reverse_append,
    List.reverse_reverse]
  rfl

theorem lastPart_slash (s t : GoString) : lastPart (s ++ str "/" ++ t) = lastPart t := by
  have hslash : ∀ l : GoString, (l ++ 0x2F :: s.reverse).takeWhile (· ≠ 0x2F) = l.takeWhile (· ≠ 0x2F) := by
    intro l
    induction l with
    | nil => simp
    | cons b l ih => rw [List.cons_append, List.takeWhile_cons, List.takeWhile_cons, ih]
  have hreverse : (s ++ str "/" ++ t).reverse = t.reverse ++ 0x2F :: s.reverse := by
    rw [List.reverse_append, List.reverse_append]
    rfl
  rw [lastPart, List.rtakeWhile, hreverse, hslash]
  rfl

/-! ### References -/

structure Registry where
  host : GoString
  port : Option GoString
  host_ok : ImageGrammar.host.rmatch host = true
  port_ok : ∀ p ∈ port, ImageGrammar.port.rmatch p = true

structure Digest where
  algorithm : GoString
  hex : GoString
  algorithm_ok : ImageGrammar.algorithm.rmatch algorithm = true
  hex_ok : ∀ b ∈ hex, b ∈ ImageGrammar.hexDigits
  hex_length : 32 ≤ hex.length

structure Reference where
  registry : Option Registry
  path : GoString
  tag : Option GoString
  digest : Option Digest
  path_ok : ImageGrammar.path.rmatch path = true
  tag_ok : ∀ t ∈ tag, ImageGrammar.tag.rmatch t = true ∧ t.length ≤ 128

def Registry.text (g : Registry) : GoString := g.host ++ g.port.elim [] (str ":" ++ ·)

def Digest.text (d : Digest) : GoString := d.algorithm ++ str ":" ++ d.hex

namespace Reference

variable (r : Reference)

def repository : GoString := r.registry.elim [] (fun g => g.text ++ str "/") ++ r.path

def version : GoString := r.tag.elim [] (str ":" ++ ·) ++ r.digest.elim [] (fun d => str "@" ++ d.text)

def text : GoString := r.repository ++ r.version

/-- The tag that is pulled; a digest takes precedence over a tag, and `latest` stands for a missing one. -/
def pulledTag : Option GoString := if r.digest.isSome then none else some (r.tag.getD (str "latest"))

/-- The reference carries a tag other than `latest`, or a digest. -/
def Pinned : Prop := (∃ t ∈ r.tag, t ≠ str "latest") ∨ r.digest.isSome

theorem pinned_iff_pulledTag : r.Pinned ↔ r.pulledTag ≠ some (str "latest") := by
  unfold Pinned pulledTag
  cases r.digest <;> cases r.tag <;> simp

theorem not_mem_of_rmatch {e : RegularExpression UInt8} {s : GoString} {b : UInt8} (hb : b ∉ letters e)
    (h : e.rmatch s = true) : b ∉ s :=
  fun hmem => hb (mem_letters ((rmatch_iff_matches' e s).1 h) b hmem)

theorem colon_not_mem_path : 0x3A ∉ r.path := not_mem_of_rmatch (by decide +kernel) r.path_ok

theorem slash_not_mem_version : 0x2F ∉ r.version := by
  have htag : ∀ t ∈ r.tag, 0x2F ∉ t := fun t ht => not_mem_of_rmatch (by decide +kernel) (r.tag_ok t ht).1
  have hdigest : ∀ d ∈ r.digest, 0x2F ∉ d.text := by
    intro d _
    have halgorithm : 0x2F ∉ d.algorithm := not_mem_of_rmatch (by decide +kernel) d.algorithm_ok
    have hdigits : 0x2F ∉ ImageGrammar.hexDigits := by decide
    simp only [Digest.text, List.mem_append, not_or]
    exact ⟨⟨halgorithm, by decide⟩, fun h => hdigits (d.hex_ok _ h)⟩
  simp only [version, List.mem_append, not_or]
  constructor
  · cases ht : r.tag with
    | none => simp
    | some t =>
      rw [Option.elim_some, List.mem_append, not_or]
      exact ⟨by decide, htag t ht⟩
  · cases hd : r.digest with
    | none => simp
    | some d =>
      rw [Option.elim_some, List.mem_append, not_or]
      exact ⟨by decide, hdigest d hd⟩

/-- The last part of a reference is the last component of its path, its tag and its digest. -/
theorem lastPart_text : ∃ component, component <:+ r.path ∧ lastPart r.text = component ++ r.version := by
  refine ⟨lastPart r.path, List.rtakeWhile_suffix _ _, ?_⟩
  rw [text, lastPart_append r.slash_not_mem_version, repository]
  cases r.registry with
  | none => rfl
  | some g => rw [Option.elim_some, lastPart_slash]

theorem colon_mem_version : 0x3A ∈ r.version ↔ r.tag.isSome ∨ r.digest.isSome := by
  have hcolon : (0x3A : UInt8) ∈ str ":" := by decide
  cases ht : r.tag with
  | none => 
    cases hd : r.digest with
    | none => simp [version, ht, hd]
    | some d => simp [version, ht, hd, Digest.text, hcolon]
  | some t => simp [version, ht, hcolon]

theorem colon_mem_lastPart : 0x3A ∈ lastPart r.text ↔ r.tag.isSome ∨ r.digest.isSome := by
  obtain ⟨component, hcomponent, hlast⟩ := r.lastPart_text
  rw [hlast, List.mem_append, colon_mem_version, or_iff_right]
  exact fun h => r.colon_not_mem_path (hcomponent.subset h)

end Reference

end Forge
