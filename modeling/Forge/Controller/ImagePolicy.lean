import Forge.Controller.Admission
import Forge.Lib.ImageReference

/-!
# The image policy (`config/crd/application.yaml`, `config/policy/disallow-latest-tag.yaml`)

The two patterns of the policy say of an image what the rule of the CRD says (`violations_eq_nil_iff`), so the
Pods of an admitted Application pass it (`violations_desiredDeployment`). Both only look for a colon. Where the only
one is that of the registry's port the image has no tag and is let through: an image that is let through has a tag
or a digest exactly if a colon follows its last slash (`pinned_iff`).
-/

namespace Forge.Controller

open GoString

/-! ### Patterns -/

/-- Matching of a pattern in which `*` stands for any text. -/
def wildcard : GoString → GoString → Bool
  | [], s => s.isEmpty
  | b :: p, s =>
    if b = 0x2A then s.tails.any (wildcard p)
    else match s with
      | [] => false
      | c :: s => b = c && wildcard p s

theorem wildcard_star {p s : GoString} : wildcard (0x2A :: p) s = true ↔ ∃ t, t <:+ s ∧ wildcard p t = true := by
  simp [wildcard]

theorem wildcard_text {t p s : GoString} (ht : 0x2A ∉ t) :
    wildcard (t ++ p) s = true ↔ ∃ u, s = t ++ u ∧ wildcard p u = true := by
  induction t generalizing s with
  | nil => simp
  | cons b t ih =>
    rw [List.mem_cons, not_or] at ht
    rw [List.cons_append, wildcard.eq_def]
    cases s with
    | nil => simp [Ne.symm ht.1]
    | cons c s =>
      simp only [if_neg (Ne.symm ht.1), Bool.and_eq_true, decide_eq_true_iff, ih ht.2]
      constructor
      · rintro ⟨rfl, u, rfl, hu⟩
        exact ⟨u, rfl, hu⟩
      · rintro ⟨u, hs, hu⟩
        cases hs
        exact ⟨rfl, u, rfl, hu⟩

theorem wildcard_colon {image : GoString} : wildcard "*:*" image = true ↔ 0x3A ∈ image := by
  show wildcard (0x2A :: ([0x3A] ++ [0x2A])) image = true ↔ _
  rw [wildcard_star]
  constructor
  · rintro ⟨t, hsuffix, hmatch⟩
    obtain ⟨u, rfl, -⟩ := (wildcard_text (by decide)).1 hmatch
    exact hsuffix.subset List.mem_cons_self
  · intro hcolon
    obtain ⟨before, after, rfl⟩ := List.append_of_mem hcolon
    have hrest : wildcard [0x2A] after = true := wildcard_star.2 ⟨[], List.nil_suffix, rfl⟩
    exact ⟨0x3A :: after, List.suffix_append _ _, (wildcard_text (by decide)).2 ⟨after, rfl, hrest⟩⟩

theorem wildcard_latest {image : GoString} : wildcard "*:latest" image = true ↔ str ":latest" <:+ image := by
  show wildcard (0x2A :: (str ":latest" ++ [])) image = true ↔ _
  rw [wildcard_star]
  constructor
  · rintro ⟨t, hsuffix, hmatch⟩
    obtain ⟨u, rfl, hu⟩ := (wildcard_text (by decide)).1 hmatch
    rwa [List.isEmpty_iff.1 hu, List.append_nil] at hsuffix
  · exact fun hsuffix => ⟨_, hsuffix, (wildcard_text (by decide)).2 ⟨[], (List.append_nil _).symm, rfl⟩⟩

/-- A value against a pattern; `!` negates the rest. -/
def matchesPattern (pattern value : GoString) : Bool :=
  if pattern.head? = some 0x21 then !wildcard pattern.tail value else wildcard pattern value

/-! ### The policy -/

/-- A rule on the image of every container of a Pod. -/
structure ImageRule where
  name : GoString
  message : GoString
  image : GoString

def disallowLatestTag : List ImageRule :=
  [⟨"require-image-tag", "An explicit image tag is required.", "*:*"⟩,
    ⟨"disallow-latest", "Using the mutable ':latest' tag is not allowed.", "!*:latest"⟩]

/-- The names and messages of the rules that a Pod with the given images violates. -/
def violations (images : List GoString) : List (GoString × GoString) :=
  (disallowLatestTag.filter fun rule => images.any fun image => !matchesPattern rule.image image).map
    fun rule => (rule.name, rule.message)

/-- A Pod passes if every image is one the CRD would let through. -/
theorem violations_eq_nil_iff {images : List GoString} :
    violations images = [] ↔ ∀ image ∈ images, Tagged image := by
  have hcolon : ∀ image, matchesPattern "*:*" image = true ↔ 0x3A ∈ image := fun image => wildcard_colon
  have hlatest : ∀ image, matchesPattern "!*:latest" image = true ↔ ¬ str ":latest" <:+ image := by
    intro image
    show (!wildcard "*:latest" image) = true ↔ _
    rw [Bool.not_eq_true', ← Bool.not_eq_true, wildcard_latest]
  simp only [violations, disallowLatestTag, List.map_eq_nil_iff, List.filter_eq_nil_iff, List.forall_mem_cons,
    List.any_eq_true, Bool.not_eq_true', not_exists, not_and, Bool.not_eq_false, hcolon, hlatest, List.not_mem_nil,
    false_imp_iff, implies_true, and_true]
  exact forall₂_and.symm

/-- The Pods of an admitted Application pass. -/
theorem violations_desiredDeployment {m : SpecManifest} {app : Application} {d : Deployment}
    (h : admission m = .ok app.Spec) (hd : desiredDeployment app = some d) :
    violations (d.Containers.map (·.Image)) = [] := by
  have himages : d.Containers.map (·.Image) = [app.Spec.Image] := by
    obtain ⟨resources, -, hd⟩ := Option.bind_eq_some_iff.1 hd
    cases hd
    rfl
  rw [violations_eq_nil_iff, himages]
  intro image himage
  rw [List.mem_singleton.1 himage]
  exact (spec_of_admission h).2.tagged

/-! ### Tags -/

/-- An Application with the image can be admitted. -/
def Admissible (image : GoString) : Prop := ∃ m spec, admission m = .ok spec ∧ spec.Image = image

def withImage (image : GoString) : SpecManifest :=
  { webManifest "750m" with
    image := some image }

theorem admission_withImage {image : GoString} (h : Tagged image) :
    admission (withImage image) = .ok (withImage image).spec := by
  have hschema : schemaErrors (withImage image) = [] := rfl
  have hrules : ruleErrors image 1 2 = [] := ruleErrors_eq_nil.2 ⟨h, .inr (le_refl 2)⟩
  rw [admission, if_neg (not_not.2 hschema)]
  exact if_neg (not_not.2 hrules)

theorem admissible_iff {image : GoString} : Admissible image ↔ Tagged image := by
  constructor
  · rintro ⟨m, spec, hadm, rfl⟩
    exact (spec_of_admission hadm).2.tagged
  · exact fun h => ⟨withImage image, _, admission_withImage h, rfl⟩

/-- An image that is let through carries a tag other than `latest` or a digest, however it is read, and `latest`
is not what is pulled. -/
def Enforced (allows : GoString → Prop) (image : GoString) : Prop :=
  allows image → ∀ r : Reference, r.text = image → r.Pinned ∧ r.pulledTag ≠ some (str "latest")

theorem pinned_iff {r : Reference} (h : Tagged r.text) : r.Pinned ↔ 0x3A ∈ lastPart r.text := by
  rw [r.colon_mem_lastPart]
  constructor
  · rintro (⟨t, ht, -⟩ | hdigest)
    · exact .inl (Option.isSome_of_mem ht)
    · exact .inr hdigest
  · intro hversion
    by_cases hdigest : r.digest.isSome
    · exact .inr hdigest
    obtain ⟨t, ht⟩ := Option.isSome_iff_exists.1 (hversion.resolve_right hdigest)
    refine .inl ⟨t, ht, ?_⟩
    rintro rfl
    -- the text would end with the tag
    rw [Option.not_isSome_iff_eq_none] at hdigest
    have hversion : r.version = str ":latest" := by
      rw [Reference.version, ht, hdigest]
      rfl
    exact h.2 ⟨r.repository, by rw [Reference.text, hversion]⟩

theorem enforced_iff {allows : GoString → Prop} {image : GoString} (h : allows image ↔ Tagged image) :
    Enforced allows image ↔ ¬ allows image ∨ (∀ r : Reference, r.text ≠ image) ∨ 0x3A ∈ lastPart image := by
  unfold Enforced
  rw [h]
  constructor
  · intro henforced
    by_cases htagged : Tagged image
    · refine .inr (or_iff_not_imp_left.2 fun hread => ?_)
      obtain ⟨r, rfl⟩ := not_forall_not.1 hread
      exact (pinned_iff htagged).1 (henforced htagged r rfl).1
    · exact .inl htagged
  · rintro hcases htagged r rfl
    have hpinned : r.Pinned := (pinned_iff htagged).2 (by
      rcases hcases with hnot | hnone | hcolon
      · exact absurd htagged hnot
      · exact absurd rfl (hnone r)
      · exact hcolon)
    exact ⟨hpinned, r.pinned_iff_pulledTag.1 hpinned⟩

/-- The rule of the CRD, admission as a whole and the policy on Pods keep the promise for an image exactly if they
do not let it through, it is no reference, or a colon follows its last slash. -/
theorem image_pinned_iff (image : GoString) :
    (Enforced Tagged image ↔ ¬ Tagged image ∨ (∀ r : Reference, r.text ≠ image) ∨ 0x3A ∈ lastPart image) ∧
    (Enforced Admissible image ↔ ¬ Admissible image ∨ (∀ r : Reference, r.text ≠ image) ∨ 0x3A ∈ lastPart image) ∧
    (Enforced (fun image => violations [image] = []) image ↔
      violations [image] ≠ [] ∨ (∀ r : Reference, r.text ≠ image) ∨ 0x3A ∈ lastPart image) := by
  refine ⟨enforced_iff Iff.rfl, enforced_iff admissible_iff, enforced_iff ?_⟩
  rw [violations_eq_nil_iff, List.forall_mem_singleton]

/-- An image of a registry that is named with its port. -/
def localWeb : Reference where
  registry := some ⟨"localhost", some "5000", by decide +kernel, by decide +kernel⟩
  path := "web"
  tag := none
  digest := none
  path_ok := by decide +kernel
  tag_ok := by decide +kernel

/-- The port is taken for a tag. -/
theorem port_taken_for_tag : localWeb.text = str "localhost:5000/web" ∧ localWeb.tag = none ∧
    localWeb.pulledTag = some (str "latest") ∧
    admission (withImage "localhost:5000/web") = .ok (withImage "localhost:5000/web").spec ∧
    violations ["localhost:5000/web"] = [] ∧ ¬ Enforced Tagged "localhost:5000/web" ∧
    ¬ Enforced Admissible "localhost:5000/web" ∧
    ¬ Enforced (fun image => violations [image] = []) "localhost:5000/web" := by
  have htext : localWeb.text = str "localhost:5000/web" := by decide +kernel
  have htagged : Tagged "localhost:5000/web" := by decide +kernel
  have hviolations : violations ["localhost:5000/web"] = [] := by decide +kernel
  have hlatest : localWeb.pulledTag = some (str "latest") := rfl
  have hbroken : ∀ allows : GoString → Prop, allows "localhost:5000/web" → ¬ Enforced allows "localhost:5000/web" :=
    fun allows hallows henforced => (henforced hallows localWeb htext).2 hlatest
  exact ⟨htext, rfl, hlatest, admission_withImage htagged, hviolations, hbroken _ htagged,
    hbroken _ (admissible_iff.2 htagged), hbroken _ hviolations⟩

end Forge.Controller
