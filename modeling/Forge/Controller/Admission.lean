import Mathlib.Algebra.Group.Int.Defs
import Forge.Controller.Desired

/-!
# Admission (`config/crd/application.yaml`) and rendering

The API server fills in the defaults of the schema, checks the spec against it and then against the rules.
Neither looks at the texts of `resources`, or asks that the number of replicas is an `int32`: an Application can
be admitted whose Deployment cannot be rendered, since `resource.MustParse` panics or the client of the operator
cannot decode it (`Application.decode`). It is rendered exactly if the texts it gives are quantities and the
replicas fit (`rendered_iff`); the defaults of every tier are quantities.
-/

namespace Forge.Controller

open GoString

/-! ### Submitted specs -/

structure EnvManifest where
  name : Option GoString
  value : Option GoString
deriving DecidableEq

structure ResourcesManifest where
  cpu : Option GoString
  memory : Option GoString
deriving DecidableEq

structure SecurityManifest where
  readOnlyRootFilesystem : Option Bool
deriving DecidableEq

/-- A spec as it is submitted; the fields have the types the schema asks for. -/
structure SpecManifest where
  image : Option GoString
  port : Option Int
  replicas : Option Int
  tier : Option Int
  expose : Option Bool
  env : List EnvManifest
  resources : Option ResourcesManifest
  security : Option SecurityManifest
deriving DecidableEq

inductive SchemaError
  | required (field : GoString)
  | minimum (field : GoString) (bound : Int)
  | maximum (field : GoString) (bound : Int)
  | rule (message : GoString)
deriving DecidableEq

/-! ### The schema -/

def SpecManifest.replicasOr (m : SpecManifest) : Int := m.replicas.getD 1

def SpecManifest.tierOr (m : SpecManifest) : Int := m.tier.getD 3

def checkRequired {α : Type} (field : GoString) (v : Option α) : List SchemaError :=
  if v.isNone then [.required field] else []

def checkMinimum (field : GoString) (bound v : Int) : List SchemaError :=
  if v < bound then [.minimum field bound] else []

def checkMaximum (field : GoString) (bound v : Int) : List SchemaError :=
  if v > bound then [.maximum field bound] else []

/-- What the properties of `spec` find wrong. -/
def schemaErrors (m : SpecManifest) : List SchemaError :=
  checkRequired "image" m.image ++ checkRequired "port" m.port ++
    (m.port.toList.flatMap fun port => checkMinimum "port" 1 port ++ checkMaximum "port" 65535 port) ++
    checkMinimum "replicas" 0 m.replicasOr ++
    checkMinimum "tier" 1 m.tierOr ++ checkMaximum "tier" 4 m.tierOr ++
    m.env.flatMap fun e => checkRequired "name" e.name ++ checkRequired "value" e.value

/-- The rule on the image: it contains a colon and does not end with `:latest`. -/
def Tagged (image : GoString) : Prop := 0x3A ∈ image ∧ ¬ str ":latest" <:+ image

instance (image : GoString) : Decidable (Tagged image) := by unfold Tagged; infer_instance

/-- What the rules of `x-kubernetes-validations` find wrong. -/
def ruleErrors (image : GoString) (tier replicas : Int) : List SchemaError :=
  (if Tagged image then [] else [.rule "image must specify an explicit tag other than ':latest'"]) ++
    if tier ≠ 1 ∨ replicas ≥ 2 then []
    else [.rule "tier 1 applications must run at least 2 replicas for redundancy"]

/-- The spec as it is stored, with the defaults filled in. -/
def SpecManifest.spec (m : SpecManifest) : ApplicationSpec where
  Image := m.image.getD []
  Port := m.port.getD 0
  Replicas := m.replicasOr
  Tier := m.tierOr
  Env := m.env.map fun e => ⟨e.name.getD [], e.value.getD []⟩
  Resources := ⟨(m.resources.bind (·.cpu)).getD [], (m.resources.bind (·.memory)).getD []⟩
  Expose := m.expose.getD false
  Security := ⟨m.security.map fun s => s.readOnlyRootFilesystem.getD true⟩

/-- Admission: the rules are looked at once the schema finds nothing wrong. -/
def admission (m : SpecManifest) : Except (List SchemaError) ApplicationSpec :=
  if schemaErrors m ≠ [] then .error (schemaErrors m)
  else if ruleErrors (m.image.getD []) m.tierOr m.replicasOr ≠ [] then
    .error (ruleErrors (m.image.getD []) m.tierOr m.replicasOr)
  else .ok m.spec

abbrev InInt32 (v : Int) : Prop := -2 ^ 31 ≤ v ∧ v < 2 ^ 31

/-- The stored Application as the client of the operator decodes it: the numbers of its spec are read into
`int32`, and a number that does not fit is an error. -/
def Application.decode (app : Application) : Option Application :=
  if InInt32 app.Spec.Port ∧ InInt32 app.Spec.Replicas ∧ InInt32 app.Spec.Tier then some app else none

/-! ### What is admitted -/

@[simp] theorem checkRequired_eq_nil {α : Type} {field : GoString} {v : Option α} :
    checkRequired field v = [] ↔ v.isSome := by
  cases v <;> simp [checkRequired]

@[simp] theorem checkMinimum_eq_nil {field : GoString} {bound v : Int} :
    checkMinimum field bound v = [] ↔ bound ≤ v := by
  simp [checkMinimum]

@[simp] theorem checkMaximum_eq_nil {field : GoString} {bound v : Int} :
    checkMaximum field bound v = [] ↔ v ≤ bound := by
  simp [checkMaximum]

theorem ruleErrors_eq_nil {image : GoString} {tier replicas : Int} :
    ruleErrors image tier replicas = [] ↔ Tagged image ∧ (tier ≠ 1 ∨ replicas ≥ 2) := by
  unfold ruleErrors
  split <;> split <;> simp_all

/-- What an admitted spec satisfies. -/
structure Admitted (spec : ApplicationSpec) : Prop where
  tagged : Tagged spec.Image
  port : 1 ≤ spec.Port ∧ spec.Port ≤ 65535
  replicas : 0 ≤ spec.Replicas
  tier : 1 ≤ spec.Tier ∧ spec.Tier ≤ 4
  redundant : spec.Tier = 1 → 2 ≤ spec.Replicas

theorem spec_of_admission {m : SpecManifest} {spec : ApplicationSpec} (h : admission m = .ok spec) :
    spec = m.spec ∧ Admitted spec := by
  unfold admission at h
  split_ifs at h with hschema hrules
  cases h
  simp only [ne_eq, not_not] at hschema hrules
  obtain ⟨htagged, hredundant⟩ := ruleErrors_eq_nil.1 hrules
  simp only [schemaErrors, List.append_eq_nil_iff, checkRequired_eq_nil, checkMinimum_eq_nil,
    checkMaximum_eq_nil] at hschema
  obtain ⟨⟨⟨⟨⟨⟨-, hport⟩, hrange⟩, hreplicas⟩, htier⟩, htier'⟩, -⟩ := hschema
  obtain ⟨port, hport⟩ := Option.isSome_iff_exists.1 hport
  have hrange : 1 ≤ port ∧ port ≤ 65535 := by simpa [hport] using hrange
  refine ⟨rfl, htagged, ?_, hreplicas, ⟨htier, htier'⟩, fun h1 => ?_⟩
  · simpa [SpecManifest.spec, hport] using hrange
  · exact hredundant.resolve_left fun hne => hne h1

/-! ### Rendering -/

theorem isQuantity_tierDefaults {tier : Int} (h : 1 ≤ tier ∧ tier ≤ 4) :
    isQuantity (tierDefaults tier).CPU = true ∧ isQuantity (tierDefaults tier).Memory = true := by
  obtain rfl | rfl | rfl | rfl : tier = 1 ∨ tier = 2 ∨ tier = 3 ∨ tier = 4 := by omega
  all_goals decide

theorem effectiveTier_mem (app : Application) : 1 ≤ effectiveTier app ∧ effectiveTier app ≤ 4 := by
  unfold effectiveTier
  split
  · assumption
  · omega

theorem MustParse_isSome {s : GoString} : (MustParse s).isSome ↔ isQuantity s = true := by
  simp [MustParse]

/-- A given text, or else the default, is parsed. -/
theorem isQuantity_or_default {given default : GoString} (hdefault : isQuantity default = true) :
    isQuantity (if given ≠ [] then given else default) = true ↔ given = [] ∨ isQuantity given = true := by
  by_cases hgiven : given = [] <;> simp [hgiven, hdefault]

theorem resourceRequirements_isSome (app : Application) : (resourceRequirements app).isSome ↔
    (app.Spec.Resources.CPU = [] ∨ isQuantity app.Spec.Resources.CPU = true) ∧
      (app.Spec.Resources.Memory = [] ∨ isQuantity app.Spec.Resources.Memory = true) := by
  obtain ⟨hcpu, hmem⟩ := isQuantity_tierDefaults (effectiveTier_mem app)
  rw [← isQuantity_or_default hcpu, ← isQuantity_or_default hmem, ← MustParse_isSome, ← MustParse_isSome]
  simp only [resourceRequirements]
  generalize MustParse (if app.Spec.Resources.CPU ≠ [] then _ else _) = cpu
  generalize MustParse (if app.Spec.Resources.Memory ≠ [] then _ else _) = mem
  cases cpu <;> cases mem <;> simp

/-- The Application is decoded and its Deployment is rendered, with a container that is limited to what it
requests. -/
def Rendered (app : Application) : Prop :=
  ∃ d c, app.decode.bind desiredDeployment = some d ∧ d.Containers = [c] ∧
    c.Resources.Limits = c.Resources.Requests

theorem Application.decode_eq_some {app a : Application} : app.decode = some a ↔
    (InInt32 app.Spec.Port ∧ InInt32 app.Spec.Replicas ∧ InInt32 app.Spec.Tier) ∧ app = a := by
  simp [Application.decode]

/-- Of an admitted Application only the replicas may not fit. -/
theorem Admitted.decode_eq_some {app a : Application} (h : Admitted app.Spec) :
    app.decode = some a ↔ app.Spec.Replicas < 2 ^ 31 ∧ app = a := by
  obtain ⟨-, hport, hreplicas, htier, -⟩ := h
  rw [Application.decode_eq_some]
  refine and_congr_left fun _ => ⟨fun hfit => hfit.2.1.2, fun hfit => ?_⟩
  refine ⟨⟨?_, ?_⟩, ⟨?_, hfit⟩, ⟨?_, ?_⟩⟩ <;> omega

theorem Admitted.rendered_iff_isSome {app : Application} (h : Admitted app.Spec) :
    Rendered app ↔ app.Spec.Replicas < 2 ^ 31 ∧ (resourceRequirements app).isSome := by
  constructor
  · rintro ⟨d, c, hd, -⟩
    obtain ⟨a, ha, hd⟩ := Option.bind_eq_some_iff.1 hd
    obtain ⟨hfit, rfl⟩ := h.decode_eq_some.1 ha
    refine ⟨hfit, ?_⟩
    by_contra hnone
    rw [Option.not_isSome_iff_eq_none] at hnone
    simp [desiredDeployment, hnone] at hd
  · rintro ⟨hfit, hsome⟩
    obtain ⟨r, hr⟩ := Option.isSome_iff_exists.1 hsome
    have hlimits : r.Limits = r.Requests := by
      simp only [resourceRequirements, Option.bind_eq_bind, Option.bind_eq_some_iff] at hr
      obtain ⟨cpu, -, mem, -, hr⟩ := hr
      cases hr
      rfl
    rw [Rendered, h.decode_eq_some.2 ⟨hfit, rfl⟩, Option.bind_some]
    exact ⟨_, _, by rw [desiredDeployment, hr]; rfl, rfl, hlimits⟩

/-- An admitted Application is rendered exactly if its replicas are an `int32` and every text of its resources
that is not empty is a quantity. -/
theorem rendered_iff {m : SpecManifest} {app : Application} (h : admission m = .ok app.Spec) :
    Rendered app ↔ m.replicasOr < 2 ^ 31 ∧
      (∀ cpu ∈ m.resources.bind (·.cpu), cpu = [] ∨ isQuantity cpu = true) ∧
      ∀ memory ∈ m.resources.bind (·.memory), memory = [] ∨ isQuantity memory = true := by
  have hgetD : ∀ v : Option GoString,
      v.getD [] = [] ∨ isQuantity (v.getD []) = true ↔ ∀ s ∈ v, s = [] ∨ isQuantity s = true := by
    intro v
    cases v <;> simp
  obtain ⟨hspec, hadm⟩ := spec_of_admission h
  rw [hadm.rendered_iff_isSome, resourceRequirements_isSome, hspec, ← hgetD, ← hgetD]
  rfl

/-! ### Two manifests -/

/-- A web server of tier 1 that asks for `cpu`. -/
def webManifest (cpu : GoString) : SpecManifest where
  image := some "web:1.4"
  port := some 8080
  replicas := some 2
  tier := some 1
  expose := none
  env := [⟨some "MODE", some "production"⟩]
  resources := some ⟨some cpu, none⟩
  security := none

def storedAs (spec : ApplicationSpec) : Application := ⟨"web", "default", "uid", 1, 1, spec, ⟨"", 0, 0, 0, []⟩⟩

theorem rendered_web : admission (webManifest "750m") = .ok (webManifest "750m").spec ∧
    Rendered (storedAs (webManifest "750m").spec) := by
  have hadm : admission (webManifest "750m") = .ok (storedAs (webManifest "750m").spec).Spec := by decide +kernel
  refine ⟨hadm, (rendered_iff hadm).2 ⟨?_, ?_, ?_⟩⟩
  · decide +kernel
  · decide +kernel
  · decide +kernel

/-- Any text is admitted, and `MustParse` panics on it; any number of replicas is admitted, and is not decoded if
it is no `int32`. -/
theorem admitted_not_rendered :
    (admission (webManifest "lots") = .ok (webManifest "lots").spec ∧
      desiredDeployment (storedAs (webManifest "lots").spec) = none ∧ ¬ Rendered (storedAs (webManifest "lots").spec)) ∧
    ∃ m, m.replicas = some 3000000000 ∧ admission m = .ok m.spec ∧ (storedAs m.spec).decode = none ∧
      ¬ Rendered (storedAs m.spec) := by
  have hnot : ∀ app : Application, app.decode.bind desiredDeployment = none → ¬ Rendered app := by
    rintro app hnone ⟨d, c, hd, -⟩
    cases hnone.symm.trans hd
  refine ⟨⟨by decide +kernel, by decide +kernel, hnot _ (by decide +kernel)⟩,
    { webManifest "750m" with replicas := some 3000000000 }, rfl, by decide +kernel, by decide +kernel, hnot _ ?_⟩
  decide +kernel

end Forge.Controller
