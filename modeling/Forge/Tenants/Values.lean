import Forge.Catalog.Values

/-!
# Value objects of the tenant module (`tenant/domain/values.go`, `ids.go`, `errors.go`)

As in the catalog, each value carries what its constructor checked and is returned unchanged by it. A slug is
checked as the name of a service is. `NewQuota` only refuses negative numbers, and a `TenantName` may have any
bytes inside.
-/

namespace Forge.Tenants

open GoString Catalog

/-! ### Errors -/

def ErrInvalidTenantID : Err :=
  apperr.Validation "INVALID_TENANT_ID" "tenant id is not a valid identifier"
def ErrInvalidTenantName : Err :=
  apperr.Validation "INVALID_TENANT_NAME" "tenant name must be 1 to 100 characters"
def ErrInvalidSlug : Err :=
  apperr.Validation "INVALID_SLUG" "slug must be a DNS-1123 label of 1 to 63 characters"
def ErrInvalidPlan : Err :=
  apperr.Validation "INVALID_PLAN" "plan must be one of free, standard, enterprise"
def ErrInvalidStatus : Err :=
  apperr.Validation "INVALID_STATUS" "status must be one of active, suspended, archived"
def ErrInvalidQuota : Err := apperr.Validation "INVALID_QUOTA" "max services must not be negative"
def ErrIllegalTransition : Err := apperr.Precondition "ILLEGAL_STATUS_TRANSITION"
  "the requested status transition is not permitted"
def ErrArchived : Err :=
  apperr.Precondition "TENANT_ARCHIVED" "an archived tenant cannot be modified"
def ErrTenantNotFound : Err := apperr.NotFound "TENANT_NOT_FOUND" "tenant not found"
def ErrSlugConflict : Err :=
  apperr.Conflict "SLUG_CONFLICT" "a tenant with this slug already exists"
def ErrVersionConflict : Err := apperr.Conflict "VERSION_CONFLICT"
  "the tenant was modified concurrently; retry with the current version"

/-! ### Identifiers -/

structure TenantID where
  v : UUID
deriving DecidableEq, Repr

def TenantID.String (t : TenantID) : GoString := t.v.String

def TenantIDFromString [UuidLib] (s : GoString) : Except Err TenantID :=
  match UuidLib.Parse s with
  | some u => .ok ⟨u⟩
  | none => .error ErrInvalidTenantID

@[simp] theorem TenantIDFromString_String [UuidLib] (u : UUID) : TenantIDFromString u.String = .ok ⟨u⟩ := by
  simp [TenantIDFromString, UuidLib.parse_String]

/-! ### Names and slugs -/

@[ext]
structure TenantName where
  v : GoString
  trimmed : TrimSpace v = v
  length_ge : 1 ≤ v.length
  length_le : v.length ≤ 100

instance : DecidableEq TenantName := fun _ _ => decidable_of_iff _ TenantName.ext_iff.symm

def NewTenantName (s : GoString) : Except Err TenantName :=
  if h : 1 ≤ (TrimSpace s).length ∧ (TrimSpace s).length ≤ 100 then
    .ok ⟨TrimSpace s, TrimSpace_idem s, h.1, h.2⟩
  else .error ErrInvalidTenantName

@[simp] theorem NewTenantName_v (n : TenantName) : NewTenantName n.v = .ok n := by
  obtain ⟨v, ht, hge, hle⟩ := n
  simp [NewTenantName, ht, hge, hle]

/-- `slugPattern` is the expression of `dns1123Label`, and the lengths are the same. -/
@[ext]
structure Slug where
  v : GoString
  trimmed : TrimSpace v = v
  slugOk : NameOk v

instance : DecidableEq Slug := fun _ _ => decidable_of_iff _ Slug.ext_iff.symm

def NewSlug (s : GoString) : Except Err Slug :=
  if h : NameOk (TrimSpace s) then .ok ⟨TrimSpace s, TrimSpace_idem s, h⟩ else .error ErrInvalidSlug

@[simp] theorem NewSlug_v (s : Slug) : NewSlug s.v = .ok s := by
  obtain ⟨v, ht, hs⟩ := s
  simp [NewSlug, ht, hs]

theorem NewSlug_isOk {s : GoString} : (∃ slug, NewSlug s = .ok slug) ↔ NameOk (TrimSpace s) := by
  unfold NewSlug
  split <;> simp [*]

theorem v_of_NewSlug {s : GoString} {slug : Slug} (h : NewSlug s = .ok slug) : slug.v = TrimSpace s := by
  unfold NewSlug at h
  split at h <;> cases h
  rfl

/-- The names of services and the slugs of tenants are the strings that are DNS-1123 labels without the white
space at their ends; the accepted value is the label, and it is accepted again as it is. -/
theorem names_accepted_iff_label (s : GoString) : ∃ t, (∀ t', Trimmed s t' ↔ t' = t) ∧
    ((∃ n, NewServiceName s = .ok n) ↔ IsLabel t) ∧
    (∀ n, NewServiceName s = .ok n → n.v = t ∧ NewServiceName t = .ok n) ∧
    ((∃ slug, NewSlug s = .ok slug) ↔ IsLabel t) ∧
    ∀ slug, NewSlug s = .ok slug → slug.v = t ∧ NewSlug t = .ok slug := by
  refine ⟨TrimSpace s, fun t' => trimmed_iff.trans eq_comm, ?_, fun n hn => ?_, ?_, fun slug hslug => ?_⟩
  · rw [NewServiceName_isOk, nameOk_iff]
  · have hv := v_of_NewServiceName hn
    exact ⟨hv, hv ▸ NewServiceName_v n⟩
  · rw [NewSlug_isOk, nameOk_iff]
  · have hv := v_of_NewSlug hslug
    exact ⟨hv, hv ▸ NewSlug_v slug⟩

/-! ### Plans and status -/

inductive Plan
  | free | standard | enterprise
deriving DecidableEq, Repr

def Plan.text : Plan → GoString
  | free => "free"
  | standard => "standard"
  | enterprise => "enterprise"

def ParsePlan (s : GoString) : Except Err Plan :=
  if s = Plan.text .free then .ok .free
  else if s = Plan.text .standard then .ok .standard
  else if s = Plan.text .enterprise then .ok .enterprise
  else .error ErrInvalidPlan

@[simp] theorem ParsePlan_text (p : Plan) : ParsePlan p.text = .ok p := by
  cases p <;> decide

inductive Status
  | active | suspended | archived
deriving DecidableEq, Repr

namespace Status

def text : Status → GoString
  | active => "active"
  | suspended => "suspended"
  | archived => "archived"

/-- The targets `statusTransitions` lists for a status. -/
def transitions : Status → List Status
  | active => [suspended, archived]
  | suspended => [active, archived]
  | archived => []

def canTransitionTo (s target : Status) : Bool := target ∈ s.transitions

end Status

def ParseStatus (s : GoString) : Except Err Status :=
  if s = Status.text .active then .ok .active
  else if s = Status.text .suspended then .ok .suspended
  else if s = Status.text .archived then .ok .archived
  else .error ErrInvalidStatus

@[simp] theorem ParseStatus_text (s : Status) : ParseStatus s.text = .ok s := by
  cases s <;> decide

/-! ### Quotas -/

structure Quota where
  MaxServices : Int
  nonneg : 0 ≤ MaxServices
deriving DecidableEq

def NewQuota (maxServices : Int) : Except Err Quota :=
  if h : 0 ≤ maxServices then .ok ⟨maxServices, h⟩ else .error ErrInvalidQuota

@[simp] theorem NewQuota_MaxServices (q : Quota) : NewQuota q.MaxServices = .ok q := by
  simp [NewQuota, q.nonneg]

theorem MaxServices_of_NewQuota {n : Int} {q : Quota} (h : NewQuota n = .ok q) : q.MaxServices = n := by
  unfold NewQuota at h
  split at h <;> cases h
  rfl

end Forge.Tenants
