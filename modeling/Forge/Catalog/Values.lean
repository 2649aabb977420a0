import Forge.Lib.Regex
import Forge.Platform.Apperr
import Forge.Platform.Uuid

/-!
# Value objects of the catalog (`catalog/domain/values.go`, `ids.go`, `errors.go`)

The value types can only be built by their constructors, so each carries what its constructor
checked: a `ServiceName` is trimmed, 1 to 63 bytes long and matches `dns1123Label`, a `Tier` lies in
`1..4`, the texts of an `Ownership` are trimmed and its team is not empty. A constructor therefore
returns a value it has itself produced unchanged (`NewServiceName_v`, `NewTier_v`, `NewOwnership_v`,
`ParseLifecycle_text`), which is what makes a stored row load back. The names that pass are the labels of
`IsLabel` (`nameOk_iff`).
-/

namespace Forge.Catalog

open GoString

/-! ### Errors -/

def ErrInvalidServiceID : Err :=
  apperr.Validation "INVALID_SERVICE_ID" "service id is not a valid identifier"
def ErrInvalidTenantID : Err :=
  apperr.Validation "INVALID_TENANT_ID" "tenant id is not a valid identifier"
def ErrInvalidServiceName : Err := apperr.Validation "INVALID_SERVICE_NAME"
  "service name must be a DNS-1123 label of 1 to 63 characters"
def ErrInvalidTier : Err := apperr.Validation "INVALID_TIER" "tier must be an integer from 1 to 4"
def ErrInvalidLifecycle : Err := apperr.Validation "INVALID_LIFECYCLE"
  "lifecycle must be one of experimental, production, deprecated, retired"
def ErrInvalidOwnership : Err := apperr.Validation "INVALID_OWNERSHIP" "owning team is required"
def ErrIllegalTransition : Err := apperr.Precondition "ILLEGAL_LIFECYCLE_TRANSITION"
  "the requested lifecycle transition is not permitted"
def ErrOnCallRequired : Err := apperr.Precondition "ONCALL_REQUIRED"
  "a service cannot enter production without an on-call reference"
def ErrAlreadyRetired : Err :=
  apperr.Precondition "SERVICE_RETIRED" "a retired service cannot be modified"
def ErrServiceNotFound : Err := apperr.NotFound "SERVICE_NOT_FOUND" "service not found"
def ErrNameConflict : Err := apperr.Conflict "SERVICE_NAME_CONFLICT"
  "a service with this name already exists in the tenant"
def ErrVersionConflict : Err := apperr.Conflict "VERSION_CONFLICT"
  "the service was modified concurrently; retry with the current version"

/-! ### Identifiers -/

structure ServiceID where
  v : UUID
deriving DecidableEq, Repr

structure TenantID where
  v : UUID
deriving DecidableEq, Repr

def ServiceID.String (s : ServiceID) : GoString := s.v.String
def TenantID.String (t : TenantID) : GoString := t.v.String

section
variable [UuidLib]

def ServiceIDFromString (s : GoString) : Except Err ServiceID :=
  match UuidLib.Parse s with
  | some u => .ok ⟨u⟩
  | none => .error ErrInvalidServiceID

def TenantIDFromString (s : GoString) : Except Err TenantID :=
  match UuidLib.Parse s with
  | some u => .ok ⟨u⟩
  | none => .error ErrInvalidTenantID

@[simp] theorem ServiceIDFromString_String (u : UUID) : ServiceIDFromString u.String = .ok ⟨u⟩ := by
  simp [ServiceIDFromString, UuidLib.parse_String]

@[simp] theorem TenantIDFromString_String (u : UUID) : TenantIDFromString u.String = .ok ⟨u⟩ := by
  simp [TenantIDFromString, UuidLib.parse_String]

end

/-! ### Names -/

def lowerAlnum : GoString := "abcdefghijklmnopqrstuvwxyz0123456789"

/-- `^[a-z0-9]([-a-z0-9]*[a-z0-9])?$`. -/
def dns1123Label : RegularExpression UInt8 :=
  cls lowerAlnum * (1 + RegularExpression.star (cls (0x2D :: lowerAlnum)) * cls lowerAlnum)

/-- A label is one letter or digit, or has one at each end. -/
theorem rmatch_dns1123Label {s : GoString} : dns1123Label.rmatch s = true ↔
    ∃ b ∈ lowerAlnum, s = [b] ∨
      ∃ mid c, (∀ a ∈ mid, a ∈ 0x2D :: lowerAlnum) ∧ c ∈ lowerAlnum ∧ s = b :: (mid ++ [c]) := by
  rw [RegularExpression.rmatch_iff_matches', dns1123Label, RegularExpression.matches'_mul, Language.mem_mul]
  constructor
  · rintro ⟨s₁, h₁, s₂, h₂, rfl⟩
    obtain ⟨b, hb, rfl⟩ := mem_matches_cls.1 h₁
    refine ⟨b, hb, ?_⟩
    rw [RegularExpression.matches'_add, Language.mem_add, RegularExpression.matches'_epsilon, Language.mem_one,
      RegularExpression.matches'_mul, Language.mem_mul] at h₂
    rcases h₂ with rfl | ⟨mid, hmid, s₃, h₃, rfl⟩
    · exact .inl rfl
    · obtain ⟨c, hc, rfl⟩ := mem_matches_cls.1 h₃
      exact .inr ⟨mid, c, mem_matches_star_cls.1 hmid, hc, rfl⟩
  · rintro ⟨b, hb, hs⟩
    have hone : [b] ∈ (cls lowerAlnum).matches' := mem_matches_cls.2 ⟨b, hb, rfl⟩
    rcases hs with rfl | ⟨mid, c, hmid, hc, rfl⟩
    · exact ⟨[b], hone, [], .inl rfl, rfl⟩
    · refine ⟨[b], hone, mid ++ [c], .inr ?_, rfl⟩
      exact Language.mem_mul.2 ⟨mid, mem_matches_star_cls.2 hmid, [c], mem_matches_cls.2 ⟨c, hc, rfl⟩, rfl⟩

/-- A label consists of lower case letters, digits and dashes. -/
theorem mem_of_dns1123Label {s : GoString} (h : dns1123Label.rmatch s = true) :
    ∀ b ∈ s, b ∈ 0x2D :: lowerAlnum := by
  have hletters : ∀ b ∈ letters dns1123Label, b ∈ 0x2D :: lowerAlnum := by decide +kernel
  rw [RegularExpression.rmatch_iff_matches'] at h
  exact fun b hb => hletters b (mem_letters h b hb)

/-- The check of `NewServiceName` on the trimmed string. -/
def NameOk (s : GoString) : Prop :=
  ¬ (s.length < 1 ∨ s.length > 63 ∨ dns1123Label.rmatch s = false)

instance (s : GoString) : Decidable (NameOk s) := by unfold NameOk; infer_instance

/-- The rule the expression and the lengths stand for: 1 to 63 lower case letters, digits and dashes, and no
dash at an end. -/
structure IsLabel (s : GoString) : Prop where
  length_ge : 1 ≤ s.length
  length_le : s.length ≤ 63
  bytes : ∀ b ∈ s, (0x61 ≤ b ∧ b ≤ 0x7A) ∨ (0x30 ≤ b ∧ b ≤ 0x39) ∨ b = 0x2D
  head : s.head? ≠ some 0x2D
  last : s.getLast? ≠ some 0x2D

theorem mem_of_range {as : GoString} {lo hi b : UInt8} (hlo : lo ≤ b) (hhi : b ≤ hi)
    (has : ∀ n < hi.toNat + 1 - lo.toNat, UInt8.ofNat (lo.toNat + n) ∈ as) : b ∈ as := by
  have hlo := UInt8.le_iff_toNat_le.1 hlo
  have hhi := UInt8.le_iff_toNat_le.1 hhi
  have hb : b = UInt8.ofNat (lo.toNat + (b.toNat - lo.toNat)) := by
    rw [Nat.add_sub_cancel' hlo, UInt8.ofNat_toNat]
  rw [hb]
  exact has _ (by omega)

theorem mem_lowerAlnum {b : UInt8} : b ∈ lowerAlnum ↔ (0x61 ≤ b ∧ b ≤ 0x7A) ∨ (0x30 ≤ b ∧ b ≤ 0x39) := by
  constructor
  · have hranges : ∀ b ∈ lowerAlnum, (0x61 ≤ b ∧ b ≤ 0x7A) ∨ (0x30 ≤ b ∧ b ≤ 0x39) := by decide +kernel
    exact hranges b
  · rintro (⟨hlo, hhi⟩ | ⟨hlo, hhi⟩)
    · exact mem_of_range hlo hhi (by decide +kernel)
    · exact mem_of_range hlo hhi (by decide +kernel)

theorem IsLabel.mem {s : GoString} (h : IsLabel s) {b : UInt8} (hb : b ∈ s) (hne : b ≠ 0x2D) : b ∈ lowerAlnum := by
  rcases h.bytes b hb with hb | hb | rfl
  · exact mem_lowerAlnum.2 (.inl hb)
  · exact mem_lowerAlnum.2 (.inr hb)
  · exact absurd rfl hne

theorem IsLabel.rmatch {s : GoString} (h : IsLabel s) : dns1123Label.rmatch s = true := by
  rw [rmatch_dns1123Label]
  rcases s with _ | ⟨b, rest⟩
  · exact absurd h.length_ge (by simp)
  have hb : b ∈ lowerAlnum := h.mem List.mem_cons_self fun he => h.head (congrArg some he)
  refine ⟨b, hb, ?_⟩
  rcases List.eq_nil_or_concat' rest with rfl | ⟨mid, c, rfl⟩
  · exact .inl rfl
  · refine .inr ⟨mid, c, fun a ha => ?_, ?_, rfl⟩
    · by_cases hne : a = 0x2D
      · exact List.mem_cons.2 (.inl hne)
      · exact List.mem_cons_of_mem _ (h.mem (by simp [ha]) hne)
    · refine h.mem (by simp) fun he => h.last ?_
      rw [List.getLast?_cons, List.getLast?_concat, he]
      rfl

theorem isLabel_of_rmatch {s : GoString} (hge : 1 ≤ s.length) (hle : s.length ≤ 63)
    (h : dns1123Label.rmatch s = true) : IsLabel s := by
  have hne : ∀ {b : UInt8}, b ∈ lowerAlnum → some b ≠ some 0x2D := by
    rintro b hb he
    cases he
    exact absurd hb (by decide)
  have hbytes : ∀ b ∈ s, (0x61 ≤ b ∧ b ≤ 0x7A) ∨ (0x30 ≤ b ∧ b ≤ 0x39) ∨ b = 0x2D := by
    intro b hb
    rcases List.mem_cons.1 (mem_of_dns1123Label h b hb) with hb | hb
    · exact .inr (.inr hb)
    · exact (mem_lowerAlnum.1 hb).imp_right .inl
  obtain ⟨b, hb, rfl | ⟨mid, c, -, hc, rfl⟩⟩ := rmatch_dns1123Label.1 h
  · exact ⟨hge, hle, hbytes, hne hb, hne hb⟩
  · refine ⟨hge, hle, hbytes, hne hb, ?_⟩
    rw [List.getLast?_cons, List.getLast?_concat]
    exact hne hc

theorem nameOk_iff {s : GoString} : NameOk s ↔ IsLabel s := by
  simp only [NameOk, not_or, not_lt, Bool.not_eq_false]
  constructor
  · rintro ⟨hge, hle, hmatch⟩
    exact isLabel_of_rmatch hge hle hmatch
  · intro h
    exact ⟨h.length_ge, h.length_le, h.rmatch⟩

structure ServiceName where
  v : GoString
  trimmed : TrimSpace v = v
  nameOk : NameOk v
deriving DecidableEq

def NewServiceName (s : GoString) : Except Err ServiceName :=
  if h : NameOk (TrimSpace s) then .ok ⟨TrimSpace s, TrimSpace_idem s, h⟩
  else .error ErrInvalidServiceName

@[simp] theorem NewServiceName_v (n : ServiceName) : NewServiceName n.v = .ok n := by
  obtain ⟨v, ht, hn⟩ := n
  simp [NewServiceName, ht, hn]

theorem NewServiceName_isOk {s : GoString} : (∃ n, NewServiceName s = .ok n) ↔ NameOk (TrimSpace s) := by
  unfold NewServiceName
  split <;> simp [*]

theorem v_of_NewServiceName {s : GoString} {n : ServiceName} (h : NewServiceName s = .ok n) : n.v = TrimSpace s := by
  unfold NewServiceName at h
  split at h <;> cases h
  rfl

/-! ### Tiers -/

structure Tier where
  v : Int
  ge : 1 ≤ v
  le : v ≤ 4
deriving DecidableEq

def NewTier (t : Int) : Except Err Tier :=
  if h : 1 ≤ t ∧ t ≤ 4 then .ok ⟨t, h.1, h.2⟩ else .error ErrInvalidTier

@[simp] theorem NewTier_v (t : Tier) : NewTier t.v = .ok t := by
  simp [NewTier, t.ge, t.le]

/-! ### Lifecycles -/

inductive Lifecycle
  | experimental | production | deprecated | retired
deriving DecidableEq, Repr

namespace Lifecycle

/-- `string(l)`. -/
def text : Lifecycle → GoString
  | experimental => "experimental"
  | production => "production"
  | deprecated => "deprecated"
  | retired => "retired"

/-- The targets `lifecycleTransitions` lists for a lifecycle. -/
def transitions : Lifecycle → List Lifecycle
  | experimental => [production, deprecated, retired]
  | production => [deprecated, retired]
  | deprecated => [production, retired]
  | retired => []

def canTransitionTo (l target : Lifecycle) : Bool := target ∈ l.transitions

theorem canTransitionTo_retired {l : Lifecycle} (h : l ≠ retired) : l.canTransitionTo retired = true := by
  cases l <;> first | rfl | exact absurd rfl h

theorem retired_canTransitionTo (l : Lifecycle) : retired.canTransitionTo l = false := rfl

end Lifecycle

def ParseLifecycle (s : GoString) : Except Err Lifecycle :=
  if s = Lifecycle.text .experimental then .ok .experimental
  else if s = Lifecycle.text .production then .ok .production
  else if s = Lifecycle.text .deprecated then .ok .deprecated
  else if s = Lifecycle.text .retired then .ok .retired
  else .error ErrInvalidLifecycle

@[simp] theorem ParseLifecycle_text (l : Lifecycle) : ParseLifecycle l.text = .ok l := by
  cases l <;> decide

/-! ### Ownership -/

structure Ownership where
  OwningTeam : GoString
  OnCallRef : GoString
  team_trimmed : TrimSpace OwningTeam = OwningTeam
  onCall_trimmed : TrimSpace OnCallRef = OnCallRef
  team_ne : OwningTeam ≠ []
deriving DecidableEq

def NewOwnership (team onCall : GoString) : Except Err Ownership :=
  if h : TrimSpace team ≠ [] then
    .ok ⟨TrimSpace team, TrimSpace onCall, TrimSpace_idem team, TrimSpace_idem onCall, h⟩
  else .error ErrInvalidOwnership

def Ownership.hasOnCall (o : Ownership) : Bool := o.OnCallRef ≠ []

@[simp] theorem NewOwnership_v (o : Ownership) : NewOwnership o.OwningTeam o.OnCallRef = .ok o := by
  obtain ⟨team, onCall, ht, hc, hn⟩ := o
  simp [NewOwnership, ht, hc, hn]

end Forge.Catalog
