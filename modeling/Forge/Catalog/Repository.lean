import Forge.Store.Rules

/-!
# The Postgres adapter of the catalog (`catalog/adapters/postgres`)

`Repository`, `Outbox` and `Store` as processes over the world. Code that returns an error is in `M`.
-/

namespace Forge

/-- Go code that makes calls and returns a value or an error. -/
abbrev M := ExceptT Err (Proc Call Call.Ans)

/-- The process that makes one call and returns its answer. -/
def Call.perform (op : Call) : Proc Call Call.Ans op.Ans := Proc.perform op

namespace M

/-- A call that cannot fail. -/
def perform (op : Call) : M op.Ans := ExceptT.lift op.perform

/-- A statement; `onErr` is what the code makes of the driver's error. -/
def exec (db : DBTX) (q : Stmt) (onErr : PgError → Err) : M q.Ans := ExceptT.mk do
  match ← (Call.exec db q).perform with
  | .ok a => pure (.ok a)
  | .error e => pure (.error (onErr e))

def ofExcept {α : Type} (x : Except Err α) : M α := ExceptT.mk (pure x)

/-! How a process in `M` goes on: the first calls of `x.run >>= k`. -/

section
variable {α β γ : Type}

@[simp] theorem run_bind_bind (x : M α) (f : α → M β) (k : Except Err β → Proc Call Call.Ans γ) :
    (x >>= f).run >>= k = x.run >>= fun r => match r with
      | .ok a => (f a).run >>= k
      | .error e => k (.error e) := by
  rw [ExceptT.run_bind, Proc.bind_assoc]
  congr 1
  funext r
  cases r <;> rfl

@[simp] theorem run_pure_bind (a : α) (k : Except Err α → Proc Call Call.Ans γ) :
    (pure a : M α).run >>= k = k (.ok a) := rfl

@[simp] theorem run_throw_bind (e : Err) (k : Except Err α → Proc Call Call.Ans γ) :
    (throw e : M α).run >>= k = k (.error e) := rfl

@[simp] theorem run_ofExcept_bind (x : Except Err α) (k : Except Err α → Proc Call Call.Ans γ) :
    (ofExcept x).run >>= k = k x := rfl

@[simp] theorem run_perform_bind (op : Call) (k : Except Err op.Ans → Proc Call Call.Ans γ) :
    (perform op).run >>= k = .call op fun a => k (.ok a) := rfl

@[simp] theorem run_lift_bind (x : Proc Call Call.Ans α) (k : Except Err α → Proc Call Call.Ans γ) :
    (ExceptT.lift x : M α).run >>= k = x >>= fun a => k (.ok a) := by
  have : (ExceptT.lift x : M α).run = x >>= fun a => pure (.ok a) := by
    rw [ExceptT.run_lift, map_eq_pure_bind]
  rw [this, Proc.bind_assoc]
  rfl

@[simp] theorem run_exec_bind (db : DBTX) (q : Stmt) (onErr : PgError → Err)
    (k : Except Err q.Ans → Proc Call Call.Ans γ) :
    (exec db q onErr).run >>= k = .call (.exec db q) fun r => match r with
      | .ok a => k (.ok a)
      | .error e => k (.error (onErr e)) := by
  show Proc.call _ _ = Proc.call _ _
  congr 1
  funext r
  cases r <;> rfl

variable {P : Call → Prop}

/-! The calls of code in `M`. -/

theorem uses_bind {x : M α} {f : α → M β} (hx : x.run.Uses P) (hf : ∀ a, (f a).run.Uses P) :
    (x >>= f).run.Uses P := by
  rw [ExceptT.run_bind]
  refine hx.bind fun r => ?_
  cases r with
  | ok a => exact hf a
  | error e => exact trivial

theorem uses_perform {op : Call} (h : P op) : (perform op).run.Uses P := ⟨h, fun _ => trivial⟩

theorem uses_exec {db : DBTX} {q : Stmt} {onErr : PgError → Err} (h : P (.exec db q)) :
    (exec db q onErr).run.Uses P :=
  ⟨h, fun r => by cases r <;> exact trivial⟩

theorem uses_lift {x : Proc Call Call.Ans α} (h : x.Uses P) : (ExceptT.lift x : M α).run.Uses P := by
  rw [ExceptT.run_lift, map_eq_pure_bind]
  exact h.bind fun _ => trivial

end

end M

namespace Catalog

/-! ### Rows and aggregates -/

def insertRow (s : Service) : ServiceRow where
  id := s.id.v
  tenant_id := s.tenantID.v
  name := s.name.v
  description := s.description
  tier := s.tier.v
  lifecycle := s.lifecycle.text
  repository_url := s.repository
  owning_team := s.ownership.OwningTeam
  on_call_ref := s.ownership.OnCallRef
  version := s.version
  created_at := pgTime s.createdAt
  updated_at := pgTime s.updatedAt

def updateCols (s : Service) : ServiceCols where
  description := s.description
  tier := s.tier.v
  lifecycle := s.lifecycle.text
  repository_url := s.repository
  owning_team := s.ownership.OwningTeam
  on_call_ref := s.ownership.OnCallRef
  version := s.version
  updated_at := pgTime s.updatedAt

def corrupt {α : Type} : Except Err α → Except Err α :=
  Except.mapError (.caused .Internal "DATA_CORRUPTION" "stored service data is invalid")

@[simp] theorem corrupt_ok {α : Type} (a : α) : corrupt (.ok a) = .ok a := rfl

/-- Corrupt data is not taken for a missing row. -/
theorem corrupt_bind_ne {α β : Type} {x : Except Err α} {f : α → Except Err β} {e : Err}
    (h : corrupt x >>= f = .error e) (hf : ∀ a, f a = .error e → e ≠ ErrServiceNotFound) :
    e ≠ ErrServiceNotFound := by
  cases x with
  | ok a => exact hf a h
  | error c => cases h; exact nofun

def Reconstitute (id : ServiceID) (tenantID : TenantID) (name : ServiceName) (description : GoString)
    (tier : Tier) (lifecycle : Lifecycle) (repository : GoString) (ownership : Ownership)
    (version : Int) (createdAt updatedAt : Time) : Service :=
  ⟨id, tenantID, name, description, tier, lifecycle, repository, ownership, version, createdAt,
    updatedAt, []⟩

section
variable [UuidLib]

def scanService : Option ServiceRow → Except Err Service
  | none => .error ErrServiceNotFound
  | some r => do
    let dsid ← corrupt (ServiceIDFromString r.id.String)
    let dtid ← corrupt (TenantIDFromString r.tenant_id.String)
    let dname ← corrupt (NewServiceName r.name)
    let dtier ← corrupt (NewTier r.tier)
    let dlifecycle ← corrupt (ParseLifecycle r.lifecycle)
    let downership ← corrupt (NewOwnership r.owning_team r.on_call_ref)
    return Reconstitute dsid dtid dname r.description dtier dlifecycle r.repository_url downership
      r.version (goTime r.created_at) (goTime r.updated_at)

theorem scanService_some_ne {r : ServiceRow} {e : Err} (h : scanService (some r) = .error e) :
    e ≠ ErrServiceNotFound :=
  corrupt_bind_ne h fun _ h => corrupt_bind_ne h fun _ h => corrupt_bind_ne h fun _ h =>
    corrupt_bind_ne h fun _ h => corrupt_bind_ne h fun _ h => corrupt_bind_ne h fun _ h => nomatch h

/-- A row as `Insert` and `Update` leave it. -/
def Stored (r : ServiceRow) : Prop := ∃ s : Service, insertRow s = r

/-- A stored row loads back as the aggregate it was written from, times cut to microseconds. -/
theorem scanService_insertRow (s : Service) : scanService (some (insertRow s)) =
    .ok { s with createdAt := goTime (pgTime s.createdAt), updatedAt := goTime (pgTime s.updatedAt),
                 events := [] } := by
  simp [scanService, insertRow, Reconstitute, bind, Except.bind, pure, Except.pure]

theorem Stored.scan {r : ServiceRow} (h : Stored r) :
    ∃ s, scanService (some r) = .ok s ∧ insertRow s = r ∧ s.events = [] := by
  obtain ⟨s, rfl⟩ := h
  exact ⟨_, scanService_insertRow s, by simp [insertRow], rfl⟩

end

/-- Writing the columns of an unchanged aggregate changes nothing. -/
theorem insertRow_set (s : Service) : (insertRow s).set (updateCols s) = insertRow s := rfl

/-- Writing the columns of a changed aggregate leaves its row. -/
theorem Service.Changed.set {s s' : Service} {now : Time} {e : Event} (h : s.Changed s' now e) :
    (insertRow s).set (updateCols s') = insertRow s' := by
  simp [insertRow, ServiceRow.set, updateCols, h.id, h.tenantID, h.name, h.createdAt]

/-! ### The texts of an aggregate -/

section
open Json

theorem plain_of_nameOk {v : GoString} (hok : NameOk v) : Plain v := by
  have hplain : ∀ b ∈ 0x2D :: lowerAlnum, plain b = true := by decide +kernel
  have hmatch : dns1123Label.rmatch v = true := by
    by_contra h
    exact hok (.inr (.inr (Bool.eq_false_iff.2 h)))
  exact fun b hb => hplain b (mem_of_dns1123Label hmatch b hb)

theorem plain_hex (k n : Nat) : Plain (GoString.hex k n) := by
  have hdigit : ∀ m < 16, plain (GoString.hexDigit m) = true := by decide
  induction k generalizing n with
  | zero => simp [GoString.hex, Plain]
  | succ k ih => exact (ih _).append (.singleton (hdigit _ (Nat.mod_lt n (by decide))))

theorem plain_String (u : UUID) : Plain u.String := by
  have hdash : ∀ {s t : GoString}, Plain s → Plain t → Plain (s ++ 0x2D :: t) := fun hs ht =>
    hs.append (Plain.append (.singleton (by decide)) ht)
  exact hdash (plain_hex _ _) (hdash (plain_hex _ _) (hdash (plain_hex _ _) (hdash (plain_hex _ _)
    (plain_hex _ _))))

end

/-- The tables take the texts of the aggregate, and those in the payloads of its events. -/
structure Service.Storable (s : Service) : Prop where
  cols : ∀ x ∈ (updateCols s).texts, TextOk x
  events : ∀ e ∈ s.events, ∀ x ∈ e.envelope.texts, 0x00 ∉ x

theorem ServiceName.textOk (n : ServiceName) : TextOk n.v := .of_plain (plain_of_nameOk n.nameOk)

theorem Lifecycle.textOk (l : Lifecycle) : TextOk l.text := by
  cases l <;> decide +kernel

theorem Event.textOk_EventType (e : Event) : TextOk e.EventType := by
  cases e <;> simp only [Event.EventType] <;> decide +kernel

/-- A registration is storable if the texts that nobody has checked are. -/
theorem storable_Register {id : ServiceID} {tenantID : TenantID} {name : ServiceName} {description repository : GoString}
    {tier : Tier} {ownership : Ownership} {now : Time} (hd : TextOk description) (hr : TextOk repository)
    (ho : TextOk ownership.OwningTeam ∧ TextOk ownership.OnCallRef) :
    (Register id tenantID name description tier repository ownership now).Storable where
  cols x hx := by
    simp only [ServiceCols.texts, updateCols, Register, List.mem_cons, List.not_mem_nil, or_false] at hx
    rcases hx with rfl | rfl | rfl | rfl | rfl
    · exact hd
    · exact Lifecycle.textOk _
    · exact hr
    · exact ho.1
    · exact ho.2
  events e he x hx := by
    cases List.mem_singleton.1 he
    simp only [Event.envelope, Envelope.texts, Event.data, EventData.texts, Event.AggregateID, List.mem_cons,
      List.not_mem_nil, or_false] at hx
    rcases hx with rfl | rfl | rfl | rfl
    · exact (Event.textOk_EventType _).2
    · exact (TextOk.of_plain (plain_String id.v)).2
    · exact (TextOk.of_plain (plain_String tenantID.v)).2
    · exact name.textOk.2

/-- What a mutation writes as texts does not depend on the time. -/
theorem Mutation.texts_of_apply {m : Mutation} {now now' : Time} {s s₁ s₂ : Service} (h₁ : m.apply now s = .ok s₁)
    (h₂ : m.apply now' s = .ok s₂) : (updateCols s₂).texts = (updateCols s₁).texts ∧
      s₂.events.map Event.envelope = s₁.events.map Event.envelope := by
  cases m with
  | changeOwnership o =>
    simp only [apply, Service.ChangeOwnership] at h₁ h₂
    split_ifs at h₁ h₂
    cases h₁
    cases h₂
    exact ⟨rfl, by simp [Service.record, Service.touch, Event.envelope, Event.EventType, Event.AggregateID, Event.data]⟩
  | changeLifecycle target =>
    simp only [apply, Service.ChangeLifecycle] at h₁ h₂
    split_ifs at h₁ h₂ <;> cases h₁ <;> cases h₂
    · exact ⟨rfl, rfl⟩
    · exact ⟨rfl, by simp [Service.record, Service.touch, Event.envelope, Event.EventType, Event.AggregateID, Event.data]⟩
  | retire =>
    simp only [apply, Service.Retire] at h₁ h₂
    split_ifs at h₁ h₂ <;> cases h₁ <;> cases h₂
    · exact ⟨rfl, rfl⟩
    · exact ⟨rfl, by simp [Service.record, Service.touch, Event.envelope, Event.EventType, Event.AggregateID, Event.data]⟩

theorem Service.Storable.of_apply {m : Mutation} {now now' : Time} {s s₁ s₂ : Service} (h : s₁.Storable)
    (h₁ : m.apply now s = .ok s₁) (h₂ : m.apply now' s = .ok s₂) : s₂.Storable := by
  obtain ⟨hcols, hevents⟩ := Mutation.texts_of_apply h₁ h₂
  refine ⟨hcols ▸ h.cols, fun e he => ?_⟩
  have hmem : e.envelope ∈ s₁.events.map Event.envelope := hevents ▸ List.mem_map_of_mem he
  obtain ⟨e', he', heq⟩ := List.mem_map.1 hmem
  exact heq ▸ h.events e' he'

/-! ### Repository -/

/-- What `Insert` makes of an error of its first statement. -/
def insertErr : PgError → Err
  | .uniqueViolation => ErrNameConflict
  | .other => wrapPg "insert service" .other

def Insert (s : Service) : M Unit := do
  M.exec .tx (.insertService (insertRow s)) insertErr
  let u ← M.perform .newID
  M.exec .tx (.insertHistory ⟨u, s.id.v, s.ownership.OwningTeam, s.ownership.OnCallRef,
    pgTime s.createdAt, none⟩) (wrapPg "insert ownership history")

def recordOwnership (s : Service) : M Unit := do
  M.exec .tx (.closeOwnership s.id.v (pgTime s.updatedAt) s.ownership.OwningTeam
    s.ownership.OnCallRef) (wrapPg "close ownership interval")
  let u ← M.perform .newID
  M.exec .tx (.openOwnership ⟨u, s.id.v, s.ownership.OwningTeam, s.ownership.OnCallRef,
    pgTime s.updatedAt, none⟩) (wrapPg "open ownership interval")

section
variable [UuidLib]

def FindByID (db : DBTX) (sid : ServiceID) : M Service := do
  let row ← M.exec db (.selectService sid.v) (wrapPg "scan service")
  M.ofExcept (scanService row)

def FindByTenantAndName (db : DBTX) (tenant : TenantID) (name : ServiceName) : M Service := do
  let row ← M.exec db (.selectServiceByName tenant.v name.v) (wrapPg "scan service")
  M.ofExcept (scanService row)

def Update (s : Service) (expectedVersion : Int) : M Unit := do
  let n ← M.exec .tx (.updateService s.id.v expectedVersion (updateCols s)) (wrapPg "update service")
  if n = 0 then
    match ← ExceptT.lift (FindByID .tx s.id).run with
    | .error e => throw (if e.Is ErrServiceNotFound then ErrServiceNotFound else ErrVersionConflict)
    | .ok _ => throw ErrVersionConflict
  else recordOwnership s

end

/-! ### Outbox and transactions -/

def Append : List Event → M Unit
  | [] => pure ()
  | e :: events => do
    let u ← M.perform .newID
    M.exec .tx (.insertOutbox u e.AggregateID e.EventType e.envelope (pgTime e.OccurredAt))
      (wrapPg "append outbox event")
    Append events

/-- `Store.Execute`: `fn` in a transaction, rolled back if it returns an error. -/
def Execute {α : Type} (fn : M α) : M α := ExceptT.mk do
  match ← Call.begin.perform with
  | .error e => pure (.error (wrapPg "begin tx" e))
  | .ok () => match ← fn.run with
    | .error e => do
      Call.rollback.perform
      pure (.error e)
    | .ok a => match ← Call.commit.perform with
      | .error e => pure (.error (wrapPg "commit tx" e))
      | .ok () => pure (.ok a)

theorem uses_Execute {α : Type} {P : Call → Prop} {fn : M α} (hfn : fn.run.Uses P) (hb : P .begin)
    (hc : P .commit) (hr : P .rollback) : (Execute fn).run.Uses P := by
  refine ⟨hb, fun r => ?_⟩
  cases r with
  | error e => exact trivial
  | ok =>
    refine hfn.bind fun r => ?_
    cases r with
    | error e => exact ⟨hr, fun _ => trivial⟩
    | ok a => exact ⟨hc, fun r => by cases r <;> exact trivial⟩

theorem run_Execute_bind {α γ : Type} (fn : M α) (k : Except Err α → Proc Call Call.Ans γ) :
    (Execute fn).run >>= k = .call .begin fun r => match r with
      | .error e => k (.error (wrapPg "begin tx" e))
      | .ok () => fn.run >>= fun r => match r with
        | .error e => .call .rollback fun _ => k (.error e)
        | .ok a => .call .commit fun r => match r with
          | .error e => k (.error (wrapPg "commit tx" e))
          | .ok () => k (.ok a) := by
  show Proc.call _ _ = Proc.call _ _
  congr 1
  funext r
  cases r with
  | error e => rfl
  | ok =>
    show fn.run >>= _ >>= k = fn.run >>= _
    rw [Proc.bind_assoc]
    congr 1
    funext r
    cases r with
    | error e => rfl
    | ok a =>
      show Proc.call _ _ = Proc.call _ _
      congr 1
      funext r
      cases r <;> rfl

end Catalog

end Forge
