import Forge.Catalog.Sequential
import Forge.Catalog.Handlers

/-!
# The `If-Match` header

`ifMatch` turns a header it cannot parse into 0, and `expectedVersionOr` takes every number that is not
positive for "no expected version". A request with such a header is therefore carried out whatever the
stored version is (`ifMatch_fails_open`). For one request handled alone on a healthy database, a header
guards the stored service exactly if it writes a positive number (or the stored version), or the
request is refused anyway (`ifMatch_guards_iff`).
-/

namespace Forge.Catalog

open GoString

section
variable [UuidLib] {w : World} {r : ServiceRow}

/-! ### Requests -/

/-- The request is refused whatever its header: its body or its values are invalid, the domain does not
permit what it asks for, or the tables do not take one of its texts. -/
def MutationRequest.Refused (req : MutationRequest) (r : ServiceRow) : Prop :=
  req.parse = none ∨ ∃ id m, req.parse = some (id, m) ∧
    ((∃ s e, scanService (some r) = .ok s ∧ ∀ now, m.apply now s = .error e) ∨ m.Unstorable r)

/-- Unless the header names the version `v`, nothing was committed and an error was answered. -/
def Guarded (header : GoString) (v : Int) (db : Tables) (resp : Response) (w : World) : Prop :=
  ParseInt (Trim header 0x22) ≠ some v → w.db = db ∧ w.log = [] ∧ 400 ≤ resp.Status

omit [UuidLib] in
/-- A header whose number is positive is read as that number. -/
theorem parseInt_of_ifMatch {header : GoString} (h : 0 < ifMatch header) :
    ParseInt (Trim header 0x22) = some (ifMatch header) := by
  unfold ifMatch at h ⊢
  by_cases hr : Trim header 0x22 = []
  · simp [hr] at h
  · cases hp : ParseInt (Trim header 0x22) with
    | none => simp [hr, hp] at h
    | some v => simp [hr, hp]

omit [UuidLib] in
theorem status_answer_error (e : Err) : 400 ≤ (answer (.error e)).Status := apperr.HTTPStatus_ge e

theorem parse_id {req : MutationRequest} {sid : ServiceID} {m : Mutation}
    (h : req.parse = some (sid, m)) : ServiceIDFromString req.id = .ok sid := by
  cases req with
  | ownership id body =>
    cases body with
    | error text => cases h
    | ok b =>
      simp only [MutationRequest.parse, MutationRequest.command, Except.map, Command.parse] at h
      cases hid : ServiceIDFromString id with
      | error e => rw [hid] at h; cases h
      | ok sid' =>
        rw [hid] at h
        cases ho : NewOwnership b.OwningTeam b.OnCallRef <;> rw [ho] at h <;> cases h
        exact hid
  | lifecycle id body =>
    cases body with
    | error text => cases h
    | ok b =>
      simp only [MutationRequest.parse, MutationRequest.command, Except.map, Command.parse] at h
      cases hid : ServiceIDFromString id with
      | error e => rw [hid] at h; cases h
      | ok sid' =>
        rw [hid] at h
        cases ho : ParseLifecycle b.Lifecycle <;> rw [ho] at h <;> cases h
        exact hid
  | delete id =>
    simp only [MutationRequest.parse, MutationRequest.command, Command.parse] at h
    cases hid : ServiceIDFromString id with
    | error e => rw [hid] at h; cases h
    | ok sid' =>
      rw [hid] at h
      cases h
      exact hid

/-- For every stored service and every `If-Match`, a mutating request handled alone on a
healthy database with fresh ids: unless the header names the stored version nothing is committed and an
error is answered, if and only if the header is read as a positive number, or names the stored version,
or the request is refused whatever the header. -/
theorem ifMatch_guards_iff {db : Tables} {sid : ServiceID} (hr : db.service sid.v = some r) (hst : Stored r)
    {req : MutationRequest} (hid : ServiceIDFromString req.id = .ok sid) {header : GoString}
    {cs : List Choice} {resp : Response}
    (h : (req.handle header).exec (World.call 0) cs (.init db) = some (resp, w))
    (hhealthy : w.faults = 0) (hfresh : Fresh db w) :
    Guarded header r.version db resp w ↔
      0 < ifMatch header ∨ ParseInt (Trim header 0x22) = some r.version ∨ req.Refused r := by
  rw [req.handle_eq] at h
  cases hc : req.command (ifMatch header) with
  | error text =>
    rw [hc] at h
    obtain ⟨rfl, rfl⟩ := Proc.exec_ret h
    exact ⟨fun _ => .inr (.inr (.inl (MutationRequest.parse_of_error hc))),
      fun _ _ => ⟨rfl, rfl, status_answer_error _⟩⟩
  | ok c =>
    rw [hc] at h
    obtain ⟨cs₁, cs₂, res, w₁, rfl, hrun, hret⟩ := Proc.exec_bind h
    obtain ⟨rfl, rfl⟩ := Proc.exec_ret hret
    have hparse := MutationRequest.parse_command hc
    rw [c.run_eq] at hrun
    cases hp : c.parse with
    | error e =>
      rw [hp] at hrun hparse
      obtain ⟨rfl, rfl⟩ := Proc.exec_ret hrun
      exact ⟨fun _ => .inr (.inr (.inl hparse.symm)), fun _ _ => ⟨rfl, rfl, status_answer_error _⟩⟩
    | ok x =>
      obtain ⟨sid', m⟩ := x
      rw [hp] at hrun hparse
      cases hid.symm.trans (parse_id hparse.symm)
      rw [MutationRequest.expectedVersion_command hc] at hrun
      have hst' : ∀ r', db.service sid.v = some r' → Stored r' := fun r' hr' =>
        Option.some.inj (hr.symm.trans hr') ▸ hst
      cases (mutate_alone (.init 0 db) hst' hrun).2.2 with
      | failed hres hdb hlog hwhy =>
        subst hres
        refine ⟨fun _ => ?_, fun _ _ => ⟨hdb, hlog, status_answer_error _⟩⟩
        rcases hwhy r hr hhealthy hfresh with hrefused | ⟨hpos, -⟩ | htext
        · exact .inr (.inr (.inr ⟨sid, m, hparse.symm, .inl hrefused⟩))
        · exact .inl hpos
        · exact .inr (.inr (.inr ⟨sid, m, hparse.symm, .inr htext⟩))
      | done hres hr' hs ha hv _ hstor _ _ hlog =>
        cases hr.symm.trans hr'
        have hparseInt : Guarded header r.version db (answer res) w ↔
            ParseInt (Trim header 0x22) = some r.version :=
          ⟨fun hg => by_contra fun hne => hlog (hg hne).2.1, fun he hne => absurd he hne⟩
        rw [hparseInt]
        refine ⟨fun he => .inr (.inl he), ?_⟩
        rintro (hpos | he | hrefused)
        · rw [parseInt_of_ifMatch hpos, hv, expectedVersionOr, if_pos hpos]
        · exact he
        · rcases hrefused with hnone | ⟨sid', m', hsome, hwhy⟩
          · rw [hnone] at hparse; cases hparse
          · cases hparse.trans hsome
            rcases hwhy with ⟨s₁, e, hs₁, he⟩ | ⟨s₁, s₂, now', hs₁, ha₁, hne⟩
            · cases hs.symm.trans hs₁
              rw [he] at ha
              cases ha
            · cases hs.symm.trans hs₁
              exact absurd (hstor.of_apply ha ha₁) hne

end

/-! ### Two deletions of a service at version 1 -/

attribute [local instance] UuidLib.canonical

/-- The choices of a mutation that commits. -/
def mutationChoices : List Choice :=
  [.time 0, .ok, .time 5000, .ok, .ok, .uuid ⟨20⟩, .ok, .uuid ⟨21⟩, .ok, .ok]

/-- The choices of a mutation that finds another version. -/
def conflictChoices : List Choice := [.time 0, .ok, .time 5000, .ok, .ok, .ok]

theorem service_sampleTables :
    sampleTables.service (ServiceID.v ⟨⟨1⟩⟩) = some (insertRow .sample) := by decide

theorem serviceID_sample :
    ServiceIDFromString (MutationRequest.delete (UUID.String ⟨1⟩)).id = .ok ⟨⟨1⟩⟩ := by decide +kernel

/-- `If-Match: "5"` is a number, so the deletion is refused and nothing changes. -/
theorem ifMatch_guards_iff_sample : ∃ resp w,
    ((MutationRequest.delete (UUID.String ⟨1⟩)).handle (str "\"5\"")).exec (World.call 0) conflictChoices
      (.init sampleTables) = some (resp, w) ∧ w.faults = 0 ∧ Fresh sampleTables w ∧
    Guarded (str "\"5\"") 1 sampleTables resp w := by
  have h : (((MutationRequest.delete (UUID.String ⟨1⟩)).handle (str "\"5\"")).exec (World.call 0)
      conflictChoices (.init sampleTables)).map (fun x => (x.2.faults, x.2.ids)) = some (0, []) := by
    decide +kernel
  obtain ⟨⟨resp, w⟩, hrun, hw⟩ := Option.map_eq_some_iff.1 h
  obtain ⟨hf, hi⟩ := Prod.mk.inj hw
  have hfresh : Fresh sampleTables w := fun u hu => by
    rw [show w.ids = [] from hi] at hu
    cases hu
  exact ⟨resp, w, hrun, hf, hfresh, (ifMatch_guards_iff service_sampleTables ⟨_, rfl⟩
    serviceID_sample hrun hf hfresh).2 (.inl (by decide +kernel))⟩

/-- `If-Match: W/"9"` does not name version 1, and yet the service is retired. -/
theorem ifMatch_fails_open : ∃ resp w,
    ((MutationRequest.delete (UUID.String ⟨1⟩)).handle (str "W/\"9\"")).exec (World.call 0) mutationChoices
      (.init sampleTables) = some (resp, w) ∧ w.faults = 0 ∧ Fresh sampleTables w ∧ resp.Status = 200 ∧
    (w.db.service ⟨1⟩).map (·.lifecycle) = some (str "retired") ∧
    ¬ Guarded (str "W/\"9\"") 1 sampleTables resp w := by
  have h : (((MutationRequest.delete (UUID.String ⟨1⟩)).handle (str "W/\"9\"")).exec (World.call 0)
      mutationChoices (.init sampleTables)).map (fun x => ((x.2.faults, x.2.ids), x.1.Status,
        (x.2.db.service ⟨1⟩).map (·.lifecycle))) =
      some ((0, [⟨20⟩, ⟨21⟩]), 200, some (str "retired")) := by
    decide +kernel
  obtain ⟨⟨resp, w⟩, hrun, hw⟩ := Option.map_eq_some_iff.1 h
  simp only [Prod.mk.injEq] at hw
  obtain ⟨⟨hf, hi⟩, hst, hl⟩ := hw
  have hfresh : Fresh sampleTables w := fun u hu => by
    rw [hi] at hu
    revert u
    decide
  refine ⟨resp, w, hrun, hf, hfresh, hst, hl, fun hg => ?_⟩
  have herr := (hg (by decide +kernel)).2.2
  rw [hst] at herr
  exact absurd herr (by decide)

end Forge.Catalog
