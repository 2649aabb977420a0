import Forge.Catalog.RecordSteps

/-!
# The outbox as a log of the catalog

After any commands run one after another, the outbox rows of a service replay to its row
(`outbox_faithful`): there is one row for each version, the first and only the first is the
registration, the lifecycle events are a walk of `lifecycleTransitions` from `experimental` to the
stored lifecycle, and the ownership events lead from the team of the registration to the stored one.
A command that fails or asks for nothing leaves the store as it is, and so does every command for a
retired service.
-/

namespace Forge.Catalog

/-- The event type of a payload. -/
def EventData.eventType : EventData → GoString
  | registered .. => "catalog.service.registered"
  | ownershipChanged .. => "catalog.service.ownership_changed"
  | lifecycleChanged .. => "catalog.service.lifecycle_changed"
  | retired => "catalog.service.retired"

theorem Event.eventType_data (e : Event) : e.data.eventType = e.EventType := by cases e <;> rfl

/-- `lifecycleTransitions` lists `target` for `source`. -/
def lifecycleEdge (source target : GoString) : Bool :=
  match ParseLifecycle source, ParseLifecycle target with
  | .ok l, .ok l' => l.canTransitionTo l'
  | _, _ => false

@[simp] theorem lifecycleEdge_text (l l' : Lifecycle) : lifecycleEdge l.text l'.text = l.canTransitionTo l' := by
  simp [lifecycleEdge]

/-- The lifecycle events followed from `l`: each has to start where the walk is and to be an edge. -/
def walkLifecycle : GoString → List OutboxRow → Option GoString
  | l, [] => some l
  | l, o :: os => match o.payload.Data with
    | .lifecycleChanged source target =>
      if source = l ∧ lifecycleEdge source target then walkLifecycle target os else none
    | .retired => if lifecycleEdge l "retired" then walkLifecycle "retired" os else none
    | _ => walkLifecycle l os

/-- The ownership events followed from `team`: each has to name the team in force before it. -/
def walkTeam : GoString → List OutboxRow → Option GoString
  | team, [] => some team
  | team, o :: os => match o.payload.Data with
    | .ownershipChanged previousTeam newTeam =>
      if previousTeam = team then walkTeam newTeam os else none
    | _ => walkTeam team os

theorem walkLifecycle_append (l : GoString) (os os' : List OutboxRow) :
    walkLifecycle l (os ++ os') = (walkLifecycle l os).bind (walkLifecycle · os') := by
  induction os generalizing l with
  | nil => rfl
  | cons o os ih =>
    simp only [List.cons_append, walkLifecycle]
    cases o.payload.Data with
    | lifecycleChanged source target =>
      dsimp only
      split
      · exact ih target
      · rfl
    | retired =>
      dsimp only
      split
      · exact ih _
      · rfl
    | _ => exact ih l

theorem walkTeam_append (team : GoString) (os os' : List OutboxRow) :
    walkTeam team (os ++ os') = (walkTeam team os).bind (walkTeam · os') := by
  induction os generalizing team with
  | nil => rfl
  | cons o os ih =>
    simp only [List.cons_append, walkTeam]
    cases o.payload.Data with
    | ownershipChanged previousTeam newTeam =>
      dsimp only
      split
      · exact ih newTeam
      · rfl
    | _ => exact ih team

/-- The outbox rows of a record tell how its row came about; `owners` are the owners that commands
have set for the service. -/
structure FaithfulLog (owners : List (Timestamptz × GoString × GoString)) (x : Record) : Prop where
  count : (x.outbox.length : Int) = x.row.version
  typed : ∀ o ∈ x.outbox, o.event_type = o.payload.Data.eventType
  first : ∃ o os, x.outbox = o :: os ∧ o.event_type = str "catalog.service.registered" ∧
    ∀ o' ∈ os, o'.event_type ≠ str "catalog.service.registered"
  lifecycle : walkLifecycle (str "experimental") x.outbox = some x.row.lifecycle
  team : ∃ from_ team onCall rest, owners = (from_, team, onCall) :: rest ∧
    walkTeam team x.outbox = some x.row.owning_team

section
variable {x : Record} {s s' : Service} {now : Time} {e : Event} {t : Timestamptz} {id v : UUID}

/-- The event of a change is not a registration. -/
theorem Service.Changed.eventType_ne (h : s.Changed s' now e) :
    e.EventType ≠ str "catalog.service.registered" := by
  rcases h.event with ⟨-, rfl⟩ | ⟨-, -, rfl | ⟨-, rfl⟩⟩ <;> simp only [Event.EventType] <;> decide

/-- The event of a change leads from the lifecycle before it to the one after it. -/
theorem Service.Changed.walkLifecycle (h : s.Changed s' now e) :
    Catalog.walkLifecycle s.lifecycle.text [outboxRowOf t id (v, e)] = some s'.lifecycle.text := by
  rcases h.event with ⟨hl, rfl⟩ | ⟨-, htr, rfl | ⟨hr, rfl⟩⟩
  · rw [hl]
    rfl
  · simp [Catalog.walkLifecycle, outboxRowOf, Event.envelope, Event.data, htr]
  · rw [hr] at htr ⊢
    have hedge : lifecycleEdge s.lifecycle.text "retired" = true :=
      (lifecycleEdge_text s.lifecycle .retired).trans htr
    exact if_pos hedge

/-- The event of a change leads from the team before it to the one after it. -/
theorem Service.Changed.walkTeam (h : s.Changed s' now e) :
    Catalog.walkTeam s.ownership.OwningTeam [outboxRowOf t id (v, e)] = some s'.ownership.OwningTeam := by
  rcases h.event with ⟨-, rfl⟩ | ⟨ho, -, rfl | ⟨-, rfl⟩⟩
  · simp [Catalog.walkTeam, outboxRowOf, Event.envelope, Event.data]
  · rw [ho]
    rfl
  · rw [ho]
    rfl

theorem FaithfulLog.changed {owners owners' : List (Timestamptz × GoString × GoString)} {hs : List HistoryRow}
    (h : FaithfulLog owners x) (hrow : insertRow s = x.row) (hch : s.Changed s' now e) :
    FaithfulLog (owners ++ owners') ⟨insertRow s', hs, x.outbox ++ [outboxRowOf t id (v, e)]⟩ where
  count := by
    have hv : s.version = x.row.version := hrow ▸ rfl
    have hc := h.count
    simp only [List.length_append, List.length_singleton, insertRow, hch.version]
    omega
  typed o ho := by
    rcases List.mem_append.1 ho with ho | ho
    · exact h.typed o ho
    · rw [List.mem_singleton.1 ho]
      exact (Event.eventType_data e).symm
  first := by
    obtain ⟨o, os, hos, ho, hne⟩ := h.first
    refine ⟨o, os ++ [outboxRowOf t id (v, e)], by rw [hos]; rfl, ho, fun o' ho' => ?_⟩
    rcases List.mem_append.1 ho' with ho' | ho'
    · exact hne o' ho'
    · rw [List.mem_singleton.1 ho']
      exact hch.eventType_ne
  lifecycle := by
    have hl : x.row.lifecycle = s.lifecycle.text := hrow ▸ rfl
    rw [walkLifecycle_append, h.lifecycle, hl]
    exact hch.walkLifecycle
  team := by
    obtain ⟨from_, team, onCall, rest, ho, hwalk⟩ := h.team
    have ht : x.row.owning_team = s.ownership.OwningTeam := hrow ▸ rfl
    refine ⟨from_, team, onCall, rest ++ owners', by rw [ho]; rfl, ?_⟩
    rw [walkTeam_append, hwalk, ht]
    exact hch.walkTeam

end

theorem RecordStep.faithfulLog {id : UUID} {tr : Trace} {rs rs' : List Time} {o o' : Option Record}
    {step : CatalogCommand × Except Err Service} (h : RecordStep id step rs rs' o o')
    (ho : ∀ x, o = some x → FaithfulLog (tr.filterMap (ownerSet id)) x)
    (hnone : o = none → tr.filterMap (ownerSet id) = []) :
    (∀ x, o' = some x → FaithfulLog ((tr ++ [step]).filterMap (ownerSet id)) x) ∧
      (o' = none → (tr ++ [step]).filterMap (ownerSet id) = []) := by
  rw [List.filterMap_append]
  cases h with
  | same _ howner =>
    have hnil : [step].filterMap (ownerSet id) = [] := by simp [howner]
    rw [hnil, List.append_nil]
    exact ⟨ho, hnone⟩
  | @registered tenantID name description tier repository ownership now svc u v t e hsvc he howner =>
    rw [hnone rfl, List.nil_append, List.filterMap_cons_some howner]
    refine ⟨fun x hx => ?_, nofun⟩
    cases hx
    have hev : e = .ServiceRegistered (ServiceID.String ⟨id⟩) now tenantID.String name.v tier.v := by
      rw [hsvc] at he
      exact (List.cons.inj he).1.symm
    subst hev
    refine ⟨?_, fun o ho => ?_, ⟨_, [], rfl, rfl, nofun⟩, ?_, ⟨_, _, _, _, rfl, ?_⟩⟩
    · rw [hsvc]
      rfl
    · rw [List.mem_singleton.1 ho]
      rfl
    · rw [hsvc]
      rfl
    · rw [hsvc]
      rfl
  | @changed x s s' now u v t e hrow hid hch howner =>
    refine ⟨fun x' hx' => ?_, nofun⟩
    cases hx'
    exact (ho x rfl).changed hrow hch

/-- The record of a retired service no longer changes. -/
theorem RecordStep.retired {id : UUID} {rs rs' : List Time} {x : Record} {o : Option Record}
    {step : CatalogCommand × Except Err Service} (h : RecordStep id step rs rs' (some x) o)
    (hx : x.row.lifecycle = str "retired") : o = some x := by
  cases h with
  | same => rfl
  | @changed _ s s' now u v t e hrow _ hch =>
    have hl : s.lifecycle.text = Lifecycle.text .retired := by
      rw [← show x.row.lifecycle = s.lifecycle.text from hrow ▸ rfl, hx]
      rfl
    have hr : s.lifecycle = .retired := by
      have := ParseLifecycle_text s.lifecycle
      rw [hl, ParseLifecycle_text] at this
      exact (Except.ok.inj this).symm
    exact absurd hr hch.not_retired

section
variable [UuidLib]

/-- After every run of catalog commands from an empty store, with any inputs and any failures: the log
of every service is faithful, a further command that fails or asks for nothing leaves the store as
it is, and whatever is run further, nothing about a retired service changes. -/
theorem outbox_faithful {cmds : List (CatalogCommand × List Choice)} {tr : Trace} {w : World}
    (h : runAll cmds (.init .empty) = some (tr, w)) :
    (∀ id x, w.db.record id = some x → FaithfulLog (tr.filterMap (ownerSet id)) x) ∧
    (∀ (c : CatalogCommand) cs res w', c.run.run.exec (World.call 0) cs w = some (res, w') →
      (∃ e, res = .error e) ∨ c.NoOp w.db → w'.db = w.db) ∧
    (∀ id x, w.db.record id = some x → x.row.lifecycle = str "retired" →
      ∀ cmds' tr' w', runAll cmds' w = some (tr', w') → w'.db.record id = some x) := by
  have hrec : ∀ id, Idle 0 w ∧ CatalogInv w.db ∧
      (∀ x, w.db.record id = some x → FaithfulLog (tr.filterMap (ownerSet id)) x) ∧
      (w.db.record id = none → tr.filterMap (ownerSet id) = []) := fun id =>
    record_induction id (P := fun tr _ o => (∀ x, o = some x → FaithfulLog (tr.filterMap (ownerSet id)) x) ∧
      (o = none → tr.filterMap (ownerSet id) = [])) ⟨nofun, fun _ => rfl⟩
      (fun tr rs rs' o o' step hp _ _ hs => hs.faithfulLog hp.1 hp.2) h
  obtain ⟨hidle, hinv, -⟩ := hrec ⟨0⟩
  refine ⟨fun id => (hrec id).2.2.1, fun c cs res w' hexec => (exec_record hidle hinv hexec).same, ?_⟩
  intro id x hx hretired cmds' tr' w' hrun
  have := runAll_induction [] (P := fun _ w => Idle 0 w ∧ CatalogInv w.db ∧ w.db.record id = some x)
    (fun tr w c cs res w' ⟨hidle, hinv, hx⟩ hexec => ?_) ⟨hidle, hinv, hx⟩ hrun
  · exact this.2.2
  · have hs := exec_record hidle hinv hexec
    have hstep := hs.record id
    rw [hx] at hstep
    exact ⟨hs.idle, hs.inv, hstep.retired hretired⟩

end

/-! ### A run -/

attribute [local instance] UuidLib.canonical

theorem outbox_faithful_sample : ∃ tr w, runAll sampleRun (.init .empty) = some (tr, w) ∧
    (w.db.record ⟨1⟩).map (fun x => (x.row.lifecycle, x.row.version)) = some (str "retired", 4) ∧
    ∀ id x, w.db.record id = some x → FaithfulLog (tr.filterMap (ownerSet id)) x := by
  have h : (runAll sampleRun (.init .empty)).map (fun x => (x.2.db.record ⟨1⟩).map
      (fun x => (x.row.lifecycle, x.row.version))) = some (some (str "retired", 4)) := by
    decide +kernel
  obtain ⟨⟨tr, w⟩, hrun, hw⟩ := Option.map_eq_some_iff.1 h
  exact ⟨tr, w, hrun, hw, (outbox_faithful hrun).1⟩

end Forge.Catalog
