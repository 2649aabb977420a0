import Forge.Catalog.Records

/-!
# Commands as steps on the records

Commands run one after another act on the record of each service as a small state machine
(`RecordStep`): a registration makes the record, a mutation that changes the aggregate sets the row,
moves the ownership history on and appends one event, and everything else leaves it alone
(`exec_record`). What holds of a record after every run is then shown on these steps
(`record_induction`).
-/

namespace Forge.Catalog

/-- The owner a command has set for the service `id`, and from when on. -/
def ownerSet (id : UUID) : CatalogCommand × Except Err Service → Option (Timestamptz × GoString × GoString)
  | (.register _, .ok svc) =>
    if svc.id.v = id then some (pgTime svc.createdAt, svc.ownership.OwningTeam, svc.ownership.OnCallRef)
    else none
  | (.mutation (.changeOwnership _), .ok svc) =>
    if svc.id.v = id then some (pgTime svc.updatedAt, svc.ownership.OwningTeam, svc.ownership.OnCallRef)
    else none
  | _ => none

/-- What a command with its result can do to the record of the service `id`, while the clock readings
went from `rs` to `rs'`. -/
inductive RecordStep (id : UUID) (step : CatalogCommand × Except Err Service) (rs rs' : List Time) :
    Option Record → Option Record → Prop
  | same (x : Option Record) (howner : ownerSet id step = none) : RecordStep id step rs rs' x x
  | registered {tenantID : TenantID} {name : ServiceName} {description : GoString} {tier : Tier}
      {repository : GoString} {ownership : Ownership} {now : Time} {svc : Service} {u v : UUID}
      {t : Timestamptz} {e : Event}
      (hsvc : svc = Register ⟨id⟩ tenantID name description tier repository ownership now)
      (he : svc.events = [e])
      (howner : ownerSet id step = some (pgTime now, ownership.OwningTeam, ownership.OnCallRef))
      (hclock : ∃ l, rs <+: l ∧ l ++ [now] <+: rs') :
      RecordStep id step rs rs' none
        (some ⟨insertRow svc, [firstOwner u svc], [outboxRowOf t id (v, e)]⟩)
  | changed {x : Record} {s s' : Service} {now : Time} {u v : UUID} {t : Timestamptz} {e : Event}
      (hrow : insertRow s = x.row) (hid : s'.id.v = id) (hch : s.Changed s' now e)
      (howner : ownerSet id step = some (pgTime now, s'.ownership.OwningTeam, s'.ownership.OnCallRef) ∨
        (ownerSet id step = none ∧ s'.ownership = s.ownership))
      (hclock : ∃ l, rs <+: l ∧ l ++ [now] <+: rs') :
      RecordStep id step rs rs' (some x)
        (some ⟨insertRow s', recordHistory x.history s' u, x.outbox ++ [outboxRowOf t id (v, e)]⟩)

section
variable [UuidLib] {w w' : World} {c : CatalogCommand} {cs : List Choice} {res : Except Err Service}

/-- The command asks for what the service already is. -/
def CatalogCommand.NoOp (c : CatalogCommand) (t : Tables) : Prop :=
  ∃ cmd sid m r s, c = .mutation cmd ∧ cmd.parse = .ok (sid, m) ∧ t.service sid.v = some r ∧
    scanService (some r) = .ok s ∧ ∀ now, m.apply now s = .ok s

/-- What a command run alone does to the store. -/
structure Stepped (c : CatalogCommand) (res : Except Err Service) (w w' : World) : Prop where
  idle : Idle 0 w'
  grown : Grown w w'
  inv : CatalogInv w'.db
  record : ∀ id, RecordStep id (c, res) w.readings w'.readings (w.db.record id) (w'.db.record id)
  same : (∃ e, res = .error e) ∨ c.NoOp w.db → w'.db = w.db

theorem Stepped.failed {e : Err} (hidle : Idle 0 w') (hg : Grown w w') (hinv : CatalogInv w.db)
    (hdb : w'.db = w.db) : Stepped c (.error e) w w' where
  idle := hidle
  grown := hg
  inv := hdb ▸ hinv
  record id := by
    rw [hdb]
    refine .same _ ?_
    cases c with
    | register inp => rfl
    | mutation cmd => cases cmd <;> rfl
  same _ := hdb

theorem register_stepped {inp : RegisterServiceInput} (hidle : Idle 0 w) (hinv : CatalogInv w.db)
    (h : (RegisterService inp).run.exec (World.call 0) cs w = some (res, w')) :
    Stepped (.register inp) res w w' := by
  obtain ⟨hidle', hg, hout⟩ := RegisterService_alone hidle h
  cases hout with
  | failed hres hdb => exact hres ▸ .failed hidle' hg hinv hdb
  | @done tenantID name tier ownership id u now t vs svc hsvc hres hid hfree hvs hdb hclock =>
    have hsid : svc.id.v = id := by rw [hsvc]; rfl
    obtain ⟨⟨v, e⟩, rfl⟩ : ∃ ve, vs = [ve] := by
      rw [hsvc] at hvs
      have hlen := congrArg List.length hvs
      rw [List.length_map] at hlen
      exact List.length_eq_one_iff.1 hlen
    rw [foldl_registerWrites] at hdb
    have hos : ∀ o ∈ [(v, e)].map (outboxRowOf t svc.id.v), o.aggregate_id = svc.id.v := fun o ho => by
      rw [List.mem_singleton.1 ho]
      rfl
    rw [← hsid] at hid
    refine ⟨hidle', hg, hdb ▸ hinv.registered hid hfree hos, fun id' => ?_, ?_⟩
    · rw [hdb]
      by_cases hne : id' = svc.id.v
      · have hnone : w.db.record id' = none := by rw [Tables.record, hne, hid]; rfl
        rw [hnone, hne, record_registered hinv hid hos, hsid]
        refine .registered hsvc hvs.symm ?_ hclock
        rw [hres, ownerSet, if_pos hsid, hsvc]
        rfl
      · rw [record_registered_ne hne hos]
        refine .same _ ?_
        rw [hres]
        exact if_neg (Ne.symm hne)
    · rintro (⟨e, he⟩ | ⟨cmd, sid, m, r, s, hc, -⟩)
      · rw [hres] at he; cases he
      · cases hc

theorem ownerSet_mutation {cmd : Command} {sid : ServiceID} {m : Mutation} {s s' : Service} {now : Time}
    {e : Event} (hp : cmd.parse = .ok (sid, m)) (ha : m.apply now s = .ok s') (hch : s.Changed s' now e) :
    let set := ownerSet s'.id.v (.mutation cmd, .ok { s' with events := [] })
    set = some (pgTime now, s'.ownership.OwningTeam, s'.ownership.OnCallRef) ∨
      (set = none ∧ s'.ownership = s.ownership) := by
  rcases Mutation.ownership_of_apply ha with ⟨o, hm, -⟩ | ⟨hm, ho⟩
  · obtain ⟨inp, rfl⟩ := (Command.ownership_of_parse hp).2 ⟨o, hm⟩
    exact .inl ((if_pos rfl).trans (by rw [hch.updatedAt]))
  · refine .inr ⟨?_, ho⟩
    cases cmd with
    | changeOwnership inp =>
      obtain ⟨o, ho⟩ := (Command.ownership_of_parse hp).1 ⟨inp, rfl⟩
      exact absurd ho (hm o)
    | changeLifecycle inp => rfl
    | retire inp => rfl

theorem mutation_stepped {cmd : Command} (hidle : Idle 0 w) (hinv : CatalogInv w.db)
    (h : cmd.run.run.exec (World.call 0) cs w = some (res, w')) : Stepped (.mutation cmd) res w w' := by
  rw [cmd.run_eq] at h
  cases hp : cmd.parse with
  | error e =>
    rw [hp] at h
    obtain ⟨rfl, rfl⟩ := Proc.exec_ret h
    exact .failed hidle (.refl _) hinv rfl
  | ok x =>
    obtain ⟨sid, m⟩ := x
    rw [hp] at h
    obtain ⟨hidle', hg, hout⟩ := mutate_alone hidle (hinv.stored sid.v) h
    cases hout with
    | failed hres hdb => exact hres ▸ .failed hidle' hg hinv hdb
    | @done r s s' now t u vs ws hres hr hs ha _ hvs _ hopen hdb _ hclock =>
      obtain ⟨hrow, hev⟩ := (hinv.stored _ _ hr).of_scan hs
      have hid : s'.id.v = sid.v := by
        rw [Mutation.id_of_apply ha, ← Tables.id_of_service hr, ← hrow, insertRow]
      rw [← hid] at hr hopen
      obtain ⟨hfold, hids⟩ := foldl_mutateWrites vs hinv.historyIds hopen
      rw [hfold] at hdb
      have hos : ∀ o ∈ vs.map (outboxRowOf t s'.id.v), o.aggregate_id = s'.id.v := fun o ho => by
        obtain ⟨v, -, rfl⟩ := List.mem_map.1 ho
        rfl
      have hinv' : CatalogInv w'.db := hdb ▸ hinv.mutated hr hos hids
      rcases Mutation.apply_cases ha with rfl | ⟨e, hch⟩
      · -- nothing was changed
        obtain rfl : vs = [] := List.map_eq_nil_iff.1 (hvs.trans hev)
        have hsame : w'.db = w.db := hdb.trans (mutated_same hinv hr hrow)
        refine ⟨hidle', hg, hinv', fun id' => ?_, fun _ => hsame⟩
        rw [hsame]
        refine .same _ ?_
        rcases Mutation.ownership_of_apply ha with ⟨o, -, hne⟩ | ⟨hm, -⟩
        · exact absurd rfl hne
        · cases cmd with
          | changeOwnership inp =>
            obtain ⟨o, ho⟩ := (Command.ownership_of_parse hp).1 ⟨inp, rfl⟩
            exact absurd ho (hm o)
          | changeLifecycle inp => rw [hres]; rfl
          | retire inp => rw [hres]; rfl
      · obtain ⟨⟨v, e'⟩, rfl⟩ : ∃ ve, vs = [ve] := by
          have hlen := congrArg List.length hvs
          rw [hch.events, hev, List.length_map] at hlen
          exact List.length_eq_one_iff.1 hlen
        obtain rfl : e' = e := by
          rw [hch.events, hev] at hvs
          exact (List.cons.inj hvs).1
        refine ⟨hidle', hg, hinv', fun id' => ?_, ?_⟩
        · rw [hdb]
          by_cases hne : id' = s'.id.v
          · subst hne
            have hrec : w.db.record s'.id.v = some ⟨r, w.db.historyOf s'.id.v, w.db.outboxOf s'.id.v⟩ :=
              Tables.record_eq_some.2 ⟨hr, rfl, rfl⟩
            rw [hrec, record_mutated hr hos, hres, show r.set (updateCols s') = insertRow s' from hrow ▸ hch.set]
            exact .changed hrow rfl hch (ownerSet_mutation hp ha hch) hclock
          · rw [record_mutated_ne hne hos]
            refine .same _ ?_
            rw [hres]
            cases cmd <;> first | rfl | exact if_neg (Ne.symm hne)
        · rintro (⟨e, he⟩ | ⟨cmd', sid', m', r', s₁, hc, hp', hr', hs', happ⟩)
          · rw [hres] at he; cases he
          · cases hc
            cases hp.symm.trans hp'
            rw [hid] at hr
            cases hr.symm.trans hr'
            cases hs.symm.trans hs'
            cases (happ now).symm.trans ha
            have := hch.version
            omega

theorem exec_record (hidle : Idle 0 w) (hinv : CatalogInv w.db)
    (h : c.run.run.exec (World.call 0) cs w = some (res, w')) : Stepped c res w w' := by
  cases c with
  | register inp => exact register_stepped hidle hinv h
  | mutation cmd => exact mutation_stepped hidle hinv h

/-- What every step on the record of a service keeps holds of it after every run from an empty
store. -/
theorem record_induction (id : UUID) {P : Trace → List Time → Option Record → Prop}
    (h₀ : P [] [] none)
    (hP : ∀ tr rs rs' x x' step, P tr rs x → (∀ y, x = some y → y.Owned) → rs <+: rs' →
      RecordStep id step rs rs' x x' → P (tr ++ [step]) rs' x')
    {cmds : List (CatalogCommand × List Choice)} {tr : Trace}
    (h : runAll cmds (.init .empty) = some (tr, w)) :
    Idle 0 w ∧ CatalogInv w.db ∧ P tr w.readings (w.db.record id) := by
  refine runAll_induction [] (P := fun tr w => Idle 0 w ∧ CatalogInv w.db ∧ P tr w.readings (w.db.record id))
    ?_ ⟨.init 0 _, .empty, h₀⟩ h
  rintro tr w c cs res w' ⟨hidle, hinv, hp⟩ hexec
  have hs := exec_record hidle hinv hexec
  exact ⟨hs.idle, hs.inv, hP _ _ _ _ _ _ hp (hinv.owned id) hs.grown.readings (hs.record id)⟩

end

end Forge.Catalog
