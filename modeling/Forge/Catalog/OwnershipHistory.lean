import Forge.Lib.Timeline
import Forge.Catalog.RecordSteps

/-!
# The ownership history

`recordOwnership` runs after every `UPDATE` of a service, closes the open intervals of other owners
and opens one unless the owner has one. As long as the clock does not go back, the intervals of a
service are a timeline from its `created_at` on, and every instant lies in the one interval that names
the owner set last at or before it (`ownership_timeline`).
-/

namespace Forge

/-- A row of the history as an interval with the owner in force. -/
def HistoryRow.span (h : HistoryRow) : Span Timestamptz (GoString × GoString) :=
  ⟨h.valid_from, h.valid_to, h.owning_team, h.on_call_ref⟩

namespace Catalog

/-- The intervals of a record against the owners that commands have set for the service. -/
structure OwnershipTimeline (owners : List (Timestamptz × GoString × GoString)) (x : Record) : Prop where
  /-- One interval is open, and it has the owner of the row. -/
  current : ∃ h, x.history.filter (·.valid_to = none) = [h] ∧ h.owning_team = x.row.owning_team ∧
    h.on_call_ref = x.row.on_call_ref
  contiguous : Timeline x.row.created_at (x.history.map HistoryRow.span)
  /-- Every instant lies in one interval, which names the owner set last. -/
  owner : ∀ t, x.row.created_at ≤ t → ∃ h, x.history.filter (fun h => h.span.contains t) = [h] ∧
    latest owners t = some (h.owning_team, h.on_call_ref)

/-- What the steps keep of the intervals, the clock having been read as `rs`. -/
structure HistoryInv (owners : List (Timestamptz × GoString × GoString)) (rs : List Time) (x : Record) :
    Prop where
  timeline : Timeline x.row.created_at (x.history.map HistoryRow.span)
  tells : Tells owners x.row.created_at (x.history.map HistoryRow.span)
  read : ∀ h ∈ x.history, ∃ t ∈ rs, h.valid_from = pgTime t

theorem HistoryInv.ownershipTimeline {owners : List (Timestamptz × GoString × GoString)} {rs : List Time}
    {x : Record} (h : HistoryInv owners rs x) (ho : x.Owned) : OwnershipTimeline owners x where
  current := by
    obtain ⟨hs, h', hl, hclosed, hopen, ht, hc⟩ := ho.last
    have hnil : hs.filter (·.valid_to = none) = [] := List.filter_eq_nil_iff.2 fun y hy => by
      simpa using hclosed y hy
    refine ⟨h', ?_, ht, hc⟩
    rw [hl, List.filter_append, hnil]
    simp [hopen]
  contiguous := h.timeline
  owner t ht := by
    obtain ⟨y, hy, hlast⟩ := h.tells t ht
    rw [List.filter_map] at hy
    obtain ⟨h', hf, he⟩ := List.map_eq_singleton_iff.1 hy
    exact ⟨h', hf, hlast.trans (by rw [← he]; rfl)⟩

/-- Readings that do not go back: the last one is not before the others. -/
theorem le_of_readings {rs rs' l : List Time} {now : Time} (hrs' : rs'.Pairwise (· ≤ ·))
    (hl : rs <+: l) (hnow : l ++ [now] <+: rs') : (∀ t ∈ rs, t ≤ now) ∧ now ∈ rs' := by
  refine ⟨fun t ht => ?_, hnow.subset (by simp)⟩
  have hp := hrs'.sublist hnow.sublist
  exact (List.pairwise_append.1 hp).2.2 t (hl.subset ht) now (List.mem_singleton_self now)

section
variable {owners : List (Timestamptz × GoString × GoString)} {rs rs' : List Time} {x : Record}

theorem HistoryInv.mono (h : HistoryInv owners rs x) (hrs : rs <+: rs') : HistoryInv owners rs' x :=
  ⟨h.timeline, h.tells, fun y hy => let ⟨t, ht, he⟩ := h.read y hy; ⟨t, hrs.subset ht, he⟩⟩

theorem HistoryInv.changed {s s' : Service} {now : Time} {e : Event} {u : UUID} {os : List OutboxRow}
    {set : Option (Timestamptz × GoString × GoString)} (h : HistoryInv owners rs x) (hown : x.Owned)
    (hrow : insertRow s = x.row) (hch : s.Changed s' now e)
    (hset : set = some (pgTime now, s'.ownership.OwningTeam, s'.ownership.OnCallRef) ∨
      (set = none ∧ s'.ownership = s.ownership))
    (hnow : (∀ t ∈ rs, t ≤ now) ∧ now ∈ rs') (hrs : rs <+: rs') :
    HistoryInv (owners ++ set.toList) rs' ⟨insertRow s', recordHistory x.history s' u, os⟩ := by
  obtain ⟨hs, h', hl, hclosed, hopen, ht, hc⟩ := hown.last
  have hid : s'.id.v = x.row.id := by rw [hch.id, ← hrow]; rfl
  have hcreated : (insertRow s').created_at = x.row.created_at := by
    rw [← hrow]
    exact congrArg pgTime hch.createdAt
  have hspan : x.history.map HistoryRow.span =
      hs.map HistoryRow.span ++ [⟨h'.valid_from, none, h'.owning_team, h'.on_call_ref⟩] := by
    rw [hl, List.map_append]
    simp [HistoryRow.span, hopen]
  have hle : h'.valid_from ≤ pgTime now := by
    obtain ⟨t, htrs, he⟩ := h.read h' (hl ▸ List.mem_append_right _ (List.mem_singleton_self h'))
    exact he ▸ pgTime_mono (hnow.1 t htrs)
  have htimeline := h.timeline
  have htells := h.tells
  rw [hspan] at htimeline htells
  by_cases hsame : s'.ownership.OwningTeam = x.row.owning_team ∧ s'.ownership.OnCallRef = x.row.on_call_ref
  · -- the interval of the owner goes on
    rw [recordHistory_same hown hid hsame.1 hsame.2]
    refine ⟨hcreated ▸ h.timeline, ?_, (h.mono hrs).read⟩
    show Tells _ (insertRow s').created_at _
    rw [hcreated, hspan]
    rcases hset with rfl | ⟨rfl, -⟩
    · rw [hsame.1, hsame.2, ← ht, ← hc]
      exact htells.again hle
    · rw [Option.toList_none, List.append_nil]
      exact htells
  · -- it is closed when the new owner is set
    obtain rfl : set = some (pgTime now, s'.ownership.OwningTeam, s'.ownership.OnCallRef) := by
      refine hset.resolve_right fun hno => hsame ?_
      rw [hno.2, ← hrow]
      exact ⟨rfl, rfl⟩
    have hrec := recordHistory_change (u := u) hown hid hsame hl
    have hspan' : (recordHistory x.history s' u).map HistoryRow.span = hs.map HistoryRow.span ++
        [⟨h'.valid_from, some (pgTime now), h'.owning_team, h'.on_call_ref⟩,
          ⟨pgTime now, none, s'.ownership.OwningTeam, s'.ownership.OnCallRef⟩] := by
      rw [hrec, List.map_append, ← hch.updatedAt]
      rfl
    refine ⟨?_, ?_, fun y hy => ?_⟩
    · show Timeline (insertRow s').created_at _
      rw [hcreated, hspan']
      exact htimeline.change _ hle
    · show Tells _ (insertRow s').created_at _
      rw [hcreated, hspan']
      exact htells.change htimeline hle
    · rw [show Record.history _ = _ from hrec] at hy
      rcases List.mem_append.1 hy with hy | hy
      · exact (h.mono hrs).read y (hl ▸ List.mem_append_left _ hy)
      · rcases List.mem_cons.1 hy with rfl | hy
        · exact (h.mono hrs).read h' (hl ▸ List.mem_append_right _ (List.mem_singleton_self h'))
        · rw [List.mem_singleton.1 hy]
          exact ⟨now, hnow.2, congrArg pgTime hch.updatedAt⟩

theorem RecordStep.historyInv {id : UUID} {tr : Trace} {o o' : Option Record}
    {step : CatalogCommand × Except Err Service} (h : RecordStep id step rs rs' o o') (hrs : rs <+: rs')
    (hrs' : rs'.Pairwise (· ≤ ·)) (hown : ∀ x, o = some x → x.Owned)
    (ho : ∀ x, o = some x → HistoryInv (tr.filterMap (ownerSet id)) rs x)
    (hnone : o = none → tr.filterMap (ownerSet id) = []) :
    (∀ x, o' = some x → HistoryInv ((tr ++ [step]).filterMap (ownerSet id)) rs' x) ∧
      (o' = none → (tr ++ [step]).filterMap (ownerSet id) = []) := by
  rw [List.filterMap_append, show [step].filterMap (ownerSet id) = (ownerSet id step).toList by
    cases hs : ownerSet id step <;> simp [hs]]
  cases h with
  | same _ howner =>
    rw [howner, Option.toList_none, List.append_nil]
    exact ⟨fun x hx => (ho x hx).mono hrs, hnone⟩
  | @registered tenantID name description tier repository ownership now svc u v t e hsvc he howner hclock =>
    obtain ⟨l, hl, hnow⟩ := hclock
    rw [hnone rfl, howner]
    refine ⟨fun x hx => ?_, nofun⟩
    cases hx
    subst hsvc
    refine ⟨.last _ _, Tells.start (pgTime now) (ownership.OwningTeam, ownership.OnCallRef), fun y hy => ?_⟩
    rw [List.mem_singleton.1 hy]
    exact ⟨now, (le_of_readings hrs' hl hnow).2, rfl⟩
  | @changed x s s' now u v t e hrow hid hch howner hclock =>
    obtain ⟨l, hl, hnow⟩ := hclock
    refine ⟨fun x' hx' => ?_, nofun⟩
    cases hx'
    exact (ho x rfl).changed (hown x rfl) hrow hch howner (le_of_readings hrs' hl hnow) hrs

end

section
variable [UuidLib]

/-- After every run of catalog commands from an empty store during which the clock did not go back:
each service has one open interval, with its current owner, its intervals follow one another from
its creation on, and every instant since lies in exactly one of them, which names the owner set by the
last successful registration or change of ownership at or before it. -/
theorem ownership_timeline {cmds : List (CatalogCommand × List Choice)} {tr : Trace} {w : World}
    (h : runAll cmds (.init .empty) = some (tr, w)) (hclock : w.readings.Pairwise (· ≤ ·)) {id : UUID}
    {x : Record} (hx : w.db.record id = some x) : OwnershipTimeline (tr.filterMap (ownerSet id)) x := by
  obtain ⟨-, hinv, hrec⟩ := record_induction id (P := fun tr rs o => rs.Pairwise (· ≤ ·) →
      (∀ x, o = some x → HistoryInv (tr.filterMap (ownerSet id)) rs x) ∧
      (o = none → tr.filterMap (ownerSet id) = [])) (fun _ => ⟨nofun, fun _ => rfl⟩)
    (fun tr rs rs' o o' step hp hown hrs hs hrs' =>
      let hp' := hp (hrs'.sublist hrs.sublist)
      hs.historyInv hrs hrs' hown hp'.1 hp'.2) h
  exact ((hrec hclock).1 x hx).ownershipTimeline (hinv.owned id x hx)

end

/-! ### A run -/

attribute [local instance] UuidLib.canonical

theorem ownership_timeline_sample : ∃ tr w x, runAll sampleRun (.init .empty) = some (tr, w) ∧
    w.db.record ⟨1⟩ = some x ∧ x.history.length = 2 ∧
    OwnershipTimeline (tr.filterMap (ownerSet ⟨1⟩)) x := by
  have h : (runAll sampleRun (.init .empty)).map (fun x => (x.2.readings,
      (x.2.db.record ⟨1⟩).map (·.history.length))) = some ([0, 5000, 6000, 7000, 8000], some 2) := by
    decide +kernel
  obtain ⟨⟨tr, w⟩, hrun, hw⟩ := Option.map_eq_some_iff.1 h
  obtain ⟨hrs, hlen⟩ := Prod.mk.inj hw
  obtain ⟨x, hx, hlen⟩ := Option.map_eq_some_iff.1 hlen
  have hclock : w.readings.Pairwise (· ≤ ·) := by
    rw [show w.readings = _ from hrs]
    decide
  exact ⟨tr, w, x, hrun, hx, hlen, ownership_timeline hrun hclock hx⟩

end Catalog

end Forge
