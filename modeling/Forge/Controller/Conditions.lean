import Mathlib.Data.List.DropRight
import Mathlib.Data.List.Nodup
import Forge.Controller.Reconcile

/-!
# Conditions (`setCondition`)

`setCondition` replaces the first condition of its type, or appends one. Its time is the one it had if the status
stays, so after any calls the time of a condition is that of the call its status has been the same since
(`transitionTime`). The calls for one type do not see the others: `find_conditionsAfter` says what the calls leave
under a type, by induction on the calls, and the other facts are about types and positions only.
-/

namespace Forge.Controller

/-- The condition a call leaves under its type, where there was `old?`. -/
def merged (now : Int) (old? : Option Condition) (c : Condition) : Condition :=
  { c with LastTransitionTime :=
      if old?.map (·.Status) = some c.Status then old?.bind (·.LastTransitionTime)
      else some (c.LastTransitionTime.getD now) }

/-! ### One call -/

section
variable (now : Int) (cs : List Condition) (c : Condition)

theorem setCondition_nil : setCondition now [] c = [merged now none c] := rfl

theorem setCondition_cons (old : Condition) : setCondition now (old :: cs) c =
    if old.ConditionType = c.ConditionType then merged now (some old) c :: cs
    else old :: setCondition now cs c := by
  by_cases h : old.ConditionType = c.ConditionType
  · by_cases hs : old.Status = c.Status <;> simp [setCondition, List.findIdx?_cons, merged, h, hs]
  · simp only [setCondition, List.findIdx?_cons, h, decide_false, if_false]
    cases cs.findIdx? (·.ConditionType = c.ConditionType) <;> rfl

theorem types_setCondition : (setCondition now cs c).map (·.ConditionType) =
    if c.ConditionType ∈ cs.map (·.ConditionType) then cs.map (·.ConditionType)
    else cs.map (·.ConditionType) ++ [c.ConditionType] := by
  induction cs with
  | nil => rfl
  | cons old cs ih =>
    rw [setCondition_cons]
    by_cases h : old.ConditionType = c.ConditionType
    · simp [h, merged]
    · rw [if_neg h, List.map_cons, ih]
      by_cases hmem : c.ConditionType ∈ cs.map (·.ConditionType) <;> simp [hmem, Ne.symm h]

theorem find_setCondition (ty : GoString) : (setCondition now cs c).find? (·.ConditionType = ty) =
    if c.ConditionType = ty then some (merged now (cs.find? (·.ConditionType = ty)) c)
    else cs.find? (·.ConditionType = ty) := by
  induction cs with
  | nil =>
    by_cases h : c.ConditionType = ty <;> simp [setCondition_nil, merged, h]
  | cons old cs ih =>
    rw [setCondition_cons]
    by_cases hold : old.ConditionType = c.ConditionType
    · by_cases h : c.ConditionType = ty <;> simp [hold, h, merged]
    · rw [if_neg hold, List.find?_cons, List.find?_cons, ih]
      by_cases h : c.ConditionType = ty
      · simp [h, h ▸ hold]
      · simp [h]

theorem types_prefix_setCondition : cs.map (·.ConditionType) <+: (setCondition now cs c).map (·.ConditionType) := by
  rw [types_setCondition]
  split
  · exact List.prefix_rfl
  · exact List.prefix_append _ _

variable {cs} in
theorem nodup_setCondition (h : (cs.map (·.ConditionType)).Nodup) :
    ((setCondition now cs c).map (·.ConditionType)).Nodup := by
  rw [types_setCondition]
  split
  · exact h
  · rename_i hnew
    exact List.Nodup.append h (List.nodup_singleton _) (List.disjoint_singleton.2 hnew)

variable {cs c} in
theorem getElem_setCondition {i : Nat} {d : Condition} (hi : cs[i]? = some d)
    (hne : c.ConditionType ≠ d.ConditionType) :
    (setCondition now cs c)[i]? = some d := by
  induction cs generalizing i with
  | nil => cases hi
  | cons old cs ih =>
    rw [setCondition_cons]
    cases i with
    | zero =>
      cases hi
      rw [if_neg (Ne.symm hne)]
      rfl
    | succ i =>
      split
      · exact hi
      · exact ih hi

variable {cs c} in
theorem mem_of_mem_setCondition {d : Condition} (hd : d ∈ setCondition now cs c)
    (hne : c.ConditionType ≠ d.ConditionType) : d ∈ cs := by
  induction cs with
  | nil =>
    rw [List.mem_singleton.1 hd] at hne
    exact absurd rfl hne
  | cons old cs ih =>
    rw [setCondition_cons] at hd
    split at hd
    · rcases List.mem_cons.1 hd with rfl | hd
      · exact absurd rfl hne
      · exact List.mem_cons_of_mem _ hd
    · rcases List.mem_cons.1 hd with rfl | hd
      · exact List.mem_cons_self
      · exact List.mem_cons_of_mem _ (ih hd)

end

/-! ### Many calls -/

/-- A call of `setCondition` with the time it reads. -/
structure ConditionCall where
  now : Int
  condition : Condition
deriving DecidableEq

def conditionsAfter (cs : List Condition) (calls : List ConditionCall) : List Condition :=
  calls.foldl (fun cs call => setCondition call.now cs call.condition) cs

def callsFor (ty : GoString) (calls : List ConditionCall) : List ConditionCall :=
  calls.filter (·.condition.ConditionType = ty)

/-- The longest run of final calls with this status. -/
def finalRun (status : ConditionStatus) (calls : List ConditionCall) : List ConditionCall :=
  calls.rtakeWhile (·.condition.Status = status)

/-- The time the status is held since: that of the first call of the run that ends the calls, or the initial one
if the status was held before and all calls have it. -/
def transitionTime (initial? : Option Condition) (calls : List ConditionCall) (status : ConditionStatus) : Option Int :=
  if initial?.map (·.Status) = some status ∧ ∀ call ∈ calls, call.condition.Status = status then
    initial?.bind (·.LastTransitionTime)
  else (finalRun status calls).head?.map (·.now)

section
variable {cs : List Condition} {calls : List ConditionCall} {call : ConditionCall}

theorem conditionsAfter_concat (cs : List Condition) (calls : List ConditionCall) (call : ConditionCall) :
    conditionsAfter cs (calls ++ [call]) = setCondition call.now (conditionsAfter cs calls) call.condition :=
  List.foldl_concat ..

theorem callsFor_concat (ty : GoString) (calls : List ConditionCall) (call : ConditionCall) :
    callsFor ty (calls ++ [call]) =
      callsFor ty calls ++ if call.condition.ConditionType = ty then [call] else [] := by
  by_cases h : call.condition.ConditionType = ty <;> simp [callsFor, h]

theorem finalRun_concat (status : ConditionStatus) (calls : List ConditionCall) (call : ConditionCall) :
    finalRun status (calls ++ [call]) =
      if call.condition.Status = status then finalRun status calls ++ [call] else [] := by
  simp [finalRun, List.rtakeWhile_concat]

theorem transitionTime_single (initial? : Option Condition) (hzero : call.condition.LastTransitionTime = none) :
    transitionTime initial? [call] call.condition.Status =
      (merged call.now initial? call.condition).LastTransitionTime := by
  simp [transitionTime, merged, finalRun, hzero, List.rtakeWhile]

/-- One more call keeps the time of the condition the calls before it left if their last one has its status. -/
theorem transitionTime_concat {last : ConditionCall} (initial? : Option Condition)
    (hlast : calls.getLast? = some last) (hzero : call.condition.LastTransitionTime = none) :
    transitionTime initial? (calls ++ [call]) call.condition.Status =
      (merged call.now (some { last.condition with
        LastTransitionTime := transitionTime initial? calls last.condition.Status })
        call.condition).LastTransitionTime := by
  have hmem : last ∈ calls := List.mem_of_getLast? hlast
  obtain ⟨before, rfl⟩ := List.getLast?_eq_some_iff.1 hlast
  have hall : (∀ c ∈ before ++ [last] ++ [call], c.condition.Status = call.condition.Status) ↔
      ∀ c ∈ before ++ [last], c.condition.Status = call.condition.Status := by
    rw [List.forall_mem_append, List.forall_mem_singleton]
    exact and_iff_left rfl
  by_cases hs : last.condition.Status = call.condition.Status
  · -- the run goes on
    have hrun : (finalRun call.condition.Status (before ++ [last] ++ [call])).head? =
        (finalRun call.condition.Status (before ++ [last])).head? := by
      rw [finalRun_concat, if_pos rfl, finalRun_concat, if_pos hs, List.head?_append_of_ne_nil _ (by simp)]
    simp only [merged, Option.map_some, Option.bind_some, hs, if_true, transitionTime, hall, hrun]
  · -- a new run begins
    have hrun : finalRun call.condition.Status (before ++ [last] ++ [call]) = [call] := by
      rw [finalRun_concat, if_pos rfl, finalRun_concat, if_neg hs, List.nil_append]
    rw [transitionTime, if_neg fun h => hs (hall.1 h.2 last hmem), hrun]
    simp [merged, hs, hzero]

/-- What the calls leave under a type. -/
theorem find_conditionsAfter (cs : List Condition) (hzero : ∀ call ∈ calls, call.condition.LastTransitionTime = none)
    (ty : GoString) : (conditionsAfter cs calls).find? (·.ConditionType = ty) =
      (callsFor ty calls).getLast?.elim (cs.find? (·.ConditionType = ty)) fun last => some { last.condition with
        LastTransitionTime :=
          transitionTime (cs.find? (·.ConditionType = ty)) (callsFor ty calls) last.condition.Status } := by
  induction calls using List.reverseRecOn with
  | nil => rfl
  | append_singleton calls call ih =>
    obtain ⟨hbefore, hcall⟩ := List.forall_mem_append.1 hzero
    have hcall := hcall call List.mem_cons_self
    rw [conditionsAfter_concat, find_setCondition, ih hbefore, callsFor_concat]
    by_cases hty : call.condition.ConditionType = ty
    · rw [if_pos hty, if_pos hty, List.getLast?_concat]
      cases hlast : (callsFor ty calls).getLast? with
      | none =>
        rw [List.getLast?_eq_none_iff.1 hlast, List.nil_append, Option.elim_some, transitionTime_single _ hcall]
        rfl
      | some last =>
        rw [Option.elim_some, Option.elim_some, transitionTime_concat _ hlast hcall]
        rfl
    · rw [if_neg hty, if_neg hty, List.append_nil]

theorem types_prefix_conditionsAfter (cs : List Condition) (calls : List ConditionCall) :
    cs.map (·.ConditionType) <+: (conditionsAfter cs calls).map (·.ConditionType) := by
  induction calls generalizing cs with
  | nil => exact List.prefix_rfl
  | cons call calls ih => exact (types_prefix_setCondition ..).trans (ih _)

theorem nodup_conditionsAfter (h : (cs.map (·.ConditionType)).Nodup) :
    ((conditionsAfter cs calls).map (·.ConditionType)).Nodup := by
  induction calls generalizing cs with
  | nil => exact h
  | cons call calls ih => exact ih (nodup_setCondition _ _ h)

/-- Conditions of other types stay where they are. -/
theorem getElem_conditionsAfter {i : Nat} {c : Condition} (hi : cs[i]? = some c)
    (h : callsFor c.ConditionType calls = []) : (conditionsAfter cs calls)[i]? = some c := by
  rw [callsFor, List.filter_eq_nil_iff] at h
  induction calls generalizing cs with
  | nil => exact hi
  | cons call calls ih =>
    obtain ⟨hcall, hcalls⟩ := List.forall_mem_cons.1 h
    exact ih (getElem_setCondition _ hi (by simpa using hcall)) hcalls

theorem mem_of_mem_conditionsAfter {c : Condition} (hc : c ∈ conditionsAfter cs calls)
    (h : callsFor c.ConditionType calls = []) : c ∈ cs := by
  rw [callsFor, List.filter_eq_nil_iff] at h
  induction calls generalizing cs with
  | nil => exact hc
  | cons call calls ih =>
    obtain ⟨hcall, hcalls⟩ := List.forall_mem_cons.1 h
    exact mem_of_mem_setCondition _ (ih hc hcalls) (by simpa using hcall)

theorem head_finalRun {last : ConditionCall} (hlast : calls.getLast? = some last)
    (hsorted : calls.Pairwise (·.now ≤ ·.now)) :
    ∃ first, (finalRun last.condition.Status calls).head? = some first ∧
      ∀ call ∈ finalRun last.condition.Status calls, first.now ≤ call.now := by
  obtain ⟨before, rfl⟩ := List.getLast?_eq_some_iff.1 hlast
  have hne : finalRun last.condition.Status (before ++ [last]) ≠ [] := by
    rw [finalRun_concat, if_pos rfl]
    simp
  have hrun := hsorted.sublist (List.rtakeWhile_suffix (·.condition.Status = last.condition.Status) _).sublist
  change (finalRun last.condition.Status (before ++ [last])).Pairwise _ at hrun
  generalize finalRun last.condition.Status (before ++ [last]) = run at hne hrun
  obtain ⟨first, rest, rfl⟩ := List.exists_cons_of_ne_nil hne
  refine ⟨first, rfl, fun call hcall => ?_⟩
  rcases List.mem_cons.1 hcall with rfl | hcall
  · exact Int.le_refl _
  · exact List.rel_of_pairwise_cons hrun hcall

/-- Calls at times that do not go back, none of which brings its own time, over conditions with distinct types:
the types stay distinct, those that were there keep their positions, and what has a type that no call is for is
left alone. Under each type a call is for stand the fields of its last call, and the time of the first call of
the longest run of final calls with that status, or the initial time if that status was held before and every
call has it. -/
theorem conditions_upserted (hnodup : (cs.map (·.ConditionType)).Nodup)
    (hzero : ∀ call ∈ calls, call.condition.LastTransitionTime = none) (hsorted : calls.Pairwise (·.now ≤ ·.now)) :
    ((conditionsAfter cs calls).map (·.ConditionType)).Nodup ∧
    cs.map (·.ConditionType) <+: (conditionsAfter cs calls).map (·.ConditionType) ∧
    (∀ (i : Nat) c, cs[i]? = some c → callsFor c.ConditionType calls = [] → (conditionsAfter cs calls)[i]? = some c) ∧
    (∀ c ∈ conditionsAfter cs calls, callsFor c.ConditionType calls = [] → c ∈ cs) ∧
    ∀ ty last, (callsFor ty calls).getLast? = some last →
      ∃ first, (finalRun last.condition.Status (callsFor ty calls)).head? = some first ∧
        (∀ call ∈ finalRun last.condition.Status (callsFor ty calls), first.now ≤ call.now) ∧
        { last.condition with
          LastTransitionTime :=
            if (cs.find? (·.ConditionType = ty)).map (·.Status) = some last.condition.Status ∧
              ∀ call ∈ callsFor ty calls, call.condition.Status = last.condition.Status
            then (cs.find? (·.ConditionType = ty)).bind (·.LastTransitionTime)
            else some first.now } ∈ conditionsAfter cs calls := by
  refine ⟨nodup_conditionsAfter hnodup, types_prefix_conditionsAfter cs calls, fun i c => getElem_conditionsAfter,
    fun c => mem_of_mem_conditionsAfter, fun ty last hlast => ?_⟩
  obtain ⟨first, hfirst, hle⟩ := head_finalRun hlast (hsorted.sublist List.filter_sublist)
  refine ⟨first, hfirst, hle, ?_⟩
  have hfind := find_conditionsAfter cs hzero ty
  rw [hlast, Option.elim_some, transitionTime, hfirst] at hfind
  exact List.mem_of_find?_eq_some hfind

end

/-! ### An Application becomes ready twice -/

def available (status : ConditionStatus) (reason : GoString) : Condition := ⟨"Available", status, 1, none, reason, ""⟩

/-- It is ready at 10 and 20, not at 30, and again at 40 and 50. -/
def readyTwice : List ConditionCall :=
  [⟨10, available .ConditionTrue "Ready"⟩, ⟨20, available .ConditionTrue "Ready"⟩,
    ⟨30, available .ConditionFalse "Progressing"⟩, ⟨40, available .ConditionTrue "Ready"⟩,
    ⟨50, available .ConditionTrue "Ready"⟩]

theorem conditions_upserted_sample : readyTwice.Pairwise (·.now ≤ ·.now) ∧
    { available .ConditionTrue "Ready" with LastTransitionTime := some 40 } ∈ conditionsAfter [] readyTwice := by
  have hsorted : readyTwice.Pairwise (·.now ≤ ·.now) := by decide
  obtain ⟨-, -, -, -, hcalls⟩ := @conditions_upserted [] readyTwice .nil (by decide) hsorted
  obtain ⟨first, hfirst, -, hmem⟩ := hcalls "Available" ⟨50, available .ConditionTrue "Ready"⟩ (by decide)
  have hrun : (finalRun .ConditionTrue (callsFor "Available" readyTwice)).head? =
      some ⟨40, available .ConditionTrue "Ready"⟩ := by decide
  cases hrun.symm.trans hfirst
  exact ⟨hsorted, hmem⟩

end Forge.Controller
