import Syndicate.Graph
import Syndicate.Server.Runner

/-! # What `astream` yields on the compiled graph

    The nodes of the graph and the driver meet in dictionaries: a state, or
    what a node returned, is a `dict` with the keys that are present.  With
    `stream_mode='updates'` each execution of a node yields one update, and
    an execution that raises yields none. -/

namespace Syndicate

open Py Framework

/-! ## Dictionaries of the state -/

/-- The member of the enumeration. -/
def TicketStatus.toPy (t : TicketStatus) : PyVal :=
  match t with
  | .PENDING => .enum (lit "TicketStatus.PENDING") (lit t.value)
  | .IN_PROGRESS => .enum (lit "TicketStatus.IN_PROGRESS") (lit t.value)
  | .LOCAL_PASS => .enum (lit "TicketStatus.LOCAL_PASS") (lit t.value)
  | .DONE => .enum (lit "TicketStatus.DONE") (lit t.value)
  | .ESCALATED => .enum (lit "TicketStatus.ESCALATED") (lit t.value)

def RunStatus.toPy (r : RunStatus) : PyVal :=
  match r with
  | .RUNNING => .enum (lit "RunStatus.RUNNING") (lit r.value)
  | .HALTED_ESCALATION_BUDGET => .enum (lit "RunStatus.HALTED_ESCALATION_BUDGET") (lit r.value)

def DecisionSummary.toPy (d : DecisionSummary) : PyVal :=
  .dataclass (lit "DecisionSummary")
    [(lit "summary", .str d.summary), (lit "attempt_count", .int d.attempt_count)]

/-- The item of a key that may be absent. -/
def item {α : Type} (key : String) (toPy : α → PyVal) (value : Option α) : Dict :=
  match value with
  | none => []
  | some a => [(lit key, toPy a)]

/-- The `dict` a state is. -/
def AgentState.toDict (s : AgentState) : Dict :=
  item "issue" .dict s.issue ++ item "issue_analysis" .dict s.issue_analysis ++
    item "active_ticket" .dict s.active_ticket ++
    item "attempt_log" (fun log => .list (log.map .str)) s.attempt_log ++
    item "decision_ledger" (fun ledger => .list (ledger.map DecisionSummary.toPy)) s.decision_ledger ++
    item "ticket_status" TicketStatus.toPy s.ticket_status ++
    item "last_validation_passed" .bool s.last_validation_passed ++
    item "strike_count" .int s.strike_count ++
    item "validation_diagnosis" (Server.optional .str) s.validation_diagnosis ++
    item "escalation_count" .int s.escalation_count ++
    item "run_status" RunStatus.toPy s.run_status

/-- The `dict` a node returns, its keys in the order of the node's literal:
    the executor has the strikes before the diagnosis, the validator, which
    alone returns a verdict, behind it. -/
def AgentState.returned (δ : AgentState) : Dict :=
  let strike_count := item "strike_count" .int δ.strike_count
  let validation_diagnosis :=
    item "validation_diagnosis" (Server.optional .str) δ.validation_diagnosis
  item "issue" .dict δ.issue ++ item "issue_analysis" .dict δ.issue_analysis ++
    item "active_ticket" .dict δ.active_ticket ++
    item "decision_ledger" (fun ledger => .list (ledger.map DecisionSummary.toPy)) δ.decision_ledger ++
    item "attempt_log" (fun log => .list (log.map .str)) δ.attempt_log ++
    item "ticket_status" TicketStatus.toPy δ.ticket_status ++
    item "last_validation_passed" .bool δ.last_validation_passed ++
    (if δ.last_validation_passed.isSome then validation_diagnosis ++ strike_count
     else strike_count ++ validation_diagnosis) ++
    item "escalation_count" .int δ.escalation_count ++
    item "run_status" RunStatus.toPy δ.run_status

theorem find_item {α : Type} {key key' : String} {toPy : α → PyVal} {value : Option α} :
    Dict.find (item key' toPy value) key = if key = key' then value.map toPy else none := by
  cases value with
  | none => simp [item, Dict.find]
  | some a =>
    show List.lookup (lit key) [(lit key', toPy a)] = _
    rw [List.lookup_cons]
    by_cases h : key = key'
    · simp [h]
    · have hne : (lit key == lit key') = false := by simpa [lit_inj] using h
      rw [if_neg h, hne]
      rfl

theorem find_append (d d' : Dict) (key : String) :
    Dict.find (d ++ d') key = (d.find key).or (d'.find key) :=
  List.lookup_append

theorem AgentState.returned_attempt_log (δ : AgentState) :
    δ.returned.find "attempt_log" = δ.attempt_log.map fun log => .list (log.map .str) := by
  unfold returned
  split <;> simp [find_append, find_item]

theorem AgentState.toDict_ticket_status (s : AgentState) :
    s.toDict.find "ticket_status" = s.ticket_status.map TicketStatus.toPy := by
  simp [toDict, find_append, find_item]

/-! ## The stream of updates -/

/-- The name `build_graph` gives a node. -/
def Node.name : Node → String
  | .analyzer => "analyzer"
  | .architect => "architect"
  | .dispatch => "dispatch"
  | .executor => "executor"
  | .validator => "validator"
  | .oversight_git => "oversight_git"
  | .escalate => "escalate"
  | .advance => "advance"

/-- The delta of a node in an update: `None` for a node that returned `{}`. -/
def raw_delta (δ : AgentState) : PyVal :=
  if δ.returned.isEmpty then .none else .dict δ.returned

theorem delta_of_raw_delta (δ : AgentState) : Server.delta_of (raw_delta δ) = δ.returned := by
  unfold raw_delta
  by_cases h : δ.returned.isEmpty
  · rw [if_pos h, List.isEmpty_iff.mp h]
    rfl
  · rw [if_neg h]
    rfl

variable {W : Type}

/-- The update of one execution. -/
def Visit.update (v : Visit W) : Option (List (PyStr × PyVal)) :=
  match v.result with
  | .ok δ => some [(lit v.node.name, raw_delta δ)]
  | .error _ => none

/-- The updates of a run. -/
def updates (h : List (Visit W)) : List (List (PyStr × PyVal)) := h.filterMap Visit.update

@[simp] theorem updates_append (h h' : List (Visit W)) :
    updates (h ++ h') = updates h ++ updates h' :=
  List.filterMap_append

section astream
variable [Unicode]

/-- `graph.astream(s, stream_mode='updates')` on the compiled graph, in world
    `w`: the updates of the first `n` node executions, and any ending. -/
def astream (env : Env W) (s : AgentState) (w : W) (n : Nat) (ending : Server.Ending) :
    Server.GraphRun where
  updates := updates (ainvoke env n s w).1
  ending := ending

/-- The state that an input to the graph is, for the one key that
    `build_initial_state` sets. -/
def input_state (values : Dict) : AgentState where
  active_ticket :=
    match values.get "active_ticket" with
    | .dict ticket => some ticket
    | _ => none

/-- The compiled graph, as the driver runs it. -/
def compiled_graph (env : Env W) (w : W) (n : Nat) (ending : Server.Ending) :
    Dict → PyStr → Server.GraphRun :=
  fun values _ => astream env (input_state values) w n ending

end astream

end Syndicate
