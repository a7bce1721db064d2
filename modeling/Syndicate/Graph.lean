import Syndicate.Framework.Runs
import Syndicate.Nodes.Oversight

/-! # The graph: `build_graph` and the nodes that touch no client

    `graph env` is the compiled graph as a deterministic machine.  One step
    executes one node and follows the edge or router behind it; the label of
    a step is the `Visit` it made.  An exception in a node ends the run. -/

namespace Syndicate

open Py Framework

variable {W : Type}

/-! ## Dispatch, escalate, advance -/

/-- `dispatch_node`. -/
def dispatch_node (_s : AgentState) : AgentState := {}

/-- `escalate_node`. -/
def escalate_node (max_escalations : Int) (s : AgentState) : AgentState where
  ticket_status := some .ESCALATED
  escalation_count := some (s.escalations + 1)
  run_status :=
    if s.escalations + 1 > max_escalations then some .HALTED_ESCALATION_BUDGET else none

/-- The `DecisionSummary` that `advance_node` distils from a log. -/
def distil (log : List PyStr) : DecisionSummary where
  summary := if log.isEmpty then lit "no attempts" else join (lit "; ") log
  attempt_count := log.length

/-- `advance_node`. -/
def advance_node (s : AgentState) : AgentState where
  decision_ledger := some (s.ledger ++ [distil s.log])
  attempt_log := some []

/-! ## Nodes and edges -/

inductive Node where
  | analyzer
  | architect
  | dispatch
  | executor
  | validator
  | oversight_git
  | escalate
  | advance
deriving DecidableEq, Repr

/-- Where a run stands. -/
inductive Pc where
  /-- The next node to execute. -/
  | at (n : Node)
  | END
  | raised (e : PyExc)
deriving DecidableEq

/-- `_dispatch_router`. -/
def dispatch_router (s : AgentState) : Pc :=
  if s.run_status = some .HALTED_ESCALATION_BUDGET then .END
  else if s.ticket_status = some .ESCALATED then .END
  else if s.passed then .END
  else .at .executor

/-- `_validator_router`. -/
def validator_router (s : AgentState) : Node :=
  if s.passed then .oversight_git
  else if s.strikes ≥ MAX_STRIKES then .escalate
  else .executor

/-- `_oversight_git_router`. -/
def oversight_git_router (s : AgentState) : Node :=
  if s.ticket_status = some .DONE then .advance
  else if declares_files s.ticket = false then .advance
  else if s.strikes ≥ MAX_STRIKES then .escalate
  else .executor

/-- The edges of `build_graph`, with the state after the node. -/
def next (n : Node) (s : AgentState) : Pc :=
  match n with
  | .analyzer => .at .architect
  | .architect => .at .dispatch
  | .dispatch => dispatch_router s
  | .executor => .at .validator
  | .validator => .at (validator_router s)
  | .oversight_git => .at (oversight_git_router s)
  | .escalate => .at .advance
  | .advance => .at .dispatch

section graph
variable [Unicode]

/-- The nodes of `build_graph`. -/
def node_program (env : Env W) : Node → AgentState → M W AgentState
  | .analyzer => analyzer_node env
  | .architect => architect_node env
  | .dispatch => fun s => pure (dispatch_node s)
  | .executor => executor_node env
  | .validator => validator_node env
  | .oversight_git => oversight_git_node env
  | .escalate => fun s => pure (escalate_node env.MAX_ESCALATIONS s)
  | .advance => fun s => pure (advance_node s)

end graph

/-! ## Runs -/

/-- The state of a run between two node executions. -/
structure Config (W : Type) where
  pc : Pc
  state : AgentState
  world : W

/-- One node execution: the state it read, the events it left, and the
    update it returned or the exception it raised. -/
structure Visit (W : Type) where
  node : Node
  before : AgentState
  events : List (Event W)
  result : Except PyExc AgentState

section graph
variable [Unicode]

/-- Execute node `n` in `c`. -/
def execute (env : Env W) (n : Node) (c : Config W) : Visit W × Config W :=
  let o := node_program env n c.state c.world
  ({ node := n, before := c.state, events := o.events, result := o.val },
   match o.val with
   | .ok δ => { pc := next n (c.state.update δ), state := c.state.update δ, world := o.world }
   | .error e => { pc := .raised e, state := c.state, world := o.world })

/-- The compiled graph. -/
def graph (env : Env W) : Machine (Config W) (Visit W) where
  step := fun c =>
    match c.pc with
    | .at n => some (execute env n c)
    | .END => none
    | .raised _ => none

/-- The entry point: `set_entry_point('analyzer')`. -/
def entry (s : AgentState) (w : W) : Config W := { pc := .at .analyzer, state := s, world := w }

/-- The first `n` node executions of `graph.ainvoke(s)` in world `w` (all of
    them when the run ends before): the visits made and where the run
    stands. -/
def ainvoke (env : Env W) (n : Nat) (s : AgentState) (w : W) : List (Visit W) × Config W :=
  (graph env).run n (entry s w)

end graph

/-! ## A small world

    For concrete runs: a repository at one of two commits, a model that
    answers at once, and a choice of commands that fail. -/

/-- A sandbox whose world says whether the one possible commit was made. -/
def small_repo (fails : PyStr → Bool) : RuntimeClient Bool where
  run_action := fun action _ _ committed =>
    match action with
    | .str command =>
      if fails command then (.ok ⟨1, lit "failed"⟩, committed)
      else if command = git_head then
        (.ok ⟨0, if committed then lit "b" else lit "a"⟩, committed)
      else if (lit "git commit").isPrefixOf command then
        -- a second commit finds nothing to commit
        (.ok ⟨if committed then 1 else 0, []⟩, true)
      else (.ok ⟨0, []⟩, committed)
    | _ => (.ok ⟨0, []⟩, committed)
  read_file := fun _ committed => (.error ⟨.FileNotFoundError, []⟩, committed)
  write_file := fun _ _ committed => (.ok (), committed)
  edit_file := fun _ _ _ committed => (.ok (), committed)

/-- The small world around a client. -/
def small_env (client : Client Bool) : Env Bool where
  get_runtime_client := .ok client
  get_llm_client := fun _ w => (.ok (), w)
  messages_create := fun _ w => (.ok ⟨[.text (lit "tried")], lit "end_turn"⟩, w)
  json_loads := fun _ => .ok (.dict [])
  MAX_ESCALATIONS := 3

/-- Every command succeeds. -/
def healthy : Env Bool := small_env (.RuntimeClient (small_repo fun _ => false))

/-- The fast checks pass and the ticket's own verification never does. -/
def unverifiable : Env Bool :=
  small_env (.RuntimeClient (small_repo fun command => command == lit "make check"))

/-- The fast checks never pass, and everything else works. -/
def unchecked : Env Bool :=
  small_env (.RuntimeClient (small_repo fun command => command == lit "git status"))

/-- A ticket for it. -/
def small_ticket (files : List String) : Dict :=
  [(lit "id", .str (lit "T")), (lit "files_changed", .list (files.map fun f => .str (lit f))),
   (lit "verification_command", .str (lit "make check"))]

/-! ## Reading a run -/

/-- Where a visit sent the run. -/
def Visit.goes_to (v : Visit W) : Pc :=
  match v.result with
  | .ok δ => next v.node (v.before.update δ)
  | .error e => .raised e

/-- The ticket status a visit wrote. -/
def Visit.status_written (v : Visit W) : Option TicketStatus :=
  match v.result with
  | .ok δ => δ.ticket_status
  | .error _ => none

/-- The verdict a visit wrote to `last_validation_passed`. -/
def Visit.verdict_written (v : Visit W) : Option Bool :=
  match v.result with
  | .ok δ => δ.last_validation_passed
  | .error _ => none

/-- The last execution of node `n`. -/
def last_visit (n : Node) (h : List (Visit W)) : Option (Visit W) :=
  (h.filter (·.node = n)).getLast?

theorem last_visit_snoc (n : Node) (h : List (Visit W)) (v : Visit W) :
    last_visit n (h ++ [v]) = if v.node = n then some v else last_visit n h := by
  by_cases hn : v.node = n <;> simp [last_visit, hn]

/-- Executions of node `n`. -/
def executions (n : Node) (h : List (Visit W)) : Nat := h.countP (·.node = n)

/-- The feedback of each call of `_run_agentic_loop`. -/
def feedbacks (es : List (Event W)) : List (Option PyStr) :=
  es.filterMap fun
    | .agentic_loop f => some f
    | _ => none

/-- The summary of each completed call of `_run_agentic_loop`. -/
def summaries (es : List (Event W)) : List PyStr :=
  es.filterMap fun
    | .agentic_summary s => some s
    | _ => none

/-- The result of each call of `_run_fast_checks`. -/
def checks (es : List (Event W)) : List ActionResult :=
  es.filterMap fun
    | .fast_checks r => some r
    | _ => none

/-- The number of LLM calls. -/
def llm_calls (es : List (Event W)) : Nat :=
  es.countP fun
    | .messages_create _ => true
    | _ => false

/-- All events of a run. -/
def trace (h : List (Visit W)) : List (Event W) := h.flatMap (·.events)

/-- The number of executor attempts: calls of `_run_agentic_loop`. -/
def attempts (h : List (Visit W)) : Nat := (feedbacks (trace h)).length

/-- The events of `executor_node`'s executions. -/
def executor_trace (h : List (Visit W)) : List (Event W) :=
  trace (h.filter (·.node = .executor))

section append
variable (es es' : List (Event W)) (h h' : List (Visit W))

@[simp] theorem feedbacks_append : feedbacks (es ++ es') = feedbacks es ++ feedbacks es' :=
  List.filterMap_append

@[simp] theorem summaries_append : summaries (es ++ es') = summaries es ++ summaries es' :=
  List.filterMap_append

@[simp] theorem checks_append : checks (es ++ es') = checks es ++ checks es' :=
  List.filterMap_append

@[simp] theorem llm_calls_append : llm_calls (es ++ es') = llm_calls es + llm_calls es' :=
  List.countP_append

@[simp] theorem trace_append : trace (h ++ h') = trace h ++ trace h' :=
  List.flatMap_append

@[simp] theorem trace_singleton (v : Visit W) : trace [v] = v.events := by
  simp [trace]

@[simp] theorem executions_append (n : Node) :
    executions n (h ++ h') = executions n h + executions n h' :=
  List.countP_append

@[simp] theorem executions_singleton (n : Node) (v : Visit W) :
    executions n [v] = if v.node = n then 1 else 0 := by
  simp [executions, List.countP_cons]

@[simp] theorem attempts_append : attempts (h ++ h') = attempts h + attempts h' := by
  simp [attempts]

@[simp] theorem attempts_singleton (v : Visit W) :
    attempts [v] = (feedbacks v.events).length := by
  simp [attempts]

@[simp] theorem executor_trace_append :
    executor_trace (h ++ h') = executor_trace h ++ executor_trace h' := by
  simp [executor_trace]

theorem executor_trace_singleton (v : Visit W) :
    executor_trace [v] = if v.node = .executor then v.events else [] := by
  by_cases hv : v.node = .executor <;> simp [executor_trace, hv, trace]

end append

end Syndicate
