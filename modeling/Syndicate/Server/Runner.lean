import Syndicate.Framework.Prog
import Syndicate.Server.Registry

/-! # `server/runner.py`: driving one run

    The graph is outside: `GraphRun` is what `graph.astream` and
    `graph.aget_state` do for an initial state, whatever it is.  A driver is
    a program over the record; its events are the envelopes it emits. -/

namespace Syndicate.Server

open Py Framework

variable [Unicode]

/-! ## The initial state -/

/-- `_UI_WORKSPACE_ROOT`. -/
def UI_WORKSPACE_ROOT : PyStr := lit "/home/openhands/syndicate-workspace/ui-runs"

/-- `build_initial_state`. -/
def build_initial_state (run_id raw_request : PyStr) : Dict :=
  [(lit "active_ticket", .dict [
    (lit "id", .str run_id),
    (lit "title", .str (raw_request.take 80)),
    (lit "raw_request", .str raw_request),
    (lit "workspace_dir", .str (UI_WORKSPACE_ROOT ++ lit "/" ++ run_id)),
    (lit "verification_command", .str (lit "python3 -m pytest -q")),
    (lit "files_changed", .list [])])]

/-! ## What an update says -/

/-- `int(line.split()[0].split('=', 1)[1])`, where the line starts with
    `strike=`; `None` otherwise, and on the exceptions this may raise. -/
def strike_of (line : PyStr) : PyVal :=
  if (lit "strike=").isPrefixOf line then
    match split line with
    | [] => .none
    | word :: _ =>
      match splitOnce (CodePoint.ofChar '=') word with
      | _ :: digits :: _ =>
        match parseInt digits with
        | some n => .int n
        | none => .none
      | _ => .none
  else .none

/-- The attempt a log line reports, if it does. -/
def attempt_of (line : PyVal) : Option Dict :=
  match line.asStr with
  | none => none
  | some text =>
    if contains (lit "fast_check") text then
      some [(lit "strike", strike_of text), (lit "fast_check_summary", line)]
    else none

/-- `_extract_attempts`. -/
def extract_attempts (node : PyStr) (delta : Dict) (record : RunRecord) : List Dict × RunRecord :=
  if node ≠ lit "executor" then ([], record)
  else
    match delta.get "attempt_log" with
    | .list attempt_log =>
      ((attempt_log.drop record.last_attempt_log_len).filterMap attempt_of,
        { record with last_attempt_log_len := attempt_log.length })
    | _ => ([], record)

/-- `isinstance(v, cls)` and `v.value` for a `str` enum `cls`: the value of
    a member of it, any other value as it is. -/
def enum_value (cls : String) (v : PyVal) : PyVal :=
  match v with
  | .enum member value => if (lit cls ++ lit ".").isPrefixOf member then .str value else v
  | _ => v

/-- `TicketStatus.ESCALATED`. -/
def ESCALATED : PyVal := .enum (lit "TicketStatus.ESCALATED") (lit "escalated")

/-- `_extract_escalation`. -/
def extract_escalation (delta : Dict) (record : RunRecord) : Option Dict × RunRecord :=
  let escalation_count := delta.get "escalation_count"
  let (payload, record) : Dict × RunRecord :=
    match escalation_count.asInt with
    | some n =>
      if n ≠ record.last_escalation_count then
        ([(lit "escalation_count", escalation_count)], { record with last_escalation_count := n })
      else ([], record)
    | none => ([], record)
  let (payload, record) : Dict × RunRecord :=
    match delta.get "run_status" with
    | .none => (payload, record)
    | run_status =>
      let run_status_value := enum_value "RunStatus" run_status
      if pyEq run_status_value record.last_run_status then (payload, record)
      else (payload ++ [(lit "run_status", run_status_value)],
        { record with last_run_status := run_status_value })
  let payload : Dict :=
    if pyEq (delta.get "ticket_status") ESCALATED ∧ (payload.find "ticket_status").isNone then
      payload ++ [(lit "ticket_status", .str (lit "escalated"))]
    else payload
  (if payload.isEmpty then none else some payload, record)

/-! ## The driver -/

/-- How the iteration over `astream`, and the reading of the final state,
    come out. -/
inductive Ending where
  /-- `astream` raises an `Exception` after the updates. -/
  | astream_raised (exc : PyExc)
  | aget_state_raised (exc : PyExc)
  /-- The values of the final snapshot, `none` where there is none. -/
  | snapshot (values : Option Dict)

/-- One run of the graph: the updates `astream` yields, each a `dict` from
    node names to deltas, and what comes after them. -/
structure GraphRun where
  updates : List (List (PyStr × PyVal))
  ending : Ending

abbrev Driver := Prog RunRecord Envelope PyExc

section
variable (now : Nat → PyStr)

/-- `record.emit(make_envelope(seq=record.next_seq(), ..))`, when the clock
    shows `now seq`. -/
def emit_event (kind : EventKind) (node : Option PyStr) (payload : Dict) : Driver Unit := do
  let seq ← Prog.update RunRecord.next_seq
  let run_id ← Prog.update fun record => (record.run_id, record)
  let envelope ← Prog.ofExcept (make_envelope (now seq) (some seq) run_id kind node payload)
  Prog.call (fun record => (.ok (), record.emit envelope)) fun _ _ _ => envelope

def emit_attempts (node : PyStr) : List Dict → Driver Unit
  | [] => pure ()
  | attempt :: attempts => do
    emit_event now .attempt (some node) attempt
    emit_attempts node attempts

/-- `raw_delta if isinstance(raw_delta, dict) else {}`. -/
def delta_of : PyVal → Dict
  | .dict delta => delta
  | _ => []

/-- The body of the loop over `update.items()`. -/
def drive_node (node : PyStr) (raw_delta : PyVal) : Driver Unit := do
  let delta := delta_of raw_delta
  emit_event now .node_update (some node) delta
  let attempts ← Prog.update (extract_attempts node delta)
  emit_attempts now node attempts
  let escalation_payload ← Prog.update (extract_escalation delta)
  match escalation_payload with
  | none => pure ()
  | some payload => emit_event now .escalation (some node) payload

/-- The two loops, over the updates and over the items of each. -/
def drive_updates : List (PyStr × PyVal) → Driver Unit
  | [] => pure ()
  | (node, raw_delta) :: rest => do
    drive_node now node raw_delta
    drive_updates rest

def set_status (status : RunStatusLiteral) : Driver Unit :=
  Prog.update fun record => ((), { record with status := status })

/-- The body of the `try`. -/
def drive_graph (run : GraphRun) : Driver Unit := do
  drive_updates now run.updates.flatten
  match run.ending with
  | .astream_raised exc => Prog.raise exc
  | .aget_state_raised exc => Prog.raise exc
  | .snapshot values => do
    let ticket_status := (values.getD []).get "ticket_status"
    set_status (if pyEq ticket_status ESCALATED then .escalated else .completed)
    emit_event now .run_completed none [(lit "ticket_status", enum_value "TicketStatus" ticket_status)]

/-- `drive_run`, on a graph that answers an initial state and a thread id. -/
def drive_run (graph : Dict → PyStr → GraphRun) : Driver Unit := do
  set_status .running
  let (run_id, raw_request) ← Prog.update fun record => ((record.run_id, record.raw_request), record)
  emit_event now .run_started none [(lit "raw_request", .str raw_request)]
  let outcome ← Prog.attempt (drive_graph now (graph (build_initial_state run_id raw_request) run_id))
  match outcome with
  | .ok () => pure ()
  | .error exc => do
    set_status .failed
    emit_event now .run_failed none [(lit "error", .str exc.msg)]

end

end Syndicate.Server
