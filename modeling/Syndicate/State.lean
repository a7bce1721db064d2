import Syndicate.Py.Value

/-! # `syndicate/state.py`: the state of a graph run

    `AgentState` is a `TypedDict(total=False)`: every key may be absent, and
    a node returns the keys it writes.  Both are the same structure here,
    with `none` for an absent key; `AgentState.update` merges a node's
    return value into the state, last value wins. -/

namespace Syndicate

open Py

/-- `TicketStatus`. -/
inductive TicketStatus where
  | PENDING
  | IN_PROGRESS
  | LOCAL_PASS
  | DONE
  | ESCALATED
deriving DecidableEq, Repr

/-- `TicketStatus.value`. -/
def TicketStatus.value : TicketStatus → String
  | PENDING => "pending"
  | IN_PROGRESS => "in_progress"
  | LOCAL_PASS => "local_pass"
  | DONE => "done"
  | ESCALATED => "escalated"

/-- `RunStatus`: whole-run (not per-ticket) terminal status. -/
inductive RunStatus where
  | RUNNING
  | HALTED_ESCALATION_BUDGET
deriving DecidableEq, Repr

/-- `RunStatus.value`. -/
def RunStatus.value : RunStatus → String
  | RUNNING => "running"
  | HALTED_ESCALATION_BUDGET => "halted_escalation_budget"

/-- `DecisionSummary`. -/
structure DecisionSummary where
  summary : PyStr
  attempt_count : Nat
deriving DecidableEq

/-- `AgentState`, and the partial updates nodes return. -/
structure AgentState where
  issue : Option Dict := none
  issue_analysis : Option Dict := none
  active_ticket : Option Dict := none
  attempt_log : Option (List PyStr) := none
  decision_ledger : Option (List DecisionSummary) := none
  ticket_status : Option TicketStatus := none
  last_validation_passed : Option Bool := none
  strike_count : Option Int := none
  /-- `none`: no such key; `some none`: the key holds `None`. -/
  validation_diagnosis : Option (Option PyStr) := none
  escalation_count : Option Int := none
  run_status : Option RunStatus := none

/-- Merge a node's return value into the state. -/
def AgentState.update (s δ : AgentState) : AgentState where
  issue := δ.issue.or s.issue
  issue_analysis := δ.issue_analysis.or s.issue_analysis
  active_ticket := δ.active_ticket.or s.active_ticket
  attempt_log := δ.attempt_log.or s.attempt_log
  decision_ledger := δ.decision_ledger.or s.decision_ledger
  ticket_status := δ.ticket_status.or s.ticket_status
  last_validation_passed := δ.last_validation_passed.or s.last_validation_passed
  strike_count := δ.strike_count.or s.strike_count
  validation_diagnosis := δ.validation_diagnosis.or s.validation_diagnosis
  escalation_count := δ.escalation_count.or s.escalation_count
  run_status := δ.run_status.or s.run_status

/-- A node that returns `{}` leaves the state as it was. -/
@[simp] theorem AgentState.update_empty (s : AgentState) : s.update {} = s := rfl

/-! ## What the nodes read -/

namespace AgentState

/-- `state.get('active_ticket') or {}`. -/
def ticket (s : AgentState) : Dict := s.active_ticket.getD []

/-- `list(state.get('attempt_log') or [])`. -/
def log (s : AgentState) : List PyStr := s.attempt_log.getD []

/-- `list(state.get('decision_ledger') or [])`. -/
def ledger (s : AgentState) : List DecisionSummary := s.decision_ledger.getD []

/-- `state.get('strike_count') or 0`. -/
def strikes (s : AgentState) : Int := s.strike_count.getD 0

/-- `state.get('escalation_count') or 0`. -/
def escalations (s : AgentState) : Int := s.escalation_count.getD 0

/-- `state.get('validation_diagnosis')`. -/
def diagnosis (s : AgentState) : Option PyStr := s.validation_diagnosis.getD none

/-- The truth of `state.get('last_validation_passed')`. -/
def passed (s : AgentState) : Bool := s.last_validation_passed.getD false

/-! A reader sees the update's value where there is one, the old value
    otherwise. -/

section update
variable (s δ : AgentState)

@[simp] theorem update_ticket_status :
    (s.update δ).ticket_status = δ.ticket_status.or s.ticket_status := rfl

@[simp] theorem update_run_status :
    (s.update δ).run_status = δ.run_status.or s.run_status := rfl

@[simp] theorem update_ticket : (s.update δ).ticket = δ.active_ticket.getD s.ticket := by
  cases h : δ.active_ticket <;> simp [ticket, update, h]

@[simp] theorem update_log : (s.update δ).log = δ.attempt_log.getD s.log := by
  cases h : δ.attempt_log <;> simp [log, update, h]

@[simp] theorem update_strikes : (s.update δ).strikes = δ.strike_count.getD s.strikes := by
  cases h : δ.strike_count <;> simp [strikes, update, h]

@[simp] theorem update_escalations :
    (s.update δ).escalations = δ.escalation_count.getD s.escalations := by
  cases h : δ.escalation_count <;> simp [escalations, update, h]

@[simp] theorem update_passed :
    (s.update δ).passed = δ.last_validation_passed.getD s.passed := by
  cases h : δ.last_validation_passed <;> simp [passed, update, h]

end update

/-- An update of the executor or of the git pass: it leaves the ticket, the
    verdict, the ledger and the run's own budget alone. -/
structure Confined (δ : AgentState) : Prop where
  active_ticket : δ.active_ticket = none
  last_validation_passed : δ.last_validation_passed = none
  decision_ledger : δ.decision_ledger = none
  escalation_count : δ.escalation_count = none
  run_status : δ.run_status = none

end AgentState

/-! ## What the ticket says -/

/-- `_DEFAULT_WORKSPACE_DIR`. -/
def DEFAULT_WORKSPACE_DIR : PyStr := lit "/home/openhands/syndicate-workspace"

/-- `_DEFAULT_VERIFICATION_COMMAND`. -/
def DEFAULT_VERIFICATION_COMMAND : PyStr := lit "python3 -m pytest -q"

/-- `ticket.get('id') or ticket.get('ticket_id')`. -/
def ticket_id (ticket : Dict) : PyVal := (ticket.get "id").or (ticket.get "ticket_id")

/-- `ticket.get('workspace_dir') or _DEFAULT_WORKSPACE_DIR`. -/
def workspace_dir (ticket : Dict) : PyVal :=
  (ticket.get "workspace_dir").or (.str DEFAULT_WORKSPACE_DIR)

/-- `ticket.get('verification_command') or _DEFAULT_VERIFICATION_COMMAND`. -/
def verification_command (ticket : Dict) : PyVal :=
  (ticket.get "verification_command").or (.str DEFAULT_VERIFICATION_COMMAND)

/-- `ticket.get('files_changed') or ticket.get('target_files') or []`. -/
def declared_files (ticket : Dict) : PyVal :=
  ((ticket.get "files_changed").or (ticket.get "target_files")).or (.list [])

/-- Does the ticket declare files to change? -/
def declares_files (ticket : Dict) : Bool := (declared_files ticket).truthy

end Syndicate
