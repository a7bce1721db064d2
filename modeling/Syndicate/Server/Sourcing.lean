import Syndicate.Server.Tasks

/-! # What a record shows its viewers

    A viewer reads the backlog and the event, and nothing else of a record.
    Both are what the envelopes say: the driver may set any other field, but
    here each of its segments does what emitting its envelopes does. -/

namespace Syndicate.Server

open Py Framework

/-! ## The log of a record -/

/-- The part of a record that `stream_run` and `emit_next` read. -/
structure Log where
  backlog : Deque Envelope BACKLOG_MAXLEN
  seq_counter : Nat
  new_event : Bool

def RunRecord.log (r : RunRecord) : Log := ⟨r.backlog, r.seq_counter, r.new_event⟩

/-- `emit_next`, as the log shows it. -/
def Log.emit_next (l : Log) (e : Envelope) : Log :=
  ⟨l.backlog.append { e with seq := some (l.seq_counter + 1) }, l.seq_counter + 1, true⟩

theorem log_emit_next (r : RunRecord) (e : Envelope) :
    (r.emit_next e).log = r.log.emit_next e := by
  unfold RunRecord.emit_next RunRecord.next_seq RunRecord.emit
  rfl

/-- The log of a driver is a fold of its envelopes. -/
abbrev Logs {α : Type} (m : Driver α) : Prop := Prog.Sourced RunRecord.log Log.emit_next m

section segments
variable [Unicode] {now : Nat → PyStr}

theorem logs_emit_event (kind : EventKind) (node : Option PyStr) (payload : Dict) :
    Logs (emit_event now kind node payload) := by
  intro r
  have hwp : (emit_event now kind node payload).wp
      (fun _ r' es => r'.log = es.foldl Log.emit_next r.log) r := by
    apply wp_emit_next
    intro e _ hseq
    -- the envelope carries the number that `emit_next` gives it
    have hsame : { e with seq := some (r.seq_counter + 1) } = e := by rw [← hseq]
    have hemit : r.next_seq.2.emit e = r.emit_next e := by
      rw [RunRecord.emit_next, RunRecord.next_seq_fst, hsame]
    rw [hemit, log_emit_next]
    rfl
  exact hwp

omit [Unicode] in
theorem logs_set_status (status : RunStatusLiteral) : Logs (set_status status) := by
  apply Prog.sourced_update
  intro r
  rfl

theorem log_extract_attempts (node : PyStr) (delta : Dict) (r : RunRecord) :
    (extract_attempts node delta r).2.log = r.log := by
  unfold extract_attempts
  repeat' split
  all_goals rfl

omit [Unicode] in
theorem log_extract_escalation (delta : Dict) (r : RunRecord) :
    (extract_escalation delta r).2.log = r.log := by
  unfold extract_escalation
  dsimp only
  repeat' split
  all_goals rfl

theorem logs_emit_attempts (node : PyStr) (attempts : List Dict) :
    Logs (emit_attempts now node attempts) := by
  induction attempts with
  | nil => exact Prog.sourced_pure ()
  | cons attempt attempts ih =>
    apply Prog.sourced_bind (logs_emit_event _ _ _)
    intro _
    exact ih

theorem logs_drive_node (node : PyStr) (raw_delta : PyVal) : Logs (drive_node now node raw_delta) := by
  apply Prog.sourced_bind (logs_emit_event _ _ _)
  intro _
  apply Prog.sourced_bind (Prog.sourced_update (log_extract_attempts node _))
  intro attempts
  apply Prog.sourced_bind (logs_emit_attempts node attempts)
  intro _
  apply Prog.sourced_bind (Prog.sourced_update (log_extract_escalation _))
  intro escalation_payload
  cases escalation_payload with
  | none => exact Prog.sourced_pure ()
  | some payload => exact logs_emit_event _ _ _

theorem logs_drive_updates (nodes : List (PyStr × PyVal)) : Logs (drive_updates now nodes) := by
  induction nodes with
  | nil => exact Prog.sourced_pure ()
  | cons n nodes ih =>
    apply Prog.sourced_bind (logs_drive_node n.1 n.2)
    intro _
    exact ih

theorem logs_start_run : Logs (start_run now) := by
  apply Prog.sourced_bind (logs_set_status .running)
  intro _
  apply Prog.sourced_bind (Prog.sourced_update (fun _ => rfl))
  intro raw_request
  exact logs_emit_event _ _ _

theorem logs_complete_run (values : Option Dict) : Logs (complete_run now values) := by
  apply Prog.sourced_bind (logs_set_status _)
  intro _
  exact logs_emit_event _ _ _

theorem logs_fail_run (exc : PyExc) : Logs (fail_run now exc) := by
  apply Prog.sourced_bind (logs_set_status .failed)
  intro _
  exact logs_emit_event _ _ _

end segments

/-! ## The segment that an act runs -/

namespace App

section step
variable [Unicode] (now : PyStr → Nat → PyStr)

/-- What the task does to its record when the act takes it on. -/
def segment (app : App) : Act → Driver Unit
  | .start run_id => if app.pc run_id = some .created then start_run (now run_id) else pure ()
  | .update run_id nodes =>
    if app.pc run_id = some .iterating then drive_updates (now run_id) nodes else pure ()
  | .snapshot run_id values =>
    if app.pc run_id = some .reading then complete_run (now run_id) values else pure ()
  | .raised run_id exc =>
    if app.pc run_id = some .iterating ∨ app.pc run_id = some .reading then fail_run (now run_id) exc
    else pure ()
  | .post _ _ | .exhausted _ | .cancelled _ => pure ()

/-- The envelopes that an act emits. -/
def emitted (app : App) (a : Act) : List Envelope :=
  match app.registry.get a.run_id with
  | none => []
  | some record => (app.segment now a record).events

theorem logs_segment (app : App) (a : Act) : Logs (app.segment now a) := by
  cases a with
  | post _ _ | exhausted _ | cancelled _ => exact Prog.sourced_pure ()
  | start run_id =>
    simp only [segment]
    split
    · exact logs_start_run
    · exact Prog.sourced_pure ()
  | update run_id nodes =>
    simp only [segment]
    split
    · exact logs_drive_updates nodes
    · exact Prog.sourced_pure ()
  | snapshot run_id values =>
    simp only [segment]
    split
    · exact logs_complete_run values
    · exact Prog.sourced_pure ()
  | raised run_id exc =>
    simp only [segment]
    split
    · exact logs_fail_run exc
    · exact Prog.sourced_pure ()

omit [Unicode] in
theorem get_drive (app : App) (run_id k : PyStr) (segment : Driver Unit) (pc : TaskPc) :
    (app.drive run_id segment pc).registry.get k =
      if k = run_id then (app.registry.get run_id).map fun r => (segment r).world
      else app.registry.get k := by
  unfold drive
  cases hget : app.registry.get run_id with
  | none =>
    by_cases hk : k = run_id
    · rw [if_pos hk, hk, hget]
      rfl
    · rw [if_neg hk]
  | some record => exact RunRegistry.get_write app.registry run_id k (segment record).world

/-- **One act, one segment**: an act of a task runs its segment on the record
    of the task, and leaves the other records alone. -/
theorem get_step (app : App) {a : Act} (hpost : a.drawn = none) (k : PyStr) :
    (app.step now a).registry.get k =
      if k = a.run_id then (app.registry.get a.run_id).map fun r => (app.segment now a r).world
      else app.registry.get k := by
  -- a segment that does nothing leaves the record as it is
  have hquiet : ∀ run_id, app.registry.get k =
      if k = run_id then (app.registry.get run_id).map fun r => ((pure () : Driver Unit) r).world
      else app.registry.get k := by
    intro run_id
    have hid : ((app.registry.get run_id).map fun r => ((pure () : Driver Unit) r).world) =
        app.registry.get run_id := by
      cases app.registry.get run_id <;> rfl
    rw [hid]
    by_cases hk : k = run_id
    · rw [if_pos hk, hk]
    · rw [if_neg hk]
  cases a with
  | post _ _ => cases hpost
  | start run_id =>
    simp only [step, segment, Act.run_id]
    split
    · exact get_drive app run_id k _ _
    · exact hquiet run_id
  | update run_id nodes =>
    simp only [step, segment, Act.run_id]
    split
    · exact get_drive app run_id k _ _
    · exact hquiet run_id
  | exhausted run_id =>
    simp only [step, segment, Act.run_id]
    split
    · exact hquiet run_id
    · exact hquiet run_id
  | snapshot run_id values =>
    simp only [step, segment, Act.run_id]
    split
    · exact (RunRegistry.get_finish _ run_id k).trans (get_drive app run_id k _ _)
    · exact hquiet run_id
  | raised run_id exc =>
    simp only [step, segment, Act.run_id]
    split
    · exact (RunRegistry.get_finish _ run_id k).trans (get_drive app run_id k _ _)
    · exact hquiet run_id
  | cancelled run_id =>
    simp only [step, segment, Act.run_id]
    split
    · exact (RunRegistry.get_finish app.registry run_id k).trans (hquiet run_id)
    · exact hquiet run_id

/-- The log of a record after an act is what the envelopes of the act make of
    it. -/
theorem log_step (app : App) {a : Act} (hpost : a.drawn = none) {record : RunRecord}
    (h : app.registry.get a.run_id = some record) :
    ∃ record', (app.step now a).registry.get a.run_id = some record' ∧
      record'.log = (app.emitted now a).foldl Log.emit_next record.log := by
  refine ⟨(app.segment now a record).world, ?_, ?_⟩
  · rw [get_step now app hpost, if_pos rfl, h]
    rfl
  · rw [emitted, h]
    exact logs_segment now app a record

end step

end App

end Syndicate.Server
