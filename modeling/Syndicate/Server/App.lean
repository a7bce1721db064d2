import Syndicate.Framework.Runs
import Syndicate.Server.Protocol

/-! # `server/app.py`: one active run at a time

    `POST /runs` asks the registry for the one place there is, and hands the
    record to a task that gives the place back when it ends.  Control moves
    only where a task awaits the graph: before its first step, in the
    iteration over `astream`, and in `aget_state`.

    * `RunRegistry`: the registry, whose methods run without an await.
    * `TaskPc`: where a `_run_and_release` stands.
    * `App.step`: a request, or one task from one await to the next; any
      schedule of these is a run of the server. -/

namespace Syndicate.Server

open Py Framework

/-! ## The registry -/

/-- `RunRegistry`. -/
structure RunRegistry where
  runs : List (PyStr × RunRecord) := []
  active_run_id : Option PyStr := none

namespace RunRegistry

/-- `try_start`. -/
def try_start (r : RunRegistry) (run_id raw_request : PyStr) : Option RunRecord × RunRegistry :=
  if r.active_run_id.isSome then (none, r)
  else
    let record := RunRecord.new run_id raw_request
    (some record, { runs := setItem r.runs run_id record, active_run_id := some run_id })

/-- `finish`. -/
def finish (r : RunRegistry) (run_id : PyStr) : RunRegistry :=
  if r.active_run_id = some run_id then { r with active_run_id := none } else r

/-- `get`. -/
def get (r : RunRegistry) (run_id : PyStr) : Option RunRecord := r.runs.lookup run_id

/-- The record a task holds is the one in the registry: what it writes there
    is seen here. -/
def write (r : RunRegistry) (run_id : PyStr) (record : RunRecord) : RunRegistry :=
  { r with runs := setItem r.runs run_id record }

theorem get_write (r : RunRegistry) (run_id k : PyStr) (record : RunRecord) :
    (r.write run_id record).get k = if k = run_id then some record else r.get k :=
  lookup_setItem r.runs run_id k record

theorem get_finish (r : RunRegistry) (run_id k : PyStr) : (r.finish run_id).get k = r.get k := by
  unfold finish
  split <;> rfl

theorem active_finish (r : RunRegistry) (run_id : PyStr) :
    (r.finish run_id).active_run_id =
      if r.active_run_id = some run_id then none else r.active_run_id := by
  unfold finish
  split <;> rfl

end RunRegistry

/-! ## The segments of `drive_run` -/

section segments
variable [Unicode] (now : Nat → PyStr)

/-- Up to the first `await`. -/
def start_run : Driver Unit := do
  set_status .running
  let raw_request ← Prog.update fun record => (record.raw_request, record)
  emit_event now .run_started none [(lit "raw_request", .str raw_request)]

/-- From the snapshot to the end. -/
def complete_run (values : Option Dict) : Driver Unit := do
  let ticket_status := (values.getD []).get "ticket_status"
  set_status (if pyEq ticket_status ESCALATED then .escalated else .completed)
  emit_event now .run_completed none [(lit "ticket_status", enum_value "TicketStatus" ticket_status)]

/-- The `except` branch. -/
def fail_run (exc : PyExc) : Driver Unit := do
  set_status .failed
  emit_event now .run_failed none [(lit "error", .str exc.msg)]

end segments

/-! ## The server -/

/-- Where the task of a run stands. -/
inductive TaskPc where
  /-- Created by `create_task`, and not yet run. -/
  | created
  /-- In the iteration over `astream`. -/
  | iterating
  /-- In `aget_state`. -/
  | reading
  | finished
deriving DecidableEq

/-- The registry, and the task of each record. -/
structure App where
  registry : RunRegistry := {}
  tasks : List (PyStr × TaskPc) := []

/-- The answer to `POST /runs`. -/
inductive Response where
  | ok (run_id : PyStr)
  /-- `409`, with what `active_run_id` shows. -/
  | conflict (run_id : Option PyStr)
deriving DecidableEq

namespace App

/-- `create_run`, for the `run_id` that `uuid4` drew. -/
def create_run (app : App) (run_id raw_request : PyStr) : Response × App :=
  match app.registry.try_start run_id raw_request with
  | (none, registry) => (.conflict registry.active_run_id, { app with registry := registry })
  | (some _, registry) =>
    (.ok run_id, { registry := registry, tasks := setItem app.tasks run_id .created })

inductive Act where
  /-- `POST /runs`. -/
  | post (run_id raw_request : PyStr)
  /-- The first step of a task. -/
  | start (run_id : PyStr)
  /-- `astream` yields an update. -/
  | update (run_id : PyStr) (nodes : List (PyStr × PyVal))
  /-- `astream` is exhausted. -/
  | exhausted (run_id : PyStr)
  /-- `aget_state` returns. -/
  | snapshot (run_id : PyStr) (values : Option Dict)
  /-- `astream` or `aget_state` raises an `Exception`. -/
  | raised (run_id : PyStr) (exc : PyExc)
  /-- The task is cancelled where it awaits: no `except` branch catches
      that. -/
  | cancelled (run_id : PyStr)

/-- The run that an act is about. -/
def Act.run_id : Act → PyStr
  | .post run_id _ | .start run_id | .update run_id _ | .exhausted run_id | .snapshot run_id _
  | .raised run_id _ | .cancelled run_id => run_id

/-- The id a `POST` draws. -/
def Act.drawn : Act → Option PyStr
  | .post run_id _ => some run_id
  | _ => none

/-- Where the task of a run stands. -/
def pc (app : App) (run_id : PyStr) : Option TaskPc := app.tasks.lookup run_id

/-- The run was accepted, and its `_run_and_release` has not finished. -/
def Unfinished (app : App) (run_id : PyStr) : Prop :=
  ∃ pc, app.pc run_id = some pc ∧ pc ≠ .finished

/-- The task of a run goes on to its next `await`. -/
def goto (app : App) (run_id : PyStr) (pc : TaskPc) : App :=
  { app with tasks := setItem app.tasks run_id pc }

/-- The task writes to its record on the way there.  No segment raises. -/
def drive (app : App) (run_id : PyStr) (segment : Driver Unit) (pc : TaskPc) : App :=
  match app.registry.get run_id with
  | none => app
  | some record =>
    { app with registry := app.registry.write run_id (segment record).world }.goto run_id pc

/-- The `finally` branch. -/
def release (app : App) (run_id : PyStr) : App :=
  { app with registry := app.registry.finish run_id }

section step
variable [Unicode] (now : PyStr → Nat → PyStr)

/-- One act; a task that does not stand where the act takes it stays. -/
def step (app : App) : Act → App
  | .post run_id raw_request => (app.create_run run_id raw_request).2
  | .start run_id =>
    if app.pc run_id = some .created then app.drive run_id (start_run (now run_id)) .iterating
    else app
  | .update run_id nodes =>
    if app.pc run_id = some .iterating then
      app.drive run_id (drive_updates (now run_id) nodes) .iterating
    else app
  | .exhausted run_id =>
    if app.pc run_id = some .iterating then app.goto run_id .reading else app
  | .snapshot run_id values =>
    if app.pc run_id = some .reading then
      (app.drive run_id (complete_run (now run_id) values) .finished).release run_id
    else app
  | .raised run_id exc =>
    if app.pc run_id = some .iterating ∨ app.pc run_id = some .reading then
      (app.drive run_id (fail_run (now run_id) exc) .finished).release run_id
    else app
  | .cancelled run_id =>
    if app.pc run_id = some .iterating ∨ app.pc run_id = some .reading then
      (app.goto run_id .finished).release run_id
    else app

/-- The server after a schedule. -/
def serve (acts : List Act) : App := play (step now) {} acts

theorem serve_snoc (acts : List Act) (a : Act) :
    serve now (acts ++ [a]) = (serve now acts).step now a :=
  play_snoc

end step

/-! ## What a segment writes -/

/-- What a task can do to its record while it runs: nothing that ends the
    run. -/
structure Runs (r r' : RunRecord) : Prop where
  run_id : r'.run_id = r.run_id
  raw_request : r'.raw_request = r.raw_request
  quiet : ∀ e ∈ r'.backlog.items, e.kind.terminal = true → e ∈ r.backlog.items

theorem Runs.refl (r : RunRecord) : Runs r r := ⟨rfl, rfl, fun _ he _ => he⟩

/-- A backlog holds what it held and what was written. -/
theorem mem_backlog {r r' : RunRecord} {es : List Envelope} (h : Wrote r es r') {e : Envelope}
    (he : e ∈ r'.backlog.items) : e ∈ r.backlog.items ∨ e ∈ es := by
  have hfull : r.backlog.items = lastN BACKLOG_MAXLEN r.backlog.items := by
    have hzero : r.backlog.items.length - BACKLOG_MAXLEN = 0 := Nat.sub_eq_zero_of_le r.backlog.bounded
    rw [lastN, hzero, List.drop_zero]
  rw [h.backlog _ hfull] at he
  exact List.mem_append.mp (List.mem_of_mem_drop he)

section segments
variable [Unicode] {now : Nat → PyStr}

theorem start_run_runs (r : RunRecord) : Runs r (start_run now r).world := by
  have hwp : (start_run now).wp (fun _ r' _ => Runs r r') r := by
    simp only [start_run, set_status, Prog.wp_bind, Prog.wp_update, Prog.andThen_ok]
    apply wp_emit_event
    intro e r' hcarries hwrote _
    refine ⟨hwrote.run_id, hwrote.raw_request, ?_⟩
    intro e' he' hterm
    rcases mem_backlog hwrote he' with hold | hnew
    · exact hold
    · rw [List.mem_singleton.mp hnew, hcarries.kind] at hterm
      cases hterm
  exact hwp

theorem drive_updates_runs (nodes : List (PyStr × PyVal)) (r : RunRecord) :
    Runs r (drive_updates now nodes r).world := by
  have hspec : (drive_updates now nodes).wp _ r := drive_updates_spec nodes r
  obtain ⟨-, hwrote, blocks, hes, hblocks⟩ := hspec
  refine ⟨hwrote.run_id, hwrote.raw_request, ?_⟩
  intro e he hterm
  rcases mem_backlog hwrote he with hold | hnew
  · exact hold
  · rw [hes] at hnew
    rw [(blocks_inner hblocks hnew).2] at hterm
    cases hterm

/-- What the end of a run leaves of its record. -/
structure Ends (r r' : RunRecord) : Prop where
  run_id : r'.run_id = r.run_id
  raw_request : r'.raw_request = r.raw_request

theorem complete_run_ends (values : Option Dict) (r : RunRecord) :
    Ends r (complete_run now values r).world := by
  have hwp : (complete_run now values).wp (fun _ r' _ => Ends r r') r := by
    simp only [complete_run, set_status, Prog.wp_bind, Prog.wp_update, Prog.andThen_ok]
    apply wp_emit_event
    intro e r' _ hwrote _
    exact ⟨hwrote.run_id, hwrote.raw_request⟩
  exact hwp

theorem fail_run_ends (exc : PyExc) (r : RunRecord) : Ends r (fail_run now exc r).world := by
  have hwp : (fail_run now exc).wp (fun _ r' _ => Ends r r') r := by
    simp only [fail_run, set_status, Prog.wp_bind, Prog.wp_update, Prog.andThen_ok]
    apply wp_emit_event
    intro e r' _ hwrote _
    exact ⟨hwrote.run_id, hwrote.raw_request⟩
  exact hwp

end segments

/-! ## What one act can do -/

/-- `app'` is `app` but for the record and the task of one run. -/
structure Moves (app app' : App) (run_id : PyStr) (record : RunRecord) (pc : TaskPc) : Prop where
  get : ∀ k, app'.registry.get k = if k = run_id then some record else app.registry.get k
  pc : ∀ k, app'.pc k = if k = run_id then some pc else app.pc k

/-- Every act, by what it does: nothing, or a run is accepted, moves on, or
    ends and gives its place back. -/
inductive Stepped (app : App) (a : Act) (app' : App) : Prop where
  | stays (hsame : app' = app)
  | accepted (run_id raw_request : PyStr) (ha : a = .post run_id raw_request)
      (hfree : app.registry.active_run_id = none)
      (hmoves : Moves app app' run_id (RunRecord.new run_id raw_request) .created)
      (hactive : app'.registry.active_run_id = some run_id)
  | moved (run_id : PyStr) (record record' : RunRecord) (pc : TaskPc) (ha : a.run_id = run_id)
      (hrun : app.Unfinished run_id) (hrecord : app.registry.get run_id = some record)
      (hruns : Runs record record') (hmoves : Moves app app' run_id record' pc)
      (hpc : pc ≠ .finished) (hactive : app'.registry.active_run_id = app.registry.active_run_id)
  | ended (run_id : PyStr) (record record' : RunRecord) (ha : a.run_id = run_id)
      (hrun : app.Unfinished run_id) (hrecord : app.registry.get run_id = some record)
      (hends : Ends record record') (hmoves : Moves app app' run_id record' .finished)
      (hactive : app'.registry.active_run_id =
        if app.registry.active_run_id = some run_id then none else app.registry.active_run_id)

theorem moves_goto (app : App) {run_id : PyStr} {record : RunRecord} (pc : TaskPc)
    (h : app.registry.get run_id = some record) : Moves app (app.goto run_id pc) run_id record pc := by
  refine ⟨?_, fun k => lookup_setItem app.tasks run_id k pc⟩
  intro k
  by_cases hk : k = run_id
  · rw [if_pos hk, hk]
    exact h
  · rw [if_neg hk]
    rfl

theorem moves_drive (app : App) {run_id : PyStr} {record : RunRecord} (segment : Driver Unit)
    (pc : TaskPc) (h : app.registry.get run_id = some record) :
    Moves app (app.drive run_id segment pc) run_id (segment record).world pc ∧
      (app.drive run_id segment pc).registry.active_run_id = app.registry.active_run_id := by
  unfold drive
  rw [h]
  exact ⟨⟨fun k => app.registry.get_write run_id k _, fun k => lookup_setItem app.tasks run_id k pc⟩,
    rfl⟩

/-- Giving the place back changes neither records nor tasks. -/
theorem Moves.release {app app' : App} {run_id : PyStr} {record : RunRecord} {pc : TaskPc}
    (h : Moves app app' run_id record pc)
    (hactive : app'.registry.active_run_id = app.registry.active_run_id) :
    Moves app (app'.release run_id) run_id record pc ∧
      (app'.release run_id).registry.active_run_id =
        if app.registry.active_run_id = some run_id then none else app.registry.active_run_id := by
  refine ⟨⟨?_, h.pc⟩, ?_⟩
  · intro k
    rw [← h.get k]
    exact app'.registry.get_finish run_id k
  · rw [← hactive]
    exact app'.registry.active_finish run_id

/-- Every task has its record. -/
def Recorded (app : App) : Prop := ∀ k, (app.pc k).isSome → (app.registry.get k).isSome

/-- A task that still runs the graph is unfinished, and has its record. -/
theorem Recorded.at_work {app : App} (h : app.Recorded) {run_id : PyStr}
    (hpc : app.pc run_id = some .iterating ∨ app.pc run_id = some .reading) :
    app.Unfinished run_id ∧ ∃ record, app.registry.get run_id = some record := by
  have hrun : app.Unfinished run_id := by
    rcases hpc with hpc | hpc
    · exact ⟨_, hpc, by decide⟩
    · exact ⟨_, hpc, by decide⟩
  obtain ⟨pc, hpc', -⟩ := id hrun
  exact ⟨hrun, Option.isSome_iff_exists.mp (h run_id (by rw [hpc']; rfl))⟩

section step
variable [Unicode] (now : PyStr → Nat → PyStr)

theorem step_stepped {app : App} (h : app.Recorded) (a : Act) :
    Stepped app a (app.step now a) := by
  -- a task that is there has a record to act on
  have hrecord : ∀ {k pc}, app.pc k = some pc → ∃ record, app.registry.get k = some record := by
    intro k pc hpc
    exact Option.isSome_iff_exists.mp (h k (by rw [hpc]; rfl))
  cases a with
  | post run_id raw_request =>
    -- a busy service answers 409 and leaves the world as it is
    by_cases hactive : app.registry.active_run_id.isSome
    · have hsame : app.step now (.post run_id raw_request) = app := by
        simp [step, create_run, RunRegistry.try_start, hactive]
      exact .stays hsame
    · have hstart : app.step now (.post run_id raw_request) =
          { registry := { runs := setItem app.registry.runs run_id (.new run_id raw_request),
                          active_run_id := some run_id },
            tasks := setItem app.tasks run_id .created } := by
        simp [step, create_run, RunRegistry.try_start, hactive]
      rw [hstart]
      refine .accepted run_id raw_request rfl (by simpa using hactive) ⟨?_, ?_⟩ rfl
      · exact fun k => lookup_setItem app.registry.runs run_id k _
      · exact fun k => lookup_setItem app.tasks run_id k _
  | start run_id =>
    -- each act of a task is guarded by where the task stands
    by_cases hpc : app.pc run_id = some .created
    · obtain ⟨record, hget⟩ := hrecord hpc
      obtain ⟨hmoves, hactive⟩ := moves_drive app (start_run (now run_id)) .iterating hget
      rw [step, if_pos hpc]
      exact .moved run_id record _ .iterating rfl ⟨_, hpc, by decide⟩ hget (start_run_runs record) hmoves
        (by decide) hactive
    · rw [step, if_neg hpc]
      exact .stays rfl
  | update run_id nodes =>
    by_cases hpc : app.pc run_id = some .iterating
    · obtain ⟨record, hget⟩ := hrecord hpc
      obtain ⟨hmoves, hactive⟩ := moves_drive app (drive_updates (now run_id) nodes) .iterating hget
      rw [step, if_pos hpc]
      exact .moved run_id record _ .iterating rfl ⟨_, hpc, by decide⟩ hget
        (drive_updates_runs nodes record) hmoves (by decide) hactive
    · rw [step, if_neg hpc]
      exact .stays rfl
  | exhausted run_id =>
    by_cases hpc : app.pc run_id = some .iterating
    · obtain ⟨record, hget⟩ := hrecord hpc
      rw [step, if_pos hpc]
      exact .moved run_id record record .reading rfl ⟨_, hpc, by decide⟩ hget (Runs.refl record)
        (moves_goto app .reading hget) (by decide) rfl
    · rw [step, if_neg hpc]
      exact .stays rfl
  | snapshot run_id values =>
    -- the terminal envelope and the release of the slot are one step
    by_cases hpc : app.pc run_id = some .reading
    · obtain ⟨record, hget⟩ := hrecord hpc
      obtain ⟨hmoves, hactive⟩ := moves_drive app (complete_run (now run_id) values) .finished hget
      obtain ⟨hmoves', hactive'⟩ := hmoves.release hactive
      rw [step, if_pos hpc]
      exact .ended run_id record _ rfl ⟨_, hpc, by decide⟩ hget (complete_run_ends values record) hmoves'
        hactive'
    · rw [step, if_neg hpc]
      exact .stays rfl
  | raised run_id exc =>
    by_cases hpc : app.pc run_id = some .iterating ∨ app.pc run_id = some .reading
    · obtain ⟨hrun, record, hget⟩ := h.at_work hpc
      obtain ⟨hmoves, hactive⟩ := moves_drive app (fail_run (now run_id) exc) .finished hget
      obtain ⟨hmoves', hactive'⟩ := hmoves.release hactive
      rw [step, if_pos hpc]
      exact .ended run_id record _ rfl hrun hget (fail_run_ends exc record) hmoves' hactive'
    · rw [step, if_neg hpc]
      exact .stays rfl
  | cancelled run_id =>
    -- a cancelled task releases the slot without writing an envelope
    by_cases hpc : app.pc run_id = some .iterating ∨ app.pc run_id = some .reading
    · obtain ⟨hrun, record, hget⟩ := h.at_work hpc
      obtain ⟨hmoves, hactive⟩ := (moves_goto app .finished hget).release rfl
      rw [step, if_pos hpc]
      exact .ended run_id record record rfl hrun hget ⟨rfl, rfl⟩ hmoves hactive
    · rw [step, if_neg hpc]
      exact .stays rfl

/-! ## What holds at every await -/

/-- The invariant of the server. -/
structure Inv (app : App) : Prop where
  recorded : app.Recorded
  /-- A run is active from the moment it is accepted until its task ends. -/
  active : ∀ k, app.registry.active_run_id = some k ↔ app.Unfinished k
  /-- The terminal envelope comes with the end of the task. -/
  terminal : ∀ k record, app.registry.get k = some record →
    (∃ e ∈ record.backlog.items, e.kind.terminal = true) → app.pc k = some .finished

omit [Unicode] in
theorem inv_init : Inv {} where
  recorded := by
    intro k h
    cases h
  active := by
    intro k
    constructor
    · intro h
      cases h
    · intro ⟨pc, hpc, _⟩
      cases hpc
  terminal := by
    intro k record h
    cases h

omit [Unicode] in
/-- Where a run's task stands after a move. -/
theorem Moves.unfinished {app app' : App} {run_id k : PyStr} {record : RunRecord} {pc : TaskPc}
    (h : Moves app app' run_id record pc) :
    app'.Unfinished k ↔ if k = run_id then pc ≠ .finished else app.Unfinished k := by
  unfold Unfinished
  rw [h.pc k]
  by_cases hk : k = run_id
  · simp [hk]
  · simp [hk]

omit [Unicode] in
/-- The task of a run that was there moves. -/
theorem Moves.known {app app' : App} {run_id k : PyStr} {record : RunRecord} {pc : TaskPc}
    (h : Moves app app' run_id record pc) (hrun : app.Unfinished run_id) :
    (app'.pc k).isSome ↔ (app.pc k).isSome := by
  obtain ⟨pc₀, hpc, -⟩ := hrun
  rw [h.pc k]
  by_cases hk : k = run_id
  · rw [if_pos hk, hk, hpc]
    exact Iff.rfl
  · rw [if_neg hk]

omit [Unicode] in
theorem Moves.recorded {app app' : App} {run_id : PyStr} {record : RunRecord} {pc : TaskPc}
    (h : Moves app app' run_id record pc) (hP : app.Recorded) : app'.Recorded := by
  intro k hk
  rw [h.pc k] at hk
  rw [h.get k]
  by_cases hid : k = run_id
  · rw [if_pos hid]
    rfl
  · rw [if_neg hid] at hk ⊢
    exact hP k hk

omit [Unicode] in
theorem inv_step {app app' : App} {a : Act} (hP : Inv app) (hst : Stepped app a app') :
    Inv app' := by
  cases hst with
  | stays hsame =>
    rw [hsame]
    exact hP
  | accepted run_id raw_request _ hfree hmoves hactive =>
    -- a new record carries no envelope yet
    refine ⟨hmoves.recorded hP.recorded, ?_, ?_⟩
    · intro k
      rw [hactive, hmoves.unfinished]
      by_cases hk : k = run_id
      · simp [hk]
      · -- no other run was unfinished
        rw [if_neg hk, ← hP.active k, hfree]
        simp [Ne.symm hk]
    · intro k record hget hterm
      rw [hmoves.get k] at hget
      by_cases hk : k = run_id
      · rw [if_pos hk] at hget
        obtain ⟨e, he, -⟩ := hterm
        rw [← Option.some.inj hget] at he
        cases he
      · rw [if_neg hk] at hget
        rw [hmoves.pc k, if_neg hk]
        exact hP.terminal k record hget hterm
  | moved run_id record record' pc _ hrun hrecord hruns hmoves hpc hactive =>
    refine ⟨hmoves.recorded hP.recorded, ?_, ?_⟩
    · intro k
      rw [hactive, hmoves.unfinished]
      by_cases hk : k = run_id
      · rw [if_pos hk, hk]
        exact ⟨fun _ => hpc, fun _ => (hP.active run_id).mpr hrun⟩
      · rw [if_neg hk]
        exact hP.active k
    · intro k rec hget hterm
      rw [hmoves.get k] at hget
      by_cases hk : k = run_id
      · -- a terminal envelope would have been there before
        rw [if_pos hk] at hget
        obtain ⟨e, he, hterm⟩ := hterm
        rw [← Option.some.inj hget] at he
        have hfinished := hP.terminal run_id record hrecord ⟨e, hruns.quiet e he hterm, hterm⟩
        obtain ⟨pc₀, hpc₀, hne⟩ := hrun
        rw [hfinished] at hpc₀
        exact absurd (Option.some.inj hpc₀).symm hne
      · rw [if_neg hk] at hget
        rw [hmoves.pc k, if_neg hk]
        exact hP.terminal k rec hget hterm
  | ended run_id record record' _ hrun hrecord hends hmoves hactive =>
    -- the run that ends is the active one, so the slot is its to release
    have hheld : app.registry.active_run_id = some run_id := (hP.active run_id).mpr hrun
    rw [if_pos hheld] at hactive
    refine ⟨hmoves.recorded hP.recorded, ?_, ?_⟩
    · intro k
      rw [hactive, hmoves.unfinished]
      by_cases hk : k = run_id
      · simp [hk]
      · rw [if_neg hk, ← hP.active k, hheld]
        simp [Ne.symm hk]
    · intro k rec hget hterm
      rw [hmoves.pc k]
      by_cases hk : k = run_id
      · rw [if_pos hk]
      · rw [hmoves.get k, if_neg hk] at hget
        rw [if_neg hk]
        exact hP.terminal k rec hget hterm

theorem serve_inv (acts : List Act) : Inv (serve now acts) := by
  apply play_keeps
  · exact inv_init
  · intro app a hP
    exact inv_step hP (step_stepped now hP.recorded a)

omit [Unicode] in
/-- `create_run`, by whether the place is free. -/
theorem create_run_cases (app : App) (run_id raw_request : PyStr) :
    (app.registry.active_run_id = none ∧ (app.create_run run_id raw_request).1 = .ok run_id) ∨
    (∃ r, app.registry.active_run_id = some r ∧
      app.create_run run_id raw_request = (.conflict (some r), app)) := by
  cases hactive : app.registry.active_run_id with
  | none => exact Or.inl ⟨rfl, by simp [create_run, RunRegistry.try_start, hactive]⟩
  | some r => exact Or.inr ⟨r, rfl, by simp [create_run, RunRegistry.try_start, hactive]⟩

end step

end App

end Syndicate.Server
