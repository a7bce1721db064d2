import Syndicate.Framework.Simulation
import Syndicate.Server.Sourcing

/-! # The whole server

    The registry and its tasks, and every connection of every viewer.  They
    meet in the records: a task appends and sets `new_event`, a connection
    reads and clears it.

    * `Site.step`: one act of a task, of a request or of a connection.
    * `Hides`: the server without its viewers is an `App`. -/

namespace Syndicate.Server

open Py Framework

/-! ## The state and its acts -/

structure Site where
  app : App := {}
  /-- The connections to each run, as they were opened. -/
  viewers : PyStr → List Conn := fun _ => []

/-- What a viewer, or the event loop for it, does. -/
inductive Viewing where
  /-- `GET /runs/{run_id}/stream?after=..`. -/
  | stream (after : Int)
  | resume (i : Nat)
  | timeout (i : Nat)
  | close (i : Nat)

/-- The same, among the acts of a stream. -/
def Viewing.act : Viewing → Act
  | .stream after => .connect after
  | .resume i => .resume i
  | .timeout i => .timeout i
  | .close i => .close i

namespace Site

inductive Act where
  | app (a : App.Act)
  | viewer (run_id : PyStr) (v : Viewing)

/-- Is the event of the run set? -/
def event_set (app : App) (run_id : PyStr) : Bool :=
  (app.registry.get run_id).any RunRecord.new_event

/-- What the connections of a run see: its record and each other. -/
def view (record : RunRecord) (conns : List Conn) : Stream where
  record := record
  conns := conns

/-- A request for a stream, or a step of an `event_source`. -/
def viewer_step (site : Site) (run_id : PyStr) (v : Viewing) : Site :=
  match site.app.registry.get run_id with
  -- `404`
  | none => site
  | some record =>
    let seen := Server.step (view record (site.viewers run_id)) v.act
    { app := { site.app with registry := site.app.registry.write run_id seen.record }
      viewers := Function.update site.viewers run_id seen.conns }

section step
variable [Unicode] (now : PyStr → Nat → PyStr)

/-- One act.  A segment that sets the event wakes whoever waits for it, once:
    nobody runs until the segment ends. -/
def step (site : Site) : Act → Site
  | .app a =>
    let app := site.app.step now a
    { app := app
      viewers :=
        if event_set app a.run_id && !event_set site.app a.run_id then
          Function.update site.viewers a.run_id ((site.viewers a.run_id).map Conn.wake)
        else site.viewers }
  | .viewer run_id v => site.viewer_step run_id v

/-- The server after a schedule. -/
def serve (acts : List Act) : Site := play (step now) {} acts

end step

/-! ## Without its viewers -/

/-- The two records differ in `new_event` at most. -/
def Same (r r' : RunRecord) : Prop :=
  { r with new_event := false } = { r' with new_event := false }

theorem Same.refl (r : RunRecord) : Same r r := rfl

theorem Same.symm {r r' : RunRecord} (h : Same r r') : Same r' r := Eq.symm h

/-- The two servers differ in the events of their records at most. -/
structure Hides (app app' : App) : Prop where
  active : app.registry.active_run_id = app'.registry.active_run_id
  tasks : app.tasks = app'.tasks
  records : ∀ k, Option.Rel Same (app.registry.get k) (app'.registry.get k)

theorem Hides.refl (app : App) : Hides app app := by
  refine ⟨rfl, rfl, ?_⟩
  intro k
  cases app.registry.get k with
  | none => exact .none
  | some record => exact .some (Same.refl record)

section segments
variable [Unicode] {now : Nat → PyStr}

/-- Programs that do the same whatever the event is. -/
abbrev Deaf {α : Type} (m : Driver α) : Prop := Prog.Follows Same id m m

omit [Unicode] in
theorem Same.fields {r r' : RunRecord} (h : Same r r') :
    ∃ b, r' = { r with new_event := b } := by
  obtain ⟨run_id, raw_request, status, backlog, new_event, seq_counter, len, count, last⟩ := r
  obtain ⟨run_id', raw_request', status', backlog', new_event', seq_counter', len', count', last'⟩ := r'
  simp only [Same, RunRecord.mk.injEq] at h
  obtain ⟨rfl, rfl, rfl, rfl, -, rfl, rfl, rfl, rfl⟩ := h
  exact ⟨new_event', rfl⟩

omit [Unicode] in
theorem deaf_update {α : Type} {f : RunRecord → α × RunRecord}
    (h : ∀ r b, (f { r with new_event := b }).1 = (f r).1 ∧ Same (f r).2 (f { r with new_event := b }).2) :
    Deaf (Prog.update f : Driver α) := by
  apply Prog.follows_update
  intro r r' hsame
  obtain ⟨b, rfl⟩ := hsame.fields
  exact ⟨(h r b).1.symm, (h r b).2⟩

theorem deaf_emit_event (kind : EventKind) (node : Option PyStr) (payload : Dict) :
    Deaf (emit_event now kind node payload) := by
  have hnext_seq : Deaf (Prog.update RunRecord.next_seq : Driver Nat) := by
    apply deaf_update
    intro r b
    exact ⟨rfl, rfl⟩
  have hrun_id : Deaf (Prog.update fun record => (record.run_id, record) : Driver PyStr) := by
    apply deaf_update
    intro r b
    exact ⟨rfl, rfl⟩
  apply Prog.follows_bind hnext_seq
  intro seq
  apply Prog.follows_bind hrun_id
  intro run_id
  apply Prog.follows_bind (Prog.follows_ofExcept _)
  intro envelope
  apply Prog.follows_call
  · intro r r' hsame
    obtain ⟨b, rfl⟩ := hsame.fields
    exact ⟨rfl, rfl⟩
  · intro _ _ _ _ _ _ _
    rfl

omit [Unicode] in
theorem deaf_set_status (status : RunStatusLiteral) : Deaf (set_status status) := by
  apply deaf_update
  intro r b
  exact ⟨rfl, rfl⟩

theorem deaf_emit_attempts (node : PyStr) (attempts : List Dict) :
    Deaf (emit_attempts now node attempts) := by
  induction attempts with
  | nil => exact Prog.follows_pure ()
  | cons attempt attempts ih =>
    apply Prog.follows_bind (deaf_emit_event _ _ _)
    intro _
    exact ih

theorem deaf_extract_attempts (node : PyStr) (delta : Dict) :
    Deaf (Prog.update (extract_attempts node delta) : Driver (List Dict)) := by
  apply deaf_update
  intro r b
  unfold extract_attempts
  repeat' split
  all_goals exact ⟨rfl, rfl⟩

omit [Unicode] in
theorem deaf_extract_escalation (delta : Dict) :
    Deaf (Prog.update (extract_escalation delta) : Driver (Option Dict)) := by
  apply deaf_update
  intro r b
  unfold extract_escalation
  dsimp only
  repeat' split
  all_goals exact ⟨rfl, rfl⟩

theorem deaf_drive_node (node : PyStr) (raw_delta : PyVal) : Deaf (drive_node now node raw_delta) := by
  apply Prog.follows_bind (deaf_emit_event _ _ _)
  intro _
  apply Prog.follows_bind (deaf_extract_attempts node _)
  intro attempts
  apply Prog.follows_bind (deaf_emit_attempts node attempts)
  intro _
  apply Prog.follows_bind (deaf_extract_escalation _)
  intro escalation_payload
  cases escalation_payload with
  | none => exact Prog.follows_pure ()
  | some payload => exact deaf_emit_event _ _ _

theorem deaf_drive_updates (nodes : List (PyStr × PyVal)) : Deaf (drive_updates now nodes) := by
  induction nodes with
  | nil => exact Prog.follows_pure ()
  | cons n nodes ih =>
    apply Prog.follows_bind (deaf_drive_node n.1 n.2)
    intro _
    exact ih

theorem deaf_start_run : Deaf (start_run now) := by
  apply Prog.follows_bind (deaf_set_status .running)
  intro _
  have hraw_request : Deaf (Prog.update fun record => (record.raw_request, record) : Driver PyStr) := by
    apply deaf_update
    intro r b
    exact ⟨rfl, rfl⟩
  apply Prog.follows_bind hraw_request
  intro raw_request
  exact deaf_emit_event _ _ _

theorem deaf_complete_run (values : Option Dict) : Deaf (complete_run now values) := by
  apply Prog.follows_bind (deaf_set_status _)
  intro _
  exact deaf_emit_event _ _ _

theorem deaf_fail_run (exc : PyExc) : Deaf (fail_run now exc) := by
  apply Prog.follows_bind (deaf_set_status .failed)
  intro _
  exact deaf_emit_event _ _ _

end segments

section step
variable [Unicode] (now : PyStr → Nat → PyStr)

theorem deaf_segment (app : App) (a : App.Act) : Deaf (app.segment now a) := by
  cases a with
  | post _ _ | exhausted _ | cancelled _ => exact Prog.follows_pure ()
  | start run_id =>
    simp only [App.segment]
    exact Prog.follows_ite deaf_start_run (Prog.follows_pure ())
  | update run_id nodes =>
    simp only [App.segment]
    exact Prog.follows_ite (deaf_drive_updates nodes) (Prog.follows_pure ())
  | snapshot run_id values =>
    simp only [App.segment]
    exact Prog.follows_ite (deaf_complete_run values) (Prog.follows_pure ())
  | raised run_id exc =>
    simp only [App.segment]
    exact Prog.follows_ite (deaf_fail_run exc) (Prog.follows_pure ())

omit [Unicode] in
theorem Hides.pc {app app' : App} (h : Hides app app') (k : PyStr) : app.pc k = app'.pc k := by
  rw [App.pc, App.pc, h.tasks]

theorem Hides.segment {app app' : App} (h : Hides app app') (a : App.Act) :
    app.segment now a = app'.segment now a := by
  cases a with
  | post _ _ | exhausted _ | cancelled _ => rfl
  | start run_id | update run_id _ | snapshot run_id _ | raised run_id _ =>
    simp only [App.segment, h.pc]

/-- The two servers have the same tasks and the same active run. -/
def Paced (app app' : App) : Prop :=
  app.registry.active_run_id = app'.registry.active_run_id ∧ app.tasks = app'.tasks

omit [Unicode] in
theorem Paced.goto {app app' : App} (h : Paced app app') (run_id : PyStr) (pc : TaskPc) :
    Paced (app.goto run_id pc) (app'.goto run_id pc) := by
  refine ⟨h.1, ?_⟩
  show setItem app.tasks run_id pc = setItem app'.tasks run_id pc
  rw [h.2]

omit [Unicode] in
theorem Paced.release {app app' : App} (h : Paced app app') (run_id : PyStr) :
    Paced (app.release run_id) (app'.release run_id) := by
  refine ⟨?_, h.2⟩
  show (app.registry.finish run_id).active_run_id = (app'.registry.finish run_id).active_run_id
  rw [RunRegistry.active_finish, RunRegistry.active_finish, h.1]

omit [Unicode] in
theorem Hides.drive {app app' : App} (h : Hides app app') (run_id : PyStr) (segment segment' : Driver Unit)
    (pc : TaskPc) : Paced (app.drive run_id segment pc) (app'.drive run_id segment' pc) := by
  have hpaced : Paced app app' := ⟨h.active, h.tasks⟩
  have hrecord := h.records run_id
  unfold App.drive
  generalize app.registry.get run_id = found at hrecord
  generalize app'.registry.get run_id = found' at hrecord
  cases hrecord with
  | none => exact hpaced
  | @some r _ _ =>
    have hwritten : Paced { app with registry := app.registry.write run_id (segment r).world } _ :=
      hpaced
    exact hwritten.goto run_id pc

omit [Unicode] in
/-- A request is accepted iff it finds the place free. -/
theorem accepted_iff {app : App} {run_id raw_request : PyStr} :
    (app.create_run run_id raw_request).1 = .ok run_id ↔ app.registry.active_run_id = none := by
  rcases App.create_run_cases app run_id raw_request with ⟨hfree, hresponse⟩ | ⟨r, hactive, hbusy⟩
  · simp [hfree, hresponse]
  · simp [hactive, hbusy]

/-- A request that finds the place free. -/
theorem post_free {app : App} (h : app.registry.active_run_id = none) {run_id raw_request : PyStr} :
    app.step now (.post run_id raw_request) =
      { registry := { runs := setItem app.registry.runs run_id (.new run_id raw_request)
                      active_run_id := some run_id }
        tasks := setItem app.tasks run_id .created } := by
  simp [App.step, App.create_run, RunRegistry.try_start, h]

/-- A request that is answered `409`. -/
theorem post_busy {app : App} {r : PyStr} (h : app.registry.active_run_id = some r)
    {run_id raw_request : PyStr} : app.step now (.post run_id raw_request) = app := by
  simp [App.step, App.create_run, RunRegistry.try_start, h]

/-- Which task moves, and whether its place is given back, is decided without
    looking at the events. -/
theorem Hides.paced {app app' : App} (h : Hides app app') (a : App.Act) :
    Paced (app.step now a) (app'.step now a) := by
  have hpaced : Paced app app' := ⟨h.active, h.tasks⟩
  cases a with
  | post run_id raw_request =>
    cases hactive : app.registry.active_run_id with
    | some r =>
      rw [post_busy now hactive, post_busy now (h.active ▸ hactive)]
      exact hpaced
    | none =>
      rw [post_free now hactive, post_free now (h.active ▸ hactive), h.tasks]
      exact ⟨rfl, rfl⟩
  | start run_id | update run_id nodes | exhausted run_id | snapshot run_id values | raised run_id exc
  | cancelled run_id =>
    simp only [App.step, h.pc]
    split
    · first
      | exact h.drive _ _ _ _
      | exact hpaced.goto _ _
      | exact (h.drive _ _ _ _).release _
      | exact (hpaced.goto _ _).release _
    · exact hpaced

/-- An act of a task or of a request does the same with the viewers and
    without. -/
theorem Hides.step {app app' : App} (h : Hides app app') (a : App.Act) :
    Hides (app.step now a) (app'.step now a) := by
  obtain ⟨hactive, htasks⟩ := h.paced now a
  refine ⟨hactive, htasks, ?_⟩
  intro k
  by_cases hpost : a.drawn = none
  · rw [App.get_step now app hpost, App.get_step now app' hpost]
    by_cases hk : k = a.run_id
    · rw [if_pos hk, if_pos hk, ← h.segment now a]
      have hrecord := h.records a.run_id
      generalize app.registry.get a.run_id = found at hrecord
      generalize app'.registry.get a.run_id = found' at hrecord
      cases hrecord with
      | none => exact .none
      | some hsame => exact .some (deaf_segment now app a _ _ hsame).2.1
    · rw [if_neg hk, if_neg hk]
      exact h.records k
  · -- a new record is the same in both
    cases a with
    | post run_id raw_request =>
      cases hactive' : app.registry.active_run_id with
      | some r =>
        rw [post_busy now hactive', post_busy now (h.active ▸ hactive')]
        exact h.records k
      | none =>
        rw [post_free now hactive', post_free now (h.active ▸ hactive')]
        simp only [RunRegistry.get, lookup_setItem]
        split
        · exact .some (Same.refl _)
        · exact h.records k
    | start _ | update _ _ | exhausted _ | snapshot _ _ | raised _ _ | cancelled _ =>
      exact absurd rfl hpost

omit [Unicode] in
/-- A connection changes the event of its record, and nothing else. -/
theorem viewer_same (record : RunRecord) (conns : List Conn) (v : Viewing) :
    Same record (Server.step (view record conns) v.act).record := by
  cases v with
  | stream after | timeout i | close i => exact Same.refl record
  | resume i =>
    show Same record (if (view record conns).clears i then _ else _)
    split
    · rfl
    · exact Same.refl record

omit [Unicode] in
theorem Hides.viewer {site : Site} {app' : App} (h : Hides site.app app') (run_id : PyStr)
    (v : Viewing) : Hides (site.viewer_step run_id v).app app' := by
  unfold viewer_step
  cases hget : site.app.registry.get run_id with
  | none => exact h
  | some record =>
    refine ⟨h.active, h.tasks, ?_⟩
    intro k
    show Option.Rel Same ((site.app.registry.write run_id _).get k) _
    have hrecord := h.records k
    rw [RunRegistry.get_write]
    by_cases hk : k = run_id
    · rw [hk, hget] at hrecord
      rw [if_pos hk, hk]
      generalize app'.registry.get run_id = found' at hrecord
      cases hrecord with
      | some hsame => exact .some ((viewer_same record _ v).symm.trans hsame)
    · rw [if_neg hk]
      exact hrecord

/-- The acts of the tasks and of the requests. -/
def Act.own : Act → List App.Act
  | .app a => [a]
  | .viewer _ _ => []

/-- **Viewers disturb nothing**: whatever they do, and in whatever order with
    the tasks, the server without them is the `App`. -/
theorem hides_serve (acts : List Act) :
    Hides (serve now acts).app (App.serve now (acts.flatMap Act.own)) := by
  have htranslated : acts.flatMap Act.own =
      translated (step now) (fun _ a => Act.own a) {} acts := by
    generalize ({} : Site) = site
    induction acts generalizing site with
    | nil => rfl
    | cons a acts ih => rw [List.flatMap_cons, translated, ih]
  rw [htranslated]
  apply play_simulates (R := fun site app => Hides (Site.app site) app)
  · intro site app a _ h
    cases a with
    | app a => exact h.step now a
    | viewer run_id v => exact h.viewer run_id v
  · exact ⟨rfl, rfl, fun _ => .none⟩

omit [Unicode] in
/-- What holds of the server without its viewers holds with them. -/
theorem Hides.inv {app app' : App} (h : Hides app app') (hP : app'.Inv) : app.Inv := by
  have hsome : ∀ k, (app.registry.get k).isSome = (app'.registry.get k).isSome := by
    intro k
    have hrecord := h.records k
    generalize app.registry.get k = found at hrecord
    generalize app'.registry.get k = found' at hrecord
    cases hrecord with
    | none => rfl
    | some _ => rfl
  constructor
  · intro k hk
    rw [h.pc k] at hk
    rw [hsome k]
    exact hP.recorded k hk
  · intro k
    rw [h.active, App.Unfinished, h.pc k]
    exact hP.active k
  · intro k record hget hterm
    have hrecord := h.records k
    rw [hget] at hrecord
    cases hget' : app'.registry.get k with
    | none =>
      rw [hget'] at hrecord
      cases hrecord
    | some record' =>
      rw [hget'] at hrecord
      cases hrecord with
      | some hsame =>
        obtain ⟨b, rfl⟩ := hsame.fields
        rw [h.pc k]
        exact hP.terminal k _ hget' hterm

theorem serve_inv (acts : List Act) : (serve now acts).app.Inv :=
  (hides_serve now acts).inv (App.serve_inv now _)

end step

end Site

end Syndicate.Server
