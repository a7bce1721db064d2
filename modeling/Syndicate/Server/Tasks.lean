import Syndicate.Server.App

/-! # What a task of the server leaves

    The server takes a task from one await to the next, and other requests
    and tasks come in between.  A task reads and writes its own record only,
    so what it leaves is what `drive_run` leaves of the record, run from its
    start to its end. -/

namespace Syndicate.Server.App

open Py Framework

/-! ## Alone, a task is `drive_run` -/

section alone
variable [Unicode]

/-- The segment that ends the run. -/
def end_run (now : Nat → PyStr) : Ending → Driver Unit
  | .astream_raised exc | .aget_state_raised exc => fail_run now exc
  | .snapshot values => complete_run now values

/-- No emission raises. -/
theorem emit_event_val (now : Nat → PyStr) (kind : EventKind) (node : Option PyStr) (payload : Dict)
    (r : RunRecord) : (emit_event now kind node payload r).val = .ok () := by
  have hwp : (emit_event now kind node payload).wp (fun res _ _ => res = .ok ()) r := by
    apply wp_emit_event
    intro e r' _ _ _
    rfl
  exact hwp

theorem drive_updates_append (now : Nat → PyStr) (nodes nodes' : List (PyStr × PyVal))
    (r : RunRecord) :
    (drive_updates now (nodes ++ nodes') r).world =
      (drive_updates now nodes' (drive_updates now nodes r).world).world := by
  induction nodes generalizing r with
  | nil => rfl
  | cons n nodes ih =>
    have hval : (drive_node now n.1 n.2 r).val = .ok () := (drive_node_spec n.1 n.2 r).1
    have hcons : ∀ rest, (drive_updates now (n :: rest) r).world =
        (drive_updates now rest (drive_node now n.1 n.2 r).world).world :=
      fun rest => Prog.world_bind hval
    rw [List.cons_append, hcons, hcons]
    exact ih _

theorem start_run_world (now : Nat → PyStr) (r : RunRecord) :
    (start_run now r).world = (emit_event now .run_started none
      [(lit "raw_request", .str r.raw_request)] { r with status := .running }).world := by
  have hset : (set_status .running r).val = .ok () := rfl
  rw [start_run, Prog.world_bind hset]
  exact Prog.world_bind (b := r.raw_request) rfl

/-- `drive_run` is its segments, one after the other. -/
theorem drive_run_segments (now : Nat → PyStr) (graph : Dict → PyStr → GraphRun) (r : RunRecord) :
    let run := graph (build_initial_state r.run_id r.raw_request) r.run_id
    (drive_run now graph r).world = (end_run now run.ending
      (drive_updates now run.updates.flatten (start_run now r).world).world).world := by
  intro run
  have hval : (drive_updates now run.updates.flatten (start_run now r).world).val = .ok () :=
    (drive_updates_spec run.updates.flatten (start_run now r).world).1
  have hwp : (drive_run now graph).wp (fun _ r' _ => r' = (end_run now run.ending
      (drive_updates now run.updates.flatten (start_run now r).world).world).world) r := by
    simp only [drive_run, set_status, Prog.wp_bind, Prog.wp_update, Prog.andThen_ok]
    rw [Prog.wp_of_val (emit_event_val ..), Prog.andThen_ok, ← start_run_world]
    simp only [drive_graph, Prog.wp_bind, Prog.wp_attempt]
    rw [Prog.wp_of_val hval, Prog.andThen_ok]
    generalize (drive_updates now run.updates.flatten (start_run now r).world).world = driven
    cases run.ending with
    | astream_raised exc =>
      show (fail_run now exc driven).world = (fail_run now exc driven).world
      rfl
    | aget_state_raised exc =>
      show (fail_run now exc driven).world = (fail_run now exc driven).world
      rfl
    | snapshot values =>
      have hval' : (complete_run now values driven).val = .ok () := by
        rw [complete_run]
        exact emit_event_val ..
      show Prog.wp (complete_run now values) _ driven
      rw [Prog.wp_of_val hval', Prog.andThen_ok]
      rfl
  exact hwp

end alone

/-- The acts that end a task. -/
def ending_acts (run_id : PyStr) : Ending → List Act
  | .astream_raised exc => [.raised run_id exc]
  | .aget_state_raised exc => [.exhausted run_id, .raised run_id exc]
  | .snapshot values => [.exhausted run_id, .snapshot run_id values]

/-- The acts of a task whose graph behaves as `run`. -/
def task_acts (run_id : PyStr) (run : GraphRun) : List Act :=
  .start run_id :: (run.updates.map (Act.update run_id) ++ ending_acts run_id run.ending)

section step
variable [Unicode] (now : PyStr → Nat → PyStr)

/-! ## What a task leaves, whatever the others do -/

/-- The two agree on one run. -/
def Agree (run_id : PyStr) (app app' : App) : Prop :=
  app.registry.get run_id = app'.registry.get run_id ∧ app.pc run_id = app'.pc run_id

omit [Unicode] in
theorem pc_goto (app : App) (run_id : PyStr) (pc : TaskPc) :
    (app.goto run_id pc).pc run_id = some pc := by
  have hset := lookup_setItem app.tasks run_id run_id pc
  rw [if_pos rfl] at hset
  exact hset

omit [Unicode] in
/-- Where the segment leads, from the record that the registry has. -/
theorem drive_own (app : App) {run_id : PyStr} {record : RunRecord} (segment : Driver Unit)
    (pc : TaskPc) (h : app.registry.get run_id = some record) :
    (app.drive run_id segment pc).registry.get run_id = some (segment record).world ∧
      (app.drive run_id segment pc).pc run_id = some pc := by
  obtain ⟨hmoves, -⟩ := moves_drive app segment pc h
  have hget := hmoves.get run_id
  have hpc := hmoves.pc run_id
  rw [if_pos rfl] at hget hpc
  exact ⟨hget, hpc⟩

omit [Unicode] in
theorem Agree.drive {run_id : PyStr} {app app' : App} (h : Agree run_id app app')
    (segment : Driver Unit) (pc : TaskPc) :
    Agree run_id (app.drive run_id segment pc) (app'.drive run_id segment pc) := by
  cases hget : app'.registry.get run_id with
  | none =>
    have hget' := h.1.trans hget
    unfold App.drive
    rw [hget, hget']
    exact h
  | some record =>
    obtain ⟨hrecord, hpc⟩ := drive_own app segment pc (h.1.trans hget)
    obtain ⟨hrecord', hpc'⟩ := drive_own app' segment pc hget
    exact ⟨hrecord.trans hrecord'.symm, hpc.trans hpc'.symm⟩

omit [Unicode] in
theorem Agree.goto {run_id : PyStr} {app app' : App} (h : Agree run_id app app') (pc : TaskPc) :
    Agree run_id (app.goto run_id pc) (app'.goto run_id pc) :=
  ⟨h.1, (pc_goto app run_id pc).trans (pc_goto app' run_id pc).symm⟩

omit [Unicode] in
theorem Agree.release {run_id : PyStr} {app app' : App} (h : Agree run_id app app') :
    Agree run_id (app.release run_id) (app'.release run_id) :=
  ⟨((app.registry.get_finish run_id run_id).trans h.1).trans
    (app'.registry.get_finish run_id run_id).symm, h.2⟩

/-- A task reads and writes what is its own. -/
theorem Agree.step {run_id : PyStr} {app app' : App} (h : Agree run_id app app') {a : Act}
    (ha : a.run_id = run_id) (hpost : a.drawn = none) :
    Agree run_id (app.step now a) (app'.step now a) := by
  subst ha
  have hpc := h.2
  cases a with
  | post _ _ => cases hpost
  | start run_id | update run_id nodes | exhausted run_id | snapshot run_id values | raised run_id exc
  | cancelled run_id =>
    simp only [App.step, Act.run_id] at h hpc ⊢
    rw [hpc]
    split
    · first
      | exact h.drive _ _
      | exact h.goto _
      | exact (h.drive _ _).release
      | exact (h.goto _).release
    · exact h

omit [Unicode] in
/-- An act of another run is nothing to this one. -/
theorem Stepped.agree {app app' : App} {a : Act} (hst : Stepped app a app') {r : PyStr}
    (hne : a.run_id ≠ r) : Agree r app' app := by
  have hmoved : ∀ {k record pc}, Moves app app' k record pc → a.run_id = k → Agree r app' app := by
    intro k record pc hmoves ha
    have hk : r ≠ k := fun heq => hne (ha.trans heq.symm)
    refine ⟨?_, ?_⟩
    · rw [hmoves.get r, if_neg hk]
    · rw [hmoves.pc r, if_neg hk]
  cases hst with
  | stays hsame =>
    rw [hsame]
    exact ⟨rfl, rfl⟩
  | accepted k raw_request ha _ hmoves _ => exact hmoved hmoves (by rw [ha, Act.run_id])
  | moved k _ _ _ ha _ _ _ hmoves _ _ => exact hmoved hmoves ha
  | ended k _ _ ha _ _ _ hmoves _ => exact hmoved hmoves ha

/-- A task goes the same way with the acts of the others and without. -/
theorem play_own {run_id : PyStr} (acts : List Act)
    (hpost : ∀ a ∈ acts, a.run_id = run_id → a.drawn = none) {app app' : App} (hP : Inv app)
    (h : Agree run_id app app') :
    Agree run_id (play (step now) app acts)
      (play (step now) app' (acts.filter (·.run_id = run_id))) := by
  induction acts generalizing app app' with
  | nil => exact h
  | cons a acts ih =>
    have hst := step_stepped now hP.recorded a
    have hrest : ∀ b ∈ acts, b.run_id = run_id → b.drawn = none :=
      fun b hb => hpost b (List.mem_cons_of_mem a hb)
    by_cases ha : a.run_id = run_id
    · rw [List.filter_cons_of_pos (by simpa using ha)]
      exact ih hrest (inv_step hP hst) (h.step now ha (hpost a List.mem_cons_self ha))
    · rw [List.filter_cons_of_neg (by simpa using ha)]
      have hsame := hst.agree ha
      exact ih hrest (inv_step hP hst) ⟨hsame.1.trans h.1, hsame.2.trans h.2⟩

theorem play_updates {run_id : PyStr} (updates : List (List (PyStr × PyVal))) {app : App}
    {record : RunRecord} (hpc : app.pc run_id = some .iterating)
    (hget : app.registry.get run_id = some record) :
    let app' := play (step now) app (updates.map (Act.update run_id))
    app'.pc run_id = some .iterating ∧ app'.registry.get run_id =
      some (drive_updates (now run_id) updates.flatten record).world := by
  induction updates generalizing app record with
  | nil => exact ⟨hpc, hget⟩
  | cons nodes updates ih =>
    obtain ⟨hget', hpc'⟩ := drive_own app (drive_updates (now run_id) nodes) .iterating hget
    have hstep : app.step now (.update run_id nodes) =
        app.drive run_id (drive_updates (now run_id) nodes) .iterating := if_pos hpc
    have hrest := ih hpc' hget'
    rw [← hstep, ← drive_updates_append, ← List.flatten_cons] at hrest
    exact hrest

omit [Unicode] in
/-- Where the segment that ends the run leads. -/
theorem ended_own (app : App) {run_id : PyStr} {record : RunRecord} (segment : Driver Unit)
    (h : app.registry.get run_id = some record) :
    let app' := (app.drive run_id segment .finished).release run_id
    app'.pc run_id = some .finished ∧ app'.registry.get run_id = some (segment record).world := by
  obtain ⟨hget, hpc⟩ := drive_own app segment .finished h
  exact ⟨hpc, (RunRegistry.get_finish _ run_id run_id).trans hget⟩

theorem play_ending {run_id : PyStr} (ending : Ending) {app : App} {record : RunRecord}
    (hpc : app.pc run_id = some .iterating) (hget : app.registry.get run_id = some record) :
    let app' := play (step now) app (ending_acts run_id ending)
    app'.pc run_id = some .finished ∧
      app'.registry.get run_id = some (end_run (now run_id) ending record).world := by
  have hexhausted : app.step now (.exhausted run_id) = app.goto run_id .reading := if_pos hpc
  have hpc' : (app.goto run_id .reading).pc run_id = some .reading := pc_goto app run_id .reading
  cases ending with
  | astream_raised exc =>
    have hraised : app.step now (.raised run_id exc) =
        (app.drive run_id (fail_run (now run_id) exc) .finished).release run_id := if_pos (Or.inl hpc)
    show (app.step now (.raised run_id exc)).pc run_id = _ ∧
      (app.step now (.raised run_id exc)).registry.get run_id = _
    rw [hraised]
    exact ended_own app _ hget
  | aget_state_raised exc =>
    have hraised : (app.goto run_id .reading).step now (.raised run_id exc) =
        ((app.goto run_id .reading).drive run_id (fail_run (now run_id) exc) .finished).release run_id :=
      if_pos (Or.inr hpc')
    show ((app.step now (.exhausted run_id)).step now (.raised run_id exc)).pc run_id = _ ∧
      ((app.step now (.exhausted run_id)).step now (.raised run_id exc)).registry.get run_id = _
    rw [hexhausted, hraised]
    exact ended_own (app.goto run_id .reading) _ hget
  | snapshot values =>
    have hsnapshot : (app.goto run_id .reading).step now (.snapshot run_id values) =
        ((app.goto run_id .reading).drive run_id (complete_run (now run_id) values) .finished).release
          run_id := if_pos hpc'
    show ((app.step now (.exhausted run_id)).step now (.snapshot run_id values)).pc run_id = _ ∧
      ((app.step now (.exhausted run_id)).step now (.snapshot run_id values)).registry.get run_id = _
    rw [hexhausted, hsnapshot]
    exact ended_own (app.goto run_id .reading) _ hget

/-- Alone, a task leaves the record that `drive_run` leaves. -/
theorem play_task {run_id : PyStr} (graph : Dict → PyStr → GraphRun) {app : App} {record : RunRecord}
    (hpc : app.pc run_id = some .created) (hget : app.registry.get run_id = some record) :
    let run := graph (build_initial_state record.run_id record.raw_request) record.run_id
    let app' := play (step now) app (task_acts run_id run)
    app'.pc run_id = some .finished ∧
      app'.registry.get run_id = some (drive_run (now run_id) graph record).world := by
  intro run app'
  obtain ⟨hget₁, hpc₁⟩ := drive_own app (start_run (now run_id)) .iterating hget
  have hstart : app.step now (.start run_id) = app.drive run_id (start_run (now run_id)) .iterating :=
    if_pos hpc
  obtain ⟨hpc₂, hget₂⟩ := play_updates now run.updates hpc₁ hget₁
  have happ' : app' = play (step now) (play (step now) (app.step now (.start run_id))
      (run.updates.map (Act.update run_id))) (ending_acts run_id run.ending) := play_append
  rw [happ', hstart, drive_run_segments]
  exact play_ending now run.ending hpc₂ hget₂

omit [Unicode] in
/-- No task posts. -/
theorem drawn_task_acts {run_id : PyStr} {run : GraphRun} {a : Act} (h : a ∈ task_acts run_id run) :
    a.drawn = none := by
  rcases List.mem_cons.mp h with rfl | h
  · rfl
  · rcases List.mem_append.mp h with h | h
    · obtain ⟨nodes, -, rfl⟩ := List.mem_map.mp h
      rfl
    · cases hend : run.ending with
      | astream_raised exc =>
        rw [hend] at h
        rw [List.mem_singleton.mp h]
        rfl
      | aget_state_raised exc | snapshot values =>
        rw [hend] at h
        rcases List.mem_cons.mp h with rfl | h
        · rfl
        · rw [List.mem_singleton.mp h]
          rfl

/-- **Interleaving**: whatever requests and other tasks come between its
    acts, an accepted run ends with the record that `drive_run` leaves. -/
theorem serve_drive_run {pre acts : List Act} {run_id raw_request : PyStr}
    (graph : Dict → PyStr → GraphRun)
    (hok : ((serve now pre).create_run run_id raw_request).1 = .ok run_id)
    (hown : acts.filter (·.run_id = run_id) =
      task_acts run_id (graph (build_initial_state run_id raw_request) run_id)) :
    (serve now (pre ++ .post run_id raw_request :: acts)).registry.get run_id =
      some (drive_run (now run_id) graph (RunRecord.new run_id raw_request)).world := by
  have hP := serve_inv now pre
  generalize happ : serve now pre = app at hok hP
  have hserve : serve now (pre ++ .post run_id raw_request :: acts) =
      play (step now) (app.step now (.post run_id raw_request)) acts := by
    rw [← happ]
    exact play_append
  have hst := step_stepped now hP.recorded (.post run_id raw_request)
  -- the run starts from a new record
  have hnew : (app.step now (.post run_id raw_request)).pc run_id = some .created ∧
      (app.step now (.post run_id raw_request)).registry.get run_id =
        some (RunRecord.new run_id raw_request) := by
    rcases create_run_cases app run_id raw_request with ⟨hfree, -⟩ | ⟨r, -, hconflict⟩
    · simp [step, create_run, RunRegistry.try_start, hfree, RunRegistry.get, pc, lookup_setItem]
    · rw [hconflict] at hok
      cases hok
  have hpost : ∀ a ∈ acts, a.run_id = run_id → a.drawn = none := by
    intro a ha hid
    have hmem : a ∈ task_acts run_id (graph (build_initial_state run_id raw_request) run_id) := by
      rw [← hown]
      exact List.mem_filter.mpr ⟨ha, by simpa using hid⟩
    exact drawn_task_acts hmem
  obtain ⟨hget, -⟩ := play_own now acts hpost (inv_step hP hst) ⟨rfl, rfl⟩
  rw [hserve, hget, hown]
  exact (play_task now graph hnew.1 hnew.2).2

end step

end Syndicate.Server.App
