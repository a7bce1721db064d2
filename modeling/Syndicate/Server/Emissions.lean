import Syndicate.Server.Viewers

/-! # What a run emits

    A run's envelopes are emitted one segment at a time, and anything may
    happen in between.  Put together they are those that `drive_run` emits,
    run from its start to its end. -/

namespace Syndicate.Server

open Py Framework

namespace App

section step
variable [Unicode] (now : PyStr → Nat → PyStr)

/-- The envelopes that one run emits over a schedule. -/
def emissions (run_id : PyStr) (app : App) (acts : List Act) : List Envelope :=
  translated (step now) (fun app a => if a.run_id = run_id then app.emitted now a else []) app acts

theorem emissions_cons (run_id : PyStr) (app : App) (a : Act) (acts : List Act) :
    emissions now run_id app (a :: acts) =
      (if a.run_id = run_id then app.emitted now a else []) ++
        emissions now run_id (app.step now a) acts := rfl

theorem emissions_mine {run_id : PyStr} {app : App} {a : Act} {acts : List Act} (ha : a.run_id = run_id) :
    emissions now run_id app (a :: acts) =
      app.emitted now a ++ emissions now run_id (app.step now a) acts := by
  rw [emissions_cons, if_pos ha]

theorem emissions_append (run_id : PyStr) (app : App) (acts acts' : List Act) :
    emissions now run_id app (acts ++ acts') =
      emissions now run_id app acts ++ emissions now run_id (play (step now) app acts) acts' :=
  translated_append app acts acts'

/-! ## Whatever the others do -/

theorem Agree.segment {run_id : PyStr} {app app' : App} (h : Agree run_id app app') {a : Act}
    (ha : a.run_id = run_id) : app.segment now a = app'.segment now a := by
  subst ha
  have hpc := h.2
  cases a with
  | post _ _ | exhausted _ | cancelled _ => rfl
  | start run_id | update run_id _ | snapshot run_id _ | raised run_id _ =>
    simp only [Act.run_id] at hpc
    simp only [App.segment, hpc]

theorem Agree.emitted {run_id : PyStr} {app app' : App} (h : Agree run_id app app') {a : Act}
    (ha : a.run_id = run_id) : app.emitted now a = app'.emitted now a := by
  have hget : app.registry.get a.run_id = app'.registry.get a.run_id := by
    rw [ha]
    exact h.1
  rw [App.emitted, App.emitted, hget, h.segment now ha]

/-- A task emits the same with the acts of the others and without. -/
theorem emissions_own {run_id : PyStr} (acts : List Act)
    (hpost : ∀ a ∈ acts, a.run_id = run_id → a.drawn = none) {app app' : App} (hP : Inv app)
    (h : Agree run_id app app') :
    emissions now run_id app acts = emissions now run_id app' (acts.filter (·.run_id = run_id)) := by
  induction acts generalizing app app' with
  | nil => rfl
  | cons a acts ih =>
    have hst := step_stepped now hP.recorded a
    have hrest : ∀ b ∈ acts, b.run_id = run_id → b.drawn = none :=
      fun b hb => hpost b (List.mem_cons_of_mem a hb)
    rw [emissions_cons]
    by_cases ha : a.run_id = run_id
    · rw [List.filter_cons_of_pos (by simpa using ha), emissions_cons, if_pos ha, if_pos ha,
        h.emitted now ha]
      congr 1
      exact ih hrest (inv_step hP hst) (h.step now ha (hpost a List.mem_cons_self ha))
    · rw [List.filter_cons_of_neg (by simpa using ha), if_neg ha, List.nil_append]
      have hsame := hst.agree ha
      exact ih hrest (inv_step hP hst) ⟨hsame.1.trans h.1, hsame.2.trans h.2⟩

/-! ## Alone -/

theorem drive_updates_events (now : Nat → PyStr) (nodes nodes' : List (PyStr × PyVal))
    (r : RunRecord) :
    (drive_updates now (nodes ++ nodes') r).events = (drive_updates now nodes r).events ++
      (drive_updates now nodes' (drive_updates now nodes r).world).events := by
  induction nodes generalizing r with
  | nil => rfl
  | cons n nodes ih =>
    have hval : (drive_node now n.1 n.2 r).val = .ok () := (drive_node_spec n.1 n.2 r).1
    have hcons : ∀ rest, (drive_updates now (n :: rest) r).events = (drive_node now n.1 n.2 r).events ++
        (drive_updates now rest (drive_node now n.1 n.2 r).world).events :=
      fun rest => Prog.events_bind hval
    have hworld : (drive_updates now (n :: nodes) r).world =
        (drive_updates now nodes (drive_node now n.1 n.2 r).world).world := Prog.world_bind hval
    rw [List.cons_append, hcons, hcons, ih, hworld, List.append_assoc]

theorem start_run_events (now : Nat → PyStr) (r : RunRecord) :
    (start_run now r).events = (emit_event now .run_started none
      [(lit "raw_request", .str r.raw_request)] { r with status := .running }).events := by
  have hset : (set_status .running r).val = .ok () := rfl
  rw [start_run, Prog.events_bind hset]
  refine (List.nil_append _).trans ?_
  rw [Prog.events_bind (b := r.raw_request) rfl]
  exact List.nil_append _

/-- `drive_run` emits what its segments emit, one after the other. -/
theorem drive_run_events (now : Nat → PyStr) (graph : Dict → PyStr → GraphRun) (r : RunRecord) :
    let run := graph (build_initial_state r.run_id r.raw_request) r.run_id
    let started := (start_run now r).world
    let driven := (drive_updates now run.updates.flatten started).world
    (drive_run now graph r).events = (start_run now r).events ++
      ((drive_updates now run.updates.flatten started).events ++
        (end_run now run.ending driven).events) := by
  intro run started driven
  have hval : (drive_updates now run.updates.flatten started).val = .ok () :=
    (drive_updates_spec run.updates.flatten started).1
  have hwp : (drive_run now graph).wp (fun _ _ es => es = (start_run now r).events ++
      ((drive_updates now run.updates.flatten started).events ++
        (end_run now run.ending driven).events)) r := by
    simp only [drive_run, set_status, Prog.wp_bind, Prog.wp_update, Prog.andThen_ok]
    rw [Prog.wp_of_val (emit_event_val ..), Prog.andThen_ok, ← start_run_world, ← start_run_events]
    simp only [drive_graph, Prog.wp_bind, Prog.wp_attempt]
    rw [Prog.wp_of_val hval, Prog.andThen_ok]
    have hdriven : (drive_updates now run.updates.flatten started).world = driven := rfl
    generalize driven = last at hdriven ⊢
    rw [hdriven]
    generalize (start_run now r).events = first
    generalize (drive_updates now run.updates.flatten started).events = middle
    cases run.ending with
    | astream_raised exc | aget_state_raised exc =>
      rw [Prog.wp_raise, Prog.andThen_ok]
      show first ++ (middle ++ [] ++ (fail_run now exc last).events) = _
      rw [List.append_nil]
      rfl
    | snapshot values =>
      have hval' : (complete_run now values last).val = .ok () := by
        rw [complete_run]
        exact emit_event_val ..
      show Prog.wp (complete_run now values) _ last
      rw [Prog.wp_of_val hval', Prog.andThen_ok]
      show first ++ (middle ++ (complete_run now values last).events ++ []) = _
      rw [List.append_nil]
      rfl
  exact hwp

/-- The envelopes of an act that a task takes where it stands. -/
theorem emitted_of {app : App} {a : Act} {record : RunRecord} {m : Driver Unit}
    (hget : app.registry.get a.run_id = some record) (hsegment : app.segment now a = m) :
    app.emitted now a = (m record).events := by
  rw [emitted, hget, hsegment]

theorem emissions_updates {run_id : PyStr} (updates : List (List (PyStr × PyVal))) {app : App}
    {record : RunRecord} (hpc : app.pc run_id = some .iterating)
    (hget : app.registry.get run_id = some record) :
    emissions now run_id app (updates.map (Act.update run_id)) =
      (drive_updates (now run_id) updates.flatten record).events := by
  induction updates generalizing app record with
  | nil => rfl
  | cons nodes updates ih =>
    obtain ⟨hget', hpc'⟩ := drive_own app (drive_updates (now run_id) nodes) .iterating hget
    have hstep : app.step now (.update run_id nodes) =
        app.drive run_id (drive_updates (now run_id) nodes) .iterating := if_pos hpc
    rw [List.map_cons, emissions_mine now (show (Act.update run_id nodes).run_id = run_id from rfl),
      List.flatten_cons, drive_updates_events, hstep]
    congr 1
    · exact emitted_of now (a := .update run_id nodes) hget (if_pos hpc)
    · exact ih hpc' hget'

theorem emissions_ending {run_id : PyStr} (ending : Ending) {app : App} {record : RunRecord}
    (hpc : app.pc run_id = some .iterating) (hget : app.registry.get run_id = some record) :
    emissions now run_id app (ending_acts run_id ending) = (end_run (now run_id) ending record).events := by
  have hexhausted : app.step now (.exhausted run_id) = app.goto run_id .reading := if_pos hpc
  have hmine : (Act.exhausted run_id).run_id = run_id := rfl
  have hsilent : app.emitted now (.exhausted run_id) = [] :=
    emitted_of now (a := .exhausted run_id) hget rfl
  have hpc' : (app.goto run_id .reading).pc run_id = some .reading := pc_goto app run_id .reading
  have hget' : (app.goto run_id .reading).registry.get run_id = some record := hget
  cases ending with
  | astream_raised exc =>
    rw [ending_acts, emissions_mine now (show (Act.raised run_id exc).run_id = run_id from rfl)]
    refine (List.append_nil _).trans ?_
    exact emitted_of now (a := .raised run_id exc) hget (if_pos (Or.inl hpc))
  | aget_state_raised exc =>
    rw [ending_acts, emissions_mine now hmine, hsilent, hexhausted, List.nil_append,
      emissions_mine now (show (Act.raised run_id exc).run_id = run_id from rfl)]
    refine (List.append_nil _).trans ?_
    exact emitted_of now (a := .raised run_id exc) hget' (if_pos (Or.inr hpc'))
  | snapshot values =>
    rw [ending_acts, emissions_mine now hmine, hsilent, hexhausted, List.nil_append,
      emissions_mine now (show (Act.snapshot run_id values).run_id = run_id from rfl)]
    refine (List.append_nil _).trans ?_
    exact emitted_of now (a := .snapshot run_id values) hget' (if_pos hpc')

/-- Alone, a task emits what `drive_run` emits. -/
theorem emissions_task {run_id : PyStr} (graph : Dict → PyStr → GraphRun) {app : App}
    {record : RunRecord} (hpc : app.pc run_id = some .created)
    (hget : app.registry.get run_id = some record) :
    let run := graph (build_initial_state record.run_id record.raw_request) record.run_id
    emissions now run_id app (task_acts run_id run) = (drive_run (now run_id) graph record).events := by
  intro run
  obtain ⟨hget₁, hpc₁⟩ := drive_own app (start_run (now run_id)) .iterating hget
  have hstart : app.step now (.start run_id) = app.drive run_id (start_run (now run_id)) .iterating :=
    if_pos hpc
  obtain ⟨hpc₂, hget₂⟩ := play_updates now run.updates hpc₁ hget₁
  rw [task_acts, emissions_mine now (show (Act.start run_id).run_id = run_id from rfl),
    emissions_append, hstart, drive_run_events]
  congr 1
  · exact emitted_of now (a := .start run_id) hget (if_pos hpc)
  · congr 1
    · exact emissions_updates now run.updates hpc₁ hget₁
    · exact emissions_ending now run.ending hpc₂ hget₂

end step

end App

/-! ## With viewers -/

namespace Site

section step
variable [Unicode] (now : PyStr → Nat → PyStr)

/-- An act emits the same with the viewers and without. -/
theorem Hides.emitted {app app' : App} (h : Hides app app') (a : App.Act) :
    app.emitted now a = app'.emitted now a := by
  rw [App.emitted, App.emitted, ← h.segment now a]
  have hrecord := h.records a.run_id
  generalize app.registry.get a.run_id = found at hrecord
  generalize app'.registry.get a.run_id = found' at hrecord
  cases hrecord with
  | none => rfl
  | some hsame =>
    have hevents := (deaf_segment now app a _ _ hsame).2.2
    rwa [List.map_id] at hevents

omit [Unicode] in
theorem driven_emits (es : List Envelope) : driven (es.map .emit) = es := by
  unfold driven
  rw [List.filterMap_map]
  exact List.filterMap_some

/-- What the viewers of a run see emitted is what its task emits. -/
theorem driven_seen (run_id : PyStr) {site : Site} {app : App} (acts : List Act)
    (h : Hides site.app app) :
    driven (translated (step now) (seen now run_id) site acts) =
      App.emissions now run_id app (acts.flatMap Act.own) := by
  induction acts generalizing site app with
  | nil => rfl
  | cons a acts ih =>
    rw [translated, driven_append, List.flatMap_cons]
    cases a with
    | app a =>
      rw [Act.own, List.singleton_append, App.emissions_cons, seen]
      congr 1
      · split
        · rw [driven_emits, h.emitted now a]
        · rfl
      · exact ih (h.step now a)
    | viewer k v =>
      have hnone : driven (seen now run_id site (.viewer k v)) = [] := by
        rw [seen]
        split
        · cases v <;> rfl
        · rfl
      rw [hnone, Act.own]
      exact ih (h.viewer k v)

/-- From `pre` on the request is accepted under an id that is new, and over
    `acts` its task goes on as the graph does. -/
structure Carried (pre : List Act) (run_id raw_request : PyStr) (acts : List Act) (run : GraphRun) :
    Prop where
  accepted : ((serve now pre).app.create_run run_id raw_request).1 = .ok run_id
  fresh : (serve now pre).app.registry.get run_id = none
  own : (acts.flatMap Act.own).filter (·.run_id = run_id) <+: App.task_acts run_id run

section carried
variable {now : PyStr → Nat → PyStr} {pre acts : List Act} {run_id raw_request : PyStr} {run : GraphRun}

theorem Carried.drawn (h : Carried now pre run_id raw_request acts run) {a : App.Act}
    (ha : a ∈ acts.flatMap Act.own) (hid : a.run_id = run_id) : a.drawn = none := by
  have hmem : a ∈ App.task_acts run_id run := by
    apply h.own.subset
    exact List.mem_filter.mpr ⟨ha, by simpa using hid⟩
  exact App.drawn_task_acts hmem

theorem Carried.keeps (h : Carried now pre run_id raw_request acts run) :
    ∀ a ∈ acts, a.keeps run_id := by
  intro a ha
  cases a with
  | viewer _ _ => trivial
  | app a =>
    intro hdrawn
    have hmem : a ∈ acts.flatMap Act.own := List.mem_flatMap.mpr ⟨_, ha, List.mem_cons_self⟩
    have hid : a.run_id = run_id := by
      cases a with
      | post _ _ => exact Option.some.inj hdrawn
      | start _ | update _ _ | exhausted _ | snapshot _ _ | raised _ _ | cancelled _ => cases hdrawn
    rw [h.drawn hmem hid] at hdrawn
    cases hdrawn

/-- To the viewers of the run the server is a stream. -/
theorem Carried.shows (h : Carried now pre run_id raw_request acts run) :
    Shows run_id (serve now (pre ++ .app (.post run_id raw_request) :: acts))
      (Server.serve run_id raw_request (stream_acts now run_id pre raw_request acts)) :=
  shows_serve now h.accepted h.fresh h.keeps

/-- **What has been emitted** is what `drive_run` emits, as far as the task
    has got. -/
theorem Carried.events {graph : Dict → PyStr → GraphRun}
    (h : Carried now pre run_id raw_request acts (graph (build_initial_state run_id raw_request) run_id)) :
    let es := (drive_run (now run_id) graph (RunRecord.new run_id raw_request)).events
    driven (stream_acts now run_id pre raw_request acts) <+: es ∧
      ((acts.flatMap Act.own).filter (·.run_id = run_id) =
        App.task_acts run_id (graph (build_initial_state run_id raw_request) run_id) →
      driven (stream_acts now run_id pre raw_request acts) = es) := by
  intro es
  have hinv := serve_inv now pre
  have hfree := accepted_iff.mp h.accepted
  have hst := App.step_stepped now hinv.recorded (.post run_id raw_request)
  -- the others do not matter
  have halone : Server.driven (stream_acts now run_id pre raw_request acts) =
      App.emissions now run_id ((serve now pre).app.step now (.post run_id raw_request))
        ((acts.flatMap Act.own).filter (·.run_id = run_id)) := by
    refine (driven_seen now run_id acts (Hides.refl _)).trans ?_
    exact App.emissions_own now _ (fun a ha hid => h.drawn ha hid) (App.inv_step hinv hst) ⟨rfl, rfl⟩
  -- the run starts from a new record
  have hnew : ((serve now pre).app.step now (.post run_id raw_request)).pc run_id = some .created ∧
      ((serve now pre).app.step now (.post run_id raw_request)).registry.get run_id =
        some (RunRecord.new run_id raw_request) := by
    rw [post_free now hfree]
    simp [App.pc, RunRegistry.get, lookup_setItem]
  have htask := App.emissions_task now graph hnew.1 hnew.2
  dsimp only [RunRecord.new] at htask
  rw [halone]
  constructor
  · obtain ⟨more, hmore⟩ := h.own
    refine ⟨App.emissions now run_id (play (App.step now)
      ((serve now pre).app.step now (.post run_id raw_request))
      ((acts.flatMap Act.own).filter (·.run_id = run_id))) more, ?_⟩
    rw [← App.emissions_append, hmore]
    exact htask
  · intro hall
    rw [hall]
    exact htask

end carried

end step

end Site

end Syndicate.Server
