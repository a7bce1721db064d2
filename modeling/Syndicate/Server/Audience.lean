import Syndicate.Server.Encodes

/-! # The audience of a run of the graph

    All that a viewer needs the graph to keep to, it keeps to: its envelopes
    fit into the backlog and each of them is JSON.  So whoever comes and stays
    gets all of them, and sees how the run ended. -/

namespace Syndicate.Server

open Py Framework

/-! ## The pill -/

/-- What the page shows after some envelopes is what the last one says, if it
    parses. -/
theorem watch_last {before : List Envelope} {terminal : Envelope} {frames : List PyStr}
    (h : List.Forall₂ (fun e frame => format_sse e = .ok frame) (before ++ [terminal]) frames)
    (hparses : Parses terminal.payload) (page : Page) :
    ∃ pill, terminal.kind.shows pill (page.watch frames.flatten).status_pill := by
  induction before generalizing frames page with
  | nil =>
    obtain ⟨frame, rest, hframe, hnil, rfl⟩ := List.forall₂_cons_left_iff.mp h
    obtain rfl := List.forall₂_nil_left_iff.mp hnil
    obtain ⟨page', hwatch, hshows, -⟩ := watch_frame hframe page []
    have hlast : page.watch [frame].flatten = page' := hwatch
    exact ⟨_, hlast ▸ hshows hparses⟩
  | cons e before ih =>
    obtain ⟨frame, rest, hframe, hrest, rfl⟩ := List.forall₂_cons_left_iff.mp h
    obtain ⟨page', hwatch, -, -⟩ := watch_frame hframe page rest.flatten
    obtain ⟨pill, hpill⟩ := ih hrest page'
    rw [List.flatten_cons, hwatch]
    exact ⟨pill, hpill⟩

theorem frames_of_formats {es : List Envelope} (h : ∀ e ∈ es, Formats e) :
    ∃ frames, List.Forall₂ (fun e frame => format_sse e = .ok frame) es frames := by
  induction es with
  | nil => exact ⟨[], .nil⟩
  | cons e es ih =>
    rw [List.forall_mem_cons] at h
    obtain ⟨frame, hframe⟩ := h.1
    obtain ⟨frames, hframes⟩ := ih h.2
    exact ⟨frame :: frames, .cons hframe hframes⟩

section
variable {W : Type} [Unicode]

/-! ## The graph -/

/-- The envelopes of a run of the graph fit into the backlog. -/
theorem served_graph_few (env : Env W) (w : W) (n : Nat) (now : Nat → PyStr) (run_id raw_request : PyStr) :
    (drive_run now (served_graph env w n) (RunRecord.new run_id raw_request)).events.length <
      BACKLOG_MAXLEN := by
  let s := input_state (build_initial_state run_id raw_request)
  let h := (ainvoke env n s w).1
  have hfresh : Fresh s := ⟨rfl, rfl, rfl⟩
  have hunread : Unread h _ := ainvoke_unread env hfresh rfl w n
  have hlength : h.length ≤ 15 := ainvoke_length hfresh w n
  have hfan : Fanout (2 * (updates h).flatten.length + 3) (attempts_reported h) _ :=
    drive_run_fanout now (served_graph env w n) run_id raw_request
  have hes := hfan.length
  have hlines := hunread.lines
  have hupdates := hunread.updates
  show _ < 2000
  omega

theorem ends_config {c : Config W} {terminal : Envelope} (h : Ends c.ending terminal) :
    (terminal.kind = .run_failed ∧ ∃ exc, c.pc = .raised exc) ∨
      (terminal.kind = .run_completed ∧ ∀ exc, c.pc ≠ .raised exc) := by
  obtain ⟨pc, state, world⟩ := c
  cases pc with
  | raised exc =>
    obtain ⟨msg, hcarries⟩ := h
    exact Or.inl ⟨hcarries.kind, exc, rfl⟩
  | «at» _ | END =>
    have hcarries : Carries .run_completed none _ terminal := h
    exact Or.inr ⟨hcarries.kind, nofun⟩

/-- How the last envelope of a run says that it ended. -/
theorem served_graph_terminal (env : Env W) (w : W) (n : Nat) (now : Nat → PyStr)
    (run_id raw_request : PyStr) :
    let pc := (ainvoke env n (input_state (build_initial_state run_id raw_request)) w).2.pc
    ∃ before terminal,
      (drive_run now (served_graph env w n) (RunRecord.new run_id raw_request)).events =
        before ++ [terminal] ∧
      ((terminal.kind = .run_failed ∧ ∃ exc, pc = .raised exc) ∨
        (terminal.kind = .run_completed ∧ ∀ exc, pc ≠ .raised exc)) := by
  intro pc
  obtain ⟨started, inner, terminal, hevents, -, -, hends⟩ :=
    @drive_run_ends _ now (served_graph env w n) (RunRecord.new run_id raw_request)
  exact ⟨started :: inner, terminal, hevents, ends_config hends⟩

namespace Site

/-- **The audience of the graph**: whoever comes to a run of the compiled
    graph, asks for an envelope that there is, stays, and has enough turns
    after the run has ended, has been sent every envelope from there on, each
    of them as JSON; its stream has returned, and its page says `failed` if a
    node raised and `completed` if none did. -/
theorem graph_reaches_viewer (env : Env W) (w : W) (n : Nat) (now : PyStr → Nat → PyStr)
    (pre acts₁ acts₂ acts₃ : List Act) (run_id raw_request : PyStr) (after : Int)
    (h : Carried now pre run_id raw_request
      ((acts₁ ++ .viewer run_id (.stream after) :: acts₂) ++ acts₃)
      (served_graph env w n (build_initial_state run_id raw_request) run_id))
    (hall : ((acts₁ ++ .viewer run_id (.stream after) :: acts₂).flatMap Act.own).filter
        (·.run_id = run_id) =
      App.task_acts run_id (served_graph env w n (build_initial_state run_id raw_request) run_id)) :
    let es := (drive_run (now run_id) (served_graph env w n) (RunRecord.new run_id raw_request)).events
    let pc := (ainvoke env n (input_state (build_initial_state run_id raw_request)) w).2.pc
    let i := ((serve now (pre ++ .app (.post run_id raw_request) :: acts₁)).viewers run_id).length
    let ended := serve now
      (pre ++ .app (.post run_id raw_request) :: (acts₁ ++ .viewer run_id (.stream after) :: acts₂))
    after.toNat < es.length → .viewer run_id (.close i) ∉ acts₂ ++ acts₃ →
    5 * (es.length + 1) ≤ turns (step now) (turn run_id i) ended acts₃ →
    ∃ c frames, ((play (step now) ended acts₃).viewers run_id)[i]? = some c ∧ c.pc = .returned ∧
      c.yielded = es.drop after.toNat ∧
      List.Forall₂ (fun e frame => format_sse e = .ok frame) c.yielded frames ∧
      ∀ page : Page,
        ((page.watch frames.flatten).status_pill = lit "failed" ∧ ∃ exc, pc = .raised exc) ∨
        ((page.watch frames.flatten).status_pill = lit "completed" ∧ ∀ exc, pc ≠ .raised exc) := by
  intro es pc i ended hafter hstays hturns
  have hroom : es.length ≤ BACKLOG_MAXLEN :=
    Nat.le_of_lt (served_graph_few env w n (now run_id) run_id raw_request)
  have hwritten : ∀ e ∈ es, Written e := served_graph_written env w n (now run_id) run_id raw_request
  obtain ⟨c, hc, hreturned, hyielded⟩ := Carried.complete now (served_graph env w n) h hall hroom hafter
    (fun e he => (hwritten e he).formats) hstays hturns
  have hformats : ∀ e ∈ c.yielded, Formats e := by
    intro e he
    rw [hyielded] at he
    exact (hwritten e (List.mem_of_mem_drop he)).formats
  obtain ⟨frames, hframes⟩ := frames_of_formats hformats
  refine ⟨c, frames, hc, hreturned, hyielded, hframes, ?_⟩
  intro page
  -- the last envelope sent is the last one emitted
  obtain ⟨before, terminal, hes, hkind⟩ := served_graph_terminal env w n (now run_id) run_id raw_request
  have hes : es = before ++ [terminal] := hes
  have hlast : c.yielded = before.drop after.toNat ++ [terminal] := by
    have hle : after.toNat ≤ before.length := by
      rw [hes, List.length_append, List.length_singleton] at hafter
      omega
    exact hyielded.trans ((congrArg _ hes).trans (List.drop_append_of_le_length hle))
  have hparses : Parses terminal.payload := (hwritten terminal (by rw [hes]; simp)).parses
  obtain ⟨pill, hpill⟩ := watch_last (hlast ▸ hframes) hparses page
  rcases hkind with ⟨hkind, hraised⟩ | ⟨hkind, hraised⟩
  · rw [hkind] at hpill
    exact Or.inl ⟨hpill, hraised⟩
  · rw [hkind] at hpill
    exact Or.inr ⟨hpill, hraised⟩

end Site

end

/-! ## A small run -/

namespace Site

section small
attribute [local instance] Unicode.ascii

theorem own_apps (acts : List App.Act) : (acts.map Act.app).flatMap Act.own = acts := by
  induction acts with
  | nil => rfl
  | cons a acts ih =>
    rw [List.map_cons, List.flatMap_cons, ih]
    rfl

theorem filter_task_acts (run_id : PyStr) (run : GraphRun) :
    (App.task_acts run_id run).filter (·.run_id = run_id) = App.task_acts run_id run := by
  rw [List.filter_eq_self]
  intro a ha
  rw [decide_eq_true_eq]
  rcases List.mem_cons.mp ha with rfl | ha
  · rfl
  · rcases List.mem_append.mp ha with ha | ha
    · obtain ⟨nodes, -, rfl⟩ := List.mem_map.mp ha
      rfl
    · cases hend : run.ending with
      | astream_raised exc =>
        rw [hend] at ha
        rw [List.mem_singleton.mp ha]
        rfl
      | aget_state_raised exc | snapshot values =>
        rw [hend] at ha
        rcases List.mem_cons.mp ha with rfl | ha
        · rfl
        · rw [List.mem_singleton.mp ha]
          rfl

/-- A world whose chassis cannot be had. -/
def unreachable : Env Bool := { healthy with get_runtime_client := .error ⟨.RuntimeError, []⟩ }

/-- What the graph does of a request then. -/
def failing : GraphRun :=
  served_graph unreachable false 15 (build_initial_state (lit "r") (lit "x")) (lit "r")

/-- The viewer comes first, and has its turns last. -/
def failing_acts : List Act := (App.task_acts (lit "r") failing).map .app

def failing_turns : List Act :=
  (List.replicate 30 [.viewer (lit "r") (.resume 0), .viewer (lit "r") (.timeout 0)]).flatten

/-- What it has been sent is all that there is. -/
theorem graph_reaches_viewer_failing : ∃ c,
    ((play (step (fun _ _ => [])) (serve (fun _ _ => []) ([] ++ .app (.post (lit "r") (lit "x")) ::
      ([] ++ .viewer (lit "r") (.stream 0) :: failing_acts))) failing_turns).viewers
        (lit "r"))[0]? = some c ∧
    c.pc = .returned ∧ c.yielded = (drive_run (fun _ => []) (served_graph unreachable false 15)
      (RunRecord.new (lit "r") (lit "x"))).events := by
  have hall : (([] ++ Act.viewer (lit "r") (.stream 0) :: failing_acts).flatMap Act.own).filter
      (·.run_id = lit "r") = App.task_acts (lit "r") failing := by
    have hown : ([] ++ Act.viewer (lit "r") (.stream 0) :: failing_acts).flatMap Act.own =
        App.task_acts (lit "r") failing := own_apps _
    rw [hown, filter_task_acts]
  have hturns : failing_turns.flatMap Act.own = [] := by decide +kernel
  have hcarried : Carried (fun _ _ => []) [] (lit "r") (lit "x")
      (([] ++ .viewer (lit "r") (.stream 0) :: failing_acts) ++ failing_turns) failing := by
    refine ⟨rfl, rfl, ?_⟩
    rw [List.flatMap_append, hturns, List.append_nil, hall]
  have hstays : ∀ j, Act.viewer (lit "r") (.close j) ∉ failing_acts ++ failing_turns := by
    intro j hmem
    rcases List.mem_append.mp hmem with hmem | hmem
    · obtain ⟨a, -, ha⟩ := List.mem_map.mp hmem
      cases ha
    · obtain ⟨turns, hturns, hmem⟩ := List.mem_flatten.mp hmem
      rw [List.eq_of_mem_replicate hturns] at hmem
      simp at hmem
  have hreached := graph_reaches_viewer unreachable false 15 (fun _ _ => []) [] [] failing_acts failing_turns
    (lit "r") (lit "x") 0 hcarried hall (by decide +kernel) (hstays _) (by decide +kernel)
  obtain ⟨c, -, hc, hreturned, hyielded, -⟩ := hreached
  exact ⟨c, hc, hreturned, hyielded⟩

end small

end Site

end Syndicate.Server
