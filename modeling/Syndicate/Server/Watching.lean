import Syndicate.Server.Emissions
import Syndicate.Server.Turns

/-! # From the graph to a viewer

    What the graph does in a run reaches every viewer of it: through the
    driver, one segment at a time, through the backlog, which other viewers
    read and wake for, and through a connection that runs when it may.

    * `run_unaffected_by_viewers`: viewers change nothing of a run.
    * `viewer_sees_run`: what a viewer has been sent, at any moment.
    * `Carried.complete`: what a viewer that stays has been sent in the end. -/

namespace Syndicate.Server.Site

open Py Framework

section step
variable [Unicode] {now : PyStr → Nat → PyStr}

/-- **Viewers change nothing**: which run is active and where each task
    stands is as it is without viewers, and so is every record but for its
    event; and an accepted run that gets to its end leaves the record that
    `drive_run` leaves. -/
theorem run_unaffected_by_viewers (now : PyStr → Nat → PyStr) (acts : List Act) :
    let site := serve now acts
    let app := App.serve now (acts.flatMap Act.own)
    site.app.registry.active_run_id = app.registry.active_run_id ∧
    site.app.tasks = app.tasks ∧
    (∀ run_id, Option.Rel Same (site.app.registry.get run_id) (app.registry.get run_id)) ∧
    ∀ (graph : Dict → PyStr → GraphRun) (pre after : List Act) (run_id raw_request : PyStr),
      acts = pre ++ .app (.post run_id raw_request) :: after →
      ((serve now pre).app.create_run run_id raw_request).1 = .ok run_id →
      (after.flatMap Act.own).filter (·.run_id = run_id) =
        App.task_acts run_id (graph (build_initial_state run_id raw_request) run_id) →
      ∃ is_set, site.app.registry.get run_id =
        some { (drive_run (now run_id) graph (RunRecord.new run_id raw_request)).world with
          new_event := is_set } := by
  intro site app
  have hhides := hides_serve now acts
  refine ⟨hhides.active, hhides.tasks, hhides.records, ?_⟩
  rintro graph pre after run_id raw_request rfl hok hown
  -- the request is accepted without the viewers, too
  have hok' : ((App.serve now (pre.flatMap Act.own)).create_run run_id raw_request).1 = .ok run_id := by
    rw [accepted_iff, ← (hides_serve now pre).active]
    exact accepted_iff.mp hok
  have hrecord := hhides.records run_id
  have hsplit : (pre ++ .app (.post run_id raw_request) :: after).flatMap Act.own =
      pre.flatMap Act.own ++ App.Act.post run_id raw_request :: after.flatMap Act.own := by
    rw [List.flatMap_append, List.flatMap_cons]
    rfl
  have hdriven := App.serve_drive_run now graph hok' hown
  rw [hsplit, hdriven] at hrecord
  generalize hfound : (serve now (pre ++ .app (.post run_id raw_request) :: after)).app.registry.get
    run_id = found at hrecord
  cases hrecord with
  | some hsame =>
    obtain ⟨is_set, hset⟩ := hsame.symm.fields
    exact ⟨is_set, congrArg some hset⟩

/-! ## At any moment -/

section carried
variable {pre : List Act} {run_id raw_request : PyStr}

theorem stream_acts_append (acts acts' : List Act) :
    stream_acts now run_id pre raw_request (acts ++ acts') =
      stream_acts now run_id pre raw_request acts ++
        translated (step now) (seen now run_id)
          (serve now (pre ++ .app (.post run_id raw_request) :: acts)) acts' := by
  have hserve : serve now (pre ++ .app (.post run_id raw_request) :: acts) =
      play (step now) (step now (serve now pre) (.app (.post run_id raw_request))) acts := play_append
  rw [hserve]
  exact translated_append _ acts acts'

/-- What the viewers of the run see from the moment one of them comes. -/
theorem translated_stream (site : Site) (after : Int) (acts : List Act) :
    translated (step now) (seen now run_id) site (.viewer run_id (.stream after) :: acts) =
      .connect after :: translated (step now) (seen now run_id)
        (step now site (.viewer run_id (.stream after))) acts := by
  rw [translated, seen, if_pos rfl]
  rfl

theorem Carried.sooner {acts acts' : List Act} {run : GraphRun}
    (h : Carried now pre run_id raw_request (acts ++ acts') run) :
    Carried now pre run_id raw_request acts run := by
  refine ⟨h.accepted, h.fresh, List.IsPrefix.trans ?_ h.own⟩
  rw [List.flatMap_append, List.filter_append]
  exact List.prefix_append _ _

/-- A viewer that comes is the next connection of the stream. -/
theorem Carried.attending {acts₁ acts₂ : List Act} {after : Int} {run : GraphRun}
    (h : Carried now pre run_id raw_request (acts₁ ++ .viewer run_id (.stream after) :: acts₂) run) :
    let site₁ := serve now (pre ++ .app (.post run_id raw_request) :: acts₁)
    let i := (site₁.viewers run_id).length
    ∃ s₁, Attending after i s₁ ∧
      Server.serve run_id raw_request
          (stream_acts now run_id pre raw_request (acts₁ ++ .viewer run_id (.stream after) :: acts₂)) =
        play Server.step s₁ (translated (step now) (seen now run_id)
          (step now site₁ (.viewer run_id (.stream after))) acts₂) := by
  intro site₁ i
  have hi : i = (Server.serve run_id raw_request
      (stream_acts now run_id pre raw_request acts₁)).conns.length :=
    congrArg List.length h.sooner.shows.conns
  refine ⟨Server.step (Server.serve run_id raw_request (stream_acts now run_id pre raw_request acts₁))
    (.connect after), ?_, ?_⟩
  · rw [hi]
    exact attending_connect (serve_logged _ _ _) after
  · rw [stream_acts_append, translated_stream, Server.serve, play_append, play_cons]
    rfl

theorem Carried.served {acts₁ acts₂ : List Act} {after : Int} {run : GraphRun}
    (h : Carried now pre run_id raw_request (acts₁ ++ .viewer run_id (.stream after) :: acts₂) run) :
    Served after ((serve now (pre ++ .app (.post run_id raw_request) :: acts₁)).viewers run_id).length
      (Server.serve run_id raw_request
        (stream_acts now run_id pre raw_request (acts₁ ++ .viewer run_id (.stream after) :: acts₂))) := by
  obtain ⟨s₁, ⟨hlog, c, hc, hdelivers, -⟩, hstream⟩ := h.attending
  rw [hstream]
  exact served_play ⟨hlog, c, hc, hdelivers⟩ _

/-- What the stream has emitted, and what is in the record. -/
theorem Carried.emitted {acts : List Act} {graph : Dict → PyStr → GraphRun}
    (h : Carried now pre run_id raw_request acts (graph (build_initial_state run_id raw_request) run_id)) :
    let es := (drive_run (now run_id) graph (RunRecord.new run_id raw_request)).events
    let stream := Server.serve run_id raw_request (stream_acts now run_id pre raw_request acts)
    let site := serve now (pre ++ .app (.post run_id raw_request) :: acts)
    stream.emitted <+: es ∧
      ((acts.flatMap Act.own).filter (·.run_id = run_id) =
        App.task_acts run_id (graph (build_initial_state run_id raw_request) run_id) →
        stream.emitted = es) ∧
      ∃ record, site.app.registry.get run_id = some record ∧
        record.seq_counter = stream.emitted.length := by
  intro es stream site
  have hnumbered : Numbered es :=
    (drive_run_spec (now run_id) graph (RunRecord.new run_id raw_request)).2.1.seqs
  obtain ⟨hdriven, hall⟩ := h.events
  have hemitted : stream.emitted = driven (stream_acts now run_id pre raw_request acts) :=
    serve_driven run_id raw_request hnumbered hdriven
  rw [hemitted]
  refine ⟨hdriven, hall, ?_⟩
  obtain ⟨record, hget, hlog⟩ := h.shows.record
  refine ⟨record, hget, ?_⟩
  have hcounter : record.seq_counter = stream.record.seq_counter := congrArg Log.seq_counter hlog
  rw [hcounter, ← hemitted]
  exact (serve_logged _ _ _).counter

/-- **What a viewer has been sent**: whenever it came, and whatever has
    happened since, it has been sent envelopes that the run emitted after the
    `after` it asked for, in order and each at most once; what it has passed
    over the backlog had dropped; and while the backlog has room it has been
    sent the first of them. -/
theorem viewer_sees_run (now : PyStr → Nat → PyStr) (graph : Dict → PyStr → GraphRun)
    (pre acts₁ acts₂ : List Act) (run_id raw_request : PyStr) (after : Int)
    (h : Carried now pre run_id raw_request (acts₁ ++ .viewer run_id (.stream after) :: acts₂)
      (graph (build_initial_state run_id raw_request) run_id)) :
    let es := (drive_run (now run_id) graph (RunRecord.new run_id raw_request)).events
    let site := serve now
      (pre ++ .app (.post run_id raw_request) :: (acts₁ ++ .viewer run_id (.stream after) :: acts₂))
    let i := ((serve now (pre ++ .app (.post run_id raw_request) :: acts₁)).viewers run_id).length
    ∃ record c, site.app.registry.get run_id = some record ∧ (site.viewers run_id)[i]? = some c ∧
      c.yielded.Sublist ((es.take record.seq_counter).drop after.toNat) ∧
      (∀ e ∈ (es.take (c.reached after).toNat).drop after.toNat, e ∉ c.yielded →
        e ∈ es.take (record.seq_counter - BACKLOG_MAXLEN)) ∧
      (record.seq_counter ≤ BACKLOG_MAXLEN → c.yielded <+: es.drop after.toNat) := by
  intro es site i
  obtain ⟨hlog, c, hc, hdelivers⟩ := h.served
  obtain ⟨hemitted, -, record, hget, hcounter⟩ := h.emitted
  have hviewers : site.viewers run_id = _ := h.shows.conns
  generalize Server.serve run_id raw_request _ = stream at *
  -- what has been emitted so far, of all that the run emits
  have hsofar : es.take record.seq_counter = stream.emitted := by
    rw [hcounter]
    exact (List.prefix_iff_eq_take.mp hemitted).symm
  refine ⟨record, c, hget, hviewers ▸ hc, ?_, ?_, ?_⟩
  · rw [hsofar]
    exact hdelivers.ordered.trans ((List.take_sublist _ _).drop _)
  · intro e he hunsent
    have hwindow : e ∈ stream.window after c := by
      rcases hdelivers.bounded with hnil | hle
      · have hreached : c.reached after = after := by rw [Conn.reached, hnil]; rfl
        rw [hreached, List.drop_eq_nil_of_le (by rw [List.length_take]; omega)] at he
        exact absurd he List.not_mem_nil
      · rw [Stream.window, ← hsofar, List.take_take, Nat.min_eq_left (by omega)]
        exact he
    rcases hdelivers.complete e hwindow with hsent | hevicted
    · exact absurd hsent hunsent
    · rw [hcounter]
      exact (hemitted.take _).subset hevicted
  · intro hroom
    have hpre := hdelivers.yielded_prefix hlog (by omega)
    exact hpre.trans (List.IsPrefix.drop hemitted _)

/-! ## With enough turns -/

/-- The act lets connection `i` to the run go on. -/
def turn (run_id : PyStr) (i : Nat) (site : Site) : Act → Bool
  | .viewer k (.resume j) =>
    k == run_id && j == i && (site.viewers run_id)[i]?.any fun c => !c.asleep
  | .viewer k (.timeout j) => k == run_id && j == i && (site.viewers run_id)[i]?.any Conn.asleep
  | _ => false

/-- A turn of the connection is one in the stream. -/
theorem turn_seen {site : Site} {s : Stream} {i : Nat} {a : Act} (h : Shows run_id site s)
    (hturn : turn run_id i site a = true) :
    1 ≤ turns Server.step (Stream.turn i) s (seen now run_id site a) := by
  cases a with
  | app a => cases hturn
  | viewer k v =>
    have hconns := h.conns
    cases v with
    | stream _ | close _ => cases hturn
    | resume j | timeout j =>
      simp only [turn, Bool.and_eq_true, beq_iff_eq] at hturn
      obtain ⟨⟨rfl, rfl⟩, hconn⟩ := hturn
      rw [hconns] at hconn
      rw [seen, if_pos rfl]
      simp [turns, Viewing.act, Stream.turn, hconn]

theorem turns_seen {acts acts' : List Act} {s : Stream} {i : Nat}
    (hkeeps : ∀ a ∈ acts', a.keeps run_id) (h : Shows run_id (serve now acts) s) :
    turns (step now) (turn run_id i) (serve now acts) acts' ≤ turns Server.step (Stream.turn i) s
      (translated (step now) (seen now run_id) (serve now acts) acts') := by
  apply turns_translated (R := ShowsServed now run_id)
  · intro site s a ha hshows
    exact shows_served_step now run_id (hkeeps a ha) hshows
  · intro site s a hshows hturn
    exact turn_seen hshows.2 hturn
  · exact ⟨⟨acts, rfl⟩, h⟩

/-- **A viewer catches up**: of what the run had emitted at some moment it has,
    after five turns for each envelope and five more, been sent all that the
    backlog has not dropped, whatever wake-ups it has missed; or its stream has ended. -/
theorem viewer_catches_up (now : PyStr → Nat → PyStr) (graph : Dict → PyStr → GraphRun)
    (pre acts₁ acts₂ acts₃ : List Act) (run_id raw_request : PyStr) (after : Int)
    (h : Carried now pre run_id raw_request
      ((acts₁ ++ .viewer run_id (.stream after) :: acts₂) ++ acts₃)
      (graph (build_initial_state run_id raw_request) run_id)) :
    let es := (drive_run (now run_id) graph (RunRecord.new run_id raw_request)).events
    let i := ((serve now (pre ++ .app (.post run_id raw_request) :: acts₁)).viewers run_id).length
    let site := serve now
      (pre ++ .app (.post run_id raw_request) :: (acts₁ ++ .viewer run_id (.stream after) :: acts₂))
    let later := play (step now) site acts₃
    ∃ record record' c, site.app.registry.get run_id = some record ∧
      later.app.registry.get run_id = some record' ∧ (later.viewers run_id)[i]? = some c ∧
      (5 * (record.seq_counter + 1) ≤ turns (step now) (turn run_id i) site acts₃ →
        c.Ended ∨ ∀ e ∈ (es.take record.seq_counter).drop after.toNat,
          e ∈ c.yielded ∨ e ∈ es.take (record'.seq_counter - BACKLOG_MAXLEN)) := by
  intro es i site later
  have hsite := h.sooner
  have hshows : Shows run_id site _ := hsite.shows
  have hserved := hsite.served
  obtain ⟨hemitted, -, record, hget, hcounter⟩ := hsite.emitted
  have hkeeps : ∀ a ∈ acts₃, a.keeps run_id := fun a ha => h.keeps a (List.mem_append_right _ ha)
  have hseen := turns_seen (i := i) hkeeps hshows
  have hshows' := shows_play now run_id hkeeps hshows
  -- the stream goes on from where it was
  have hstream : Server.serve run_id raw_request (stream_acts now run_id pre raw_request
      ((acts₁ ++ .viewer run_id (.stream after) :: acts₂) ++ acts₃)) =
      play Server.step (Server.serve run_id raw_request (stream_acts now run_id pre raw_request
        (acts₁ ++ .viewer run_id (.stream after) :: acts₂)))
        (translated (step now) (seen now run_id) site acts₃) := by
    rw [stream_acts_append, Server.serve, play_append]
    rfl
  obtain ⟨hemitted', -, record', hget', hcounter'⟩ := h.emitted
  rw [hstream] at hemitted' hcounter'
  have hlater : serve now (pre ++ .app (.post run_id raw_request) ::
      ((acts₁ ++ .viewer run_id (.stream after) :: acts₂) ++ acts₃)) = later := by
    rw [← List.cons_append, ← List.append_assoc]
    exact play_append
  rw [hlater] at hget'
  generalize Server.serve run_id raw_request _ = stream at *
  obtain ⟨-, c, hc, -⟩ := served_play hserved (translated (step now) (seen now run_id) site acts₃)
  refine ⟨record, record', c, hget, hget', hshows'.conns ▸ hc, ?_⟩
  intro hturns
  rw [hcounter] at hturns ⊢
  obtain ⟨c₀, hc₀, hthrough⟩ := delivers_enough hserved (hturns.trans hseen)
  obtain rfl := Option.some.inj (hc.symm.trans hc₀)
  rcases hthrough with hended | hall
  · exact Or.inl hended
  · right
    intro e he
    rw [← List.prefix_iff_eq_take.mp hemitted] at he
    rcases hall e he with hsent | hevicted
    · exact Or.inl hsent
    · rw [hcounter']
      exact Or.inr ((hemitted'.take _).subset hevicted)

/-! ## In the end -/

/-- Where the run has ended, the stream emits no more. -/
theorem Carried.quiet {acts acts' : List Act} {graph : Dict → PyStr → GraphRun}
    (h : Carried now pre run_id raw_request (acts ++ acts')
      (graph (build_initial_state run_id raw_request) run_id))
    (hall : (acts.flatMap Act.own).filter (·.run_id = run_id) =
      App.task_acts run_id (graph (build_initial_state run_id raw_request) run_id)) :
    driven (translated (step now) (seen now run_id)
      (serve now (pre ++ .app (.post run_id raw_request) :: acts)) acts') = [] := by
  have hown := h.own
  rw [List.flatMap_append, List.filter_append, hall] at hown
  have hnone : (acts'.flatMap Act.own).filter (·.run_id = run_id) = [] := by
    have hle := hown.length_le
    rw [List.length_append] at hle
    exact List.length_eq_zero_iff.mp (by omega)
  have hemitted := driven_seen now run_id acts'
    (Hides.refl (serve now (pre ++ .app (.post run_id raw_request) :: acts)).app)
  rw [hemitted, App.emissions_own now _ _ (serve_inv now _) ⟨rfl, rfl⟩, hnone]
  · rfl
  · intro a ha hid
    exact h.drawn (List.mem_flatMap.mpr (by
      obtain ⟨b, hb, hab⟩ := List.mem_flatMap.mp ha
      exact ⟨b, List.mem_append_right _ hb, hab⟩)) hid

/-- The connection is closed by nobody's act but its own `close`. -/
theorem not_close_seen {site : Site} {i : Nat} {acts : List Act}
    (hstays : .viewer run_id (.close i) ∉ acts) :
    .close i ∉ translated (step now) (seen now run_id) site acts := by
  intro hmem
  obtain ⟨site', a, ha, hseen⟩ := mem_translated hmem
  cases a with
  | app a =>
    rw [seen] at hseen
    split at hseen
    · obtain ⟨e, -, he⟩ := List.mem_map.mp hseen
      cases he
    · exact absurd hseen List.not_mem_nil
  | viewer k v =>
    rw [seen] at hseen
    split at hseen
    · rename_i hk
      cases v with
      | close j =>
        obtain rfl : i = j := by simpa [Viewing.act] using hseen
        exact hstays (hk ▸ ha)
      | stream _ | resume _ | timeout _ => cases List.mem_singleton.mp hseen
    · exact absurd hseen List.not_mem_nil

omit [Unicode] in
theorem drive_run_terminal [Unicode] (now : Nat → PyStr) (graph : Dict → PyStr → GraphRun)
    (r : RunRecord) : ∃ before terminal, (drive_run now graph r).events = before ++ [terminal] ∧
      terminal.kind.terminal = true ∧ NoTerminal before := by
  obtain ⟨-, -, started, blocks, terminal, hes, hstarted, hblocks, hterminal, -⟩ :=
    drive_run_spec now graph r
  refine ⟨started :: blocks.flatten, terminal, hes, hterminal, ?_⟩
  intro e he
  rcases List.mem_cons.mp he with rfl | he
  · rw [hstarted]
    rfl
  · exact (blocks_inner hblocks he).2

/-- **A viewer that stays gets everything**: one that comes while the run goes
    on or after it, asking for envelopes that the run has, that the server
    does not close, and that has enough turns once the run has ended, has
    been sent all of them up to the terminal one, and its stream has
    returned. -/
theorem Carried.complete (now : PyStr → Nat → PyStr) (graph : Dict → PyStr → GraphRun)
    {pre acts₁ acts₂ acts₃ : List Act} {run_id raw_request : PyStr} {after : Int}
    (h : Carried now pre run_id raw_request
      ((acts₁ ++ .viewer run_id (.stream after) :: acts₂) ++ acts₃)
      (graph (build_initial_state run_id raw_request) run_id))
    (hall : ((acts₁ ++ .viewer run_id (.stream after) :: acts₂).flatMap Act.own).filter
        (·.run_id = run_id) =
      App.task_acts run_id (graph (build_initial_state run_id raw_request) run_id)) :
    let es := (drive_run (now run_id) graph (RunRecord.new run_id raw_request)).events
    let i := ((serve now (pre ++ .app (.post run_id raw_request) :: acts₁)).viewers run_id).length
    let ended := serve now
      (pre ++ .app (.post run_id raw_request) :: (acts₁ ++ .viewer run_id (.stream after) :: acts₂))
    es.length ≤ BACKLOG_MAXLEN → after.toNat < es.length → (∀ e ∈ es, Formats e) →
    .viewer run_id (.close i) ∉ acts₂ ++ acts₃ →
    5 * (es.length + 1) ≤ turns (step now) (turn run_id i) ended acts₃ →
    ∃ c, ((play (step now) ended acts₃).viewers run_id)[i]? = some c ∧ c.pc = .returned ∧
      c.yielded = es.drop after.toNat := by
  intro es i ended hroom hafter hformats hstays hturns
  have hended := h.sooner
  obtain ⟨before, terminal, hes, hterm, hbefore⟩ :=
    drive_run_terminal (now run_id) graph (RunRecord.new run_id raw_request)
  have hkeeps : ∀ a ∈ acts₃, a.keeps run_id := fun a ha => h.keeps a (List.mem_append_right _ ha)
  -- the stream when the run has ended, and in the end
  obtain ⟨s₁, hattending, hs₂⟩ := hended.attending
  have hshows : Shows run_id ended _ := hended.shows
  have hemitted := hended.emitted.2.1 hall
  have hlast := serve_terminalLast run_id raw_request
    (stream_acts now run_id pre raw_request (acts₁ ++ .viewer run_id (.stream after) :: acts₂))
  have hserved := hended.served
  generalize Server.serve run_id raw_request _ = s₂ at hs₂ hshows hemitted hlast hserved
  have hshows₃ := shows_play now run_id hkeeps hshows
  have hquiet := h.quiet hall
  have henough := hturns.trans (turns_seen hkeeps hshows)
  have hopen : .close i ∉ translated (step now) (seen now run_id)
      (step now (serve now (pre ++ .app (.post run_id raw_request) :: acts₁))
        (.viewer run_id (.stream after))) acts₂ ++
      translated (step now) (seen now run_id) ended acts₃ := by
    intro hmem
    rcases List.mem_append.mp hmem with hmem | hmem
    · exact not_close_seen (fun hclose => hstays (List.mem_append_left _ hclose)) hmem
    · exact not_close_seen (fun hclose => hstays (List.mem_append_right _ hclose)) hmem
  generalize translated (step now) (seen now run_id) ended acts₃ = seen₃ at hshows₃ hquiet henough hopen
  generalize translated (step now) (seen now run_id)
    (step now (serve now (pre ++ .app (.post run_id raw_request) :: acts₁))
      (.viewer run_id (.stream after))) acts₂ = seen₂ at hs₂ hopen
  have hsplit : s₂.emitted = before ++ [terminal] := hemitted.trans hes
  have hlength : s₂.emitted.length = es.length := congrArg List.length hemitted
  have hend : (play Server.step s₂ seen₃).emitted = s₂.emitted := emitted_of_quiet hquiet
  -- with enough turns the connection has ended, and it ends complete
  obtain ⟨c, hc, hcended⟩ := ends_enough hserved hsplit hterm (hlength ▸ hafter) hlast hquiet
    (hlength ▸ henough)
  have hs₃ : play Server.step s₂ seen₃ = play Server.step s₁ (seen₂ ++ seen₃) := by
    rw [play_append, ← hs₂]
  have hattended : Attending after i (play Server.step s₂ seen₃) := by
    rw [hs₃]
    apply attending_play hattending hopen
    rw [← hs₃, hend, hemitted]
    exact hformats
  obtain ⟨hlog, c₀, hc₀, hdelivers, hcomplete⟩ := hattended
  obtain rfl := Option.some.inj (hc.symm.trans hc₀)
  have hcc := hcomplete hcended
  refine ⟨c, hshows₃.conns ▸ hc, hcc.1, ?_⟩
  rw [hdelivers.all_of_complete hlog hcc (hend.trans hsplit) hbefore (by rw [hend, hlength]; exact hroom),
    hend, hemitted]

end carried

end step

/-! ## A small run -/

section small
attribute [local instance] Unicode.ascii

/-- A graph that has nothing to do. -/
def idle : Dict → PyStr → GraphRun := fun _ _ => ⟨[], .snapshot none⟩

/-- A viewer comes when the run has started. -/
def started : List Act := [.app (.start (lit "r"))]

/-- It reads what there is, and the run ends. -/
def ended : List Act :=
  [.viewer (lit "r") (.resume 0), .app (.exhausted (lit "r")), .app (.snapshot (lit "r") none)]

/-- It waits, although there is an envelope left, until the wait times out. -/
def its_turns : List Act :=
  (List.replicate 15 [.viewer (lit "r") (.resume 0), .viewer (lit "r") (.timeout 0)]).flatten

def watched : List Act := started ++ .viewer (lit "r") (.stream 0) :: ended

theorem watched_carried : Carried (fun _ _ => []) [] (lit "r") (lit "x") (watched ++ its_turns)
    (idle (build_initial_state (lit "r") (lit "x")) (lit "r")) :=
  ⟨rfl, rfl, ⟨[], rfl⟩⟩

theorem run_unaffected_by_viewers_watched : ∃ is_set,
    (serve (fun _ _ => []) (.app (.post (lit "r") (lit "x")) :: watched)).app.registry.get (lit "r") =
      some { (drive_run (fun _ => []) idle (RunRecord.new (lit "r") (lit "x"))).world with
        new_event := is_set } :=
  (run_unaffected_by_viewers (fun _ _ => []) (.app (.post (lit "r") (lit "x")) :: watched)).2.2.2 idle
    [] watched (lit "r") (lit "x") rfl rfl rfl

theorem viewer_sees_run_watched : ∃ record c,
    (serve (fun _ _ => []) (.app (.post (lit "r") (lit "x")) :: watched)).app.registry.get (lit "r") =
      some record ∧
    ((serve (fun _ _ => []) (.app (.post (lit "r") (lit "x")) :: watched)).viewers (lit "r"))[0]? = some c ∧
    (record.seq_counter ≤ BACKLOG_MAXLEN →
      c.yielded <+: (drive_run (fun _ => []) idle (RunRecord.new (lit "r") (lit "x"))).events) := by
  obtain ⟨record, c, hget, hc, -, -, hprefix⟩ :=
    viewer_sees_run (fun _ _ => []) idle [] started ended (lit "r") (lit "x") 0 watched_carried.sooner
  exact ⟨record, c, hget, hc, hprefix⟩

/-- The viewer's place among those of the run. -/
def newcomer : Nat :=
  ((serve (fun _ _ => []) ([] ++ .app (.post (lit "r") (lit "x")) :: started)).viewers (lit "r")).length

/-- The server when the run has ended. -/
def watched_site : Site :=
  serve (fun _ _ => []) ([] ++ .app (.post (lit "r") (lit "x")) ::
    (started ++ .viewer (lit "r") (.stream 0) :: ended))

/-- The server after its turns. -/
def later_site : Site := play (step (fun _ _ => [])) watched_site its_turns

theorem viewer_catches_up_watched : ∃ c, (later_site.viewers (lit "r"))[newcomer]? = some c ∧
    (c.Ended ∨ ∀ e ∈ (drive_run (fun _ => []) idle (RunRecord.new (lit "r") (lit "x"))).events.take 2,
      e ∈ c.yielded) := by
  have hcaught :=
    viewer_catches_up (fun _ _ => []) idle [] started ended its_turns (lit "r") (lit "x") 0 watched_carried
  dsimp only at hcaught
  rw [← watched_site, ← later_site, ← newcomer] at hcaught
  obtain ⟨record, record', c, hget, hget', hc, hcaught⟩ := hcaught
  have hcount : (watched_site.app.registry.get (lit "r")).map (·.seq_counter) = some 2 := by decide +kernel
  have hcount' : (later_site.app.registry.get (lit "r")).map (·.seq_counter) = some 2 := by decide +kernel
  rw [hget] at hcount
  rw [hget'] at hcount'
  rw [show record.seq_counter = 2 from Option.some.inj hcount,
    show record'.seq_counter = 2 from Option.some.inj hcount'] at hcaught
  refine ⟨c, hc, ?_⟩
  rcases hcaught (by decide +kernel) with hended | hall
  · exact Or.inl hended
  · right
    intro e he
    rcases hall e he with hsent | hnone
    · exact hsent
    · exact absurd hnone List.not_mem_nil

end small

end Syndicate.Server.Site
