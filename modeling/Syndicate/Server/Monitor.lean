import Syndicate.Server.Frames
import Syndicate.Server.Listing

/-! # `server/static/app.js`: the status pill of the monitor

    The page folds the envelopes of a run into one word.  What an envelope
    does to it depends on its kind alone, but for an escalation; the last
    one says `completed` or `failed`, and never `escalated`. -/

namespace Syndicate.Server

open Py Framework

/-! ## The page -/

/-- What `onmessage` changes of the page: `lastSeq`, a number by its text,
    and the text of `statusPillEl`. -/
structure Page where
  last_seq : PyStr
  status_pill : PyStr

namespace Page

/-- `setStatusPill`. -/
def set_status_pill (status : PyStr) (page : Page) : Page := { page with status_pill := status }

/-- `lastSeq = envelope.seq`, if it is a number. -/
def set_last_seq (seq : Option Json.Value) (page : Page) : Page :=
  match seq with
  | some (.number text) => { page with last_seq := text }
  | _ => page

@[simp] theorem set_status_pill_pill (status : PyStr) (page : Page) :
    (set_status_pill status page).status_pill = status := rfl

@[simp] theorem set_last_seq_pill (seq : Option Json.Value) (page : Page) :
    (set_last_seq seq page).status_pill = page.status_pill := by
  unfold set_last_seq
  split <;> rfl

/-- `v.name`, `none` for `undefined`. -/
def prop (name : String) : Json.Value → Option Json.Value
  | .object fields => Payload.member (lit name) fields
  | _ => none

/-- `v === text`. -/
def equals (text : String) : Option Json.Value → Bool
  | some (.string s) => s == lit text
  | _ => false

/-- `eventSource.onmessage`, on the data of an event.  Of `null` the first
    property raises, and the page stays as it is too. -/
def onmessage (page : Page) (data : PyStr) : Page :=
  match Json.loads data with
  | none => page
  | some envelope =>
    let kind := prop "kind" envelope
    let page := set_last_seq (prop "seq" envelope) page
    let page := if equals "run_started" kind then set_status_pill (lit "running") page else page
    let page := if equals "run_completed" kind then set_status_pill (lit "completed") page else page
    let page := if equals "run_failed" kind then set_status_pill (lit "failed") page else page
    if equals "escalation" kind ∧
        equals "escalated" ((prop "payload" envelope).bind (prop "ticket_status")) then
      set_status_pill (lit "escalated") page
    else page

/-- The page after a stream. -/
def watch (page : Page) (stream : PyStr) : Page := (EventStream.parse stream).foldl onmessage page

end Page

/-! ## One envelope -/

/-- What the pill shows after an envelope of this kind. -/
def EventKind.shows (kind : EventKind) (before after : PyStr) : Prop :=
  match kind with
  | run_started => after = lit "running"
  | run_completed => after = lit "completed"
  | run_failed => after = lit "failed"
  | escalation => after = before ∨ after = lit "escalated"
  | node_update | attempt | heartbeat => after = before

theorem onmessage_none {data : PyStr} (h : Json.loads data = none) (page : Page) :
    page.onmessage data = page := by
  unfold Page.onmessage
  rw [h]

theorem onmessage_kind {data : PyStr} {envelope : Json.Value} {kind : EventKind}
    (h : Json.loads data = some envelope)
    (hkind : Page.prop "kind" envelope = some (.string (lit kind.value))) (page : Page) :
    kind.shows page.status_pill (page.onmessage data).status_pill := by
  have hequals : ∀ text, Page.equals text (Page.prop "kind" envelope) = (kind.value == text) := by
    intro text
    rw [hkind, Bool.eq_iff_iff, beq_iff_eq]
    show (lit kind.value == lit text) = true ↔ _
    rw [beq_iff_eq, lit_inj]
  unfold Page.onmessage
  rw [h]
  simp only [hequals]
  cases kind with
  | escalation =>
    -- whether the payload says so is left open
    by_cases hescalated : Page.equals "escalated"
        ((Page.prop "payload" envelope).bind (Page.prop "ticket_status")) = true
    · simp [EventKind.value, EventKind.shows, hescalated]
    · simp [EventKind.value, EventKind.shows, hescalated]
  | run_started | run_completed | run_failed | node_update | attempt | heartbeat =>
    simp [EventKind.value, EventKind.shows]

/-- `JSON.parse` takes the payload as `json.dumps` writes it: it has no `NaN`
    and no infinity. -/
def Parses (payload : Dict) : Prop :=
  ∃ text v, json_dumps none (.dict payload) = .ok text ∧ Json.loads text = some v

theorem parses_iff {payload : Dict} {ts : List Json.Token}
    (h : (Obj.dict (Obj.ofItems payload)).tokens none = .ok ts) :
    Parses payload ↔ ts.all Json.Token.strict = true := by
  have hdumps : json_dumps none (.dict payload) = .ok (Json.render ts) := by
    have hsame : (Obj.dict (Obj.ofItems payload)).json_dumps none = json_dumps none (.dict payload) :=
      Obj.json_dumps_ofPyVal none (.dict payload)
    rw [← hsame, Obj.json_dumps, h]
    rfl
  have hloads := Json.loads_render (Obj.wellWritten_tokens _ h)
  constructor
  · intro hparses
    obtain ⟨text, v, htext, hv⟩ := hparses
    obtain rfl := Except.ok.inj (hdumps.symm.trans htext)
    by_contra hlax
    rw [hloads.1 (Bool.eq_false_of_not_eq_true hlax)] at hv
    cases hv
  · intro hstrict
    obtain ⟨v, hv⟩ := Obj.reads_tokens _ h hstrict
    exact ⟨_, v, hdumps, hloads.2 v hstrict hv⟩

/-- The envelope as the encoders see it. -/
def Envelope.toObj (e : Envelope) : Payload.Envelope :=
  ⟨e.seq, e.ts, e.run_id, e.kind, e.node, Obj.ofItems e.payload⟩

theorem format_sse_toObj (e : Envelope) : Payload.format_sse e.toObj = format_sse e := by
  have hdict : Obj.ofPyVal e.toDict = .dict e.toObj.toDict := by
    obtain ⟨seq, ts, run_id, kind, node, payload⟩ := e
    cases seq <;> cases node <;> rfl
  have hdumps := Obj.json_dumps_ofPyVal none e.toDict
  rw [hdict] at hdumps
  rw [Payload.format_sse, hdumps]
  rfl

/-- **One frame**: the page reads the envelope in it, if it parses. -/
theorem watch_frame {e : Envelope} {frame : PyStr} (h : format_sse e = .ok frame) (page : Page)
    (rest : PyStr) : ∃ page' : Page, page.watch (frame ++ rest) = page'.watch rest ∧
      (Parses e.payload → e.kind.shows page.status_pill page'.status_pill) ∧
      (¬Parses e.payload → page' = page) := by
  rw [← format_sse_toObj] at h
  obtain ⟨ts, hts, rfl⟩ := Payload.format_sse_eq_ok.mp h
  refine ⟨page.onmessage (e.toObj.text ts), ?_, ?_, ?_⟩
  · rw [Page.watch, Payload.parse_text hts]
    rfl
  · intro hparses
    obtain ⟨v, hv⟩ := (Payload.loads_text hts).2 ((parses_iff hts).mp hparses)
    refine onmessage_kind hv ?_ page
    exact (Payload.member_parts Json.joinPairs e.toObj (ts.map Json.Token.read) v).2.2.1
  · intro hnot
    refine onmessage_none ((Payload.loads_text hts).1 ?_) page
    rw [parses_iff hts] at hnot
    exact Bool.eq_false_of_not_eq_true hnot

/-! ## A run -/

section
variable [Unicode] {now : Nat → PyStr}

/-- A payload of one text, or of one `None`, parses. -/
theorem parses_safe {key : PyStr} {v : PyVal} {safe : Dict}
    (hv : redact_value v = .none ∨ ∃ s, redact_value v = .str s)
    (h : safe_payload [(key, v)] = .ok safe) : Parses safe := by
  have hobj : Payload.cap_payload (Payload.redact_items (Obj.ofItems [(key, v)])) MAX_PAYLOAD_BYTES =
      .ok (Obj.ofItems safe) := by
    have hsame := Payload.safe_payload_ofItems [(key, v)]
    rw [h] at hsame
    exact hsame
  obtain ⟨ts, -, hcapped⟩ := Payload.cap_payload_eq_ok.mp hobj
  rw [Payload.redact_items_ofItems] at hcapped
  unfold Payload.capped at hcapped
  split at hcapped
  · have hredact : redact_items [(key, v)] = [(key, redact_value v)] := rfl
    rw [hredact] at hcapped
    rcases hv with hv | ⟨s, hv⟩
    · rw [hv] at hcapped
      refine (parses_iff (by rw [hcapped]; rfl)).mpr ?_
      rfl
    · rw [hv] at hcapped
      refine (parses_iff (by rw [hcapped]; rfl)).mpr ?_
      rfl
  · refine (parses_iff (by rw [hcapped]; exact Payload.marker_tokens none _ _)).mpr ?_
    rfl

/-- The envelope a run with this ending emits last. -/
def Ends (ending : Ending) (terminal : Envelope) : Prop :=
  match ending.ticket_status with
  | none => ∃ msg, Carries .run_failed none [(lit "error", .str msg)] terminal
  | some v => Carries .run_completed none [(lit "ticket_status", enum_value "TicketStatus" v)] terminal

theorem drive_graph_ends (run : GraphRun) (r : RunRecord) :
    (drive_graph now run).wp (fun res _ es => ∃ inner,
      (∀ e ∈ inner, e.kind ≠ .run_started ∧ e.kind.terminal = false) ∧
      match res with
      | .error _ => es = inner ∧ run.ending.ticket_status = none
      | .ok () => ∃ terminal, es = inner ++ [terminal] ∧ Ends run.ending terminal) r := by
  rw [drive_graph, Prog.wp_bind]
  apply Prog.wp_mono (drive_updates_spec run.updates.flatten r)
  intro res r₁ es h
  obtain ⟨rfl, -, blocks, rfl, hblocks⟩ := h
  have hinner : ∀ e ∈ blocks.flatten, e.kind ≠ .run_started ∧ e.kind.terminal = false :=
    fun e he => blocks_inner hblocks he
  rw [Prog.andThen_ok]
  cases hend : run.ending with
  | astream_raised exc | aget_state_raised exc =>
    rw [Prog.wp_raise, List.append_nil]
    exact ⟨blocks.flatten, hinner, rfl, rfl⟩
  | snapshot values =>
    simp only [set_status, Prog.wp_bind, Prog.wp_update, Prog.andThen_ok]
    apply wp_emit_event
    intro terminal r₂ hcarries _ _
    exact ⟨blocks.flatten, hinner, terminal, rfl, hcarries⟩

/-- What a run emits, first and last. -/
theorem drive_run_ends (graph : Dict → PyStr → GraphRun) (r : RunRecord) :
    (drive_run now graph).wp (fun _ _ es => ∃ started inner terminal,
      es = started :: (inner ++ [terminal]) ∧
      Carries .run_started none [(lit "raw_request", .str r.raw_request)] started ∧
      (∀ e ∈ inner, e.kind ≠ .run_started ∧ e.kind.terminal = false) ∧
      Ends (graph (build_initial_state r.run_id r.raw_request) r.run_id).ending terminal) r := by
  simp only [drive_run, set_status, Prog.wp_bind, Prog.wp_update, Prog.andThen_ok]
  apply wp_emit_event
  intro started r₁ hstarted _ _
  simp only [Prog.andThen_ok, Prog.wp_bind, Prog.wp_attempt]
  apply Prog.wp_mono (drive_graph_ends _ r₁)
  intro res r₂ es h
  obtain ⟨inner, hinner, hes⟩ := h
  rw [Prog.andThen_ok]
  cases res with
  | error exc =>
    obtain ⟨rfl, hend⟩ := hes
    simp only [Prog.wp_bind, Prog.wp_update, Prog.andThen_ok]
    apply wp_emit_event
    intro terminal r₃ hcarries _ _
    refine ⟨started, es, terminal, by simp, hstarted, hinner, ?_⟩
    unfold Ends
    rw [hend]
    exact ⟨exc.msg, hcarries⟩
  | ok _ =>
    obtain ⟨terminal, rfl, hends⟩ := hes
    rw [Prog.wp_pure]
    exact ⟨started, inner, terminal, by simp, hstarted, hinner, hends⟩

omit [Unicode] in
/-- Between the first envelope and the last, the pill is only ever set to
    `escalated`. -/
theorem watch_inner {inner : List Envelope} {terminal : Envelope} {frames : List PyStr}
    (hinner : ∀ e ∈ inner, e.kind ≠ .run_started ∧ e.kind.terminal = false)
    (h : List.Forall₂ (fun e frame => format_sse e = .ok frame) (inner ++ [terminal]) frames)
    (page : Page) : ∃ (page' : Page) (frame : PyStr),
      page.watch frames.flatten = page'.watch (frame ++ []) ∧
      format_sse terminal = .ok frame ∧
      (page'.status_pill = page.status_pill ∨ page'.status_pill = lit "escalated") := by
  induction inner generalizing frames page with
  | nil =>
    obtain ⟨frame, rest, hframe, hnil, rfl⟩ := List.forall₂_cons_left_iff.mp h
    obtain rfl := List.forall₂_nil_left_iff.mp hnil
    exact ⟨page, frame, rfl, hframe, Or.inl rfl⟩
  | cons e inner ih =>
    obtain ⟨frame, rest, hframe, hrest, rfl⟩ := List.forall₂_cons_left_iff.mp h
    rw [List.forall_mem_cons] at hinner
    obtain ⟨page₁, hwatch, hshows, hsame⟩ := watch_frame hframe page rest.flatten
    -- one envelope leaves the pill or sets it to `escalated`
    have hone : page₁.status_pill = page.status_pill ∨ page₁.status_pill = lit "escalated" := by
      by_cases hparses : Parses e.payload
      · have hkind := hshows hparses
        have hstarted := hinner.1.1
        have hterminal := hinner.1.2
        cases hk : e.kind with
        | run_started => exact absurd hk hstarted
        | run_completed | run_failed =>
          rw [hk] at hterminal
          cases hterminal
        | escalation =>
          rw [hk] at hkind
          exact hkind
        | node_update | attempt | heartbeat =>
          rw [hk] at hkind
          exact Or.inl hkind
      · exact Or.inl (congrArg Page.status_pill (hsame hparses))
    obtain ⟨page', last, hwatch', hlast, hpill⟩ := ih hinner.2 hrest page₁
    refine ⟨page', last, ?_, hlast, ?_⟩
    · rw [List.flatten_cons, hwatch, hwatch']
    · rcases hpill with hpill | hpill
      · rw [hpill]
        exact hone
      · exact Or.inr hpill

/-- What the page shows of a whole run: what the last envelope says, or, if
    that does not parse, that the run is running or escalated. -/
theorem watch_run (graph : Dict → PyStr → GraphRun) (r : RunRecord) {frames : List PyStr}
    (h : List.Forall₂ (fun e frame => format_sse e = .ok frame) (drive_run now graph r).events frames)
    (page : Page) : ∃ terminal before,
      Ends (graph (build_initial_state r.run_id r.raw_request) r.run_id).ending terminal ∧
      (before = lit "running" ∨ before = lit "escalated") ∧
      (Parses terminal.payload →
        terminal.kind.shows before (page.watch frames.flatten).status_pill) ∧
      (¬Parses terminal.payload → (page.watch frames.flatten).status_pill = before) := by
  obtain ⟨started, inner, terminal, hevents, hstarted, hinner, hends⟩ :=
    @drive_run_ends _ now graph r
  rw [hevents] at h
  obtain ⟨frame, rest, hframe, hrest, rfl⟩ := List.forall₂_cons_left_iff.mp h
  obtain ⟨page₁, hwatch₁, hshows₁, -⟩ := watch_frame hframe page rest.flatten
  obtain ⟨page₂, last, hwatch₂, hlast, hpill⟩ := watch_inner hinner hrest page₁
  obtain ⟨page₃, hwatch₃, hshows₃, hsame₃⟩ := watch_frame hlast page₂ []
  have hrunning : page₁.status_pill = lit "running" := by
    have hshows := hshows₁ (parses_safe (Or.inr ⟨_, rfl⟩) hstarted.payload)
    rw [hstarted.kind] at hshows
    exact hshows
  have hwatch : page.watch (frame :: rest).flatten = page₃ := by
    rw [List.flatten_cons, hwatch₁, hwatch₂, hwatch₃]
    rfl
  rw [hwatch]
  refine ⟨terminal, page₂.status_pill, hends, ?_, hshows₃, ?_⟩
  · rwa [hrunning] at hpill
  · intro hnot
    rw [hsame₃ hnot]

omit [Unicode] in
theorem status_failed {ending : Ending} (h : ending.ticket_status = none) :
    ending.status = .failed := by
  unfold Ending.status
  rw [h]

omit [Unicode] in
theorem status_ticket {ending : Ending} {v : PyVal} (h : ending.ticket_status = some v) :
    ending.status = if pyEq v ESCALATED then .escalated else .completed := by
  unfold Ending.status
  rw [h]

/-- **The pill shows the status of the record** at the end of a run if and
    only if the run was not escalated, and its last envelope parses. -/
theorem monitor_shows_status_iff (now : Nat → PyStr) (graph : Dict → PyStr → GraphRun)
    (run_id raw_request : PyStr) (page : Page) {frames : List PyStr}
    (h : List.Forall₂ (fun e frame => format_sse e = .ok frame)
      (drive_run now graph (RunRecord.new run_id raw_request)).events frames) :
    (page.watch frames.flatten).status_pill =
        lit (drive_run now graph (RunRecord.new run_id raw_request)).world.status.value ↔
      ∀ v, (graph (build_initial_state run_id raw_request) run_id).ending.ticket_status = some v →
        pyEq v ESCALATED = false ∧
          ∀ safe, safe_payload [(lit "ticket_status", enum_value "TicketStatus" v)] = .ok safe →
            Parses safe := by
  obtain ⟨terminal, before, hends, hbefore, hshows, hsame⟩ :=
    watch_run graph (RunRecord.new run_id raw_request) h page
  rw [drive_run_status]
  show _ = lit (graph (build_initial_state run_id raw_request) run_id).ending.status.value ↔ _
  change Ends (graph (build_initial_state run_id raw_request) run_id).ending terminal at hends
  -- only how the run ended matters from here
  generalize (graph (build_initial_state run_id raw_request) run_id).ending = ending at hends ⊢
  unfold Ends at hends
  -- a failed run says so in its text, and the text of an error always parses
  cases hstatus : ending.ticket_status with
  | none =>
    rw [hstatus] at hends
    obtain ⟨msg, hcarries⟩ := hends
    have hfailed := hshows (parses_safe (Or.inr ⟨_, rfl⟩) hcarries.payload)
    rw [hcarries.kind] at hfailed
    rw [status_failed hstatus]
    exact iff_of_true hfailed nofun
  | some v =>
    rw [hstatus] at hends
    have hcarries : Carries .run_completed none
        [(lit "ticket_status", enum_value "TicketStatus" v)] terminal := hends
    rw [status_ticket hstatus]
    have hcompleted : Parses terminal.payload →
        (page.watch frames.flatten).status_pill = lit "completed" := by
      intro hparses
      have hkind := hshows hparses
      rwa [hcarries.kind] at hkind
    by_cases hescalated : pyEq v ESCALATED = true
    · -- the text `escalated` parses, and the pill says `completed`
      have hstr : redact_value (enum_value "TicketStatus" v) = .str (lit "escalated") := by
        apply redact_value_str
        rw [redact_value_escalated, enum_value_asStr]
        rwa [ESCALATED, pyEq_enum, beq_iff_eq] at hescalated
      have hpill := hcompleted (parses_safe (Or.inr ⟨_, hstr⟩) hcarries.payload)
      refine iff_of_false ?_ ?_
      · rw [if_pos hescalated, hpill]
        decide
      · intro hall
        have hnot := (hall v rfl).1
        rw [hescalated] at hnot
        cases hnot
    · rw [if_neg hescalated]
      by_cases hparses : Parses terminal.payload
      · refine iff_of_true (hcompleted hparses) ?_
        intro v' hv'
        obtain rfl := Option.some.inj hv'
        refine ⟨Bool.eq_false_of_not_eq_true hescalated, ?_⟩
        intro safe hsafe
        obtain rfl := Except.ok.inj (hcarries.payload.symm.trans hsafe)
        exact hparses
      · refine iff_of_false ?_ ?_
        · -- an unreadable envelope leaves the pill at `running` or `escalated`
          rw [hsame hparses]
          rcases hbefore with rfl | rfl
          · decide
          · decide
        · intro hall
          exact hparses ((hall v rfl).2 _ hcarries.payload)

end

section small
attribute [local instance] Unicode.ascii

/-- The page when a run has been submitted. -/
def queued_page : Page := ⟨lit "0", lit "queued"⟩

/-- A run whose one node sets a ticket status. -/
def small_run (status : TicketStatus) : List Envelope :=
  (drive_run (fun _ => []) (checkpointed [[(lit "executor", { ticket_status := some status })]] .completed)
    (RunRecord.new (lit "r") (lit "x"))).events

/-- Its frames. -/
def small_frames (status : TicketStatus) : List PyStr :=
  (small_run status).map fun e => (format_sse e).toOption.getD []

theorem small_sent (status : TicketStatus)
    (h : (small_run status).all fun e => (format_sse e).toBool) :
    List.Forall₂ (fun e frame => format_sse e = .ok frame) (small_run status) (small_frames status) := by
  rw [small_frames, List.forall₂_map_right_iff, List.forall₂_same]
  intro e he
  have hok := List.all_eq_true.mp h e he
  cases hframe : format_sse e with
  | error exc =>
    rw [hframe] at hok
    cases hok
  | ok frame => rfl

/-- A run that passes. -/
theorem monitor_shows_status_iff_passed :
    (queued_page.watch (small_frames .LOCAL_PASS).flatten).status_pill =
      lit (drive_run (fun _ => [])
        (checkpointed [[(lit "executor", { ticket_status := some .LOCAL_PASS })]] .completed)
        (RunRecord.new (lit "r") (lit "x"))).world.status.value := by
  have hsent := small_sent .LOCAL_PASS (by decide +kernel)
  refine (monitor_shows_status_iff _ _ _ _ queued_page hsent).mpr ?_
  intro v hv
  have hpassed : some TicketStatus.LOCAL_PASS.toPy = some v := hv
  obtain rfl := Option.some.inj hpassed
  refine ⟨by decide, ?_⟩
  intro safe hsafe
  exact parses_safe (Or.inr ⟨_, rfl⟩) hsafe

/-- A run that is escalated, and shown as completed. -/
theorem escalated_pill_overwritten :
    List.Forall₂ (fun e frame => format_sse e = .ok frame) (small_run .ESCALATED)
        (small_frames .ESCALATED) ∧
      (queued_page.watch (small_frames .ESCALATED).flatten).status_pill ≠
        lit (drive_run (fun _ => [])
          (checkpointed [[(lit "executor", { ticket_status := some .ESCALATED })]] .completed)
          (RunRecord.new (lit "r") (lit "x"))).world.status.value := by
  refine ⟨small_sent .ESCALATED (by decide +kernel), ?_⟩
  have hpill : (queued_page.watch (small_frames .ESCALATED).flatten).status_pill =
      lit "completed" := by decide +kernel
  have hstatus : (drive_run (fun _ => [])
      (checkpointed [[(lit "executor", { ticket_status := some .ESCALATED })]] .completed)
      (RunRecord.new (lit "r") (lit "x"))).world.status = .escalated := by
    rw [drive_run_status]
    rfl
  rw [hpill, hstatus]
  decide

end small

end Syndicate.Server
