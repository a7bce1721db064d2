import Syndicate.Server.Backlog
import Syndicate.Server.Monitor
import Syndicate.Server.Watching

/-! # What the graph emits is JSON

    `cap_payload` takes any payload, `format_sse` only what `json.dumps`
    writes without a `default`: another envelope ends every stream that gets
    to it.  The nodes, run from a request, return nothing of the kind. -/

namespace Syndicate.Server

open Py Framework

/-! ## One envelope -/

/-- Redaction leaves of the value what `json.dumps` writes as JSON. -/
def Survives (v : PyVal) : Prop := Payload.survives false (Obj.ofPyVal v) = true

/-- `json.dumps` writes the payload, and `JSON.parse` takes it. -/
def Written (e : Envelope) : Prop := Payload.writable false (.dict (Obj.ofItems e.payload)) = true

theorem survives_dict {payload : Dict} :
    Survives (.dict payload) ↔ ∀ item ∈ payload, Survives item.2 := by
  induction payload with
  | nil => simp [Survives, Obj.ofPyVal, Obj.ofItems, Payload.survives, Payload.survives_items]
  | cons item rest ih =>
    obtain ⟨key, v⟩ := item
    rw [List.forall_mem_cons, ← ih]
    simp [Survives, Obj.ofPyVal, Obj.ofItems, Payload.survives, Payload.survives_items]

theorem survives_append {payload more : Dict} :
    Survives (.dict (payload ++ more)) ↔ Survives (.dict payload) ∧ Survives (.dict more) := by
  simp only [survives_dict, List.forall_mem_append]

theorem survives_get {payload : Dict} (h : Survives (.dict payload)) (key : String) :
    Survives (payload.get key) := by
  unfold Dict.get
  cases hfind : payload.find key with
  | none => rfl
  | some v =>
    obtain ⟨before, rest, hsplit, -⟩ := List.lookup_eq_some_iff.mp hfind
    exact survives_dict.mp h (lit key, v) (by rw [hsplit]; simp)

/-- The member of an enumeration, or its value. -/
theorem survives_enum_value {v : PyVal} (h : Survives v) (cls : String) :
    Survives (enum_value cls v) := by
  unfold enum_value
  split
  · split
    · rfl
    · exact h
  · exact h

section
variable [Unicode]

/-- The encoder with a `default` takes every payload, so it is its tokens
    that the one without writes. -/
theorem Written.tokens {e : Envelope} (h : Written e) :
    ∃ ts, (Obj.dict (Obj.ofItems e.payload)).tokens none = .ok ts ∧
      ts.all Json.Token.strict = true := by
  obtain ⟨text, htext, -⟩ := json_dumps_ascii str (.dict e.payload)
  have hdumps := Obj.json_dumps_ofPyVal (some Obj.to_str) (.dict e.payload)
  have hstr : Obj.onPyVal (some Obj.to_str) = some str := congrArg some (funext Obj.to_str_ofPyVal)
  rw [hstr, htext] at hdumps
  obtain ⟨ts, hts, -⟩ := except_map_ok.mp hdumps
  exact ⟨ts, (Payload.writable_iff _ hts).mp h⟩

theorem Written.formats {e : Envelope} (h : Written e) : Formats e := by
  obtain ⟨ts, hts, -⟩ := h.tokens
  have hframe : Payload.format_sse e.toObj = .ok (lit "data: " ++ e.toObj.text ts ++ lit "\n\n") :=
    Payload.format_sse_eq_ok.mpr ⟨ts, hts, rfl⟩
  exact ⟨_, (format_sse_toObj e).symm.trans hframe⟩

theorem Written.parses {e : Envelope} (h : Written e) : Parses e.payload := by
  obtain ⟨ts, hts, hstrict⟩ := h.tokens
  exact (parses_iff hts).mpr hstrict

/-- What redaction leaves is written, and so is the marker of what is over
    the cap. -/
theorem Carries.written {kind : EventKind} {node : Option PyStr} {payload : Dict} {e : Envelope}
    (hcarries : Carries kind node payload e) (h : Survives (.dict payload)) : Written e := by
  have hobj := Payload.safe_payload_ofItems payload
  rw [hcarries.payload] at hobj
  obtain ⟨ts, -, hcapped⟩ := Payload.cap_payload_eq_ok.mp hobj
  show Payload.writable_items false (Obj.ofItems e.payload) = true
  rw [hcapped]
  unfold Payload.capped
  split
  · rw [Payload.writable_redact_items]
    exact h
  · rfl

/-! ## The driver -/

variable {now : Nat → PyStr}

theorem emits_emit_event {kind : EventKind} {node : Option PyStr} {payload : Dict}
    (h : Survives (.dict payload)) : Prog.Emits Written (emit_event now kind node payload) := by
  intro r
  apply wp_emit_event (Q := fun _ _ es => ∀ e ∈ es, Written e)
  intro e r' hcarries _ _
  exact List.forall_mem_singleton.mpr (hcarries.written h)

theorem survives_attempt {line : PyVal} {attempt : Dict} (h : attempt_of line = some attempt) :
    Survives (.dict attempt) := by
  unfold attempt_of at h
  split at h
  · cases h
  · rename_i text htext
    split at h
    · obtain rfl := Option.some.inj h
      rw [survives_dict, List.forall_mem_cons, List.forall_mem_cons]
      refine ⟨?_, ?_, fun _ h => absurd h List.not_mem_nil⟩
      · show Survives (strike_of text)
        unfold strike_of
        repeat' split
        all_goals rfl
      · cases line with
        | str _ | enum _ _ => rfl
        | none | bool _ | int _ | float _ | list _ | tuple _ | dict _ | dataclass _ _ => cases htext
    · cases h

theorem emits_emit_attempts (node : PyStr) {attempts : List Dict}
    (h : ∀ attempt ∈ attempts, Survives (.dict attempt)) :
    Prog.Emits Written (emit_attempts now node attempts) := by
  induction attempts with
  | nil => exact Prog.emits_pure ()
  | cons attempt attempts ih =>
    rw [List.forall_mem_cons] at h
    apply Prog.emits_bind (emits_emit_event h.1)
    intro _
    exact ih h.2

theorem survives_extract_attempts (node : PyStr) (delta : Dict) (r : RunRecord) :
    ∀ attempt ∈ (extract_attempts node delta r).1, Survives (.dict attempt) := by
  intro attempt hmem
  unfold extract_attempts at hmem
  repeat' split at hmem
  · exact absurd hmem List.not_mem_nil
  · obtain ⟨line, -, hline⟩ := List.mem_filterMap.mp hmem
    exact survives_attempt hline
  · exact absurd hmem List.not_mem_nil

omit [Unicode] in
theorem survives_extract_escalation {delta payload : Dict} (h : Survives (.dict delta)) (r : RunRecord)
    (hpayload : (extract_escalation delta r).1 = some payload) : Survives (.dict payload) := by
  have hcount : Survives (.dict [(lit "escalation_count", delta.get "escalation_count")]) :=
    survives_dict.mpr (List.forall_mem_singleton.mpr (survives_get h _))
  have hstatus : Survives (.dict [(lit "run_status", enum_value "RunStatus" (delta.get "run_status"))]) :=
    survives_dict.mpr (List.forall_mem_singleton.mpr (survives_enum_value (survives_get h _) _))
  have hescalated : Survives (.dict [(lit "ticket_status", .str (lit "escalated"))]) := rfl
  have hnil : Survives (.dict []) := rfl
  unfold extract_escalation at hpayload
  dsimp only at hpayload
  -- the payload is some of these in a row
  repeat' split at hpayload
  all_goals
    first
    | obtain rfl := Option.some.inj hpayload
      simp only [survives_append, hcount, hstatus, hescalated, hnil, and_self]
    | cases hpayload

theorem emits_drive_node (node : PyStr) {raw_delta : PyVal} (h : Survives (.dict (delta_of raw_delta))) :
    Prog.Emits Written (drive_node now node raw_delta) := by
  apply Prog.emits_bind (emits_emit_event h)
  intro _
  apply Prog.emits_update_bind
  intro r
  apply Prog.emits_bind (emits_emit_attempts node (survives_extract_attempts node _ r))
  intro _
  apply Prog.emits_update_bind
  intro r'
  cases hpayload : (extract_escalation (delta_of raw_delta) r').1 with
  | none => exact Prog.emits_pure ()
  | some payload => exact emits_emit_event (survives_extract_escalation h r' hpayload)

theorem emits_drive_updates {nodes : List (PyStr × PyVal)}
    (h : ∀ n ∈ nodes, Survives (.dict (delta_of n.2))) :
    Prog.Emits Written (drive_updates now nodes) := by
  induction nodes with
  | nil => exact Prog.emits_pure ()
  | cons n nodes ih =>
    rw [List.forall_mem_cons] at h
    apply Prog.emits_bind (emits_drive_node n.1 h.1)
    intro _
    exact ih h.2

theorem emits_drive_graph {run : GraphRun}
    (hupdates : ∀ n ∈ run.updates.flatten, Survives (.dict (delta_of n.2)))
    (hending : ∀ v, run.ending.ticket_status = some v → Survives v) :
    Prog.Emits Written (drive_graph now run) := by
  apply Prog.emits_bind (emits_drive_updates hupdates)
  intro _
  cases hend : run.ending with
  | astream_raised exc | aget_state_raised exc => exact Prog.emits_raise exc
  | snapshot values =>
    apply Prog.emits_update_bind
    intro r
    apply emits_emit_event
    have hstatus := hending ((values.getD []).get "ticket_status") (by rw [hend]; rfl)
    exact survives_dict.mpr (List.forall_mem_singleton.mpr (survives_enum_value hstatus _))

/-- What a run emits is written, if what the graph yields survives. -/
theorem drive_run_written {graph : Dict → PyStr → GraphRun} {run_id raw_request : PyStr}
    (hupdates : ∀ n ∈ (graph (build_initial_state run_id raw_request) run_id).updates.flatten,
      Survives (.dict (delta_of n.2)))
    (hending : ∀ v, (graph (build_initial_state run_id raw_request) run_id).ending.ticket_status = some v →
      Survives v) :
    ∀ e ∈ (drive_run now graph (RunRecord.new run_id raw_request)).events, Written e := by
  have htext : ∀ key text, Survives (.dict [(key, .str text)]) := fun _ _ => rfl
  show (drive_run now graph).wp (fun _ _ es => ∀ e ∈ es, Written e) _
  simp only [drive_run, set_status, Prog.wp_bind, Prog.wp_update, Prog.andThen_ok]
  apply wp_emit_event
  intro started r₁ hstarted _ _
  have hfirst := List.forall_mem_singleton.mpr (hstarted.written (htext _ _))
  simp only [Prog.andThen_ok, Prog.wp_bind, Prog.wp_attempt]
  apply Prog.wp_mono ((emits_drive_graph hupdates hending).wp r₁)
  intro res r₂ es hes
  rw [Prog.andThen_ok]
  cases res with
  | ok _ =>
    rw [Prog.wp_pure]
    rw [List.append_nil]
    have hall := List.forall_mem_append.mpr ⟨hfirst, hes⟩
    exact hall
  | error exc =>
    simp only [Prog.wp_bind, Prog.wp_update, Prog.andThen_ok]
    apply wp_emit_event
    intro terminal r₃ hterminal _ _
    have hlast := List.forall_mem_singleton.mpr (hterminal.written (htext _ _))
    have hafter := List.forall_mem_append.mpr ⟨hes, hlast⟩
    have hall := List.forall_mem_append.mpr ⟨hfirst, hafter⟩
    exact hall

end

end Syndicate.Server

namespace Syndicate

open Py Framework Server

/-! ## The nodes -/

/-- A state, or an update, of a run that was given no issue. -/
structure AgentState.Plain (s : AgentState) : Prop where
  issue : s.issue = none
  issue_analysis : s.issue_analysis = none
  ticket : ∀ ticket, s.active_ticket = some ticket → Survives (.dict ticket)

namespace AgentState

variable {s δ : AgentState}

theorem Plain.update (hs : s.Plain) (hδ : δ.Plain) : (s.update δ).Plain := by
  refine ⟨?_, ?_, ?_⟩
  · show δ.issue.or s.issue = none
    rw [hδ.issue, hs.issue]
    rfl
  · show δ.issue_analysis.or s.issue_analysis = none
    rw [hδ.issue_analysis, hs.issue_analysis]
    rfl
  · intro ticket hticket
    rcases Option.or_eq_some_iff.mp hticket with h | ⟨-, h⟩
    · exact hδ.ticket ticket h
    · exact hs.ticket ticket h

/-- An update that sets neither of the three. -/
theorem plain_of_none (hissue : δ.issue = none) (hanalysis : δ.issue_analysis = none)
    (hticket : δ.active_ticket = none) : δ.Plain := by
  refine ⟨hissue, hanalysis, ?_⟩
  intro ticket h
  rw [hticket] at h
  cases h

theorem survives_item {α : Type} {key : String} {toPy : α → PyVal} {value : Option α}
    (h : ∀ a, value = some a → Survives (toPy a)) : Survives (.dict (item key toPy value)) := by
  cases value with
  | none => rfl
  | some a => exact survives_dict.mpr (List.forall_mem_singleton.mpr (h a rfl))

theorem survives_list {xs : List PyVal} (h : ∀ x ∈ xs, Survives x) : Survives (.list xs) := by
  induction xs with
  | nil => rfl
  | cons x xs ih =>
    rw [List.forall_mem_cons] at h
    have hrest : Payload.survives_all false (Obj.ofPyVals xs) = true := ih h.2
    show (Payload.survives false (Obj.ofPyVal x) && Payload.survives_all false (Obj.ofPyVals xs)) = true
    rw [hrest, Bool.and_true]
    exact h.1

/-- Whatever the texts in it are, redaction leaves JSON of it. -/
theorem Plain.survives (h : s.Plain) : Survives (.dict s.returned) := by
  have hstrikes : Survives (.dict (item "strike_count" .int s.strike_count)) :=
    survives_item fun _ _ => rfl
  have hdiagnosis : Survives
      (.dict (item "validation_diagnosis" (Server.optional .str) s.validation_diagnosis)) :=
    survives_item fun diagnosis _ => by cases diagnosis <;> rfl
  unfold returned
  simp only [survives_append]
  refine ⟨⟨⟨⟨⟨⟨⟨⟨⟨?_, ?_⟩, ?_⟩, ?_⟩, ?_⟩, ?_⟩, ?_⟩, ?_⟩, ?_⟩, ?_⟩
  · rw [h.issue]
    rfl
  · rw [h.issue_analysis]
    rfl
  · exact survives_item h.ticket
  · -- a `DecisionSummary` becomes the `dict` of its fields
    apply survives_item
    intro ledger _
    apply survives_list
    intro x hx
    obtain ⟨decision, -, rfl⟩ := List.mem_map.mp hx
    rfl
  · -- lines of the log
    apply survives_item
    intro log _
    apply survives_list
    intro x hx
    obtain ⟨line, -, rfl⟩ := List.mem_map.mp hx
    rfl
  · exact survives_item fun status _ => by cases status <;> rfl
  · exact survives_item fun _ _ => rfl
  · -- the order does not matter
    split
    · exact survives_append.mpr ⟨hdiagnosis, hstrikes⟩
    · exact survives_append.mpr ⟨hstrikes, hdiagnosis⟩
  · exact survives_item fun _ _ => rfl
  · exact survives_item fun status _ => by cases status <;> rfl

end AgentState

section nodes
variable {W : Type} [Unicode]

/-- What a node returns in such a run. -/
theorem Does.plain {env : Env W} {s δ : AgentState} {node : Node} {es : List (Event W)}
    (h : Does env s node es (.ok δ)) (hs : s.Plain) : δ.Plain := by
  cases h with
  | analyzer_ticket _ =>
    refine ⟨rfl, rfl, ?_⟩
    intro ticket hticket
    obtain rfl := Option.some.inj hticket
    split
    · rfl
    · unfold AgentState.ticket
      cases hactive : s.active_ticket with
      | none => rfl
      | some ticket => exact hs.ticket ticket hactive
  | analyzer_issue hissue _ | architect_plan hissue _ => exact absurd hs.issue hissue
  | executor_real _ _ _ hend => cases hend <;> exact AgentState.plain_of_none rfl rfl rfl
  | oversight_git _ _ _ hpass => cases hpass <;> exact AgentState.plain_of_none rfl rfl rfl
  | architect_idle _ | dispatch | executor_mock _ _ _ | validator_mock _ | validator_pass _ _
  | validator_fail _ _ _ | escalate | advance => exact AgentState.plain_of_none rfl rfl rfl

/-- **A run that was given no issue**: neither its state nor what a node
    returns ever has one. -/
theorem ainvoke_plain (env : Env W) {s : AgentState} (hs : s.Plain) (w : W) (n : Nat) :
    (ainvoke env n s w).2.state.Plain ∧
      ∀ v ∈ (ainvoke env n s w).1, ∀ δ, v.result = .ok δ → δ.Plain := by
  apply ainvoke_invariant
    (P := fun h c => c.state.Plain ∧ ∀ v ∈ h, ∀ δ, v.result = .ok δ → δ.Plain)
  · exact ⟨hs, fun v hv => absurd hv List.not_mem_nil⟩
  · intro h c v c' hP hst
    obtain ⟨hc, hh⟩ := hP
    have hδ : ∀ δ, v.result = .ok δ → δ.Plain := by
      intro δ hr
      have hdoes := hst.does
      rw [hr] at hdoes
      exact hdoes.plain hc
    refine ⟨?_, ?_⟩
    · cases hr : v.result with
      | error e =>
        rw [(hst.error e hr).1]
        exact hc
      | ok δ =>
        rw [(hst.ok δ hr).1]
        exact hc.update (hδ δ hr)
    · intro u hu
      rcases List.mem_append.mp hu with hu | hu
      · exact hh u hu
      · rw [List.mem_singleton.mp hu]
        exact hδ

/-! ## The graph under the driver -/

/-- How a run comes out for the driver: an exception of a node leaves
    `astream`, and else the last snapshot holds the state. -/
def Config.ending (c : Config W) : Ending :=
  match c.pc with
  | .raised exc => .astream_raised exc
  | .at _ | .END => .snapshot (some c.state.toDict)

/-- The compiled graph, as the driver runs it to the end. -/
def served_graph (env : Env W) (w : W) (n : Nat) : Dict → PyStr → GraphRun := fun values thread_id =>
  compiled_graph env w n (ainvoke env n (input_state values) w).2.ending values thread_id

omit [Unicode] in
theorem plain_input (run_id raw_request : PyStr) :
    (input_state (build_initial_state run_id raw_request)).Plain := by
  refine ⟨rfl, rfl, ?_⟩
  intro ticket hticket
  obtain rfl := Option.some.inj hticket
  rfl

omit [Unicode] in
/-- An update is what a node returned. -/
theorem mem_updates {h : List (Visit W)} {n : PyStr × PyVal} (hn : n ∈ (updates h).flatten) :
    ∃ v ∈ h, ∃ δ, v.result = .ok δ ∧ n.2 = raw_delta δ := by
  obtain ⟨update, hupdate, hn⟩ := List.mem_flatten.mp hn
  obtain ⟨v, hv, hof⟩ := List.mem_filterMap.mp hupdate
  unfold Visit.update at hof
  cases hr : v.result with
  | error e =>
    rw [hr] at hof
    cases hof
  | ok δ =>
    rw [hr] at hof
    obtain rfl := Option.some.inj hof
    obtain rfl := List.mem_singleton.mp hn
    exact ⟨v, hv, δ, hr, rfl⟩

omit [Unicode] in
theorem survives_ending {c : Config W} (v : PyVal) (hv : c.ending.ticket_status = some v) :
    Survives v := by
  unfold Config.ending at hv
  cases hpc : c.pc with
  | raised exc =>
    rw [hpc] at hv
    cases hv
  | «at» _ | END =>
    rw [hpc] at hv
    have hget : c.state.toDict.get "ticket_status" = v := Option.some.inj hv
    rw [← hget, Dict.get, AgentState.toDict_ticket_status]
    rcases c.state.ticket_status with _ | status
    · rfl
    · cases status <;> rfl

/-- Every envelope of such a run is written. -/
theorem served_graph_written (env : Env W) (w : W) (n : Nat) (now : Nat → PyStr)
    (run_id raw_request : PyStr) :
    ∀ e ∈ (drive_run now (served_graph env w n) (RunRecord.new run_id raw_request)).events, Written e := by
  obtain ⟨-, hvisits⟩ := ainvoke_plain env (plain_input run_id raw_request) w n
  apply drive_run_written
  · intro u hu
    obtain ⟨v, hv, δ, hr, hdelta⟩ := mem_updates hu
    rw [hdelta, delta_of_raw_delta]
    exact (hvisits v hv δ hr).survives
  · exact survives_ending

end nodes

end Syndicate
