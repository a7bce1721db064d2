import Syndicate.Server.Protocol
import Syndicate.Server.Updates

/-! # What one update fans out to

    An executor's update is read twice: it is passed on as a `node_update`,
    and the lines of its `attempt_log` behind a cursor are searched for
    attempts.  The cursor is all the driver remembers of a log, so the
    attempts of a run are a function of its updates (`attempts_from`). -/

namespace Syndicate.Server

open Py Framework

/-! ## The cursor -/

/-- The attempts an update reports to a reader that has seen `cursor` lines,
    and the lines it has seen then. -/
def read_attempts [Unicode] (node : PyStr) (delta : Dict) (cursor : Nat) : List Dict × Nat :=
  if node ≠ lit "executor" then ([], cursor)
  else
    match delta.get "attempt_log" with
    | .list attempt_log => ((attempt_log.drop cursor).filterMap attempt_of, attempt_log.length)
    | _ => ([], cursor)

/-- The attempts that the updates of a run report, in order. -/
def attempts_from [Unicode] : Nat → List (PyStr × PyVal) → List Dict
  | _, [] => []
  | cursor, (node, raw_delta) :: rest =>
    (read_attempts node (delta_of raw_delta) cursor).1 ++
      attempts_from (read_attempts node (delta_of raw_delta) cursor).2 rest

/-- The lines seen after some updates. -/
def cursor_after [Unicode] : Nat → List (PyStr × PyVal) → Nat
  | cursor, [] => cursor
  | cursor, (node, raw_delta) :: rest =>
    cursor_after (read_attempts node (delta_of raw_delta) cursor).2 rest

section cursor
variable [Unicode]

theorem cursor_after_append (cursor : Nat) (nodes nodes' : List (PyStr × PyVal)) :
    cursor_after cursor (nodes ++ nodes') = cursor_after (cursor_after cursor nodes) nodes' := by
  induction nodes generalizing cursor with
  | nil => rfl
  | cons n nodes ih => exact ih _

theorem attempts_from_append (cursor : Nat) (nodes nodes' : List (PyStr × PyVal)) :
    attempts_from cursor (nodes ++ nodes') =
      attempts_from cursor nodes ++ attempts_from (cursor_after cursor nodes) nodes' := by
  induction nodes generalizing cursor with
  | nil => rfl
  | cons n nodes ih =>
    rw [List.cons_append, attempts_from, attempts_from, ih, cursor_after, List.append_assoc]

/-- `_extract_attempts` reads and writes nothing of the record but the
    cursor. -/
theorem extract_attempts_eq (node : PyStr) (delta : Dict) (r : RunRecord) :
    extract_attempts node delta r = ((read_attempts node delta r.last_attempt_log_len).1,
      { r with last_attempt_log_len := (read_attempts node delta r.last_attempt_log_len).2 }) := by
  unfold extract_attempts read_attempts
  by_cases hnode : node ≠ lit "executor"
  · simp only [if_pos hnode]
  · simp only [if_neg hnode]
    cases delta.get "attempt_log" <;> rfl

/-- Only an executor reports attempts. -/
theorem read_attempts_other {node : PyStr} (hnode : node ≠ lit "executor") (delta : Dict)
    (cursor : Nat) : read_attempts node delta cursor = ([], cursor) :=
  if_pos hnode

end cursor

@[simp] theorem emit_cursor (r : RunRecord) (e : Envelope) :
    (r.next_seq.2.emit e).last_attempt_log_len = r.last_attempt_log_len := by
  rw [RunRecord.emit, RunRecord.next_seq]

/-- Looking for an escalation leaves the cursor. -/
theorem extract_escalation_cursor (delta : Dict) (r : RunRecord) :
    (extract_escalation delta r).2.last_attempt_log_len = r.last_attempt_log_len := by
  unfold extract_escalation
  dsimp only
  repeat' split
  all_goals rfl

/-! ## What is emitted -/

/-- The attempt events among `es`. -/
def attempt_events (es : List Envelope) : List Envelope := es.filter (·.kind = .attempt)

@[simp] theorem attempt_events_append (es es' : List Envelope) :
    attempt_events (es ++ es') = attempt_events es ++ attempt_events es' :=
  List.filter_append ..

section
variable [Unicode]

/-- An attempt event and what it was made of. -/
abbrev Reports (attempt : Dict) (e : Envelope) : Prop :=
  Carries .attempt (some (lit "executor")) attempt e

/-- `es` holds an event for each of `attempts`, in order, and at most `k`
    events of other kinds. -/
structure Fanout (k : Nat) (attempts : List Dict) (es : List Envelope) : Prop where
  reported : List.Forall₂ Reports attempts (attempt_events es)
  length : es.length ≤ k + attempts.length

theorem fanout_nil (k : Nat) : Fanout k [] [] := ⟨.nil, Nat.zero_le k⟩

theorem Fanout.append {k k' : Nat} {as as' : List Dict} {es es' : List Envelope}
    (h : Fanout k as es) (h' : Fanout k' as' es') : Fanout (k + k') (as ++ as') (es ++ es') where
  reported := by
    rw [attempt_events_append]
    exact List.rel_append h.reported h'.reported
  length := by
    have := h.length
    have := h'.length
    rw [List.length_append, List.length_append]
    omega

/-- One event that is no attempt. -/
theorem Carries.fanout {kind : EventKind} {node : Option PyStr} {payload : Dict} {e : Envelope}
    (h : Carries kind node payload e) (hkind : kind ≠ .attempt) : Fanout 1 [] [e] := by
  have hnone : attempt_events [e] = [] := by simp [attempt_events, h.kind, hkind]
  refine ⟨?_, Nat.le_refl 1⟩
  rw [hnone]
  exact .nil

/-- One attempt event. -/
theorem Carries.fanout_attempt {attempt : Dict} {e : Envelope} (h : Reports attempt e) :
    Fanout 0 [attempt] [e] := by
  have hsome : attempt_events [e] = [e] := by simp [attempt_events, h.kind]
  refine ⟨?_, Nat.le_refl 1⟩
  rw [hsome]
  exact .cons h .nil

variable {now : Nat → PyStr}

theorem emit_attempts_fanout (attempts : List Dict) (r : RunRecord) :
    (emit_attempts now (lit "executor") attempts).wp (fun res r' es => res = .ok () ∧
      r'.last_attempt_log_len = r.last_attempt_log_len ∧ Fanout 0 attempts es) r := by
  induction attempts generalizing r with
  | nil => exact ⟨rfl, rfl, fanout_nil 0⟩
  | cons a attempts ih =>
    rw [emit_attempts, Prog.wp_bind]
    apply wp_emit_next
    intro e hcarries _
    rw [Prog.andThen_ok]
    apply Prog.wp_mono (ih _)
    intro res r' es h
    obtain ⟨hres, hcursor, hfan⟩ := h
    exact ⟨hres, hcursor.trans (emit_cursor r e), hcarries.fanout_attempt.append hfan⟩

/-- The attempts that one update reports. -/
theorem emit_read_fanout (node : PyStr) (delta : Dict) (cursor : Nat) (r : RunRecord) :
    (emit_attempts now node (read_attempts node delta cursor).1).wp (fun res r' es => res = .ok () ∧
      r'.last_attempt_log_len = r.last_attempt_log_len ∧
      Fanout 0 (read_attempts node delta cursor).1 es) r := by
  by_cases hnode : node = lit "executor"
  · rw [hnode]
    exact emit_attempts_fanout _ r
  · rw [read_attempts_other hnode]
    exact ⟨rfl, rfl, fanout_nil 0⟩

/-- The events of one node of one update: its own, its attempts, and one
    escalation at most. -/
theorem drive_node_fanout (node : PyStr) (raw_delta : PyVal) (r : RunRecord) :
    (drive_node now node raw_delta).wp (fun res r' es => res = .ok () ∧
      r'.last_attempt_log_len =
        (read_attempts node (delta_of raw_delta) r.last_attempt_log_len).2 ∧
      Fanout 2 (read_attempts node (delta_of raw_delta) r.last_attempt_log_len).1 es) r := by
  rw [drive_node, Prog.wp_bind]
  apply wp_emit_next
  intro update hupdate _
  simp only [Prog.andThen_ok, Prog.wp_bind, Prog.wp_update, extract_attempts_eq, emit_cursor]
  apply Prog.wp_mono (emit_read_fanout node (delta_of raw_delta) r.last_attempt_log_len _)
  intro res r₂ es h
  obtain ⟨hres, hcursor, hattempts⟩ := h
  subst hres
  have hcursor' := (extract_escalation_cursor (delta_of raw_delta) r₂).trans hcursor
  have hsofar := (hupdate.fanout (by decide)).append hattempts
  simp only [Prog.andThen_ok, Prog.wp_bind, Prog.wp_update]
  rcases (extract_escalation (delta_of raw_delta) r₂).1 with _ | payload
  · rw [Prog.wp_pure]
    have hall := hsofar.append (fanout_nil 1)
    refine ⟨rfl, hcursor', ?_⟩
    simpa using hall
  · apply wp_emit_next
    intro escalation hescalation _
    have hall := hsofar.append (hescalation.fanout (by decide))
    refine ⟨rfl, (emit_cursor _ _).trans hcursor', ?_⟩
    simpa using hall

theorem drive_updates_fanout (nodes : List (PyStr × PyVal)) (r : RunRecord) :
    (drive_updates now nodes).wp (fun res _ es => res = .ok () ∧
      Fanout (2 * nodes.length) (attempts_from r.last_attempt_log_len nodes) es) r := by
  induction nodes generalizing r with
  | nil => exact ⟨rfl, fanout_nil 0⟩
  | cons n nodes ih =>
    obtain ⟨node, raw_delta⟩ := n
    rw [drive_updates, Prog.wp_bind]
    apply Prog.wp_mono (drive_node_fanout node raw_delta r)
    intro res r' es h
    obtain ⟨hres, hcursor, hfan⟩ := h
    subst hres
    rw [Prog.andThen_ok]
    apply Prog.wp_mono (ih r')
    intro res r'' es' h'
    obtain ⟨hres, hfan'⟩ := h'
    rw [hcursor] at hfan'
    refine ⟨hres, ?_⟩
    rw [List.length_cons, Nat.mul_succ, Nat.add_comm]
    exact hfan.append hfan'

/-! ## The whole run -/

/-- The events of the body of the `try`. -/
theorem drive_graph_fanout (run : GraphRun) (r : RunRecord) :
    (drive_graph now run).wp (fun _ _ es => Fanout (2 * run.updates.flatten.length + 1)
      (attempts_from r.last_attempt_log_len run.updates.flatten) es) r := by
  rw [drive_graph, Prog.wp_bind]
  apply Prog.wp_mono (drive_updates_fanout run.updates.flatten r)
  intro res r₁ body h
  obtain ⟨hres, hfan⟩ := h
  subst hres
  have hnone := hfan.append (fanout_nil 1)
  rw [List.append_nil] at hnone
  rw [Prog.andThen_ok]
  cases run.ending with
  | astream_raised exc => exact hnone
  | aget_state_raised exc => exact hnone
  | snapshot values =>
    simp only [set_status, Prog.wp_bind, Prog.wp_update, Prog.andThen_ok]
    apply wp_emit_next
    intro e hcarries _
    have hall := hfan.append (hcarries.fanout (by decide))
    rw [List.append_nil] at hall
    exact hall

/-- **The events of a run**: its attempt events are the attempts its updates
    report, in order, and each update adds two more events at most. -/
theorem drive_run_fanout (now : Nat → PyStr) (graph : Dict → PyStr → GraphRun)
    (run_id raw_request : PyStr) :
    let nodes := (graph (build_initial_state run_id raw_request) run_id).updates.flatten
    Fanout (2 * nodes.length + 3) (attempts_from 0 nodes)
      (drive_run now graph (RunRecord.new run_id raw_request)).events := by
  intro nodes
  have hwp : (drive_run now graph).wp
      (fun _ _ es => Fanout (2 * nodes.length + 3) (attempts_from 0 nodes) es)
      (RunRecord.new run_id raw_request) := by
    simp only [drive_run, set_status, Prog.wp_bind, Prog.wp_update, Prog.andThen_ok]
    apply wp_emit_next
    intro started hstarted _
    simp only [Prog.andThen_ok, Prog.wp_bind, Prog.wp_attempt]
    apply Prog.wp_mono (drive_graph_fanout _ _)
    intro res r₂ es hfan
    rw [emit_cursor] at hfan
    have hbody : Fanout (2 * nodes.length + 1) (attempts_from 0 nodes) es := hfan
    have hsofar := (hstarted.fanout (by decide)).append hbody
    rw [Prog.andThen_ok]
    cases res with
    | error exc =>
      simp only [Prog.wp_bind, Prog.wp_update, Prog.andThen_ok]
      apply wp_emit_next
      intro e hcarries _
      have hall := hsofar.append (hcarries.fanout (by decide))
      rw [Nat.add_comm 1, Nat.add_assoc (2 * nodes.length)] at hall
      simpa using hall
    | ok _ =>
      have hall := hsofar.append (fanout_nil 1)
      rw [Nat.add_comm 1, Nat.add_assoc (2 * nodes.length)] at hall
      simpa using hall
  exact hwp

/-! ## On the compiled graph -/

omit [Unicode] in
theorem name_executor {n : Node} : lit n.name = lit "executor" ↔ n = .executor := by
  rw [lit_inj]
  cases n <;> simp [Node.name]

/-- The lines an executor returned, behind the cursor. -/
theorem read_executor {δ : AgentState} {log : List PyStr} (h : δ.attempt_log = some log)
    (cursor : Nat) : read_attempts (lit "executor") δ.returned cursor =
      ((log.drop cursor).filterMap fun line => attempt_of (.str line), log.length) := by
  have hget : δ.returned.get "attempt_log" = .list (log.map .str) := by
    rw [Dict.get, AgentState.returned_attempt_log, h]
    rfl
  unfold read_attempts
  rw [if_neg (by simp), hget]
  simp only [← List.map_drop, List.filterMap_map, List.length_map]
  rfl

/-- A node that returned no log, and any other node: nothing is read. -/
theorem read_nothing {n : Node} {δ : AgentState} (h : n = .executor → δ.attempt_log = none)
    (cursor : Nat) : read_attempts (lit n.name) δ.returned cursor = ([], cursor) := by
  by_cases hn : n = .executor
  · have hget : δ.returned.get "attempt_log" = .none := by
      rw [Dict.get, AgentState.returned_attempt_log, h hn]
      rfl
    unfold read_attempts
    rw [hget]
    split <;> rfl
  · apply read_attempts_other
    rw [ne_eq, name_executor]
    exact hn

section visits
variable {W : Type} (h : List (Visit W)) (v : Visit W)

/-- The attempts that the updates of a run report to a viewer. -/
def attempts_reported : List Dict := attempts_from 0 (updates h).flatten

/-- The lines of the log that the driver has seen after a run. -/
def lines_seen : Nat := cursor_after 0 (updates h).flatten

omit [Unicode] in
theorem updates_snoc_ok {δ : AgentState} (hr : v.result = .ok δ) :
    (updates (h ++ [v])).flatten = (updates h).flatten ++ [(lit v.node.name, raw_delta δ)] := by
  have hv : Visit.update v = some [(lit v.node.name, raw_delta δ)] := by
    unfold Visit.update
    rw [hr]
  rw [updates_append, List.flatten_append]
  simp [updates, hv]

omit [Unicode] in
theorem updates_snoc_error {e : PyExc} (hr : v.result = .error e) :
    (updates (h ++ [v])).flatten = (updates h).flatten := by
  have hv : Visit.update v = none := by
    unfold Visit.update
    rw [hr]
  rw [updates_append, List.flatten_append]
  simp [updates, hv]

/-- One more execution is read on from where the reader stands. -/
theorem reported_snoc_ok {δ : AgentState} (hr : v.result = .ok δ) :
    attempts_reported (h ++ [v]) =
        attempts_reported h ++ (read_attempts (lit v.node.name) δ.returned (lines_seen h)).1 ∧
      lines_seen (h ++ [v]) = (read_attempts (lit v.node.name) δ.returned (lines_seen h)).2 := by
  unfold attempts_reported lines_seen
  rw [updates_snoc_ok h v hr, attempts_from_append, cursor_after_append]
  simp [attempts_from, cursor_after, delta_of_raw_delta]

/-- An execution that raises is not read. -/
theorem reported_snoc_error {e : PyExc} (hr : v.result = .error e) :
    attempts_reported (h ++ [v]) = attempts_reported h ∧ lines_seen (h ++ [v]) = lines_seen h := by
  unfold attempts_reported lines_seen
  rw [updates_snoc_error h v hr]
  exact ⟨rfl, rfl⟩

end visits

end

end Syndicate.Server
