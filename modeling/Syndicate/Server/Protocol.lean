import Syndicate.Server.Runner
import Syndicate.Server.Ending

/-! # The event protocol of a run

    Whatever the graph does, `drive_run` emits `run_started`, then the
    envelopes of each node in order, then one terminal envelope, numbered
    from 1 without a gap, and the record ends with the status the terminal
    envelope says. -/

namespace Syndicate.Server

open Py Framework

/-! ## Writing envelopes -/

/-- What a driver writes from `r` on: `es`, numbered on from `r`, and kept in
    the backlog; `r'` is the record after it. -/
structure Wrote (r : RunRecord) (es : List Envelope) (r' : RunRecord) : Prop where
  run_id : r'.run_id = r.run_id
  raw_request : r'.raw_request = r.raw_request
  counter : r'.seq_counter = r.seq_counter + es.length
  seqs : es.map Envelope.seq = (List.range' (r.seq_counter + 1) es.length).map some
  backlog : ∀ all, r.backlog.items = lastN BACKLOG_MAXLEN all →
    r'.backlog.items = lastN BACKLOG_MAXLEN (all ++ es)

/-- A step that writes no envelope keeps what has been written. -/
theorem Wrote.silent {r r' : RunRecord} (hid : r'.run_id = r.run_id)
    (hraw : r'.raw_request = r.raw_request) (hseq : r'.seq_counter = r.seq_counter)
    (hbacklog : r'.backlog = r.backlog) : Wrote r [] r' := by
  constructor
  · exact hid
  · exact hraw
  · simpa using hseq
  · rfl
  · intro all hall
    rw [hbacklog, List.append_nil]
    exact hall

theorem Wrote.status (r : RunRecord) (status : RunStatusLiteral) :
    Wrote r [] { r with status := status } :=
  Wrote.silent rfl rfl rfl rfl

theorem Wrote.append {r r' r'' : RunRecord} {es es' : List Envelope} (h : Wrote r es r')
    (h' : Wrote r' es' r'') : Wrote r (es ++ es') r'' := by
  have hseqs := h'.seqs
  rw [h.counter, Nat.add_right_comm] at hseqs
  constructor
  · rw [h'.run_id, h.run_id]
  · rw [h'.raw_request, h.raw_request]
  · rw [h'.counter, h.counter, List.length_append]
    omega
  · rw [List.map_append, h.seqs, hseqs, ← List.map_append, List.range'_append_1, List.length_append]
  · intro all hall
    rw [← List.append_assoc]
    exact h'.backlog _ (h.backlog all hall)

theorem Wrote.emit {r : RunRecord} {e : Envelope} (h : e.seq = some (r.seq_counter + 1)) :
    Wrote r [e] (r.next_seq.2.emit e) := by
  constructor
  · simp
  · simp
  · simp
  · simpa using h
  · intro all hall
    rw [RunRecord.emit_backlog, RunRecord.next_seq_backlog]
    exact Deque.append_lastN _ e hall

/-- Looking for an escalation writes nothing. -/
theorem extract_escalation_wrote (delta : Dict) (r : RunRecord) :
    Wrote r [] (extract_escalation delta r).2 := by
  unfold extract_escalation
  dsimp only
  repeat' split
  all_goals exact Wrote.silent rfl rfl rfl rfl

section
variable [Unicode] {now : Nat → PyStr}

/-- `make_envelope` accepts every payload. -/
theorem safe_payload_ok (payload : Dict) : ∃ safe, safe_payload payload = .ok safe := by
  obtain ⟨safe, hsafe, -⟩ := cap_payload_ok (redact_items payload) MAX_PAYLOAD_BYTES
  exact ⟨safe, hsafe⟩

/-- `e` is an envelope of this kind, node and payload. -/
structure Carries (kind : EventKind) (node : Option PyStr) (payload : Dict) (e : Envelope) : Prop where
  kind : e.kind = kind
  node : e.node = node
  payload : safe_payload payload = .ok e.payload

/-- **One emission**: one envelope of what it is given, with the next
    number. -/
theorem wp_emit_next {kind : EventKind} {node : Option PyStr} {payload : Dict}
    {Q : Except PyExc Unit → RunRecord → List Envelope → Prop} {r : RunRecord}
    (h : ∀ e, Carries kind node payload e → e.seq = some (r.seq_counter + 1) →
      Q (.ok ()) (r.next_seq.2.emit e) [e]) :
    (emit_event now kind node payload).wp Q r := by
  obtain ⟨safe, hsafe⟩ := safe_payload_ok payload
  let e : Envelope := ⟨some (r.seq_counter + 1), now (r.seq_counter + 1), r.run_id, kind, node, safe⟩
  have hmake : make_envelope (now (r.seq_counter + 1)) (some (r.seq_counter + 1)) r.run_id kind node
      payload = .ok e := by
    rw [make_envelope, hsafe]
    rfl
  have hQ := h e ⟨rfl, rfl, hsafe⟩ rfl
  unfold emit_event
  simp only [Prog.wp_bind, Prog.wp_update, Prog.andThen_ok, Prog.wp_ofExcept,
    RunRecord.next_seq_fst, RunRecord.next_seq_run_id, hmake]
  exact hQ

/-- The same, for who asks only what was written. -/
theorem wp_emit_event {kind : EventKind} {node : Option PyStr} {payload : Dict}
    {Q : Except PyExc Unit → RunRecord → List Envelope → Prop} {r : RunRecord}
    (h : ∀ e r', Carries kind node payload e → Wrote r [e] r' → r'.status = r.status →
      Q (.ok ()) r' [e]) :
    (emit_event now kind node payload).wp Q r := by
  apply wp_emit_next
  intro e hcarries hseq
  exact h e _ hcarries (Wrote.emit hseq) (by simp)

/-! ## One node of one update -/

/-- The envelopes of a node: its update, then the attempts its own log
    reports, then at most one escalation. -/
structure Block (node : PyStr) (raw_delta : PyVal) (es : List Envelope) : Prop where
  parts : ∃ update attempts escalations, es = update :: (attempts ++ escalations) ∧
    Carries .node_update (some node) (delta_of raw_delta) update ∧
    (∀ a ∈ attempts, ∃ log line payload, (delta_of raw_delta).get "attempt_log" = .list log ∧
      line ∈ log ∧ attempt_of line = some payload ∧ Carries .attempt (some node) payload a) ∧
    escalations.length ≤ 1 ∧
    ∀ e ∈ escalations, ∃ payload, Carries .escalation (some node) payload e

theorem emit_attempts_spec (node : PyStr) (attempts : List Dict) (r : RunRecord) :
    (emit_attempts now node attempts).wp (fun res r' es => res = .ok () ∧ Wrote r es r' ∧
      ∀ e ∈ es, ∃ a ∈ attempts, Carries .attempt (some node) a e) r := by
  induction attempts generalizing r with
  | nil =>
    show Except.ok () = .ok () ∧ Wrote r [] r ∧ _
    exact ⟨rfl, Wrote.silent rfl rfl rfl rfl, fun e he => absurd he List.not_mem_nil⟩
  | cons a attempts ih =>
    rw [emit_attempts, Prog.wp_bind]
    apply wp_emit_event
    intro e r' hcarries hwrote _
    rw [Prog.andThen_ok]
    apply Prog.wp_mono (ih r')
    intro _ r'' es h
    obtain ⟨rfl, hwrote', hes⟩ := h
    refine ⟨rfl, hwrote.append hwrote', ?_⟩
    intro x hx
    rcases List.mem_cons.mp hx with rfl | hx
    · exact ⟨a, List.mem_cons_self, hcarries⟩
    · obtain ⟨b, hb, hcarries⟩ := hes x hx
      exact ⟨b, List.mem_cons_of_mem a hb, hcarries⟩

/-- The attempts of a node come from its own log; the bookkeeping writes
    nothing. -/
theorem extract_attempts_spec (node : PyStr) (delta : Dict) (r : RunRecord) :
    Wrote r [] (extract_attempts node delta r).2 ∧
    ∀ a ∈ (extract_attempts node delta r).1, ∃ log line,
      delta.get "attempt_log" = .list log ∧ line ∈ log ∧ attempt_of line = some a := by
  unfold extract_attempts
  by_cases hnode : node ≠ lit "executor"
  · rw [if_pos hnode]
    exact ⟨Wrote.silent rfl rfl rfl rfl, by simp⟩
  · rw [if_neg hnode]
    cases hlog : delta.get "attempt_log" with
    | list log =>
      refine ⟨Wrote.silent rfl rfl rfl rfl, ?_⟩
      intro a ha
      obtain ⟨line, hline, hof⟩ := List.mem_filterMap.mp ha
      exact ⟨log, line, rfl, List.mem_of_mem_drop hline, hof⟩
    | _ => exact ⟨Wrote.silent rfl rfl rfl rfl, by simp⟩

theorem drive_node_spec (node : PyStr) (raw_delta : PyVal) (r : RunRecord) :
    (drive_node now node raw_delta).wp (fun res r' es => res = .ok () ∧ Wrote r es r' ∧
      Block node raw_delta es) r := by
  rw [drive_node, Prog.wp_bind]
  apply wp_emit_event
  intro update r₁ hupdate hwrote₁ _
  obtain ⟨hwrote₂, hown⟩ := extract_attempts_spec node (delta_of raw_delta) r₁
  simp only [Prog.andThen_ok, Prog.wp_bind, Prog.wp_update]
  apply Prog.wp_mono (emit_attempts_spec node _ _)
  intro _ r₃ attempts h
  obtain ⟨rfl, hwrote₃, hattempts⟩ := h
  have hwrote₄ := extract_escalation_wrote (delta_of raw_delta) r₃
  have hsofar := ((hwrote₁.append hwrote₂).append hwrote₃).append hwrote₄
  -- each attempt comes from a line of the delta
  have hattempts' : ∀ a ∈ attempts, ∃ log line payload,
      (delta_of raw_delta).get "attempt_log" = .list log ∧ line ∈ log ∧
      attempt_of line = some payload ∧ Carries .attempt (some node) payload a := by
    intro a ha
    obtain ⟨payload, hpayload, hcarries⟩ := hattempts a ha
    obtain ⟨log, line, hlog, hline, hof⟩ := hown payload hpayload
    exact ⟨log, line, payload, hlog, hline, hof, hcarries⟩
  simp only [Prog.andThen_ok, Prog.wp_bind, Prog.wp_update]
  rcases (extract_escalation (delta_of raw_delta) r₃).1 with _ | payload
  · rw [Prog.wp_pure]
    refine ⟨rfl, by simpa using hsofar, ⟨update, attempts, [], by simp, hupdate, hattempts', ?_, ?_⟩⟩
    · exact Nat.zero_le 1
    · simp
  · apply wp_emit_event
    intro e r₅ hcarries hwrote₅ _
    refine ⟨rfl, by simpa using hsofar.append hwrote₅,
      ⟨update, attempts, [e], by simp, hupdate, hattempts', Nat.le_refl 1, ?_⟩⟩
    intro x hx
    rw [List.mem_singleton.mp hx]
    exact ⟨payload, hcarries⟩

/-- **The loops**: one block for each node of each update, in order. -/
theorem drive_updates_spec (nodes : List (PyStr × PyVal)) (r : RunRecord) :
    (drive_updates now nodes).wp (fun res r' es => res = .ok () ∧ Wrote r es r' ∧
      ∃ blocks, es = blocks.flatten ∧ List.Forall₂ (fun n b => Block n.1 n.2 b) nodes blocks) r := by
  induction nodes generalizing r with
  | nil =>
    show Except.ok () = .ok () ∧ Wrote r [] r ∧ _
    exact ⟨rfl, Wrote.silent rfl rfl rfl rfl, [], rfl, .nil⟩
  | cons n nodes ih =>
    obtain ⟨node, raw_delta⟩ := n
    rw [drive_updates, Prog.wp_bind]
    apply Prog.wp_mono (drive_node_spec node raw_delta r)
    intro _ r' block h
    obtain ⟨rfl, hwrote, hblock⟩ := h
    rw [Prog.andThen_ok]
    apply Prog.wp_mono (ih r')
    intro _ r'' es h
    obtain ⟨rfl, hwrote', blocks, rfl, hblocks⟩ := h
    exact ⟨rfl, hwrote.append hwrote', block :: blocks, rfl, .cons hblock hblocks⟩

/-! ## The end of the run -/

omit [Unicode] in
theorem enum_value_asStr (cls : String) (v : PyVal) : (enum_value cls v).asStr = v.asStr := by
  cases v with
  | enum member value =>
    unfold enum_value
    by_cases h : (lit cls ++ lit ".").isPrefixOf member = true
    · simp [h, PyVal.asStr]
    · simp [h]
  | none | bool _ | int _ | float _ | str _ | list _ | tuple _ | dict _ | dataclass _ _ => rfl

omit [Unicode] in
/-- Redaction makes a text of texts only, and `escalated` of itself only. -/
theorem redact_value_escalated (v : PyVal) :
    (redact_value v).asStr = some (lit "escalated") ↔ v.asStr = some (lit "escalated") := by
  have hkept : redact_text (lit "escalated") = lit "escalated" := by decide +kernel
  have htext : ∀ s, redact_text s = lit "escalated" ↔ s = lit "escalated" := by
    intro s
    constructor
    · intro h
      rcases redact_text_eq_or_mem s with heq | hmem
      · rw [← heq, h]
      · rw [h] at hmem
        exact absurd hmem (by decide)
    · rintro rfl
      exact hkept
  cases v with
  | str s => simp [redact_value, PyVal.asStr, htext]
  | enum _ s => simp [redact_value, PyVal.asStr, htext]
  | none | bool _ | int _ | float _ | list _ | tuple _ | dict _ | dataclass _ _ =>
    simp [redact_value, PyVal.asStr]

omit [Unicode] in
/-- What is redacted is no enum member any more. -/
theorem redact_value_str {v : PyVal} {s : PyStr} (h : (redact_value v).asStr = some s) :
    redact_value v = .str s := by
  cases v with
  | str t => simpa [redact_value, PyVal.asStr] using h
  | enum _ t => simpa [redact_value, PyVal.asStr] using h
  | none | bool _ | int _ | float _ | list _ | tuple _ | dict _ | dataclass _ _ =>
    simp [redact_value, PyVal.asStr] at h

/-- The status a terminal envelope tells. -/
def Envelope.outcome (terminal : Envelope) : RunStatusLiteral :=
  if terminal.kind = .run_failed then .failed
  else if (terminal.payload.get "ticket_status").asStr = some (lit "escalated") then .escalated
  else .completed

/-- `run_completed` tells the status the driver sets. -/
theorem completed_outcome {v : PyVal} {e : Envelope}
    (h : Carries .run_completed none [(lit "ticket_status", enum_value "TicketStatus" v)] e) :
    e.outcome = if pyEq v ESCALATED then .escalated else .completed := by
  -- redaction keeps the text `escalated`, and makes it of no other
  have hstatus : pyEq v ESCALATED = true ↔
      (redact_value (enum_value "TicketStatus" v)).asStr = some (lit "escalated") := by
    rw [redact_value_escalated, enum_value_asStr, ESCALATED, pyEq_enum, beq_iff_eq]
  have hpayload : (e.payload.get "ticket_status").asStr = some (lit "escalated") ↔
      pyEq v ESCALATED = true := by
    rw [hstatus]
    have hsafe := h.payload
    generalize enum_value "TicketStatus" v = w at hsafe
    have hredact : redact_items [(lit "ticket_status", w)] =
        [(lit "ticket_status", redact_value w)] := rfl
    rw [safe_payload, hredact] at hsafe
    constructor
    · intro hget
      obtain ⟨capped, hcapped, hcases⟩ :=
        cap_payload_ok [(lit "ticket_status", redact_value w)] MAX_PAYLOAD_BYTES
      obtain hsame : capped = e.payload := Except.ok.inj (hcapped.symm.trans hsafe)
      rw [← hsame] at hget
      rcases hcases with rfl | hkeys
      · simpa [Dict.get, Dict.find] using hget
      · -- The marker of a truncated payload has no such key.
        have hmiss : capped.get "ticket_status" = .none := by
          apply Dict.get_of_not_mem
          rw [hkeys]
          decide
        rw [hmiss] at hget
        cases hget
    · intro hw
      have hstr : redact_value w = .str (lit "escalated") := redact_value_str hw
      rw [hstr] at hsafe
      have hcap : cap_payload [(lit "ticket_status", .str (lit "escalated"))] MAX_PAYLOAD_BYTES =
          .ok [(lit "ticket_status", .str (lit "escalated"))] := by rfl
      rw [← Except.ok.inj (hcap.symm.trans hsafe)]
      rfl
  have hkind : ¬e.kind = .run_failed := by simp [h.kind]
  simp only [Envelope.outcome, hkind, if_false, hpayload]

/-- The body of the `try`: the blocks, and `run_completed` after them unless
    the graph raised. -/
theorem drive_graph_spec (run : GraphRun) (r : RunRecord) :
    (drive_graph now run).wp (fun res r' es => Wrote r es r' ∧ ∃ blocks,
      List.Forall₂ (fun n b => Block n.1 n.2 b) run.updates.flatten blocks ∧
      match res with
      | .error _ => es = blocks.flatten
      | .ok () => ∃ terminal, es = blocks.flatten ++ [terminal] ∧ terminal.kind = .run_completed ∧
          r'.status = terminal.outcome) r := by
  rw [drive_graph, Prog.wp_bind]
  apply Prog.wp_mono (drive_updates_spec run.updates.flatten r)
  intro _ r₁ _ h
  obtain ⟨rfl, hwrote, blocks, rfl, hblocks⟩ := h
  rw [Prog.andThen_ok]
  cases run.ending with
  | astream_raised exc =>
    rw [Prog.wp_raise, List.append_nil]
    exact ⟨hwrote, blocks, hblocks, rfl⟩
  | aget_state_raised exc =>
    rw [Prog.wp_raise, List.append_nil]
    exact ⟨hwrote, blocks, hblocks, rfl⟩
  | snapshot values =>
    simp only [set_status, Prog.wp_bind, Prog.wp_update, Prog.andThen_ok]
    apply wp_emit_event
    intro terminal r₂ hcarries hwrote' hstatus
    have hset := (hwrote.append (Wrote.status r₁ _)).append hwrote'
    refine ⟨by simpa using hset, blocks, hblocks, terminal, rfl, hcarries.kind, ?_⟩
    rw [hstatus, completed_outcome hcarries]

/-! ## The whole run -/

/-- The protocol of a run whose updates go through `nodes`. -/
structure Protocol (nodes : List (PyStr × PyVal)) (status : RunStatusLiteral) (es : List Envelope) :
    Prop where
  numbered : Numbered es
  parts : ∃ started blocks terminal, es = started :: (blocks.flatten ++ [terminal]) ∧
    started.kind = .run_started ∧
    List.Forall₂ (fun n b => Block n.1 n.2 b) nodes blocks ∧
    (∀ e ∈ blocks.flatten, e.kind ≠ .run_started ∧ e.kind.terminal = false) ∧
    terminal.kind.terminal = true ∧
    status = terminal.outcome

/-- Nothing in a block starts or ends a run. -/
theorem Block.inner {node : PyStr} {raw_delta : PyVal} {es : List Envelope}
    (h : Block node raw_delta es) {e : Envelope} (he : e ∈ es) :
    e.kind ≠ .run_started ∧ e.kind.terminal = false := by
  obtain ⟨update, attempts, escalations, rfl, hupdate, hattempts, -, hescalations⟩ := h.parts
  rcases List.mem_cons.mp he with rfl | he
  · simp [hupdate.kind, EventKind.terminal]
  · rcases List.mem_append.mp he with he | he
    · obtain ⟨_, _, _, -, -, -, hcarries⟩ := hattempts e he
      simp [hcarries.kind, EventKind.terminal]
    · obtain ⟨_, hcarries⟩ := hescalations e he
      simp [hcarries.kind, EventKind.terminal]

theorem blocks_inner {nodes : List (PyStr × PyVal)} {blocks : List (List Envelope)}
    (h : List.Forall₂ (fun n b => Block n.1 n.2 b) nodes blocks) {e : Envelope}
    (he : e ∈ blocks.flatten) : e.kind ≠ .run_started ∧ e.kind.terminal = false := by
  induction h with
  | nil => cases he
  | cons hblock _ ih =>
    rcases List.mem_append.mp he with he | he
    · exact hblock.inner he
    · exact ih he

theorem drive_run_spec (now : Nat → PyStr) (graph : Dict → PyStr → GraphRun) (r : RunRecord) :
    (drive_run now graph).wp (fun res r' es => res = .ok () ∧ Wrote r es r' ∧
      ∃ started blocks terminal, es = started :: (blocks.flatten ++ [terminal]) ∧
        started.kind = .run_started ∧
        List.Forall₂ (fun n b => Block n.1 n.2 b)
          (graph (build_initial_state r.run_id r.raw_request) r.run_id).updates.flatten blocks ∧
        terminal.kind.terminal = true ∧ r'.status = terminal.outcome) r := by
  simp only [drive_run, set_status, Prog.wp_bind, Prog.wp_update, Prog.andThen_ok]
  apply wp_emit_event
  intro started r₁ hstarted hwrote₁ _
  have hsofar := (Wrote.status r .running).append hwrote₁
  simp only [Prog.andThen_ok, Prog.wp_bind, Prog.wp_attempt]
  apply Prog.wp_mono (drive_graph_spec _ r₁)
  intro res r₂ es h
  obtain ⟨hwrote₂, blocks, hblocks, hes⟩ := h
  have hsofar := hsofar.append hwrote₂
  rw [Prog.andThen_ok]
  rcases res with exc | ⟨⟨⟩⟩
  · -- The `except` path: one more envelope, whatever came before it.
    obtain rfl : es = blocks.flatten := hes
    simp only [Prog.wp_bind, Prog.wp_update, Prog.andThen_ok]
    apply wp_emit_event
    intro terminal r₃ hcarries hwrote₃ hstatus
    have hall := (hsofar.append (Wrote.status r₂ .failed)).append hwrote₃
    refine ⟨rfl, by simpa using hall, started, blocks, terminal, by simp, hstarted.kind, hblocks, ?_, ?_⟩
    · simp [hcarries.kind, EventKind.terminal]
    · rw [hstatus]
      simp [Envelope.outcome, hcarries.kind]
  · obtain ⟨terminal, rfl, hkind, hstatus⟩ := hes
    rw [Prog.wp_pure]
    refine ⟨rfl, by simpa using hsofar, started, blocks, terminal, by simp, hstarted.kind, hblocks, ?_,
      hstatus⟩
    simp [hkind, EventKind.terminal]

/-- **The event protocol**: however `astream` and `aget_state` behave, the
    driver returns, and what it has emitted follows the protocol. -/
theorem drive_run_protocol (now : Nat → PyStr) (graph : Dict → PyStr → GraphRun)
    (run_id raw_request : PyStr) :
    (drive_run now graph (RunRecord.new run_id raw_request)).val = .ok () ∧
    Protocol (graph (build_initial_state run_id raw_request) run_id).updates.flatten
      (drive_run now graph (RunRecord.new run_id raw_request)).world.status
      (drive_run now graph (RunRecord.new run_id raw_request)).events := by
  obtain ⟨hval, hwrote, started, blocks, terminal, hes, hstarted, hblocks, hterminal, hstatus⟩ :=
    drive_run_spec now graph (RunRecord.new run_id raw_request)
  refine ⟨hval, ?_, started, blocks, terminal, hes, hstarted, hblocks, ?_, hterminal, hstatus⟩
  · exact hwrote.seqs
  · intro e he
    exact blocks_inner hblocks he

/-! ## What the viewers see of it -/

/-- The record a driver leaves is that of a finished run. -/
theorem drive_run_finished (now : Nat → PyStr) (graph : Dict → PyStr → GraphRun)
    (run_id raw_request : PyStr) :
    Finished (drive_run now graph (RunRecord.new run_id raw_request)).world.backlog.items
      (drive_run now graph (RunRecord.new run_id raw_request)).events.length := by
  obtain ⟨-, hwrote, -⟩ := drive_run_spec now graph (RunRecord.new run_id raw_request)
  obtain ⟨hnumbered, started, blocks, terminal, hes, hstarted, -, hinner, hterminal, -⟩ :=
    (drive_run_protocol now graph run_id raw_request).2
  generalize drive_run now graph (RunRecord.new run_id raw_request) = out at *
  have hitems := hwrote.backlog [] (by simp [lastN])
  have hsplit : out.events = (started :: blocks.flatten) ++ [terminal] := by simpa using hes
  -- The backlog drops from the front, and never the last envelope.
  have hlast : out.world.backlog.items =
      (started :: blocks.flatten).drop (out.events.length - BACKLOG_MAXLEN) ++ [terminal] := by
    have hle : out.events.length - BACKLOG_MAXLEN ≤ (started :: blocks.flatten).length := by
      have hpos : 1 ≤ BACKLOG_MAXLEN := by decide
      rw [hsplit, List.length_append, List.length_singleton]
      omega
    rw [hitems, List.nil_append, lastN]
    generalize out.events.length - BACKLOG_MAXLEN = dropped at hle ⊢
    rw [hsplit, List.drop_append_of_le_length hle]
  have hseq : ∀ e ∈ started :: blocks.flatten, ∃ n, e.seq = some n ∧ n < out.events.length := by
    intro e he
    obtain ⟨before, after, hcut⟩ := List.append_of_mem he
    refine ⟨before.length + 1, ?_, ?_⟩
    · apply hnumbered.next
      refine ⟨after ++ [terminal], ?_⟩
      rw [hsplit, hcut]
      simp
    · rw [hsplit, hcut]
      simp
  refine ⟨_, terminal, hlast, hterminal, ?_, ?_⟩
  · rw [hsplit, List.length_append, List.length_singleton]
    rw [hsplit] at hnumbered
    exact (numbered_snoc.mp hnumbered).2
  · intro e he
    have he := List.mem_of_mem_drop he
    refine ⟨?_, hseq e he⟩
    rcases List.mem_cons.mp he with rfl | he
    · simp [hstarted, EventKind.terminal]
    · exact (hinner e he).2

end

/-- The envelopes that a schedule emits. -/
def driven (acts : List Act) : List Envelope :=
  acts.filterMap fun
    | .emit e => some e
    | _ => none

theorem driven_append (acts acts' : List Act) : driven (acts ++ acts') = driven acts ++ driven acts' :=
  List.filterMap_append

theorem serve_snoc (run_id raw_request : PyStr) (acts : List Act) (a : Act) :
    serve run_id raw_request (acts ++ [a]) = step (serve run_id raw_request acts) a :=
  play_snoc

/-- Where the driver emits numbered envelopes, whatever the connections do
    meanwhile, these are what is emitted. -/
theorem serve_driven (run_id raw_request : PyStr) {acts : List Act} {all : List Envelope}
    (h : Numbered all) (hd : driven acts <+: all) :
    (serve run_id raw_request acts).emitted = driven acts := by
  induction acts using List.reverseRecOn with
  | nil => rfl
  | append_singleton acts a ih =>
    rw [driven_append] at hd
    have ih := ih ((List.prefix_append _ _).trans hd)
    rw [serve_snoc, driven_append]
    cases a with
    | emit e =>
      have hseq : e.seq = some ((driven acts).length + 1) := h.next hd
      have hcounter := (serve_logged run_id raw_request acts).counter
      rw [ih] at hcounter
      show (serve _ _ acts).emitted ++ [(serve _ _ acts).next e] = driven acts ++ [e]
      rw [ih, Stream.next, hcounter, ← hseq]
    | connect _ | resume _ | timeout _ | close _ =>
      show (serve _ _ acts).emitted = driven acts ++ []
      rw [List.append_nil]
      exact ih

/-- A driver is an emitter of the streams: emitting its envelopes leads to
    the backlog and the counter it leaves. -/
theorem drive_run_serves [Unicode] (now : Nat → PyStr) (graph : Dict → PyStr → GraphRun)
    (run_id raw_request : PyStr) :
    let out := drive_run now graph (RunRecord.new run_id raw_request)
    let served := serve run_id raw_request (out.events.map Act.emit)
    served.emitted = out.events ∧ served.record.backlog.items = out.world.backlog.items ∧
      served.record.seq_counter = out.world.seq_counter := by
  intro out served
  obtain ⟨-, hwrote, -⟩ := drive_run_spec now graph (RunRecord.new run_id raw_request)
  have hdriven : driven (out.events.map Act.emit) = out.events := by
    unfold driven
    rw [List.filterMap_map]
    exact List.filterMap_some
  have hemitted : served.emitted = out.events := by
    rw [← hdriven]
    exact serve_driven run_id raw_request hwrote.seqs ⟨[], by rw [List.append_nil, hdriven]⟩
  have hlog := serve_logged run_id raw_request (out.events.map Act.emit)
  refine ⟨hemitted, ?_, ?_⟩
  · rw [hlog.backlog, hemitted]
    exact (hwrote.backlog [] (by simp [lastN])).symm
  · rw [hlog.counter, hemitted]
    have hcounter := hwrote.counter
    rw [RunRecord.new_seq_counter, Nat.zero_add] at hcounter
    exact hcounter.symm

end Syndicate.Server
