import Syndicate.Graph

/-! # What `executor_node` does

    The executor is characterised by the list of `Attempt`s it makes: each
    starts with the output of the check that rejected the one before, all
    but the last are rejected, and the log, the status and the strike count
    it returns are functions of that list (`executor_node_spec`). -/

namespace Syndicate

open Py Framework

variable {W : Type}

/-! ## Events of the sandbox side -/

/-- Calls into the sandbox, as opposed to LLM calls and the marks of
    `executor_node`. -/
def Event.isSandbox : Event W → Bool
  | .run_action _ _ _ _ _ | .file _ | .run_tool _ _ => true
  | _ => false

/-- No attempt is made and none is completed in `es`. -/
structure Quiet (es : List (Event W)) : Prop where
  feedbacks : feedbacks es = []
  summaries : summaries es = []
  checks : checks es = []

/-- Sandbox calls leave no attempt and no LLM call. -/
theorem sandbox_quiet {es : List (Event W)} (h : ∀ e ∈ es, e.isSandbox = true) :
    Quiet es ∧ llm_calls es = 0 := by
  induction es with
  | nil => exact ⟨⟨rfl, rfl, rfl⟩, rfl⟩
  | cons e es ih =>
    obtain ⟨⟨hf, hs, hc⟩, hl⟩ := ih fun e' he' => h e' (List.mem_cons_of_mem _ he')
    have he : e.isSandbox = true := h e List.mem_cons_self
    cases e <;> simp [Event.isSandbox] at he
    all_goals exact ⟨⟨hf, hs, hc⟩, hl⟩

theorem Quiet.append {es es' : List (Event W)} (h : Quiet es) (h' : Quiet es') :
    Quiet (es ++ es') where
  feedbacks := by rw [feedbacks_append, h.feedbacks, h'.feedbacks]; rfl
  summaries := by rw [summaries_append, h.summaries, h'.summaries]; rfl
  checks := by rw [checks_append, h.checks, h'.checks]; rfl

theorem emits_act {P : Event W → Prop}
    (hP : ∀ action cwd pre r post, P (.run_action action cwd pre r post)) (client : RuntimeClient W)
    (action cwd : PyVal) (timeout : Option Nat) : Prog.Emits P (client.act action cwd timeout) :=
  Prog.emits_call (hP action cwd)

theorem emits_run_bash {P : Event W → Prop}
    (hP : ∀ action cwd pre r post, P (.run_action action cwd pre r post)) (client : RuntimeClient W)
    (tool_input : Dict) (cwd : PyVal) : Prog.Emits P (run_bash client tool_input cwd) := by
  unfold run_bash
  apply Prog.emits_ite
  · exact Prog.emits_pure _
  · refine Prog.emits_bind (Prog.emits_ofExcept _) fun command => ?_
    refine Prog.emits_bind (emits_act hP client command cwd none) fun result => ?_
    exact Prog.emits_ite (Prog.emits_pure _) (Prog.emits_pure _)

theorem emits_fast_checks (client : RuntimeClient W) (cwd : PyVal) (actions : List PyStr) :
    Prog.Emits (fun e => e.isSandbox = true) (fast_checks client cwd actions) := by
  induction actions with
  | nil => exact Prog.emits_pure _
  | cons action rest ih =>
    refine Prog.emits_bind (emits_act (fun _ _ _ _ _ => rfl) client _ cwd none) fun result => ?_
    exact Prog.emits_ite (Prog.emits_pure _) ih

/-- One call of `_run_fast_checks`: no attempt starts, and the result is on
    record. -/
theorem run_fast_checks_spec (client : RuntimeClient W) (cwd : PyVal) (w : W) :
    Prog.wp (run_fast_checks client cwd)
      (fun r _ es => feedbacks es = [] ∧ summaries es = [] ∧ llm_calls es = 0 ∧
        (∀ check, r = .ok check → checks es = [check]) ∧ ((∃ e, r = .error e) → checks es = [])) w := by
  unfold run_fast_checks
  apply Prog.wp_seq (R := fun _ _ es => Quiet es ∧ llm_calls es = 0)
  · exact sandbox_quiet (emits_fast_checks client cwd FAST_CHECK_ACTIONS w)
  · intro check w' es hboth
    obtain ⟨hq, hl⟩ := hboth
    simp only [Prog.wp_bind, Prog.wp_note, Prog.andThen_ok, Prog.wp_pure,
      feedbacks_append, checks_append, llm_calls_append, summaries_append, hq.feedbacks, hq.checks,
      hq.summaries, hl]
    refine ⟨rfl, rfl, rfl, ?_, (by simp)⟩
    intro check' h
    cases h
    rfl
  · intro e w' es hboth
    obtain ⟨hq, hl⟩ := hboth
    exact ⟨hq.feedbacks, hq.summaries, hl, (by simp), fun _ => hq.checks⟩

/-! ## The attempt budget -/

/-- What every execution of the strike loop leaves, ended or not: at most
    `n` attempts, each told the output of the check that rejected the one
    before (the first: `feedback`), and a bounded number of LLM calls. -/
structure Budgeted (n : Nat) (feedback : Option PyStr) (es : List (Event W)) : Prop where
  attempts : (feedbacks es).length ≤ n
  chained : feedbacks es <+: feedback :: (checks es).map fun r => some r.output
  llm : llm_calls es ≤ MAX_TOOL_CALLS * (feedbacks es).length

/-- An attempt that did not get as far as its check. -/
theorem Budgeted.broken_off {n : Nat} {feedback : Option PyStr} {es : List (Event W)}
    (hf : feedbacks es = [feedback]) (hl : llm_calls es ≤ MAX_TOOL_CALLS) :
    Budgeted (n + 1) feedback es where
  attempts := by rw [hf]; simp
  chained := by rw [hf]; exact ⟨_, rfl⟩
  llm := by rw [hf]; simpa using hl

/-- A rejected attempt in front of a budgeted loop. -/
theorem Budgeted.cons {n : Nat} {feedback : Option PyStr} {check : ActionResult}
    {es es' : List (Event W)} (hf : feedbacks es = [feedback]) (hc : checks es = [check])
    (hl : llm_calls es ≤ MAX_TOOL_CALLS) (h : Budgeted n (some check.output) es') :
    Budgeted (n + 1) feedback (es ++ es') where
  attempts := by
    rw [feedbacks_append, hf]
    simpa using h.attempts
  chained := by
    rw [feedbacks_append, checks_append, hf, hc]
    simpa [List.cons_prefix_cons] using h.chained
  llm := by
    have := h.llm
    rw [feedbacks_append, llm_calls_append, hf]
    simp only [List.cons_append, List.nil_append, List.length_cons, Nat.mul_add]
    omega

variable [Unicode]

theorem emits_run_edit_tool {P : Event W → Prop} (hP : ∀ path, P (.file path))
    (client : RuntimeClient W) (tool_input : Dict) :
    Prog.Emits P (run_edit_tool client tool_input) := by
  unfold run_edit_tool
  refine Prog.emits_bind (Prog.emits_ofExcept _) fun command => ?_
  refine Prog.emits_bind (Prog.emits_ofExcept _) fun path => ?_
  split
  · apply Prog.emits_ite
    · exact Prog.emits_bind (Prog.emits_call fun _ _ _ => hP path) fun _ => Prog.emits_pure _
    apply Prog.emits_ite
    · refine Prog.emits_bind (Prog.emits_ofExcept _) fun file_text => ?_
      exact Prog.emits_bind (Prog.emits_call fun _ _ _ => hP path) fun _ => Prog.emits_pure _
    apply Prog.emits_ite
    · refine Prog.emits_bind (Prog.emits_ofExcept _) fun old_str => ?_
      refine Prog.emits_bind (Prog.emits_ofExcept _) fun new_str => ?_
      exact Prog.emits_bind (Prog.emits_call fun _ _ _ => hP path) fun _ => Prog.emits_pure _
    · exact Prog.emits_pure _
  · exact Prog.emits_pure _

theorem emits_run_tool (client : RuntimeClient W) (name : PyStr) (tool_input : Dict) (cwd : PyVal) :
    Prog.Emits (fun e => e.isSandbox = true) (run_tool client name tool_input cwd) := by
  unfold run_tool
  refine Prog.emits_bind (Prog.emits_note rfl) fun _ => ?_
  apply Prog.emits_catching
  apply Prog.emits_ite
  · exact emits_run_bash (fun _ _ _ _ _ => rfl) client tool_input cwd
  apply Prog.emits_ite
  · exact emits_run_edit_tool (fun _ => rfl) client tool_input
  · exact Prog.emits_pure _

theorem emits_run_tools (client : RuntimeClient W) (cwd : PyVal) (blocks : List Block) :
    Prog.Emits (fun e => e.isSandbox = true) (run_tools client cwd blocks) := by
  induction blocks with
  | nil => exact Prog.emits_pure _
  | cons block rest ih =>
    cases block with
    | text t => exact ih
    | other t => exact ih
    | tool_use id name input =>
      refine Prog.emits_bind (emits_run_tool client name input cwd) fun result => ?_
      exact Prog.emits_bind ih fun _ => Prog.emits_pure _

/-! ## One attempt -/

/-- The turns of one attempt: no attempt starts inside, and every turn is
    one LLM call. -/
theorem agentic_turns_spec (env : Env W) (client : RuntimeClient W) (cwd : PyVal) (n : Nat) :
    ∀ (messages : List Message) (w : W),
      Prog.wp (agentic_turns env client cwd n messages)
        (fun _ _ es => Quiet es ∧ llm_calls es ≤ n) w := by
  induction n with
  | zero =>
    intro messages w
    exact ⟨⟨rfl, rfl, rfl⟩, Nat.le_refl 0⟩
  | succ n ih =>
    intro messages w
    rw [agentic_turns]
    apply Prog.wp_seq
      (R := fun _ _ es => Quiet es ∧ llm_calls es = 1)
    · -- the call of the model
      exact ⟨⟨rfl, rfl, rfl⟩, rfl⟩
    · intro response w' es h
      obtain ⟨hq, hl⟩ := h
      rw [Prog.wp_ite]
      constructor
      · intro _
        simp only [Prog.wp_pure, List.append_nil]
        exact ⟨hq, by omega⟩
      · intro _
        apply Prog.wp_seq (R := fun _ _ es => Quiet es ∧ llm_calls es = 0)
        · -- the tools call no model
          exact sandbox_quiet (emits_run_tools client cwd response.content w')
        · intro results w'' es' h
          obtain ⟨hq', hl'⟩ := h
          apply Prog.wp_mono (ih _ w'')
          intro r w₃ es'' h
          obtain ⟨hq'', hl''⟩ := h
          refine ⟨hq.append (hq'.append hq''), ?_⟩
          simp only [llm_calls_append]
          omega
        · intro e w'' es' h
          obtain ⟨hq', hl'⟩ := h
          refine ⟨hq.append hq', ?_⟩
          simp only [llm_calls_append]
          omega
    · intro e w' es h
      obtain ⟨hq, hl⟩ := h
      exact ⟨hq, by omega⟩

/-- One call of `_run_agentic_loop`: one attempt with the feedback it was
    given, and at most `_MAX_TOOL_CALLS` LLM calls. -/
theorem run_agentic_loop_spec (env : Env W) (client : RuntimeClient W) (task_prompt : PyStr)
    (feedback : Option PyStr) (cwd ticket_id : PyVal) (w : W) :
    Prog.wp (run_agentic_loop env client task_prompt feedback cwd ticket_id)
      (fun r _ es => feedbacks es = [feedback] ∧ checks es = [] ∧ llm_calls es ≤ MAX_TOOL_CALLS ∧
        ∀ summary, r = .ok summary → summaries es = [summary]) w := by
  unfold run_agentic_loop
  rw [Prog.wp_bind, Prog.wp_note, Prog.andThen_ok]
  apply Prog.wp_seq (R := fun _ _ es => es = [])
  · rfl
  · rintro _ w' es rfl
    apply Prog.wp_seq (agentic_turns_spec env client cwd MAX_TOOL_CALLS _ w')
    · intro summary w'' es hboth
      obtain ⟨hq, hl⟩ := hboth
      simp only [Prog.wp_bind, Prog.wp_note, Prog.andThen_ok, Prog.wp_pure, List.nil_append,
        feedbacks_append, checks_append, llm_calls_append, summaries_append,
        hq.feedbacks, hq.checks, hq.summaries]
      refine ⟨rfl, rfl, ?_, ?_⟩
      · change 0 + (llm_calls es + 0) ≤ MAX_TOOL_CALLS
        omega
      · intro summary' h
        cases h
        rfl
    · intro e w'' es hboth
      obtain ⟨hq, hl⟩ := hboth
      simp only [List.nil_append, feedbacks_append, checks_append, llm_calls_append, hq.feedbacks,
        hq.checks]
      refine ⟨rfl, rfl, ?_, (by simp)⟩
      change 0 + llm_calls es ≤ MAX_TOOL_CALLS
      omega
  · rintro e w' es rfl
    exact ⟨rfl, rfl, Nat.zero_le _, (by simp)⟩

/-! ## The strike loop -/

/-- One attempt as it went: what it was told, what the model answered, and
    what the fast checks said. -/
structure Attempt where
  feedback : Option PyStr
  summary : PyStr
  check : ActionResult

/-- The fast checks rejected the attempt. -/
def Attempt.Rejected (a : Attempt) : Prop := a.check.exit_code ≠ 0

/-- The log lines of a list of attempts that follow strike `strike`. -/
def attempt_lines : Int → List Attempt → List PyStr
  | _, [] => []
  | strike, a :: as =>
    summary_line (strike + 1) a.summary :: fast_check_line (strike + 1) a.check ::
      attempt_lines (strike + 1) as

/-- `es` records exactly the attempts `as`. -/
structure Records (es : List (Event W)) (as : List Attempt) : Prop where
  feedbacks : feedbacks es = as.map (·.feedback)
  summaries : summaries es = as.map (·.summary)
  checks : checks es = as.map (·.check)

/-- How the strike loop ends after the attempts `as`: on the first attempt
    the fast checks accept, or when all are used up. -/
inductive LoopEnds (n : Nat) (strike : Int) (log : List PyStr) (as : List Attempt) :
    AgentState → Prop where
  | passed {as' : List Attempt} {a : Attempt} (has : as = as' ++ [a])
      (hrej : ∀ b ∈ as', b.Rejected) (hacc : ¬a.Rejected) (hlen : as.length ≤ n) :
      LoopEnds n strike log as
        { attempt_log := some (log ++ attempt_lines strike as),
          ticket_status := some .LOCAL_PASS,
          strike_count := some (strike + as.length),
          validation_diagnosis := some none }
  | exhausted (hrej : ∀ b ∈ as, b.Rejected) (hlen : as.length = n) :
      LoopEnds n strike log as
        { attempt_log := some (log ++ attempt_lines strike as),
          ticket_status := some .ESCALATED,
          strike_count := some (strike + as.length) }

/-- No strike left: no attempt is made. -/
theorem LoopEnds.none_left {strike : Int} {log : List PyStr} :
    LoopEnds 0 strike log []
      { attempt_log := some log, ticket_status := some .ESCALATED, strike_count := some strike } := by
  have h : LoopEnds 0 strike log [] _ := LoopEnds.exhausted (by simp) rfl
  simpa [attempt_lines] using h

/-- The next attempt is accepted. -/
theorem LoopEnds.first {n : Nat} {strike : Int} {log : List PyStr} {a : Attempt}
    (hacc : ¬a.Rejected) :
    LoopEnds (n + 1) strike log [a]
      { attempt_log := some
          (log ++ [summary_line (strike + 1) a.summary, fast_check_line (strike + 1) a.check]),
        ticket_status := some .LOCAL_PASS,
        strike_count := some (strike + 1),
        validation_diagnosis := some none } := by
  have h : LoopEnds (n + 1) strike log [a] _ :=
    LoopEnds.passed (List.nil_append [a]).symm (by simp) hacc (by simp)
  simpa [attempt_lines] using h

/-- A rejected attempt in front of a loop that ends. -/
theorem LoopEnds.cons {n : Nat} {strike : Int} {log : List PyStr} {as : List Attempt}
    {δ : AgentState} {a : Attempt} (hrej : a.Rejected)
    (h : LoopEnds n (strike + 1)
      (log ++ [summary_line (strike + 1) a.summary, fast_check_line (strike + 1) a.check]) as δ) :
    LoopEnds (n + 1) strike log (a :: as) δ := by
  have hlog : ∀ lines : List PyStr,
      log ++ [summary_line (strike + 1) a.summary, fast_check_line (strike + 1) a.check] ++ lines =
        log ++ (summary_line (strike + 1) a.summary :: fast_check_line (strike + 1) a.check ::
          lines) := by
    intro lines
    simp
  have hstrike : strike + 1 + (as.length : Int) = strike + ((a :: as).length : Nat) := by
    simp only [List.length_cons]
    omega
  cases h with
  | @passed as' b has hrej' hacc hlen =>
    rw [hlog, hstrike]
    have has' : a :: as = (a :: as') ++ [b] := by rw [has]; rfl
    refine LoopEnds.passed has' (List.forall_mem_cons.mpr ⟨hrej, hrej'⟩) hacc ?_
    · simp only [List.length_cons]
      omega
  | exhausted hrej' hlen =>
    rw [hlog, hstrike]
    refine LoopEnds.exhausted (List.forall_mem_cons.mpr ⟨hrej, hrej'⟩) ?_
    · simp only [List.length_cons]
      omega

section ends
variable {n : Nat} {strike : Int} {log : List PyStr} {as : List Attempt} {δ : AgentState}

/-- The loop charges one strike for each attempt. -/
theorem LoopEnds.strike_count (h : LoopEnds n strike log as δ) :
    δ.strike_count = some (strike + as.length) := by
  cases h <;> rfl

theorem LoopEnds.attempt_log (h : LoopEnds n strike log as δ) :
    δ.attempt_log = some (log ++ attempt_lines strike as) := by
  cases h <;> rfl

theorem LoopEnds.length_le (h : LoopEnds n strike log as δ) : as.length ≤ n := by
  cases h with
  | passed _ _ _ hlen => exact hlen
  | exhausted _ hlen => omega

theorem LoopEnds.ticket_status (h : LoopEnds n strike log as δ) :
    (δ.ticket_status = some .LOCAL_PASS ∧ 0 < as.length) ∨
      (δ.ticket_status = some .ESCALATED ∧ as.length = n) := by
  cases h with
  | passed has _ _ _ =>
    left
    rw [has]
    simp
  | exhausted _ hlen => exact Or.inr ⟨rfl, hlen⟩

/-- The loop gives up only when every attempt it had was rejected. -/
theorem LoopEnds.escalated (h : LoopEnds n strike log as δ)
    (hst : δ.ticket_status = some .ESCALATED) : (∀ a ∈ as, a.Rejected) ∧ as.length = n := by
  cases h with
  | passed => cases hst
  | exhausted hrej hlen => exact ⟨hrej, hlen⟩

theorem LoopEnds.confined (h : LoopEnds n strike log as δ) : δ.Confined := by
  cases h <;> exact ⟨rfl, rfl, rfl, rfl, rfl⟩

end ends

/-! ## The calls of the loop -/

/-- What every execution of the strike loop leaves, ended or not: with a
    strike left it calls `_run_agentic_loop`, and it calls it again only
    behind a check that failed. -/
structure Called (n : Nat) (es : List (Event W)) : Prop where
  called : 0 < n → feedbacks es ≠ []
  rejected : ∀ i, i + 1 < (feedbacks es).length →
    ∃ r, (checks es)[i]? = some r ∧ r.exit_code ≠ 0

omit [Unicode] in
theorem Called.once {n : Nat} {es : List (Event W)} {feedback : Option PyStr}
    (hf : feedbacks es = [feedback]) : Called n es where
  called := by rw [hf]; simp
  rejected := by rw [hf]; simp

omit [Unicode] in
/-- A rejected attempt in front of the rest of the loop. -/
theorem Called.cons {n : Nat} {es es' : List (Event W)} {feedback : Option PyStr}
    {check : ActionResult} (hf : feedbacks es = [feedback]) (hc : checks es = [check])
    (hfail : check.exit_code ≠ 0) (h : Called n es') : Called (n + 1) (es ++ es') where
  called := by rw [feedbacks_append, hf]; simp
  rejected := by
    intro i hi
    rw [feedbacks_append, hf] at hi
    rw [checks_append, hc]
    cases i with
    | zero => exact ⟨check, rfl, hfail⟩
    | succ i => exact h.rejected i (by simpa using hi)

/-! ## The loop -/

/-- The postcondition of the strike loop. -/
structure LoopSpec (n : Nat) (strike : Int) (log : List PyStr) (feedback : Option PyStr)
    (r : Except PyExc AgentState) (es : List (Event W)) : Prop where
  budgeted : Budgeted n feedback es
  called : Called n es
  ends : ∀ δ, r = .ok δ → ∃ as, Records es as ∧ LoopEnds n strike log as δ

/-- A loop that raises owes only its budget and its calls. -/
theorem LoopSpec.raised {n : Nat} {strike : Int} {log : List PyStr} {feedback : Option PyStr}
    {e : PyExc} {es : List (Event W)} (hb : Budgeted n feedback es) (hc : Called n es) :
    LoopSpec n strike log feedback (.error e) es := by
  refine ⟨hb, hc, ?_⟩
  intro δ hδ
  cases hδ

/-- The strike loop, by induction on the strikes left. -/
theorem executor_loop_spec (env : Env W) (client : RuntimeClient W) (ticket : Dict) (n : Nat) :
    ∀ (strike : Int) (log : List PyStr) (feedback : Option PyStr) (w : W),
      Prog.wp (executor_loop env client ticket n strike log feedback)
        (fun r _ es => LoopSpec n strike log feedback r es) w := by
  induction n with
  | zero =>
    intro strike log feedback w
    refine ⟨⟨Nat.le_refl 0, List.nil_prefix, Nat.zero_le _⟩, ?_, ?_⟩
    · exact ⟨fun h => absurd h (Nat.lt_irrefl 0), fun i hi => absurd hi (Nat.not_lt_zero _)⟩
    intro δ hδ
    cases hδ
    exact ⟨[], ⟨rfl, rfl, rfl⟩, LoopEnds.none_left⟩
  | succ n ih =>
    intro strike log feedback w
    rw [executor_loop]
    apply Prog.wp_seq (run_agentic_loop_spec env client _ feedback _ _ w)
    · intro summary w' es hparts
      obtain ⟨hf, hc, hl, hs⟩ := hparts
      have hs := hs summary rfl
      apply Prog.wp_seq (run_fast_checks_spec client _ w')
      · intro check w'' es' hparts
        obtain ⟨hf', hs', hl', hc', -⟩ := hparts
        have hc' := hc' check rfl
        -- the attempt just made, and its events
        let a : Attempt := ⟨feedback, summary, check⟩
        have hfs : feedbacks (es ++ es') = [feedback] := by rw [feedbacks_append, hf, hf']; rfl
        have hss : summaries (es ++ es') = [summary] := by rw [summaries_append, hs, hs']; rfl
        have hcs : checks (es ++ es') = [check] := by rw [checks_append, hc, hc']; rfl
        have hls : llm_calls (es ++ es') ≤ MAX_TOOL_CALLS := by
          rw [llm_calls_append]; omega
        rw [Prog.wp_ite]
        constructor
        · intro hpass
          simp only [Prog.wp_pure, List.append_nil]
          refine ⟨Budgeted.broken_off hfs hls, Called.once hfs, ?_⟩
          intro δ hδ
          cases hδ
          exact ⟨[a], ⟨hfs, hss, hcs⟩, LoopEnds.first (a := a) (fun h => h hpass)⟩
        · intro hfail
          apply Prog.wp_mono (ih (strike + 1) _ (some check.output) w'')
          intro r w₃ es'' hrest
          obtain ⟨hb, hcalled, hok⟩ := hrest
          rw [← List.append_assoc]
          refine ⟨Budgeted.cons hfs hcs hls hb, Called.cons hfs hcs hfail hcalled, ?_⟩
          intro δ hδ
          obtain ⟨as, hrec, hend⟩ := hok δ hδ
          refine ⟨a :: as, ⟨?_, ?_, ?_⟩, LoopEnds.cons (a := a) hfail hend⟩
          · rw [feedbacks_append, hfs, hrec.feedbacks]; rfl
          · rw [summaries_append, hss, hrec.summaries]; rfl
          · rw [checks_append, hcs, hrec.checks]; rfl
      · intro e w'' es' hparts
        obtain ⟨hf', -, hl', -, -⟩ := hparts
        have hfs : feedbacks (es ++ es') = [feedback] := by rw [feedbacks_append, hf, hf']; rfl
        have hls : llm_calls (es ++ es') ≤ MAX_TOOL_CALLS := by
          rw [llm_calls_append]; omega
        exact LoopSpec.raised (Budgeted.broken_off hfs hls) (Called.once hfs)
    · intro e w' es hparts
      obtain ⟨hf, -, hl, -⟩ := hparts
      exact LoopSpec.raised (Budgeted.broken_off hf hl) (Called.once hf)

/-- The executor on a real client calls `_run_agentic_loop` while a strike
    is left. -/
theorem executor_node_called (env : Env W) {api : RuntimeClient W}
    (henv : env.get_runtime_client = .ok (.RuntimeClient api)) (s : AgentState) (w : W) :
    Called (MAX_STRIKES - s.strikes).toNat (executor_node env s w).events := by
  change Prog.wp (executor_node env s) (fun _ _ es => Called _ es) w
  unfold executor_node
  rw [Prog.wp_bind, Prog.wp_ofExcept, henv, Prog.andThen_ok]
  apply Prog.wp_mono (executor_loop_spec env api s.ticket _ s.strikes s.log s.diagnosis w)
  intro r w' es hspec
  exact hspec.called

end Syndicate
