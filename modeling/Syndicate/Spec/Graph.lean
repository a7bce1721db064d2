import Syndicate.Spec.Oversight

/-! # What one step of the graph does

    `Does env s n es r` lists, node by node, what an execution of node `n`
    in state `s` can leave: its events `es` and its result `r`.  Every
    invariant of a run is proved from it by cases (`Stepped`), without
    unfolding a node again. -/

namespace Syndicate

open Py Framework

variable {W : Type} [Unicode]

/-! ## The nodes -/

/-- The line `executor_node` logs for a dummy action: the mock's echo. -/
def dummy_line (action : PyStr) : PyStr := action_line action ⟨0, lit "[mock] " ++ action⟩

inductive Does (env : Env W) (s : AgentState) :
    Node → List (Event W) → Except PyExc AgentState → Prop where
  /-- An exception: only the executor can have made attempts, and those
      within its budget. -/
  | raised {n : Node} {es : List (Event W)} {e : PyExc}
      (hquiet : n ≠ .executor → Quiet es)
      (hbudget : n = .executor → Budgeted (MAX_STRIKES - s.strikes).toNat s.diagnosis es) :
      Does env s n es (.error e)
  | analyzer_ticket (hissue : s.issue = none) :
      Does env s .analyzer []
        (.ok { active_ticket := some (if s.ticket.isEmpty then stub_ticket else s.ticket) })
  | analyzer_issue {es : List (Event W)} {analysis : Dict} (hissue : s.issue ≠ none)
      (hquiet : Quiet es) :
      Does env s .analyzer es (.ok { issue_analysis := some analysis })
  | architect_idle (hissue : s.issue = none ∨ s.issue_analysis = none) :
      Does env s .architect [] (.ok {})
  | architect_plan {es : List (Event W)} {ticket : Dict} (hissue : s.issue ≠ none)
      (hquiet : Quiet es) :
      Does env s .architect es (.ok { active_ticket := some ticket })
  | dispatch : Does env s .dispatch [] (.ok {})
  | executor_mock {es : List (Event W)} (hmock : env.get_runtime_client = .ok .MockRuntimeClient)
      (hquiet : Quiet es) (hllm : llm_calls es = 0) :
      Does env s .executor es
        (.ok { attempt_log := some (s.log ++ DUMMY_ACTIONS.map dummy_line),
               ticket_status := some .LOCAL_PASS })
  | executor_real {es : List (Event W)} {api : RuntimeClient W} {as : List Attempt}
      {δ : AgentState} (hreal : env.get_runtime_client = .ok (.RuntimeClient api))
      (hbudget : Budgeted (MAX_STRIKES - s.strikes).toNat s.diagnosis es)
      (hrec : Records es as)
      (hend : LoopEnds (MAX_STRIKES - s.strikes).toNat s.strikes s.log as δ) :
      Does env s .executor es (.ok δ)
  | validator_mock (hmock : env.get_runtime_client = .ok .MockRuntimeClient) :
      Does env s .validator [] (.ok { last_validation_passed := some true })
  | validator_pass {api : RuntimeClient W} {r : ActionResult} {w w' : W}
      (hreal : env.get_runtime_client = .ok (.RuntimeClient api)) (hexit : r.exit_code = 0) :
      Does env s .validator
        [.run_action (verification_command s.ticket) (workspace_dir s.ticket) w (.ok r) w']
        (.ok { last_validation_passed := some true, validation_diagnosis := some none })
  | validator_fail {api : RuntimeClient W} {r : ActionResult} {d : PyStr} {w w' : W}
      (hreal : env.get_runtime_client = .ok (.RuntimeClient api)) (hexit : r.exit_code ≠ 0)
      (hdiag : truncate_diagnosis r.output = .ok d) :
      Does env s .validator
        [.run_action (verification_command s.ticket) (workspace_dir s.ticket) w (.ok r) w']
        (.ok { last_validation_passed := some false, validation_diagnosis := some (some d),
               strike_count := some (s.strikes + 1) })
  | oversight_git {es setup : List (Event W)} {client : Client W} {git_log : List PyStr}
      {δ : AgentState} (hclient : env.get_runtime_client = .ok client)
      (hquiet : Quiet es) (hsetup : ∀ e ∈ setup, IsSetup (workspace_dir s.ticket) e)
      (hpass : GitPass client s (workspace_dir s.ticket) setup git_log es δ) :
      Does env s .oversight_git es (.ok δ)
  | escalate : Does env s .escalate [] (.ok (escalate_node env.MAX_ESCALATIONS s))
  | advance : Does env s .advance [] (.ok (advance_node s))

/-! ## Each node does what `Does` says -/

/-- An LLM call outside the executor makes no attempt. -/
theorem call_llm_json_spec (env : Env W) (key model prompt : PyStr) (max_tokens : Nat) (w : W) :
    Prog.wp (call_llm_json env key model prompt max_tokens) (fun _ _ es => Quiet es) w := by
  unfold call_llm_json
  apply Prog.wp_seq (R := fun _ _ es => es = [])
  · rfl
  · rintro _ w' es rfl
    apply Prog.wp_seq (R := fun _ _ es => Quiet es)
    · exact ⟨rfl, rfl, rfl⟩
    · intro response w'' es hq
      rw [Prog.wp_ofExcept, List.append_nil]
      exact hq
    · intro e w'' es hq
      exact hq
  · rintro e w' es rfl
    exact ⟨rfl, rfl, rfl⟩

theorem emits_detect (client : Client W) (workspace_dir : PyVal)
    (manifests : List (String × String)) :
    Prog.Emits (fun e => e.isSandbox = true)
      (detect_verification_command client workspace_dir manifests) := by
  induction manifests with
  | nil => exact Prog.emits_pure _
  | cons m rest ih =>
    refine Prog.emits_bind (Prog.emits_catching ?_) fun found => ?_
    · refine Prog.emits_bind ?_ fun _ => Prog.emits_pure _
      unfold Client.read
      split <;> exact Prog.emits_call fun _ _ _ => rfl
    · exact Prog.emits_ite (Prog.emits_pure _) ih

theorem analyzer_does (env : Env W) (s : AgentState) (w : W) :
    Does env s .analyzer (analyzer_node env s w).events (analyzer_node env s w).val := by
  unfold analyzer_node
  cases hi : s.issue with
  | none => exact Does.analyzer_ticket hi
  | some issue =>
    change Prog.wp _ (fun r _ es => Does env s .analyzer es r) w
    apply Prog.wp_seq (call_llm_json_spec env _ _ _ _ w)
    · intro analysis w' es hq
      rw [Prog.wp_pure, List.append_nil]
      exact Does.analyzer_issue (by rw [hi]; nofun) hq
    · intro e w' es hq
      exact Does.raised (fun _ => hq) nofun

theorem architect_does (env : Env W) (s : AgentState) (w : W) :
    Does env s .architect (architect_node env s w).events (architect_node env s w).val := by
  unfold architect_node
  cases hi : s.issue with
  | none => exact Does.architect_idle (Or.inl hi)
  | some issue =>
    cases ha : s.issue_analysis with
    | none => exact Does.architect_idle (Or.inr ha)
    | some analysis =>
      change Prog.wp _ (fun r _ es => Does env s .architect es r) w
      -- whatever raises on the way has only asked the model
      have hraised : ∀ (e : PyExc) (es : List (Event W)), Quiet es →
          Does env s .architect es (.error e) := fun e es hq => Does.raised (fun _ => hq) nofun
      rw [Prog.wp_bind, Prog.wp_ofExcept]
      rcases env.get_runtime_client with e | client
      · exact hraised e [] ⟨rfl, rfl, rfl⟩
      rw [Prog.andThen_ok]
      apply Prog.wp_seq (R := fun _ _ es => Quiet es)
      · exact (sandbox_quiet (emits_detect client _ _ w)).1
      · intro detected w' es hq
        rw [Prog.wp_bind, Prog.wp_ofExcept]
        rcases json_dumps none (.dict analysis) with e | analysis_json
        · rw [Prog.andThen_error, List.nil_append, List.append_nil]
          exact hraised e es hq
        rw [Prog.andThen_ok]
        apply Prog.wp_seq (call_llm_json_spec env _ _ _ _ w')
        · intro planned w'' es' hq'
          rw [Prog.wp_ite]
          constructor
          · intro _
            rw [Prog.wp_pure]
            simp only [List.nil_append, List.append_nil]
            exact Does.architect_plan (by rw [hi]; nofun) (hq.append hq')
          · intro _
            rw [Prog.wp_raise]
            simp only [List.nil_append, List.append_nil]
            exact hraised _ _ (hq.append hq')
        · intro e w'' es' hq'
          simp only [List.nil_append]
          exact hraised e _ (hq.append hq')
      · intro e w' es hq
        exact hraised e _ hq

/-- The mock answers both dummy actions; nothing raises. -/
theorem dummy_actions_spec (actions log : List PyStr) (w : W) :
    Prog.wp (dummy_actions .MockRuntimeClient actions log)
      (fun r _ es => r = .ok (log ++ actions.map dummy_line) ∧ Quiet es ∧ llm_calls es = 0) w := by
  induction actions generalizing log w with
  | nil => exact ⟨by rw [List.map_nil, List.append_nil]; rfl, ⟨rfl, rfl, rfl⟩, rfl⟩
  | cons action rest ih =>
    rw [dummy_actions, Prog.wp_bind, Client.act, Prog.wp_call]
    rw [Client.run_action, Prog.andThen_ok]
    apply Prog.wp_mono (ih _ w)
    intro r w' es h
    obtain ⟨hr, hq, hl⟩ := h
    refine ⟨?_, ⟨hq.feedbacks, hq.summaries, hq.checks⟩, hl⟩
    rw [hr, List.append_assoc]
    rfl

theorem executor_does (env : Env W) (s : AgentState) (w : W) :
    Does env s .executor (executor_node env s w).events (executor_node env s w).val := by
  change Prog.wp (executor_node env s) (fun r _ es => Does env s .executor es r) w
  unfold executor_node
  rw [Prog.wp_bind, Prog.wp_ofExcept]
  rcases henv : env.get_runtime_client with e | client
  · exact Does.raised nofun fun _ => ⟨Nat.zero_le _, List.nil_prefix, Nat.le_refl 0⟩
  rw [Prog.andThen_ok]
  cases client with
  | MockRuntimeClient =>
    apply Prog.wp_seq (dummy_actions_spec DUMMY_ACTIONS s.log w)
    · intro log w' es hparts
      obtain ⟨hlog, hq, hl⟩ := hparts
      cases hlog
      rw [Prog.wp_pure]
      simp only [List.nil_append, List.append_nil]
      exact Does.executor_mock henv hq hl
    · intro e w' es hparts
      obtain ⟨hlog, -, -⟩ := hparts
      cases hlog
  | RuntimeClient api =>
    apply Prog.wp_mono (executor_loop_spec env api s.ticket _ s.strikes s.log s.diagnosis w)
    intro r w' es hspec
    obtain ⟨hbudget, -, hok⟩ := hspec
    rw [List.nil_append]
    cases r with
    | ok δ =>
      obtain ⟨as, hrec, hend⟩ := hok δ rfl
      exact Does.executor_real henv hbudget hrec hend
    | error e => exact Does.raised (fun h => absurd rfl h) fun _ => hbudget

theorem validator_does (env : Env W) (s : AgentState) (w : W) :
    Does env s .validator (validator_node env s w).events (validator_node env s w).val := by
  change Prog.wp (validator_node env s) (fun r _ es => Does env s .validator es r) w
  have hraised : ∀ (e : PyExc) (es : List (Event W)), Quiet es →
      Does env s .validator es (.error e) := fun e es hq => Does.raised (fun _ => hq) nofun
  unfold validator_node
  rw [Prog.wp_bind, Prog.wp_ofExcept]
  rcases henv : env.get_runtime_client with e | client
  · exact hraised e [] ⟨rfl, rfl, rfl⟩
  rw [Prog.andThen_ok]
  cases client with
  | MockRuntimeClient => exact Does.validator_mock henv
  | RuntimeClient api =>
    simp only [RuntimeClient.act, Prog.wp_bind, Prog.wp_call, List.nil_append]
    rcases api.run_action (verification_command s.ticket) (workspace_dir s.ticket)
      (some VALIDATOR_TIMEOUT_SECONDS) w with ⟨e | r, w'⟩
    · exact hraised e _ ⟨rfl, rfl, rfl⟩
    rw [Prog.andThen_ok, Prog.wp_ite]
    constructor
    · intro hexit
      exact Does.validator_pass henv hexit
    · intro hexit
      rw [Prog.wp_bind, Prog.wp_ofExcept]
      rcases hdiag : truncate_diagnosis r.output with e | d
      · exact hraised e _ ⟨rfl, rfl, rfl⟩
      · exact Does.validator_fail henv hexit hdiag

theorem oversight_git_does (env : Env W) (s : AgentState) (w : W) :
    Does env s .oversight_git (oversight_git_node env s w).events
      (oversight_git_node env s w).val := by
  change Prog.wp (oversight_git_node env s) (fun r _ es => Does env s .oversight_git es r) w
  apply Prog.wp_mono (oversight_git_node_spec env s w)
  intro r w' es h
  obtain ⟨hquiet, -, hok⟩ := h
  cases r with
  | ok δ =>
    obtain ⟨client, setup, git_log, hclient, hsetup, hpass⟩ := hok δ rfl
    exact Does.oversight_git hclient hquiet hsetup hpass
  | error e => exact Does.raised (fun _ => hquiet) nofun

theorem node_does (env : Env W) (n : Node) (s : AgentState) (w : W) :
    Does env s n (node_program env n s w).events (node_program env n s w).val := by
  cases n with
  | analyzer => exact analyzer_does env s w
  | architect => exact architect_does env s w
  | dispatch => exact Does.dispatch
  | executor => exact executor_does env s w
  | validator => exact validator_does env s w
  | oversight_git => exact oversight_git_does env s w
  | escalate => exact Does.escalate
  | advance => exact Does.advance

/-! ## One step -/

/-- `c` steps to `c'` with visit `v`. -/
structure Stepped (env : Env W) (c : Config W) (v : Visit W) (c' : Config W) : Prop where
  pc : c.pc = .at v.node
  before : v.before = c.state
  does : Does env c.state v.node v.events v.result
  ok : ∀ δ, v.result = .ok δ →
    c'.state = c.state.update δ ∧ c'.pc = next v.node (c.state.update δ)
  error : ∀ e, v.result = .error e → c'.state = c.state ∧ c'.pc = .raised e
  /-- Returned or not, a git pass commits what it staged and nothing else. -/
  commits : v.node = .oversight_git → commits v.events = staged v.events

/-- A step leads where its visit says. -/
theorem Stepped.goes_to {env : Env W} {c c' : Config W} {v : Visit W} (h : Stepped env c v c') :
    v.goes_to = c'.pc := by
  unfold Visit.goes_to
  rw [h.before]
  cases hr : v.result with
  | ok δ => exact (h.ok δ hr).2.symm
  | error e => exact (h.error e hr).2.symm

theorem graph_stepped {env : Env W} {c c' : Config W} {v : Visit W}
    (h : (graph env).step c = some (v, c')) : Stepped env c v c' := by
  rcases hpc : c.pc with n | _ | e
  · simp only [graph, hpc, execute, Option.some.injEq, Prod.mk.injEq] at h
    obtain ⟨rfl, rfl⟩ := h
    refine ⟨hpc, rfl, node_does env n c.state c.world, ?_, ?_, ?_⟩
    · intro δ hδ
      simp only at hδ
      simp [hδ]
    · intro e he
      simp only at he
      simp [he]
    · intro hn
      simp only at hn
      subst hn
      exact (oversight_git_node_spec env c.state c.world).2.1
  · simp [graph, hpc] at h
  · simp [graph, hpc] at h

/-- A run that is not over can step. -/
theorem graph_halted_iff {env : Env W} {c : Config W} :
    (graph env).Halted c ↔ c.pc = .END ∨ ∃ e, c.pc = .raised e := by
  unfold Machine.Halted
  rcases hpc : c.pc with n | _ | e <;> simp [graph, hpc]

/-- **Invariance along a graph run**: what holds of the empty history at the
    entry point, and is kept by every step, holds after any number of node
    executions. -/
theorem ainvoke_invariant {env : Env W} {s : AgentState} {w : W}
    {P : List (Visit W) → Config W → Prop}
    (hinit : P [] (entry s w))
    (hstep : ∀ h c v c', P h c → Stepped env c v c' → P (h ++ [v]) c') (n : Nat) :
    P (ainvoke env n s w).1 (ainvoke env n s w).2 :=
  (graph env).run_invariant hinit
    (fun h c v c' hP hs => hstep h c v c' hP (graph_stepped hs)) n

/-! ## What a visit is -/

/-- The visit is an execution of its node's program. -/
def Visit.Executed (env : Env W) (v : Visit W) : Prop :=
  ∃ w, v.events = (node_program env v.node v.before w).events ∧
    v.result = (node_program env v.node v.before w).val

theorem graph_executed {env : Env W} {c c' : Config W} {v : Visit W}
    (h : (graph env).step c = some (v, c')) : v.Executed env := by
  rcases hpc : c.pc with n | _ | e
  · simp only [graph, hpc, execute, Option.some.injEq, Prod.mk.injEq] at h
    obtain ⟨rfl, rfl⟩ := h
    exact ⟨c.world, rfl, rfl⟩
  · simp [graph, hpc] at h
  · simp [graph, hpc] at h

theorem ainvoke_executed (env : Env W) (s : AgentState) (w : W) (n : Nat) :
    ∀ v ∈ (ainvoke env n s w).1, v.Executed env := by
  apply (graph env).run_invariant (P := fun h _ => ∀ v ∈ h, v.Executed env)
  · intro v hv
    cases hv
  · intro h c v c' hP hst u hu
    rcases List.mem_append.mp hu with hu | hu
    · exact hP u hu
    · rw [List.mem_singleton.mp hu]
      exact graph_executed hst

end Syndicate
