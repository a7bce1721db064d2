import Syndicate.Spec.Graph

/-! # Where a run can stand and where it can go

    `Control` relates the node a run is about to execute to the fields the
    routers read.  Under it every step is a `Move`: what the node did, with
    the routers' choice resolved.  `Control` holds at the entry point of a
    fresh run and over every move, whatever the model, the tools and the
    commands answer. -/

namespace Syndicate

open Py Framework

variable {W : Type}

/-- The state of a caller: no ticket status, no verdict, no strikes.  What
    else it holds (an issue, a ticket, a log, a budget) does not matter. -/
structure Fresh (s : AgentState) : Prop where
  ticket_status : s.ticket_status = none
  last_validation_passed : s.last_validation_passed = none
  strikes : s.strikes = 0

theorem Fresh.passed {s : AgentState} (h : Fresh s) : s.passed = false := by
  unfold AgentState.passed
  rw [h.last_validation_passed]
  rfl

/-- The ticket is over: given up, or accepted by its last verification. -/
def Settled (s : AgentState) : Prop := s.ticket_status = some .ESCALATED ∨ s.passed = true

/-- A settled ticket goes to `END` from `dispatch`. -/
theorem Settled.dispatch_router {s : AgentState} (h : Settled s) : dispatch_router s = .END := by
  unfold Syndicate.dispatch_router
  rcases h with h | h
  · simp [h]
  · simp [h]

/-- A fresh ticket goes to the executor, unless the run was halted. -/
theorem Fresh.dispatch_router {s : AgentState} (h : Fresh s)
    (hrun : s.run_status ≠ some .HALTED_ESCALATION_BUDGET) :
    dispatch_router s = .at .executor := by
  unfold Syndicate.dispatch_router
  simp [hrun, h.ticket_status, h.passed]

/-- `dispatch` has two ways out. -/
theorem dispatch_router_cases (s : AgentState) :
    dispatch_router s = .END ∨ dispatch_router s = .at .executor := by
  unfold dispatch_router
  split
  · exact Or.inl rfl
  split
  · exact Or.inl rfl
  split
  · exact Or.inl rfl
  · exact Or.inr rfl

/-- The state behind an executor that returned. -/
structure Attempted (env : Env W) (s : AgentState) : Prop where
  nonneg : 0 ≤ s.strikes
  le : s.strikes ≤ MAX_STRIKES
  status : s.ticket_status = some .LOCAL_PASS ∨
    (s.ticket_status = some .ESCALATED ∧ s.strikes = MAX_STRIKES)
  /-- A real attempt is charged before the executor returns. -/
  real : env.isMock = false → 1 ≤ s.strikes
  /-- The mock's executor charges nothing. -/
  mock : env.isMock = true → s.strikes < MAX_STRIKES

/-- What holds of the state when the run stands at `pc`. -/
def Control (env : Env W) (pc : Pc) (s : AgentState) : Prop :=
  match pc with
  | .at .analyzer => Fresh s
  | .at .architect => Fresh s
  | .at .dispatch => Fresh s ∨ Settled s
  | .at .executor => 0 ≤ s.strikes ∧ s.strikes < MAX_STRIKES
  | .at .validator => Attempted env s
  | .at .oversight_git => Attempted env s ∧ s.passed = true
  | .at .escalate => MAX_STRIKES ≤ s.strikes
  | .at .advance => Settled s
  | .END => s.run_status = some .HALTED_ESCALATION_BUDGET ∨ Settled s
  | .raised _ => True

/-- A verdict changes nothing that `Attempted` reads but the strikes. -/
theorem Attempted.of_eq {env : Env W} {s s' : AgentState} (h : Attempted env s)
    (hstatus : s'.ticket_status = s.ticket_status) (hstrikes : s'.strikes = s.strikes) :
    Attempted env s' where
  nonneg := hstrikes ▸ h.nonneg
  le := hstrikes ▸ h.le
  status := by rw [hstatus, hstrikes]; exact h.status
  real := by rw [hstrikes]; exact h.real
  mock := by rw [hstrikes]; exact h.mock

/-- Nothing verified is on record while a ticket is being attempted. -/
theorem Attempted.not_done {env : Env W} {s : AgentState} (h : Attempted env s) :
    s.ticket_status ≠ some .DONE := by
  rcases h.status with hs | ⟨hs, -⟩ <;> simp [hs]

/-- Behind a rejection: another attempt while strikes are left, else the
    escalation. -/
theorem control_rejected {env : Env W} {s : AgentState} {k : Int} (h0 : 0 ≤ k)
    (hk : s.strikes = k + 1) :
    Control env (.at (if k + 1 ≥ MAX_STRIKES then .escalate else .executor)) s := by
  by_cases h3 : k + 1 ≥ MAX_STRIKES
  · simp only [h3, if_true, Control]
    omega
  · simp only [h3, if_false, Control]
    omega

section moves
variable [Unicode]

/-! ## Moves -/

/-- What one step does from state `s`: the node it executes, its events and
    its result, the state behind it and where the run stands then. -/
inductive Move (env : Env W) (s : AgentState) :
    Node → List (Event W) → Except PyExc AgentState → AgentState → Pc → Prop where
  | raised {n : Node} {es : List (Event W)} {e : PyExc} (hquiet : n ≠ .executor → Quiet es)
      (hbudget : n = .executor → Budgeted (MAX_STRIKES - s.strikes).toNat s.diagnosis es) :
      Move env s n es (.error e) s (.raised e)
  | analyzer {es : List (Event W)} {analysis ticket : Option Dict} (hquiet : Quiet es) :
      Move env s .analyzer es (.ok { issue_analysis := analysis, active_ticket := ticket })
        (s.update { issue_analysis := analysis, active_ticket := ticket }) (.at .architect)
  | architect {es : List (Event W)} {ticket : Option Dict} (hquiet : Quiet es) :
      Move env s .architect es (.ok { active_ticket := ticket })
        (s.update { active_ticket := ticket }) (.at .dispatch)
  | dispatch_end (hend : dispatch_router s = .END) : Move env s .dispatch [] (.ok {}) s .END
  | dispatch_executor (hrouter : dispatch_router s = .at .executor) :
      Move env s .dispatch [] (.ok {}) s (.at .executor)
  | executor_mock {es : List (Event W)} {δ : AgentState} (hmock : env.isMock = true)
      (hquiet : Quiet es) (hllm : llm_calls es = 0)
      (hδ : δ = { attempt_log := some (s.log ++ DUMMY_ACTIONS.map dummy_line),
                  ticket_status := some .LOCAL_PASS }) :
      Move env s .executor es (.ok δ) (s.update δ) (.at .validator)
  | executor_real {es : List (Event W)} {as : List Attempt} {δ : AgentState}
      (hreal : env.isMock = false)
      (hbudget : Budgeted (MAX_STRIKES - s.strikes).toNat s.diagnosis es)
      (hrec : Records es as)
      (hend : LoopEnds (MAX_STRIKES - s.strikes).toNat s.strikes s.log as δ) :
      Move env s .executor es (.ok δ) (s.update δ) (.at .validator)
  | validator_mock {δ : AgentState} (hmock : env.isMock = true)
      (hδ : δ = { last_validation_passed := some true }) :
      Move env s .validator [] (.ok δ) (s.update δ) (.at .oversight_git)
  | validator_pass {r : ActionResult} {w w' : W} {δ : AgentState} (hreal : env.isMock = false)
      (hexit : r.exit_code = 0)
      (hδ : δ = { last_validation_passed := some true, validation_diagnosis := some none }) :
      Move env s .validator
        [.run_action (verification_command s.ticket) (workspace_dir s.ticket) w (.ok r) w']
        (.ok δ) (s.update δ) (.at .oversight_git)
  /-- A failed verification, charged a strike, and sent back or given up. -/
  | validator_fail {r : ActionResult} {d : PyStr} {w w' : W} {δ : AgentState}
      (hreal : env.isMock = false) (hexit : r.exit_code ≠ 0)
      (hδ : δ = { last_validation_passed := some false, validation_diagnosis := some (some d),
                  strike_count := some (s.strikes + 1) }) :
      Move env s .validator
        [.run_action (verification_command s.ticket) (workspace_dir s.ticket) w (.ok r) w']
        (.ok δ) (s.update δ)
        (.at (if s.strikes + 1 ≥ MAX_STRIKES then .escalate else .executor))
  /-- A pass with nothing to commit. -/
  | git_idle {es setup : List (Event W)} {client : Client W} {git_log : List PyStr} {δ : AgentState}
      (hclient : env.get_runtime_client = .ok client) (hquiet : Quiet es)
      (hsetup : ∀ e ∈ setup, IsSetup (workspace_dir s.ticket) e)
      (hpass : GitPass client s (workspace_dir s.ticket) setup git_log es δ)
      (hfiles : declares_files s.ticket = false) (hstatus : δ.ticket_status = none)
      (hstrike : δ.strike_count = none) :
      Move env s .oversight_git es (.ok δ) (s.update δ) (.at .advance)
  /-- A verified commit. -/
  | git_done {es setup : List (Event W)} {client : Client W} {git_log : List PyStr} {δ : AgentState}
      (hclient : env.get_runtime_client = .ok client) (hquiet : Quiet es)
      (hsetup : ∀ e ∈ setup, IsSetup (workspace_dir s.ticket) e)
      (hpass : GitPass client s (workspace_dir s.ticket) setup git_log es δ)
      (hfiles : declares_files s.ticket = true) (hstatus : δ.ticket_status = some .DONE)
      (hstrike : δ.strike_count = none) :
      Move env s .oversight_git es (.ok δ) (s.update δ) (.at .advance)
  /-- A failed pass, charged a strike, and sent back or given up. -/
  | git_strike {es setup : List (Event W)} {client : Client W} {git_log : List PyStr}
      {δ : AgentState} (hclient : env.get_runtime_client = .ok client) (hquiet : Quiet es)
      (hsetup : ∀ e ∈ setup, IsSetup (workspace_dir s.ticket) e)
      (hpass : GitPass client s (workspace_dir s.ticket) setup git_log es δ)
      (hfiles : declares_files s.ticket = true) (hstatus : δ.ticket_status = none)
      (hstrike : δ.strike_count = some (s.strikes + 1)) :
      Move env s .oversight_git es (.ok δ) (s.update δ)
        (.at (if s.strikes + 1 ≥ MAX_STRIKES then .escalate else .executor))
  | escalate {δ : AgentState} (hδ : δ = escalate_node env.MAX_ESCALATIONS s) :
      Move env s .escalate [] (.ok δ) (s.update δ) (.at .advance)
  | advance {δ : AgentState} (hδ : δ = advance_node s) :
      Move env s .advance [] (.ok δ) (s.update δ) (.at .dispatch)

/-- Behind a pass without a stale `DONE`, the git router follows the pass. -/
theorem git_move {env : Env W} {s δ : AgentState} {es setup : List (Event W)} {client : Client W}
    {git_log : List PyStr} (hclient : env.get_runtime_client = .ok client) (hquiet : Quiet es)
    (hsetup : ∀ e ∈ setup, IsSetup (workspace_dir s.ticket) e)
    (hpass : GitPass client s (workspace_dir s.ticket) setup git_log es δ)
    (hstale : s.ticket_status ≠ some .DONE) :
    Move env s .oversight_git es (.ok δ) (s.update δ) (next .oversight_git (s.update δ)) := by
  have hticket : (s.update δ).ticket = s.ticket := by
    rw [AgentState.update_ticket, hpass.confined.active_ticket]
    rfl
  have hstatus' : (s.update δ).ticket_status = δ.ticket_status.or s.ticket_status := by simp
  simp only [next, oversight_git_router, hticket, hstatus']
  rcases hpass.verdict with ⟨hfiles, hst, hk⟩ | ⟨hfiles, hst, hk⟩ | ⟨hfiles, hst, hk⟩
  · simp only [hst, Option.none_or, hstale, hfiles, if_false, if_true]
    exact Move.git_idle hclient hquiet hsetup hpass hfiles hst hk
  · have hstrikes : (s.update δ).strikes = s.strikes + 1 := by
      rw [AgentState.update_strikes, hk, Option.getD_some]
    simp only [hst, Option.none_or, hstale, hfiles, hstrikes, if_false, Bool.true_eq_false]
    exact Move.git_strike hclient hquiet hsetup hpass hfiles hst hk
  · simp only [hst, Option.some_or, if_true]
    exact Move.git_done hclient hquiet hsetup hpass hfiles hst hk

/-- Every step under `Control` is a move. -/
theorem stepped_move {env : Env W} {c c' : Config W} {v : Visit W}
    (h : Stepped env c v c') (hc : Control env c.pc c.state) :
    Move env c.state v.node v.events v.result c'.state c'.pc := by
  obtain ⟨node, before, events, result⟩ := v
  obtain ⟨hpc, -, hdoes, hok, herr, -⟩ := h
  simp only at hpc hdoes hok herr ⊢
  rw [hpc] at hc
  -- where the step leads, for a node that returned `δ`
  have hto : ∀ δ, result = .ok δ →
      Move env c.state node events (.ok δ) (c.state.update δ) (next node (c.state.update δ)) →
      Move env c.state node events result c'.state c'.pc := by
    intro δ hδ hmove
    obtain ⟨hs, hp⟩ := hok δ hδ
    rw [hδ, hs, hp]
    exact hmove
  cases hdoes with
  | raised hquiet hbudget =>
    obtain ⟨hs, hp⟩ := herr _ rfl
    rw [hs, hp]
    exact Move.raised hquiet hbudget
  | analyzer_ticket => exact hto _ rfl (Move.analyzer ⟨rfl, rfl, rfl⟩)
  | analyzer_issue _ hquiet => exact hto _ rfl (Move.analyzer hquiet)
  | architect_idle => exact hto _ rfl (Move.architect ⟨rfl, rfl, rfl⟩)
  | architect_plan _ hquiet => exact hto _ rfl (Move.architect hquiet)
  | dispatch =>
    apply hto _ rfl
    simp only [AgentState.update_empty, next]
    rcases dispatch_router_cases c.state with hr | hr
    · rw [hr]; exact Move.dispatch_end hr
    · rw [hr]; exact Move.dispatch_executor hr
  | executor_mock hmock hquiet hllm =>
    have hm : env.isMock = true := by simp [Env.isMock, hmock, Client.isMock]
    exact hto _ rfl (Move.executor_mock hm hquiet hllm rfl)
  | executor_real hreal hbudget hrec hend =>
    have hm : env.isMock = false := by simp [Env.isMock, hreal, Client.isMock]
    exact hto _ rfl (Move.executor_real hm hbudget hrec hend)
  | validator_mock hmock =>
    have hm : env.isMock = true := by simp [Env.isMock, hmock, Client.isMock]
    apply hto _ rfl
    simp only [next, validator_router, AgentState.update_passed, Option.getD_some, if_true]
    exact Move.validator_mock hm rfl
  | validator_pass hreal hexit =>
    have hm : env.isMock = false := by simp [Env.isMock, hreal, Client.isMock]
    apply hto _ rfl
    simp only [next, validator_router, AgentState.update_passed, Option.getD_some, if_true]
    exact Move.validator_pass hm hexit rfl
  | validator_fail hreal hexit =>
    have hm : env.isMock = false := by simp [Env.isMock, hreal, Client.isMock]
    apply hto _ rfl
    simp only [next, validator_router, AgentState.update_passed, AgentState.update_strikes,
      Option.getD_some, Bool.false_eq_true, if_false]
    exact Move.validator_fail hm hexit rfl
  | oversight_git hclient hquiet hsetup hpass =>
    exact hto _ rfl (git_move hclient hquiet hsetup hpass hc.1.not_done)
  | escalate => exact hto _ rfl (Move.escalate rfl)
  | advance => exact hto _ rfl (Move.advance rfl)

section move
variable {env : Env W} {s s' : AgentState} {n : Node} {es : List (Event W)}
  {r : Except PyExc AgentState} {pc' : Pc}

/-- Only the executor makes attempts. -/
theorem Move.quiet (h : Move env s n es r s' pc') (hn : n ≠ .executor) : Quiet es := by
  cases h with
  | raised hquiet => exact hquiet hn
  | analyzer hquiet => exact hquiet
  | architect hquiet => exact hquiet
  | executor_mock => exact absurd rfl hn
  | executor_real => exact absurd rfl hn
  | git_idle _ hquiet => exact hquiet
  | git_done _ hquiet => exact hquiet
  | git_strike _ hquiet => exact hquiet
  | _ => exact ⟨rfl, rfl, rfl⟩

/-- An execution of the executor, ended or not, stays within the strikes
    that are left. -/
theorem Move.budgeted (h : Move env s n es r s' pc') (hn : n = .executor) :
    (feedbacks es).length ≤ (MAX_STRIKES - s.strikes).toNat ∧
      llm_calls es ≤ MAX_TOOL_CALLS * (feedbacks es).length := by
  cases h with
  | raised _ hbudget => exact ⟨(hbudget hn).attempts, (hbudget hn).llm⟩
  | executor_mock _ hquiet hllm =>
    rw [hquiet.feedbacks, hllm]
    exact ⟨Nat.zero_le _, Nat.zero_le _⟩
  | executor_real _ hbudget => exact ⟨hbudget.attempts, hbudget.llm⟩
  | _ => cases hn

/-- No node takes a strike back, and a node that returns has charged every
    attempt it made. -/
theorem Move.charged (h : Move env s n es r s' pc') (hpc : ∀ e, pc' ≠ .raised e) :
    s.strikes + (feedbacks es).length ≤ s'.strikes := by
  cases h with
  | raised => exact absurd rfl (hpc _)
  | analyzer hquiet => simp [hquiet.feedbacks]
  | architect hquiet => simp [hquiet.feedbacks]
  | dispatch_end => exact Int.le_of_eq (Int.add_zero _)
  | dispatch_executor => exact Int.le_of_eq (Int.add_zero _)
  | executor_mock _ hquiet _ hδ => simp [hquiet.feedbacks, hδ]
  | executor_real _ _ hrec hend => simp [hrec.feedbacks, hend.strike_count]
  | validator_mock _ hδ => simp [feedbacks, hδ]
  | validator_pass _ _ hδ => simp [feedbacks, hδ]
  | validator_fail _ _ hδ =>
    show s.strikes + 0 ≤ _
    simp only [hδ, AgentState.update_strikes, Option.getD_some]
    omega
  | git_idle _ hquiet _ _ _ _ hstrike => simp [hquiet.feedbacks, hstrike]
  | git_done _ hquiet _ _ _ _ hstrike => simp [hquiet.feedbacks, hstrike]
  | git_strike _ hquiet _ _ _ _ hstrike =>
    simp only [hquiet.feedbacks, hstrike, AgentState.update_strikes, Option.getD_some]
    show s.strikes + 0 ≤ _
    omega
  | escalate hδ => simp [feedbacks, hδ, escalate_node]
  | advance hδ => simp [feedbacks, hδ, advance_node]

end move

/-! ## `Control` along a run -/

/-- One move keeps `Control`. -/
theorem control_move {env : Env W} {s s' : AgentState} {n : Node} {es : List (Event W)}
    {r : Except PyExc AgentState} {pc' : Pc}
    (h : Move env s n es r s' pc') (hc : Control env (.at n) s) : Control env pc' s' := by
  cases h with
  | raised => trivial
  | analyzer => exact ⟨hc.ticket_status, hc.last_validation_passed, hc.strikes⟩
  | architect => exact Or.inl ⟨hc.ticket_status, hc.last_validation_passed, hc.strikes⟩
  | dispatch_end hend =>
    rcases hc with hc | hc
    · left
      by_cases hrun : s.run_status = some .HALTED_ESCALATION_BUDGET
      · exact hrun
      · rw [hc.dispatch_router hrun] at hend
        cases hend
    · exact Or.inr hc
  | dispatch_executor hrouter =>
    rcases hc with hc | hc
    · show 0 ≤ s.strikes ∧ s.strikes < MAX_STRIKES
      rw [hc.strikes]
      decide
    · rw [hc.dispatch_router] at hrouter
      cases hrouter
  | executor_mock hmock _ _ hδ =>
    obtain ⟨h0, h3⟩ := hc
    subst hδ
    exact ⟨h0, Int.le_of_lt h3, Or.inl rfl, by simp [hmock], fun _ => h3⟩
  | @executor_real _ as δ hreal _ _ hend =>
    obtain ⟨h0, h3⟩ := hc
    have hlen := hend.length_le
    have hstrikes : (s.update δ).strikes = s.strikes + as.length := by
      rw [AgentState.update_strikes, hend.strike_count, Option.getD_some]
    have hstatus : (s.update δ).ticket_status = δ.ticket_status.or s.ticket_status := by simp
    -- at most three strikes are left, and the loop used as many as it made attempts
    unfold MAX_STRIKES at h3 hlen hend
    rcases hend.ticket_status with ⟨hst, hpos⟩ | ⟨hst, hall⟩
    · refine ⟨by omega, by unfold MAX_STRIKES; omega, Or.inl ?_, by omega, by simp [hreal]⟩
      rw [hstatus, hst]; rfl
    · refine ⟨by omega, by unfold MAX_STRIKES; omega, Or.inr ⟨?_, ?_⟩, by omega, by simp [hreal]⟩
      · rw [hstatus, hst]; rfl
      · unfold MAX_STRIKES; omega
  | validator_mock _ hδ =>
    subst hδ
    exact ⟨hc.of_eq (by simp) (by simp), by simp⟩
  | validator_pass _ _ hδ =>
    subst hδ
    exact ⟨hc.of_eq (by simp) (by simp), by simp⟩
  | validator_fail _ _ hδ =>
    subst hδ
    exact control_rejected hc.nonneg (by simp)
  | git_idle _ _ _ hpass =>
    right
    rw [AgentState.update_passed, hpass.confined.last_validation_passed]
    exact hc.2
  | git_done _ _ _ hpass =>
    right
    rw [AgentState.update_passed, hpass.confined.last_validation_passed]
    exact hc.2
  | git_strike _ _ _ _ _ _ hstrike => exact control_rejected hc.1.nonneg (by simp [hstrike])
  | escalate hδ =>
    subst hδ
    exact Or.inl rfl
  | advance hδ =>
    subst hδ
    exact Or.inr hc

/-- A step under `Control`: a move that leads to `Control` again. -/
theorem control_step {env : Env W} {c c' : Config W} {v : Visit W}
    (h : Stepped env c v c') (hc : Control env c.pc c.state) :
    Move env c.state v.node v.events v.result c'.state c'.pc ∧ Control env c'.pc c'.state := by
  have hmove := stepped_move h hc
  rw [h.pc] at hc
  exact ⟨hmove, control_move hmove hc⟩

/-- **Invariance along a fresh run.**  What holds of the empty history at
    the entry point, and is kept by every move between controlled states,
    holds after any number of node executions. -/
theorem fresh_invariant {env : Env W} {s : AgentState} {w : W} (hs : Fresh s)
    {P : List (Visit W) → Config W → Prop}
    (hinit : P [] (entry s w))
    (hstep : ∀ h c v c', P h c → Stepped env c v c' → Control env (.at v.node) v.before →
      Move env v.before v.node v.events v.result c'.state c'.pc → P (h ++ [v]) c') (n : Nat) :
    P (ainvoke env n s w).1 (ainvoke env n s w).2 := by
  suffices h : Control env (ainvoke env n s w).2.pc (ainvoke env n s w).2.state ∧
      P (ainvoke env n s w).1 (ainvoke env n s w).2 from h.2
  apply ainvoke_invariant (P := fun h c => Control env c.pc c.state ∧ P h c) ⟨hs, hinit⟩
  intro h c v c' ⟨hc, hP⟩ hst
  obtain ⟨hmove, hc'⟩ := control_step hst hc
  rw [hst.pc, ← hst.before] at hc
  rw [← hst.before] at hmove
  exact ⟨hc', hstep h c v c' hP hst hc hmove⟩

end moves

end Syndicate
