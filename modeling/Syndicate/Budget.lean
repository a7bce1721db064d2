import Syndicate.Spec.Control

/-! # Termination and the attempt budget

    Three nested cycles send a ticket back to the executor: the executor's
    own loop, a failed verification and a failed commit.  `budget` bounds
    the node executions still to come; each one uses at least one of it.
    In mock mode the executor charges no strike, so the cycle is paid for by
    the git pass that fails; on the real path every executor run costs one. -/

namespace Syndicate

open Py Framework

variable {W : Type}

/-! ## The measure -/

/-- Strikes left. -/
def left (s : AgentState) : Nat := (MAX_STRIKES - s.strikes).toNat

/-- A bound on the node executions of the rest of a run. -/
def budget (env : Env W) (pc : Pc) (s : AgentState) : Nat :=
  match pc with
  | .at .analyzer => 15
  | .at .architect => 14
  | .at .dispatch => if dispatch_router s = .END then 1 else 13
  | .at .executor => 3 * left s + 3
  | .at .validator => 3 * left s + (if env.isMock then 2 else 5)
  | .at .oversight_git => 3 * left s + (if env.isMock then 1 else 4)
  | .at .escalate => 3
  | .at .advance => 2
  | .END => 0
  | .raised _ => 0

theorem budget_pos (env : Env W) (n : Node) (s : AgentState) : 0 < budget env (.at n) s := by
  cases n with
  | dispatch =>
    show 0 < if dispatch_router s = .END then 1 else 13
    split <;> decide
  | validator =>
    show 0 < 3 * left s + (if env.isMock then 2 else 5)
    split <;> omega
  | oversight_git =>
    show 0 < 3 * left s + (if env.isMock then 1 else 4)
    split <;> omega
  | _ => simp [budget]

/-- What a rejection leaves: three node executions for each strike left, and
    never less than the three of the escalation. -/
theorem budget_rejected (env : Env W) {s : AgentState} {k : Int} (hk : s.strikes = k + 1) :
    budget env (.at (if k + 1 ≥ MAX_STRIKES then .escalate else .executor)) s ≤
      max 3 (3 * (MAX_STRIKES - k).toNat) := by
  by_cases h3 : k + 1 ≥ MAX_STRIKES
  · simp only [h3, if_true, budget]
    exact Nat.le_max_left _ _
  · simp only [h3, if_false, budget, left, hk]
    have : 3 * (MAX_STRIKES - (k + 1)).toNat + 3 = 3 * (MAX_STRIKES - k).toNat := by omega
    rw [this]
    exact Nat.le_max_right _ _

/-- A pass that settles the ticket leaves `advance` and `dispatch`. -/
theorem budget_advance {env : Env W} {s : AgentState} (h : Attempted env s) :
    2 + 1 ≤ budget env (.at .oversight_git) s := by
  show 2 + 1 ≤ 3 * left s + (if env.isMock then 1 else 4)
  by_cases hmock : env.isMock
  · have hlt := h.mock hmock
    simp only [hmock, if_true, left]
    omega
  · simp only [hmock, Bool.false_eq_true, if_false]
    omega

/-! ## The phases of a run -/

/-- How often `dispatch`, `escalate` and `advance` were executed when the run
    stands at `pc`. -/
def Phase (pc : Pc) (s : AgentState) (dispatches escalations advances : Nat) : Prop :=
  match pc with
  | .at .analyzer | .at .architect =>
    s.run_status ≠ some .HALTED_ESCALATION_BUDGET ∧
      dispatches = 0 ∧ escalations = 0 ∧ advances = 0
  | .at .dispatch =>
    (s.run_status ≠ some .HALTED_ESCALATION_BUDGET ∧ Fresh s ∧
      dispatches = 0 ∧ escalations = 0 ∧ advances = 0) ∨
    (Settled s ∧ dispatches = 1 ∧ escalations ≤ 1 ∧ advances = 1)
  | .at .executor | .at .validator | .at .oversight_git | .at .escalate =>
    dispatches = 1 ∧ escalations = 0 ∧ advances = 0
  | .at .advance => dispatches = 1 ∧ escalations ≤ 1 ∧ advances = 0
  | .END => escalations ≤ 1 ∧ advances = 1
  | .raised _ => escalations ≤ 1 ∧ advances ≤ 1

/-- What a visit to `n` adds to the count of `m`. -/
def visited (n m : Node) : Nat := if n = m then 1 else 0

/-- Every phase has seen at most one escalation and one advance. -/
theorem Phase.le_one {pc : Pc} {s : AgentState} {d e a : Nat} (h : Phase pc s d e a) :
    e ≤ 1 ∧ a ≤ 1 := by
  rcases pc with n | _ | x
  · cases n with
    | dispatch =>
      rcases h with ⟨-, -, -, he, ha⟩ | ⟨-, -, he, ha⟩
      · omega
      · omega
    | _ =>
      simp only [Phase] at h
      omega
  · have ⟨he, ha⟩ := h
    omega
  · exact h

/-- `dispatch` hands a ticket to the executor only on its first visit. -/
def DispatchesOnce (h : List (Visit W)) : Prop :=
  h.Pairwise fun u v => u.node = .dispatch → v.node = .dispatch → v.goes_to ≠ .at .executor

/-- What a run of one ticket may cost. -/
structure WithinBudget (h : List (Visit W)) : Prop where
  visits : h.length ≤ 15
  attempts : (attempts h : Int) ≤ MAX_STRIKES
  llm : (llm_calls (executor_trace h) : Int) ≤ MAX_STRIKES * MAX_TOOL_CALLS
  escalations : executions .escalate h ≤ 1
  advances : executions .advance h ≤ 1
  dispatches : DispatchesOnce h

section runs
variable [Unicode]

/-! ## The measure decreases -/

/-- Each move uses up some of the budget. -/
theorem budget_move {env : Env W} {s s' : AgentState} {n : Node} {es : List (Event W)}
    {r : Except PyExc AgentState} {pc' : Pc} (h : Move env s n es r s' pc')
    (hc : Control env (.at n) s) : budget env pc' s' + 1 ≤ budget env (.at n) s := by
  cases h with
  | raised => exact budget_pos env n s
  | analyzer => exact Nat.le_refl 15
  | architect =>
    show (if _ then 1 else 13) + 1 ≤ 14
    split <;> decide
  | dispatch_end hend => exact budget_pos env .dispatch s
  | dispatch_executor hrouter =>
    have hzero : s.strikes = 0 := by
      rcases hc with hc | hc
      · exact hc.strikes
      · rw [hc.dispatch_router] at hrouter
        cases hrouter
    simp [budget, hrouter, left, hzero, MAX_STRIKES]
  | executor_mock hmock _ _ hδ =>
    subst hδ
    simp [budget, left, hmock]
  | @executor_real _ as δ hreal _ _ hend =>
    have hlen := hend.length_le
    have hstrikes : (s.update δ).strikes = s.strikes + as.length := by
      rw [AgentState.update_strikes, hend.strike_count, Option.getD_some]
    obtain ⟨h0, h3⟩ := hc
    -- the loop made at least one attempt: some strike was left
    have hpos : 0 < as.length := by
      rcases hend.ticket_status with ⟨-, hpos⟩ | ⟨-, hall⟩ <;> omega
    simp only [budget, left, hstrikes, hreal, Bool.false_eq_true, if_false]
    omega
  | validator_mock hmock hδ =>
    subst hδ
    simp [budget, left, hmock]
  | validator_pass hreal _ hδ =>
    subst hδ
    simp [budget, left, hreal]
  | @validator_fail _ _ _ _ δ hreal _ hδ =>
    have hb := budget_rejected env (s := s.update δ) (k := s.strikes) (by simp [hδ])
    have h3 := hc.le
    show _ + 1 ≤ 3 * left s + (if env.isMock then 2 else 5)
    simp only [hreal, left, Bool.false_eq_true, if_false]
    omega
  | git_idle => exact budget_advance hc.1
  | git_done => exact budget_advance hc.1
  | @git_strike _ _ _ _ δ _ _ _ _ _ _ hstrike =>
    have hb := budget_rejected env (s := s.update δ) (k := s.strikes) (by simp [hstrike])
    have h3 := hc.1.le
    show _ + 1 ≤ 3 * left s + (if env.isMock then 1 else 4)
    by_cases hmock : env.isMock
    · have hlt := hc.1.mock hmock
      simp only [hmock, if_true, left]
      omega
    · simp only [hmock, Bool.false_eq_true, if_false, left]
      omega
  | escalate => exact Nat.le_refl 3
  | advance hδ =>
    have hend : dispatch_router (s.update (advance_node s)) = .END := Settled.dispatch_router hc
    subst hδ
    simp [budget, hend]

/-- A fresh run makes at most fifteen node executions. -/
theorem ainvoke_length {env : Env W} {s : AgentState} (hs : Fresh s) (w : W) (n : Nat) :
    (ainvoke env n s w).1.length ≤ 15 := by
  have key : (ainvoke env n s w).1.length +
      budget env (ainvoke env n s w).2.pc (ainvoke env n s w).2.state ≤ 15 := by
    apply fresh_invariant hs (P := fun h c => h.length + budget env c.pc c.state ≤ 15)
    · exact Nat.le_refl 15
    · intro h c v c' hP hst hc hmove
      have hstep := budget_move hmove hc
      rw [hst.pc, ← hst.before] at hP
      simp only [List.length_append, List.length_singleton]
      omega
  omega

/-- After fifteen node executions a fresh run is over. -/
theorem ainvoke_halted {env : Env W} {s : AgentState} (hs : Fresh s) (w : W) :
    (graph env).Halted (ainvoke env 15 s w).2 :=
  (graph env).run_halts fun n => ainvoke_length hs w n

/-! ## Attempts and LLM calls -/

/-- The attempts made so far, and what they may have cost. -/
structure Spent (h : List (Visit W)) (c : Config W) : Prop where
  attempts : (attempts h : Int) ≤ MAX_STRIKES
  /-- Every attempt of an executor that returned is on the strike count. -/
  charged : (∀ e, c.pc ≠ .raised e) → (Syndicate.attempts h : Int) ≤ c.state.strikes
  llm : llm_calls (executor_trace h) ≤ MAX_TOOL_CALLS * Syndicate.attempts h

theorem ainvoke_spent {env : Env W} {s : AgentState} (hs : Fresh s) (w : W) (n : Nat) :
    Spent (ainvoke env n s w).1 (ainvoke env n s w).2 := by
  apply fresh_invariant hs (P := Spent)
  · refine ⟨?_, ?_, Nat.zero_le _⟩
    · show (0 : Int) ≤ 3
      decide
    · intro _
      show (0 : Int) ≤ s.strikes
      exact Int.le_of_eq hs.strikes.symm
  · intro h c v c' hP hst hc hmove
    have hsofar := hP.charged (by rw [hst.pc]; nofun)
    rw [← hst.before] at hsofar
    have hllm := hP.llm
    -- the moves charge what they spend, unless they raise
    have hcharged : (∀ e, c'.pc ≠ .raised e) →
        ((attempts (h ++ [v]) : Nat) : Int) ≤ c'.state.strikes := by
      intro hnr
      have := hmove.charged hnr
      rw [attempts_append, attempts_singleton]
      omega
    by_cases hn : v.node = .executor
    · obtain ⟨hle, hcalls⟩ := hmove.budgeted hn
      rw [hn] at hc
      obtain ⟨h0, h3⟩ := hc
      refine ⟨?_, hcharged, ?_⟩
      · rw [attempts_append, attempts_singleton]
        omega
      · rw [executor_trace_append, llm_calls_append, executor_trace_singleton, if_pos hn,
          attempts_append, attempts_singleton, Nat.mul_add]
        omega
    · -- no other node calls the loop
      have hquiet := hmove.quiet hn
      have hsame : attempts (h ++ [v]) = attempts h := by
        rw [attempts_append, attempts_singleton, hquiet.feedbacks]
        rfl
      refine ⟨?_, hcharged, ?_⟩
      · rw [hsame]
        exact hP.attempts
      · rw [hsame, executor_trace_append, executor_trace_singleton, if_neg hn, List.append_nil]
        exact hllm

/-! ## One ticket, one dispatch -/

/-- Each move goes to the next phase, or stays in the attempts. -/
theorem phase_move {env : Env W} {s s' : AgentState} {n : Node} {es : List (Event W)}
    {r : Except PyExc AgentState} {pc' : Pc} {d e a : Nat} (h : Move env s n es r s' pc')
    (hc : Control env (.at n) s) (hp : Phase (.at n) s d e a) :
    Phase pc' s' (d + visited n .dispatch) (e + visited n .escalate) (a + visited n .advance) := by
  -- a retry returns to the attempts, of which the phase keeps no count
  have hretry : ∀ m : Node, m = .executor ∨ m = .escalate → Phase (.at .oversight_git) s d e a →
      Phase (.at m) s' d e a := by
    intro m hm hp
    rcases hm with rfl | rfl <;> exact hp
  cases h with
  | raised =>
    show e + visited n .escalate ≤ 1 ∧ a + visited n .advance ≤ 1
    cases n <;> simp only [Phase, visited] at hp ⊢ <;> simp <;> omega
  | analyzer => exact hp
  | architect =>
    obtain ⟨hrun, hzero⟩ := hp
    exact Or.inl ⟨hrun, ⟨hc.ticket_status, hc.last_validation_passed, hc.strikes⟩, hzero⟩
  | dispatch_end hend =>
    rcases hp with ⟨hrun, hfresh, -⟩ | ⟨-, -, he, ha⟩
    · rw [hfresh.dispatch_router hrun] at hend
      cases hend
    · exact ⟨he, ha⟩
  | dispatch_executor hrouter =>
    rcases hp with ⟨-, -, hd, he, ha⟩ | ⟨hsettled, -⟩
    · exact ⟨by rw [hd]; rfl, he, ha⟩
    · rw [hsettled.dispatch_router] at hrouter
      cases hrouter
  | executor_mock => exact hp
  | executor_real => exact hp
  | validator_mock => exact hp
  | validator_pass => exact hp
  | validator_fail => exact hretry _ (by split <;> simp) hp
  | git_idle => exact ⟨hp.1, Nat.le_succ_of_le (Nat.le_of_eq hp.2.1), hp.2.2⟩
  | git_done => exact ⟨hp.1, Nat.le_succ_of_le (Nat.le_of_eq hp.2.1), hp.2.2⟩
  | git_strike => exact hretry _ (by split <;> simp) hp
  | escalate =>
    obtain ⟨hd, he, ha⟩ := hp
    exact ⟨hd, by rw [he]; decide, ha⟩
  | advance hδ =>
    obtain ⟨hd, he, ha⟩ := hp
    subst hδ
    exact Or.inr ⟨hc, hd, he, by rw [ha]; rfl⟩

theorem ainvoke_phase {env : Env W} {s : AgentState} (hs : Fresh s)
    (hrun : s.run_status ≠ some .HALTED_ESCALATION_BUDGET) (w : W) (n : Nat) :
    Phase (ainvoke env n s w).2.pc (ainvoke env n s w).2.state
        (executions .dispatch (ainvoke env n s w).1) (executions .escalate (ainvoke env n s w).1)
        (executions .advance (ainvoke env n s w).1) ∧
      DispatchesOnce (ainvoke env n s w).1 := by
  apply fresh_invariant hs (P := fun h c => Phase c.pc c.state (executions .dispatch h)
    (executions .escalate h) (executions .advance h) ∧ DispatchesOnce h)
  · exact ⟨⟨hrun, rfl, rfl, rfl⟩, List.Pairwise.nil⟩
  · intro h c v c' ⟨hphase, honce⟩ hst hc hmove
    rw [hst.pc, ← hst.before] at hphase
    have hphase' := phase_move hmove hc hphase
    constructor
    · simpa [visited] using hphase'
    · refine List.pairwise_append.mpr ⟨honce, List.pairwise_singleton _ _, ?_⟩
      intro u hu v' hv' hudisp hvdisp hto
      obtain rfl := List.mem_singleton.mp hv'
      -- a visit that leads to the executor is the first of `dispatch`
      have hpc' : c'.pc = .at .executor := by rw [← hst.goes_to, hto]
      rw [hpc', hvdisp] at hphase'
      have hd : executions .dispatch h + 1 = 1 := hphase'.1
      have hnone := List.countP_eq_zero.mp (Nat.succ.inj hd) u hu
      exact hnone (by simp [hudisp])

/-! ## The bounds of a run -/

/-- **Termination and attempt budget.**  However the model, the tools and
    the commands answer, and on either client, a fresh run stays within its
    budget at every point, and unless a node raised it has reached `END`
    after fifteen node executions, by way of exactly one `advance`. -/
theorem fresh_run_within_budget (env : Env W) (s : AgentState) (w : W) (hs : Fresh s)
    (hrun : s.run_status = none) (n : Nat) :
    WithinBudget (ainvoke env n s w).1 ∧
      (15 ≤ n → (∀ e, (ainvoke env n s w).2.pc ≠ .raised e) →
        (ainvoke env n s w).2.pc = .END ∧ executions .advance (ainvoke env n s w).1 = 1) := by
  have hspent : Spent (ainvoke env n s w).1 (ainvoke env n s w).2 := ainvoke_spent hs w n
  have hrun' : s.run_status ≠ some .HALTED_ESCALATION_BUDGET := by rw [hrun]; nofun
  have ⟨hphase, honce⟩ : Phase (ainvoke env n s w).2.pc _ _ _ _ ∧ DispatchesOnce _ :=
    ainvoke_phase hs hrun' w n
  obtain ⟨he, ha⟩ := hphase.le_one
  constructor
  · refine ⟨ainvoke_length hs w n, hspent.attempts, ?_, he, ha, honce⟩
    have hllm := hspent.llm
    have hatt := hspent.attempts
    unfold MAX_TOOL_CALLS MAX_STRIKES at *
    omega
  · intro hn hnr
    have hhalt : (graph env).Halted (ainvoke env n s w).2 := by
      have h15 : (graph env).Halted (ainvoke env 15 s w).2 := ainvoke_halted hs w
      have hsame := (graph env).run_of_halted h15 hn
      unfold ainvoke at *
      rw [hsame]
      exact h15
    rcases graph_halted_iff.mp hhalt with hend | ⟨e, hr⟩
    · rw [hend] at hphase
      exact ⟨hend, hphase.2⟩
    · exact absurd hr (hnr e)

end runs

section small
attribute [local instance] Unicode.ascii

/-- The bound is met: in mock mode no commit ever moves `HEAD`, and a ticket
    that declares files takes all fifteen. -/
theorem fresh_run_within_budget_mock :
    (ainvoke (small_env .MockRuntimeClient) 15
      { active_ticket := some (small_ticket ["a.py"]) } false).1.length = 15 ∧
    (ainvoke (small_env .MockRuntimeClient) 15
      { active_ticket := some (small_ticket ["a.py"]) } false).2.pc = .END :=
  ⟨by decide +kernel, ((fresh_run_within_budget (small_env .MockRuntimeClient)
    { active_ticket := some (small_ticket ["a.py"]) } false ⟨rfl, rfl, rfl⟩ rfl 15).2
      (Nat.le_refl 15) (by
        have hend : (ainvoke (small_env .MockRuntimeClient) 15
            { active_ticket := some (small_ticket ["a.py"]) } false).2.pc = .END := by
          decide +kernel
        rw [hend]
        nofun)).1⟩

end small

end Syndicate
