import Syndicate.Spec.Graph

/-! # Sessions: one invocation after the other

    The graph runs one ticket.  A caller with more of them invokes it again
    on the state the invocation before left, after setting the new ticket
    up.  `Session` is any such sequence, each invocation taken as far as one
    likes.  The escalation budget belongs to the session: what is counted
    and what is halted stays so over all of it (`session_run_wide`). -/

namespace Syndicate

open Py Framework

variable {W : Type}

section sessions
variable [Unicode]

/-- A session that started on state `s₀`: the visits made so far, where the
    invocation under way stands, and its state.  `caller pc s s'`: from an
    invocation that stands at `pc` with state `s`, the caller may go on to
    invoke the graph on `s'`. -/
inductive Session (max_escalations : Int) (caller : Pc → AgentState → AgentState → Prop)
    (s₀ : AgentState) : List (Visit W) → Pc → AgentState → Prop where
  | start : Session max_escalations caller s₀ [] .END s₀
  /-- The next invocation, after `n` node executions.  Its environment may
      answer as it likes. -/
  | invoke {h : List (Visit W)} {pc : Pc} {s s' : AgentState} {env : Env W}
      (hsession : Session max_escalations caller s₀ h pc s) (hset : caller pc s s')
      (hmax : env.MAX_ESCALATIONS = max_escalations) (w : W) (n : Nat) :
      Session max_escalations caller s₀ (h ++ (ainvoke env n s' w).1)
        (ainvoke env n s' w).2.pc (ainvoke env n s' w).2.state

/-- **Invariance over a session**: what holds at the start, what the caller
    keeps and what every node execution keeps holds throughout. -/
theorem session_invariant {max_escalations : Int} {caller : Pc → AgentState → AgentState → Prop}
    {s₀ : AgentState} {P : List (Visit W) → Pc → AgentState → Prop} (hinit : P [] .END s₀)
    (hcaller : ∀ h pc s s', P h pc s → caller pc s s' → P h (.at .analyzer) s')
    (hstep : ∀ (env : Env W) h c v c', env.MAX_ESCALATIONS = max_escalations → P h c.pc c.state →
      (graph env).step c = some (v, c') → P (h ++ [v]) c'.pc c'.state)
    {h : List (Visit W)} {pc : Pc} {s : AgentState}
    (hsession : Session max_escalations caller s₀ h pc s) : P h pc s := by
  induction hsession with
  | start => exact hinit
  | @invoke h pc s s' env _ hset hmax w n ih =>
    apply (graph env).run_invariant (P := fun h' c => P (h ++ h') c.pc c.state)
    · rw [List.append_nil]
      exact hcaller h pc s s' ih hset
    · intro h' c v c' hP hst
      rw [← List.append_assoc]
      exact hstep env _ c v c' hmax hP hst

end sessions

/-! ## The run-wide budget -/

/-- The caller keeps what belongs to the session: `escalation_count` and
    `run_status`.  Everything else is the caller's to set. -/
structure KeepsBudget (s s' : AgentState) : Prop where
  escalation_count : s'.escalation_count = s.escalation_count
  run_status : s'.run_status = s.run_status

/-- The nodes that work on a ticket. -/
def Node.works : Node → Bool
  | .executor | .validator | .oversight_git | .escalate => true
  | .analyzer | .architect | .dispatch | .advance => false

/-- The state's account of the escalations `h` made. -/
structure Budget (max_escalations : Int) (h : List (Visit W)) (s : AgentState) : Prop where
  count : s.escalations = executions .escalate h
  halted : s.run_status = some .HALTED_ESCALATION_BUDGET ↔
    max_escalations < executions .escalate h

/-- What a visit behind `pre` finds: the account is right, and once the
    budget is exceeded no node works on a ticket. -/
structure Visit.WithinRun (max_escalations : Int) (pre : List (Visit W)) (v : Visit W) : Prop where
  budget : Budget max_escalations pre v.before
  halts : max_escalations < executions .escalate pre → v.node.works = false

/-- A session that stands at `pc`: halted, it is at none of the nodes that
    work. -/
structure RunWide (max_escalations : Int) (h : List (Visit W)) (pc : Pc) (s : AgentState) : Prop where
  budget : Budget max_escalations h s
  halted : max_escalations < executions .escalate h → ∀ n, pc = .at n → n.works = false
  visits : Past (Visit.WithinRun max_escalations) h

/-- A node that works is entered from one that works, or from `dispatch`. -/
theorem works_next {n m : Node} {s : AgentState} (h : next n s = .at m) (hm : m.works = true) :
    n.works = true ∨ n = .dispatch := by
  cases n with
  | dispatch => exact Or.inr rfl
  | executor | validator | oversight_git | escalate => exact Or.inl rfl
  | analyzer | architect | advance =>
    simp only [next, Pc.at.injEq] at h
    subst h
    cases hm

/-- A halted run leaves `dispatch` for `END`. -/
theorem dispatch_halted {s : AgentState} (h : s.run_status = some .HALTED_ESCALATION_BUDGET) :
    dispatch_router s = .END := by
  unfold dispatch_router
  rw [if_pos h]

section runs
variable [Unicode]

/-- Only `escalate` writes the budget. -/
theorem Does.keeps_budget {env : Env W} {s δ : AgentState} {n : Node} {es : List (Event W)}
    (h : Does env s n es (.ok δ)) (hn : n ≠ .escalate) :
    δ.escalation_count = none ∧ δ.run_status = none := by
  cases h with
  | executor_real _ _ _ hend => exact ⟨hend.confined.escalation_count, hend.confined.run_status⟩
  | oversight_git _ _ _ hpass =>
    exact ⟨hpass.confined.escalation_count, hpass.confined.run_status⟩
  | escalate => exact absurd rfl hn
  | _ => exact ⟨rfl, rfl⟩

/-- `escalate` never raises. -/
theorem Visit.Executed.escalated {env : Env W} {v : Visit W} (h : v.Executed env)
    (hn : v.node = .escalate) : v.result = .ok (escalate_node env.MAX_ESCALATIONS v.before) := by
  obtain ⟨w, -, hr⟩ := h
  rw [hr, hn]
  rfl

omit [Unicode] in
/-- `escalate` adds one to the account, and halts the run when it is
    exceeded. -/
theorem budget_escalate {max_escalations : Int} {h : List (Visit W)} {v : Visit W}
    {s : AgentState} (hb : Budget max_escalations h s) (hnode : v.node = .escalate)
    (hbelow : ¬max_escalations < executions .escalate h) :
    Budget max_escalations (h ++ [v]) (s.update (escalate_node max_escalations s)) := by
  have hcount : (executions .escalate (h ++ [v]) : Int) = executions .escalate h + 1 := by
    simp [hnode]
  have hnot : s.run_status ≠ some .HALTED_ESCALATION_BUDGET := by
    rw [ne_eq, hb.halted]
    exact hbelow
  constructor
  · rw [hcount, AgentState.update_escalations, ← hb.count]
    rfl
  · rw [hcount, AgentState.update_run_status, escalate_node, hb.count]
    by_cases hgt : (executions .escalate h : Int) + 1 > max_escalations
    · simp [hgt]
    · simp [hgt, hnot]

/-- One node execution keeps the account. -/
theorem run_wide_step {env : Env W} {c c' : Config W} {v : Visit W} {h : List (Visit W)}
    (hP : RunWide env.MAX_ESCALATIONS h c.pc c.state) (hst : Stepped env c v c')
    (hex : v.Executed env) : RunWide env.MAX_ESCALATIONS (h ++ [v]) c'.pc c'.state := by
  obtain ⟨hbudget, hhalted, hvisits⟩ := hP
  rw [← hst.before] at hbudget
  have hgate : env.MAX_ESCALATIONS < executions .escalate h → v.node.works = false :=
    fun hover => hhalted hover v.node hst.pc
  have hvisits' := hvisits.snoc (l := v) ⟨hbudget, hgate⟩
  by_cases hesc : v.node = .escalate
  · -- the escalation is entered below the budget, and leads to `advance`
    have hbelow : ¬env.MAX_ESCALATIONS < executions .escalate h := by
      intro hover
      have hworks := hgate hover
      rw [hesc] at hworks
      cases hworks
    obtain ⟨hs, hp⟩ := hst.ok _ (hex.escalated hesc)
    rw [hs, hp, ← hst.before]
    refine ⟨budget_escalate hbudget hesc hbelow, ?_, hvisits'⟩
    intro _ m hm
    rw [hesc] at hm
    cases hm
    rfl
  have hcount : executions .escalate (h ++ [v]) = executions .escalate h := by
    simp [hesc]
  cases hr : v.result with
  | error e =>
    obtain ⟨hs, hp⟩ := hst.error e hr
    rw [hs, hp, ← hst.before]
    refine ⟨⟨by rw [hcount]; exact hbudget.count, by rw [hcount]; exact hbudget.halted⟩, ?_,
      hvisits'⟩
    intro _ m hm
    cases hm
  | ok δ =>
    obtain ⟨hs, hp⟩ := hst.ok δ hr
    have hdoes := hst.does
    rw [hr, ← hst.before] at hdoes
    obtain ⟨hec, hrs⟩ := hdoes.keeps_budget hesc
    have hsame : (v.before.update δ).run_status = v.before.run_status := by
      rw [AgentState.update_run_status, hrs, Option.none_or]
    rw [hs, hp, ← hst.before]
    refine ⟨⟨?_, ?_⟩, ?_, hvisits'⟩
    · rw [hcount, AgentState.update_escalations, hec]
      exact hbudget.count
    · rw [hcount, hsame]
      exact hbudget.halted
    · rw [hcount]
      intro hover m hm
      rw [← Bool.not_eq_true]
      intro hworks
      -- a node that works would be entered from one that works, or past the gate
      rcases works_next hm hworks with hn | hn
      · rw [hgate hover] at hn
        cases hn
      · have hend : dispatch_router (v.before.update δ) = .END :=
          dispatch_halted (hsame.trans (hbudget.halted.mpr hover))
        rw [hn, next, hend] at hm
        cases hm

/-! ## The session -/

theorem session_run_wide {max_escalations : Int} (hmax : 0 ≤ max_escalations) {s₀ : AgentState}
    (hcount : s₀.escalation_count = none) (hrun : s₀.run_status = none)
    {h : List (Visit W)} {pc : Pc} {s : AgentState}
    (hsession : Session max_escalations (fun _ => KeepsBudget) s₀ h pc s) :
    RunWide max_escalations h pc s := by
  apply session_invariant _ _ _ hsession
  · refine ⟨⟨?_, ?_⟩, ?_, past_nil⟩
    · unfold AgentState.escalations
      rw [hcount]
      rfl
    · rw [hrun]
      constructor
      · intro h
        cases h
      · intro h
        exact absurd h (Int.not_lt.mpr hmax)
    · intro _ n hn
      cases hn
  · intro h pc s s' hP hset
    refine ⟨⟨?_, ?_⟩, ?_, hP.visits⟩
    · unfold AgentState.escalations
      rw [hset.escalation_count]
      exact hP.budget.count
    · rw [hset.run_status]
      exact hP.budget.halted
    · intro _ n hn
      cases hn
      rfl
  · intro env h c v c' henv hP hst
    rw [← henv] at hP ⊢
    exact run_wide_step hP (graph_stepped hst) (graph_executed hst)

/-- **The run-wide halt.**  Whatever the caller does to the tickets of a
    session, and whatever the model, the tools and the commands answer:
    `escalation_count` is the number of executions of `escalate` so far and
    never decreases, `run_status` is `HALTED_ESCALATION_BUDGET` exactly from
    the one on that exceeds the budget, and behind that one no node works on
    a ticket again. -/
theorem run_wide_halt (max_escalations : Int) (hmax : 0 ≤ max_escalations) (s₀ : AgentState)
    (hcount : s₀.escalation_count = none) (hrun : s₀.run_status = none)
    (h : List (Visit W)) (pc : Pc) (s : AgentState)
    (hsession : Session max_escalations (fun _ => KeepsBudget) s₀ h pc s) :
    Budget max_escalations h s ∧ Past (Visit.WithinRun max_escalations) h ∧
      (h.Pairwise fun u v => u.before.escalations ≤ v.before.escalations) ∧
      ∀ v ∈ h, v.before.escalations ≤ s.escalations := by
  have hwide := session_run_wide hmax hcount hrun hsession
  refine ⟨hwide.budget, hwide.visits, ?_, ?_⟩
  · apply hwide.visits.pairwise
    intro pre u mid v hu hv
    rw [hu.budget.count, hv.budget.count, executions_append]
    omega
  · intro v hv
    obtain ⟨pre, post, rfl⟩ := List.append_of_mem hv
    rw [(hwide.visits pre v post rfl).budget.count, hwide.budget.count, executions_append]
    omega

end runs

section small
attribute [local instance] Unicode.ascii

/-- One escalation is allowed, and no verification passes. -/
def one_allowed : Env Bool := { unverifiable with MAX_ESCALATIONS := 1 }

/-- The caller hands the next ticket in with its own fields cleared. -/
def handed_in (s : AgentState) : AgentState :=
  { s with ticket_status := none, strike_count := none }

/-- Three tickets, one behind the other. -/
def first_ticket : AgentState := { active_ticket := some (small_ticket []) }

def second_ticket : AgentState := handed_in (ainvoke one_allowed 15 first_ticket false).2.state

def third_ticket : AgentState := handed_in (ainvoke one_allowed 15 second_ticket false).2.state

/-- The second of the tickets that are given up halts the session, and the
    third is not worked on. -/
theorem run_wide_halt_second :
    (ainvoke one_allowed 15 second_ticket false).2.state.run_status =
        some .HALTED_ESCALATION_BUDGET ∧
      ∀ v ∈ (ainvoke one_allowed 15 third_ticket false).1, v.node.works = false := by
  have hset : ∀ s, KeepsBudget s (handed_in s) := by
    intro s
    constructor <;> rw [handed_in]
  have hfirst := @Session.invoke Bool _ 1 (fun _ => KeepsBudget) first_ticket [] .END first_ticket
    first_ticket one_allowed .start ⟨rfl, rfl⟩ rfl false 15
  have hsecond := @Session.invoke Bool _ 1 (fun _ => KeepsBudget) first_ticket _ _ _ second_ticket
    one_allowed hfirst (hset _) rfl false 15
  have hthird := @Session.invoke Bool _ 1 (fun _ => KeepsBudget) first_ticket _ _ _ third_ticket
    one_allowed hsecond (hset _) rfl false 15
  have htwo : (1 : Int) < executions .escalate
      (([] ++ (ainvoke one_allowed 15 first_ticket false).1) ++
        (ainvoke one_allowed 15 second_ticket false).1) := by
    decide +kernel
  have hhalt := run_wide_halt 1 (by decide) first_ticket (by rw [first_ticket])
    (by rw [first_ticket]) _ _ _ hsecond
  have hafter := run_wide_halt 1 (by decide) first_ticket (by rw [first_ticket])
    (by rw [first_ticket]) _ _ _ hthird
  refine ⟨hhalt.1.halted.mpr htwo, ?_⟩
  intro v hv
  obtain ⟨pre, post, hsplit⟩ := List.append_of_mem hv
  have hpre := hafter.2.1 (_ ++ pre) v post (by rw [hsplit, ← List.append_assoc])
  refine hpre.halts ?_
  rw [executions_append]
  omega

end small

end Syndicate
