import Syndicate.Session
import Syndicate.Audit

/-! # One ticket after the other

    A run leaves its verdict, its status and its strikes in the state; only
    the log is emptied.  There is no next-ticket dispatch in the graph:
    who hands the next ticket in clears what belonged to the last one
    (`AgentState.hand_in`).  Then the ledger and the run-wide budget are all
    that is left of it, and no node but `escalate`, `advance` and the gate
    behind `dispatch` reads those: the run goes as on a fresh state. -/

namespace Syndicate

open Py Framework

variable {W : Type}

/-! ## Handing in a ticket -/

/-- The state with the next ticket: the fields of the last one are cleared,
    what belongs to the run is kept. -/
def AgentState.hand_in (s : AgentState) (ticket : Dict) : AgentState where
  active_ticket := some ticket
  attempt_log := s.attempt_log
  decision_ledger := s.decision_ledger
  escalation_count := s.escalation_count
  run_status := s.run_status

/-- Two states that differ in the ledger and the run-wide budget at most. -/
structure Alike (s s' : AgentState) : Prop where
  issue : s.issue = s'.issue
  issue_analysis : s.issue_analysis = s'.issue_analysis
  active_ticket : s.active_ticket = s'.active_ticket
  log : s.log = s'.log
  ticket_status : s.ticket_status = s'.ticket_status
  last_validation_passed : s.last_validation_passed = s'.last_validation_passed
  strike_count : s.strike_count = s'.strike_count
  validation_diagnosis : s.validation_diagnosis = s'.validation_diagnosis

/-- Neither run is halted, or the ticket is given up: the gate behind
    `dispatch` answers both alike. -/
def SameGate (s s' : AgentState) : Prop :=
  (s.run_status ≠ some .HALTED_ESCALATION_BUDGET ∧
    s'.run_status ≠ some .HALTED_ESCALATION_BUDGET) ∨ s.ticket_status = some .ESCALATED

section fields
variable {s s' : AgentState} (h : Alike s s')
include h

theorem Alike.ticket : s.ticket = s'.ticket := by
  rw [AgentState.ticket, h.active_ticket, AgentState.ticket]

theorem Alike.strikes : s.strikes = s'.strikes := by
  rw [AgentState.strikes, h.strike_count, AgentState.strikes]

theorem Alike.diagnosis : s.diagnosis = s'.diagnosis := by
  rw [AgentState.diagnosis, h.validation_diagnosis, AgentState.diagnosis]

theorem Alike.passed : s.passed = s'.passed := by
  rw [AgentState.passed, h.last_validation_passed, AgentState.passed]

/-- Updates that agree on what `Alike` compares keep it. -/
theorem Alike.update {δ δ' : AgentState} (hδ : Alike δ δ') (hlog : δ.attempt_log = δ'.attempt_log) :
    Alike (s.update δ) (s'.update δ') where
  issue := by simp only [AgentState.update, h.issue, hδ.issue]
  issue_analysis := by simp only [AgentState.update, h.issue_analysis, hδ.issue_analysis]
  active_ticket := by simp only [AgentState.update, h.active_ticket, hδ.active_ticket]
  log := by rw [AgentState.update_log, AgentState.update_log, hlog, h.log]
  ticket_status := by simp only [AgentState.update, h.ticket_status, hδ.ticket_status]
  last_validation_passed := by
    simp only [AgentState.update, h.last_validation_passed, hδ.last_validation_passed]
  strike_count := by simp only [AgentState.update, h.strike_count, hδ.strike_count]
  validation_diagnosis := by
    simp only [AgentState.update, h.validation_diagnosis, hδ.validation_diagnosis]

end fields

theorem Alike.refl (s : AgentState) : Alike s s := ⟨rfl, rfl, rfl, rfl, rfl, rfl, rfl, rfl⟩

/-- The routers but the one behind `dispatch` read nothing else. -/
theorem next_alike {s s' : AgentState} (h : Alike s s') {n : Node} (hn : n ≠ .dispatch) :
    next n s = next n s' := by
  cases n with
  | dispatch => exact absurd rfl hn
  | validator => simp only [next, validator_router, h.passed, h.strikes]
  | oversight_git =>
    simp only [next, oversight_git_router, h.ticket_status, h.ticket, h.strikes]
  | _ => rfl

/-- Behind `dispatch` both runs go the same way. -/
theorem dispatch_alike {s s' : AgentState} (h : Alike s s') (hgate : SameGate s s') :
    dispatch_router s = dispatch_router s' := by
  unfold dispatch_router
  rw [h.ticket_status, h.passed]
  rcases hgate with ⟨hs, hs'⟩ | hescalated
  · rw [if_neg hs, if_neg hs']
  · rw [h.ticket_status] at hescalated
    simp [hescalated]

section runs
variable [Unicode]

/-- A node but `escalate` and `advance` does the same in both states. -/
theorem node_program_alike (env : Env W) {s s' : AgentState} (h : Alike s s') {n : Node}
    (hesc : n ≠ .escalate) (hadv : n ≠ .advance) :
    node_program env n s = node_program env n s' := by
  cases n with
  | analyzer =>
    simp only [node_program, analyzer_node, h.issue, h.ticket]
  | architect =>
    simp only [node_program, architect_node, h.issue, h.issue_analysis]
  | dispatch => rfl
  | executor =>
    simp only [node_program, executor_node, h.ticket, h.strikes, h.log, h.diagnosis]
  | validator =>
    simp only [node_program, validator_node, h.ticket, h.strikes]
  | oversight_git =>
    simp only [node_program, oversight_git_node, git_commit_pass, git_strike, h.ticket, h.strikes,
      h.log]
  | escalate => exact absurd rfl hesc
  | advance => exact absurd rfl hadv

/-! ## Two runs in lockstep -/

/-- Two runs that stand at the same node, in the same world, in states that
    are alike. -/
structure Abreast (c c' : Config W) : Prop where
  pc : c.pc = c'.pc
  world : c.world = c'.world
  alike : Alike c.state c'.state
  gate : SameGate c.state c'.state
  /-- While a node works on the ticket, neither run is halted. -/
  running : ∀ n, c.pc = .at n → n.works = true →
    c.state.run_status ≠ some .HALTED_ESCALATION_BUDGET ∧
      c'.state.run_status ≠ some .HALTED_ESCALATION_BUDGET

/-- Two visits of the same node that made the same calls. -/
def SameVisit (u v : Visit W) : Prop := u.node = v.node ∧ u.events = v.events

/-- A node that does not work on the ticket leaves its status. -/
theorem Does.keeps_status {env : Env W} {s δ : AgentState} {n : Node} {es : List (Event W)}
    (h : Does env s n es (.ok δ)) (hn : n.works = false) : δ.ticket_status = none := by
  cases h with
  | executor_mock | executor_real | oversight_git | escalate => cases hn
  | _ => rfl

omit [Unicode] in
/-- Behind a node that updated both states, the runs stand abreast. -/
theorem abreast_update {n : Node} {s s' δ δ' : AgentState} {w : W} (hs : Alike s s')
    (hδ : Alike δ δ') (hlog : δ.attempt_log = δ'.attempt_log)
    (hgate : SameGate (s.update δ) (s'.update δ'))
    (hrunning : n.works = true → n ≠ .escalate →
      (s.update δ).run_status ≠ some .HALTED_ESCALATION_BUDGET ∧
        (s'.update δ').run_status ≠ some .HALTED_ESCALATION_BUDGET) :
    Abreast (W := W) ⟨next n (s.update δ), s.update δ, w⟩ ⟨next n (s'.update δ'), s'.update δ', w⟩ := by
  have halike : Alike (s.update δ) (s'.update δ') := hs.update hδ hlog
  have hnext : next n (s.update δ) = next n (s'.update δ') := by
    by_cases hn : n = .dispatch
    · subst hn
      exact dispatch_alike halike hgate
    · exact next_alike halike hn
  refine ⟨hnext, rfl, halike, hgate, ?_⟩
  intro m hm hworks
  rcases works_next hm hworks with hn | hn
  · apply hrunning hn
    rintro rfl
    cases hm
    cases hworks
  · -- `dispatch` led on: neither run is halted
    subst hn
    constructor
    · intro hhalted
      rw [next, dispatch_halted hhalted] at hm
      cases hm
    · intro hhalted
      rw [hnext, next, dispatch_halted hhalted] at hm
      cases hm

theorem abreast_step (env : Env W) (c c' : Config W) (h : Abreast c c') :
    ((graph env).step c = none ∧ (graph env).step c' = none) ∨
    ∃ u d v d', (graph env).step c = some (u, d) ∧ (graph env).step c' = some (v, d') ∧
      SameVisit u v ∧ Abreast d d' := by
  obtain ⟨pc, s, w⟩ := c
  obtain ⟨pc', s', w'⟩ := c'
  obtain ⟨hpc, hw, hs, hgate, hrunning⟩ := h
  simp only at hpc hw hs hgate hrunning
  subst hpc hw
  rcases pc with n | _ | e
  · right
    refine ⟨(execute env n ⟨.at n, s, w⟩).1, (execute env n ⟨.at n, s, w⟩).2,
      (execute env n ⟨.at n, s', w⟩).1, (execute env n ⟨.at n, s', w⟩).2, rfl, rfl, ?_⟩
    by_cases hesc : n = .escalate
    · subst hesc
      have hδ : Alike (escalate_node env.MAX_ESCALATIONS s) (escalate_node env.MAX_ESCALATIONS s') :=
        ⟨rfl, rfl, rfl, rfl, rfl, rfl, rfl, rfl⟩
      refine ⟨⟨rfl, rfl⟩, abreast_update hs hδ rfl (Or.inr rfl) ?_⟩
      intro _ hne
      exact absurd rfl hne
    by_cases hadv : n = .advance
    · subst hadv
      have hδ : Alike (advance_node s) (advance_node s') :=
        ⟨rfl, rfl, rfl, rfl, rfl, rfl, rfl, rfl⟩
      refine ⟨⟨rfl, rfl⟩, abreast_update hs hδ rfl hgate ?_⟩
      intro hworks
      cases hworks
    -- any other node is the same program in both states
    have hprog := node_program_alike env hs hesc hadv
    have hdoes := node_does env n s w
    simp only [execute, ← hprog]
    refine ⟨⟨rfl, rfl⟩, ?_⟩
    cases hr : (node_program env n s w).val with
    | error e =>
      refine ⟨rfl, rfl, hs, hgate, ?_⟩
      intro m hm
      cases hm
    | ok δ =>
      rw [hr] at hdoes
      have hrun : δ.run_status = none := (hdoes.keeps_budget hesc).2
      have hgo : (s.update δ).run_status = s.run_status ∧ (s'.update δ).run_status = s'.run_status := by
        simp [hrun]
      apply abreast_update hs (Alike.refl δ) rfl
      · unfold SameGate
        rw [hgo.1, hgo.2]
        by_cases hworks : n.works = true
        · exact Or.inl (hrunning n rfl hworks)
        · have hkeeps := hdoes.keeps_status (by simpa using hworks)
          rw [AgentState.update_ticket_status, hkeeps, Option.none_or]
          exact hgate
      · intro hworks _
        rw [hgo.1, hgo.2]
        exact hrunning n rfl hworks
  · exact Or.inl ⟨rfl, rfl⟩
  · exact Or.inl ⟨rfl, rfl⟩

/-! ## The log of a run that is over -/

/-- Before the first attempt and behind `advance` the log is empty. -/
theorem ainvoke_log_empty {env : Env W} {s : AgentState} (hlog : s.log = []) (w : W) (n : Nat) :
    (ainvoke env n s w).2.pc.idle → (ainvoke env n s w).2.state.log = [] := by
  apply ainvoke_invariant (P := fun _ c => c.pc.idle → c.state.log = [])
  · intro _
    exact hlog
  · intro h c v c' hP hst hidle
    cases hr : v.result with
    | error e =>
      rw [(hst.error e hr).2] at hidle
      exact hidle.elim
    | ok δ =>
      obtain ⟨hs, hp⟩ := hst.ok δ hr
      have hdoes := hst.does
      rw [hr] at hdoes
      rw [hs]
      rw [hp] at hidle
      rcases idle_next hidle with hadv | ⟨hbefore, hexec, hgit⟩
      · rw [hadv] at hdoes
        rw [hdoes.advance_eq]
        rfl
      · by_cases hadv : v.node = .advance
        · rw [hadv] at hbefore
          exact hbefore.elim
        · have hsilent : δ.attempt_log = none := by
            rcases hdoes.attempt_log hadv with hl | ⟨hn | hn, -⟩
            · exact hl
            · exact absurd hn hexec
            · exact absurd hn hgit
          rw [AgentState.update_log, hsilent]
          exact hP (by rw [hst.pc]; exact hbefore)

/-! ## Isolation -/

/-- **Ticket isolation.**  Take any run that started with an empty log and
    ended, not halted, and hand the next ticket in.  Then the graph visits
    the nodes it would visit on a fresh state with that ticket, with the
    same calls and attempts, stands where it would stand, and has the status
    and the strike count it would have: nothing of the last ticket is left
    but the ledger and the run-wide budget. -/
theorem tickets_isolated (env₀ : Env W) (s₀ : AgentState) (w₀ : W) (m : Nat) (hlog : s₀.log = [])
    (hend : (ainvoke env₀ m s₀ w₀).2.pc = .END)
    (hrun : (ainvoke env₀ m s₀ w₀).2.state.run_status ≠ some .HALTED_ESCALATION_BUDGET)
    (ticket : Dict) (env : Env W) (w : W) (n : Nat) :
    let next := ainvoke env n ((ainvoke env₀ m s₀ w₀).2.state.hand_in ticket) w
    let fresh := ainvoke env n { active_ticket := some ticket } w
    List.Forall₂ SameVisit next.1 fresh.1 ∧ next.2.pc = fresh.2.pc ∧
      next.2.state.ticket_status = fresh.2.state.ticket_status ∧
      next.2.state.strike_count = fresh.2.state.strike_count := by
  intro next fresh
  have hempty : (ainvoke env₀ m s₀ w₀).2.state.log = [] :=
    ainvoke_log_empty hlog w₀ m (by rw [hend]; trivial)
  have halike : Alike ((ainvoke env₀ m s₀ w₀).2.state.hand_in ticket)
      { active_ticket := some ticket } :=
    ⟨rfl, rfl, rfl, hempty, rfl, rfl, rfl, rfl⟩
  have hstart : Abreast (entry ((ainvoke env₀ m s₀ w₀).2.state.hand_in ticket) w)
      (entry { active_ticket := some ticket } w) := by
    refine ⟨rfl, rfl, halike, Or.inl ⟨hrun, by simp [entry]⟩, ?_⟩
    intro k hk hworks
    cases hk
    cases hworks
  obtain ⟨hvisits, habreast⟩ := (graph env).run_lockstep (abreast_step env) n hstart
  exact ⟨hvisits, habreast.pc, habreast.alike.ticket_status, habreast.alike.strike_count⟩

end runs

section small
attribute [local instance] Unicode.ascii

/-- The ticket after one that is done. -/
theorem tickets_isolated_healthy :
    List.Forall₂ SameVisit
      (ainvoke healthy 15 ((ainvoke healthy 15 { active_ticket := some (small_ticket []) }
        false).2.state.hand_in (small_ticket ["a.py"])) false).1
      (ainvoke healthy 15 { active_ticket := some (small_ticket ["a.py"]) } false).1 :=
  (tickets_isolated healthy { active_ticket := some (small_ticket []) } false 15 rfl
    (by decide +kernel) (by decide +kernel) (small_ticket ["a.py"]) healthy false 15).1

/-- Without that the verdict on the last ticket is taken for the next one:
    `dispatch` ends its run before an attempt is made. -/
theorem tickets_not_isolated :
    let last := (ainvoke healthy 15 { active_ticket := some (small_ticket []) } false).2
    last.pc = .END ∧ last.state.run_status ≠ some .HALTED_ESCALATION_BUDGET ∧
    (ainvoke healthy 15 { last.state with active_ticket := some (small_ticket ["a.py"]) }
        false).1.map (·.node) = [.analyzer, .architect, .dispatch] ∧
    (ainvoke healthy 15 { active_ticket := some (small_ticket ["a.py"]) } false).1.map (·.node) =
      [.analyzer, .architect, .dispatch, .executor, .validator, .oversight_git, .advance,
        .dispatch] := by
  decide +kernel

end small

end Syndicate
