import Syndicate.Audit

/-! # Distillation

    A ticket that runs to `END` leaves one more `DecisionSummary`, and it is
    the join of every line the executor and the git pass logged.  The log of
    a run is a tape: `executor` and `oversight_git` write at its end,
    `advance` cuts it once, and nothing writes behind the cut. -/

namespace Syndicate

open Py Framework

variable {W : Type}

/-- The lines that `executor_node` and `oversight_git_node` logged, in
    order. -/
def logged (h : List (Visit W)) : List PyStr :=
  (h.filter fun v => v.node = .executor ∨ v.node = .oversight_git).flatMap (·.lines_logged)

theorem logged_snoc (h : List (Visit W)) (v : Visit W) :
    logged (h ++ [v]) =
      logged h ++ if v.node = .executor ∨ v.node = .oversight_git then v.lines_logged else [] := by
  by_cases hv : v.node = .executor ∨ v.node = .oversight_git <;> simp [logged, hv]

/-- The nodes a run stands at behind its first executor visit and before
    `advance`. -/
def Pc.attempted : Pc → Prop
  | .at .validator | .at .oversight_git | .at .escalate | .at .advance => True
  | _ => False

/-- The tape of a run that started with ledger `L` and log `l`, when the run
    stands at `pc` and has logged `lines`: uncut before `advance`, then one
    summary of all of it. -/
structure Tape (L : List DecisionSummary) (l lines : List PyStr) (advances : Nat) (pc : Pc)
    (s : AgentState) : Prop where
  uncut : advances = 0 → s.ledger = L ∧ s.log = l ++ lines
  cut : advances = 1 →
    s.decision_ledger = some (L ++ [distil (l ++ lines)]) ∧ s.attempt_log = some []
  /-- Something is logged before the ticket is settled. -/
  nonempty : pc.attempted ∨ advances = 1 → lines ≠ []

theorem Pc.attempted_next {n : Node} {s : AgentState} (h : (next n s).attempted) :
    n = .executor ∨ (Pc.at n).attempted := by
  cases n with
  | executor => exact Or.inl rfl
  | validator => exact Or.inr trivial
  | oversight_git => exact Or.inr trivial
  | escalate => exact Or.inr trivial
  | dispatch =>
    rcases dispatch_router_cases s with hr | hr
    · simp only [next, hr] at h
      exact h.elim
    · simp only [next, hr] at h
      exact h.elim
  | _ => exact h.elim

section runs
variable [Unicode]

/-- The executor and the git pass log at the end of the log; an executor
    with a strike left logs something. -/
theorem Does.writes {env : Env W} {s δ : AgentState} {n : Node} {es : List (Event W)}
    (h : Does env s n es (.ok δ)) (hn : n = .executor ∨ n = .oversight_git) :
    ∃ lines, δ.attempt_log = some (s.log ++ lines) ∧
      (n = .executor → s.strikes < MAX_STRIKES → lines ≠ []) := by
  cases h with
  | executor_mock => exact ⟨DUMMY_ACTIONS.map dummy_line, rfl, by simp [DUMMY_ACTIONS]⟩
  | @executor_real _ _ as _ _ _ _ hend =>
    refine ⟨attempt_lines s.strikes as, hend.attempt_log, ?_⟩
    intro _ hleft
    have hpos : 0 < as.length := by
      rcases hend.ticket_status with ⟨-, hpos⟩ | ⟨-, hall⟩
      · exact hpos
      · omega
    cases as with
    | nil => exact absurd hpos (Nat.lt_irrefl 0)
    | cons a as => simp [attempt_lines]
  | oversight_git _ _ _ hpass =>
    obtain ⟨lines, hlines⟩ := hpass.attempt_log
    exact ⟨lines, hlines, by simp⟩
  | _ => simp at hn

/-- Nothing but `advance` writes the ledger. -/
theorem Does.decision_ledger {env : Env W} {s δ : AgentState} {n : Node} {es : List (Event W)}
    (h : Does env s n es (.ok δ)) (hn : n ≠ .advance) : δ.decision_ledger = none := by
  cases h with
  | executor_real _ _ _ hend => exact hend.confined.decision_ledger
  | oversight_git _ _ _ hpass => exact hpass.confined.decision_ledger
  | advance => exact absurd rfl hn
  | _ => rfl

omit [Unicode] in
/-- A visit in which nothing is logged or cut leaves the tape as it is. -/
theorem Tape.silent {L : List DecisionSummary} {l lines : List PyStr} {a : Nat} {pc pc' : Pc}
    {s s' : AgentState} (h : Tape L l lines a pc s) (hledger : s'.decision_ledger = s.decision_ledger)
    (hlog : s'.attempt_log = s.attempt_log) (hpc : pc'.attempted → pc.attempted) :
    Tape L l lines a pc' s' where
  uncut ha := by
    have hledger' : s'.ledger = s.ledger := by rw [AgentState.ledger, hledger, AgentState.ledger]
    have hlog' : s'.log = s.log := by rw [AgentState.log, hlog, AgentState.log]
    rw [hledger', hlog']
    exact h.uncut ha
  cut ha := by
    rw [hledger, hlog]
    exact h.cut ha
  nonempty hor := h.nonempty (hor.imp_left hpc)

/-- One node execution keeps the tape, if whoever writes or cuts it finds it
    uncut. -/
theorem tape_step {env : Env W} {c c' : Config W} {v : Visit W} {h : List (Visit W)}
    {δ : AgentState} {L : List DecisionSummary} {l : List PyStr} (hst : Stepped env c v c')
    (hr : v.result = .ok δ) (hc : Control env (.at v.node) v.before)
    (hcut : v.node = .executor ∨ v.node = .oversight_git ∨ v.node = .advance →
      executions .advance h = 0)
    (ht : Tape L l (logged h) (executions .advance h) c.pc c.state) :
    Tape L l (logged (h ++ [v])) (executions .advance (h ++ [v])) c'.pc c'.state := by
  obtain ⟨hs, hp⟩ := hst.ok δ hr
  have hdoes := hst.does
  rw [hr, ← hst.before] at hdoes
  rw [hst.pc, ← hst.before] at ht
  rw [logged_snoc, executions_append, executions_singleton, hs, hp, ← hst.before]
  by_cases hadv : v.node = .advance
  · -- the cut: the whole tape goes into one summary
    have hzero := hcut (Or.inr (Or.inr hadv))
    obtain ⟨hledger, hlog⟩ := ht.uncut hzero
    have hlines : logged h ≠ [] := ht.nonempty (Or.inl (by rw [hadv]; trivial))
    rw [hadv] at hdoes ⊢
    rw [hdoes.advance_eq]
    simp only [reduceCtorEq, or_self, if_false, if_true, List.append_nil, hzero]
    constructor
    · intro h1
      cases h1
    · intro _
      rw [← hlog, ← hledger]
      exact ⟨rfl, rfl⟩
    · intro _
      exact hlines
  rw [if_neg hadv, Nat.add_zero]
  -- no other node writes to the ledger
  have hledger : (v.before.update δ).decision_ledger = v.before.decision_ledger := by
    unfold AgentState.update
    rw [hdoes.decision_ledger hadv, Option.none_or]
  by_cases hwrites : v.node = .executor ∨ v.node = .oversight_git
  · have hzero : executions .advance h = 0 := hcut (hwrites.imp_right Or.inl)
    obtain ⟨hledger', hlog⟩ := ht.uncut hzero
    obtain ⟨lines, hlines, hsome⟩ := hdoes.writes hwrites
    have hown : v.lines_logged = lines := by
      rw [Visit.lines_logged_ok hr, hlines, Option.getD_some, List.drop_left]
    rw [if_pos hwrites, hown, hzero]
    constructor
    · intro _
      rw [AgentState.ledger, hledger, AgentState.update_log, hlines, Option.getD_some, hlog,
        List.append_assoc]
      exact ⟨hledger', rfl⟩
    · intro h1
      cases h1
    · intro _
      -- an executor logs an attempt, a git pass finds the one logged before it
      rcases hwrites with hexec | hgit
      · rw [hexec] at hc
        exact List.append_ne_nil_of_right_ne_nil _ (hsome hexec hc.2)
      · have hsofar : logged h ≠ [] := ht.nonempty (Or.inl (by rw [hgit]; trivial))
        exact List.append_ne_nil_of_left_ne_nil hsofar _
  · rw [if_neg hwrites, List.append_nil]
    -- the remaining nodes leave the log as it is
    have hsilent : δ.attempt_log = none := by
      rcases hdoes.attempt_log hadv with hl | ⟨hn, -⟩
      · exact hl
      · exact absurd hn hwrites
    apply ht.silent hledger
    · unfold AgentState.update
      rw [hsilent, Option.none_or]
    · intro hatt
      rcases Pc.attempted_next hatt with hn | hatt
      · exact absurd (Or.inl hn) hwrites
      · exact hatt

/-- The tape of a fresh run, as long as nothing raised. -/
theorem ainvoke_tape {env : Env W} {s : AgentState} (hs : Fresh s)
    (hrun : s.run_status ≠ some .HALTED_ESCALATION_BUDGET) (w : W) (n : Nat) :
    (∀ e, (ainvoke env n s w).2.pc ≠ .raised e) →
      Tape s.ledger s.log (logged (ainvoke env n s w).1)
        (executions .advance (ainvoke env n s w).1) (ainvoke env n s w).2.pc
        (ainvoke env n s w).2.state := by
  suffices hboth : Phase (ainvoke env n s w).2.pc (ainvoke env n s w).2.state
      (executions .dispatch (ainvoke env n s w).1) (executions .escalate (ainvoke env n s w).1)
      (executions .advance (ainvoke env n s w).1) ∧
      ((∀ e, (ainvoke env n s w).2.pc ≠ .raised e) →
        Tape s.ledger s.log (logged (ainvoke env n s w).1)
          (executions .advance (ainvoke env n s w).1) (ainvoke env n s w).2.pc
          (ainvoke env n s w).2.state) from hboth.2
  apply fresh_invariant hs (P := fun h c => Phase c.pc c.state (executions .dispatch h)
    (executions .escalate h) (executions .advance h) ∧ ((∀ e, c.pc ≠ .raised e) →
      Tape s.ledger s.log (logged h) (executions .advance h) c.pc c.state))
  · refine ⟨⟨hrun, rfl, rfl, rfl⟩, ?_⟩
    intro _
    constructor
    · intro _
      exact ⟨rfl, (List.append_nil s.log).symm⟩
    · intro h1
      cases h1
    · intro h
      rcases h with h | h
      · exact h.elim
      · cases h
  · intro h c v c' ⟨hphase, htape⟩ hst hc hmove
    have hphase' := phase_move hmove hc (by rw [hst.before, ← hst.pc]; exact hphase)
    refine ⟨by simpa [visited] using hphase', ?_⟩
    intro hnr
    obtain ⟨δ, hr⟩ : ∃ δ, v.result = .ok δ := by
      cases hr : v.result with
      | ok δ => exact ⟨δ, rfl⟩
      | error e => exact absurd (hst.error e hr).2 (hnr e)
    apply tape_step hst hr hc _ (htape (by rw [hst.pc]; simp))
    -- the phases: `advance` comes once, and no attempt comes behind it
    rw [hst.pc] at hphase
    intro hn
    rcases hn with hn | hn | hn <;> rw [hn] at hphase <;> exact hphase.2.2

/-- **Distillation.**  A fresh run with an empty log that reaches `END`, on
    either client and however its ticket ended, has added exactly one
    summary to its ledger: the join of every line the executor and the git
    pass logged, in order.  The log is empty again. -/
theorem run_distilled_once (env : Env W) (s : AgentState) (w : W) (n : Nat) (hs : Fresh s)
    (hrun : s.run_status = none) (hlog : s.log = [])
    (hend : (ainvoke env n s w).2.pc = .END) :
    ∃ d : DecisionSummary,
      (ainvoke env n s w).2.state.decision_ledger = some (s.ledger ++ [d]) ∧
      (ainvoke env n s w).2.state.attempt_log = some [] ∧
      d.summary = join (lit "; ") (logged (ainvoke env n s w).1) ∧
      d.attempt_count = (logged (ainvoke env n s w).1).length := by
  have hrun' : s.run_status ≠ some .HALTED_ESCALATION_BUDGET := by rw [hrun]; simp
  have htape := ainvoke_tape hs hrun' w n (by rw [hend]; simp)
  have hphase : Phase (ainvoke env n s w).2.pc _ _ _ _ := (ainvoke_phase hs hrun' w n).1
  rw [hend] at hphase
  have hone : executions .advance (ainvoke env n s w).1 = 1 := hphase.2
  obtain ⟨hledger, hcut⟩ := htape.cut hone
  have hlines := htape.nonempty (Or.inr hone)
  rw [hlog, List.nil_append] at hledger
  refine ⟨_, hledger, hcut, ?_, rfl⟩
  unfold distil
  rw [if_neg]
  simpa using hlines

end runs

section small
attribute [local instance] Unicode.ascii

/-- A ticket that is given up: its log goes into the summary all the same. -/
theorem run_distilled_once_escalated :
    ∃ d : DecisionSummary,
      (ainvoke unchecked 15 { active_ticket := some (small_ticket []) } false).2.state.decision_ledger
        = some [d] ∧
      (ainvoke unchecked 15 { active_ticket := some (small_ticket []) } false).2.state.attempt_log
        = some [] ∧
      d.summary = join (lit "; ")
        (logged (ainvoke unchecked 15 { active_ticket := some (small_ticket []) } false).1) ∧
      d.attempt_count =
        (logged (ainvoke unchecked 15 { active_ticket := some (small_ticket []) } false).1).length :=
  run_distilled_once unchecked { active_ticket := some (small_ticket []) } false 15
    ⟨rfl, rfl, rfl⟩ rfl rfl (by decide +kernel)

end small

end Syndicate
