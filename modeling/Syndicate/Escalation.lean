import Syndicate.Strikes

/-! # Escalation: is it final, is it counted?

    `ESCALATED` is written by two nodes.  `escalate_node` counts what it
    writes and nothing follows it but `advance`.  `executor_node` writes it
    when its strikes are used up, counts nothing, and is followed by the
    validator like any other execution: a verification that passes then
    hands the escalated ticket to the git pass.  Both properties fail there
    and only there (`escalation_final_iff`, `escalation_counted_iff`). -/

namespace Syndicate

open Py Framework

variable {W : Type}

/-! ## Finality -/

/-- The executor gave the ticket up. -/
def Visit.escalates (v : Visit W) : Prop :=
  v.node = .executor ∧ v.status_written = some .ESCALATED

/-- A git pass that issued its commit. -/
def Visit.commits (v : Visit W) : Prop := v.node = .oversight_git ∧ Syndicate.commits v.events = true

/-- A git pass that staged the files of an escalated ticket. -/
def Visit.stages_escalated (v : Visit W) : Prop :=
  v.node = .oversight_git ∧ v.before.ticket_status = some .ESCALATED ∧ staged v.events = true

instance (v : Visit W) : Decidable v.escalates := inferInstanceAs (Decidable (_ ∧ _))

instance (v : Visit W) : Decidable v.stages_escalated := inferInstanceAs (Decidable (_ ∧ _ ∧ _))

/-- Once the executor has given the ticket up nothing commits it, and a run
    that is over leaves it escalated. -/
structure EscalationFinal (h : List (Visit W)) (c : Config W) : Prop where
  no_commit : h.Pairwise fun v u => v.escalates → ¬u.commits
  status : c.pc = .END → (∃ v ∈ h, v.escalates) → c.state.ticket_status = some .ESCALATED

/-- Where a run can stand once the executor has given the ticket up. -/
def GivenUp (pc : Pc) (s : AgentState) : Prop :=
  match pc with
  | .at .analyzer | .at .architect | .at .executor => False
  | .at .escalate | .raised _ => True
  | _ => s.ticket_status = some .ESCALATED

/-! ## Counting -/

/-- A git pass that finds nothing to commit on an escalated ticket: from
    there the run goes past `escalate`. -/
def Visit.skips_escalate (v : Visit W) : Prop :=
  v.node = .oversight_git ∧ v.before.ticket_status = some .ESCALATED ∧
    declares_files v.before.ticket = false

instance (v : Visit W) : Decidable v.skips_escalate := inferInstanceAs (Decidable (_ ∧ _ ∧ _))

/-- The run-wide budget of a run that started in `s` and ended in `s'`: one
    escalation more if the ticket ended escalated, and the run halted if
    that was one too many. -/
structure EscalationCounted (env : Env W) (s s' : AgentState) : Prop where
  escalated : s'.ticket_status = some .ESCALATED → s'.escalations = s.escalations + 1
  otherwise : s'.ticket_status ≠ some .ESCALATED → s'.escalations = s.escalations
  halted : s'.run_status = some .HALTED_ESCALATION_BUDGET ↔
    s.run_status = some .HALTED_ESCALATION_BUDGET ∨
      (s'.ticket_status = some .ESCALATED ∧ s.escalations + 1 > env.MAX_ESCALATIONS)

/-- The run's budget is as it was. -/
def Uncounted (s s' : AgentState) : Prop :=
  s'.escalations = s.escalations ∧ s'.run_status = s.run_status

/-- How the ticket of a run was settled: counted by `escalate`, skipped past
    it, or not escalated. -/
inductive SettledBy (env : Env W) (s s' : AgentState) (h : List (Visit W)) : Prop where
  | escalate (hst : s'.ticket_status = some .ESCALATED)
      (hcount : s'.escalations = s.escalations + 1)
      (hrun : s'.run_status =
        if s.escalations + 1 > env.MAX_ESCALATIONS then some .HALTED_ESCALATION_BUDGET
        else s.run_status)
      (hskip : ∀ v ∈ h, ¬v.skips_escalate)
  | skipped (hst : s'.ticket_status = some .ESCALATED) (hsame : Uncounted s s')
      (hskip : ∃ v ∈ h, v.skips_escalate)
  | accepted (hst : s'.ticket_status ≠ some .ESCALATED) (hsame : Uncounted s s')
      (hskip : ∀ v ∈ h, ¬v.skips_escalate)

/-- What a run has counted when it stands at `pc`. -/
def Counts (env : Env W) (s : AgentState) (pc : Pc) (s' : AgentState) (h : List (Visit W)) : Prop :=
  match pc with
  | .at .dispatch | .END =>
    (Fresh s' ∧ Uncounted s s' ∧ ∀ v ∈ h, ¬v.skips_escalate) ∨ (Settled s' ∧ SettledBy env s s' h)
  | .at .advance => SettledBy env s s' h
  | .raised _ => True
  | _ => Uncounted s s' ∧ ∀ v ∈ h, ¬v.skips_escalate

theorem Uncounted.confined {s s' δ : AgentState} (h : Uncounted s s') (hδ : δ.Confined) :
    Uncounted s (s'.update δ) := by
  constructor
  · rw [AgentState.update_escalations, hδ.escalation_count]
    exact h.1
  · rw [AgentState.update_run_status, hδ.run_status]
    exact h.2

theorem no_skip_snoc {h : List (Visit W)} {v : Visit W} (hh : ∀ u ∈ h, ¬u.skips_escalate)
    (hv : ¬v.skips_escalate) : ∀ u ∈ h ++ [v], ¬u.skips_escalate := by
  intro u hu
  rcases List.mem_append.mp hu with hu | hu
  · exact hh u hu
  · rw [List.mem_singleton.mp hu]
    exact hv

/-- A settled ticket stays settled the same way over `advance` and
    `dispatch`. -/
theorem SettledBy.snoc {env : Env W} {s s' s'' : AgentState} {h : List (Visit W)} {v : Visit W}
    (hby : SettledBy env s s' h) (hv : ¬v.skips_escalate)
    (hst : s''.ticket_status = s'.ticket_status) (hcount : s''.escalations = s'.escalations)
    (hrun : s''.run_status = s'.run_status) : SettledBy env s s'' (h ++ [v]) := by
  cases hby with
  | escalate hst' hcount' hrun' hskip =>
    exact SettledBy.escalate (by rw [hst, hst']) (by rw [hcount, hcount']) (by rw [hrun, hrun'])
      (no_skip_snoc hskip hv)
  | skipped hst' hsame hskip =>
    obtain ⟨u, hu, hskip⟩ := hskip
    exact SettledBy.skipped (by rw [hst, hst']) ⟨by rw [hcount, hsame.1], by rw [hrun, hsame.2]⟩
      ⟨u, List.mem_append_left _ hu, hskip⟩
  | accepted hst' hsame hskip =>
    exact SettledBy.accepted (by rw [hst]; exact hst')
      ⟨by rw [hcount, hsame.1], by rw [hrun, hsame.2]⟩ (no_skip_snoc hskip hv)

section runs
variable [Unicode]

/-! ## Runs: finality -/

/-- A verified commit was staged. -/
theorem GitPass.staged {client : Client W} {s δ : AgentState} {cwd : PyVal}
    {setup es : List (Event W)} {git_log : List PyStr}
    (h : GitPass client s cwd setup git_log es δ) (hst : δ.ticket_status = some .DONE) :
    Syndicate.staged es = true := by
  cases h with
  | done _ _ _ _ hadd => simp [ran, head_stages_nothing, add_stages, hadd]
  | _ => cases hst

/-- Where the executor gives up, the run goes on to the validator. -/
theorem given_up_of_escalates {env : Env W} {v : Visit W} {s' : AgentState} {pc' : Pc}
    (h : Move env v.before v.node v.events v.result s' pc') (hesc : v.escalates) :
    GivenUp pc' s' := by
  obtain ⟨node, before, events, result⟩ := v
  obtain ⟨hn, hst⟩ := hesc
  simp only at hn h
  subst hn
  cases h with
  | raised => cases hst
  | executor_mock _ _ _ hδ =>
    subst hδ
    cases hst
  | @executor_real _ _ δ =>
    have hgave : δ.ticket_status = some .ESCALATED := hst
    show (before.update δ).ticket_status = some .ESCALATED
    rw [AgentState.update_ticket_status, hgave]
    rfl

/-- A ticket that was given up stays given up, unless a git pass stages it. -/
theorem given_up_persist {env : Env W} {v : Visit W} {s' : AgentState} {pc' : Pc}
    (h : Move env v.before v.node v.events v.result s' pc') (hc : Control env (.at v.node) v.before)
    (hstage : ¬v.stages_escalated) (hup : GivenUp (.at v.node) v.before) : GivenUp pc' s' := by
  obtain ⟨node, before, events, result⟩ := v
  simp only at h hc hup
  -- all strikes are used up behind an executor that gave up
  have hlast : Attempted env before → before.ticket_status = some .ESCALATED →
      before.strikes + 1 ≥ MAX_STRIKES := by
    intro hat hst
    rcases hat.status with hpass | ⟨-, h3⟩
    · rw [hst] at hpass
      cases hpass
    · omega
  cases h with
  | raised => trivial
  | analyzer => exact hup.elim
  | architect => exact hup.elim
  | dispatch_end => exact hup
  | dispatch_executor hrouter =>
    rw [Settled.dispatch_router (Or.inl hup)] at hrouter
    cases hrouter
  | executor_mock => exact hup.elim
  | executor_real => exact hup.elim
  | validator_mock _ hδ =>
    subst hδ
    exact hup
  | validator_pass _ _ hδ =>
    subst hδ
    exact hup
  | validator_fail =>
    rw [if_pos (hlast hc hup)]
    trivial
  | git_idle _ _ _ _ _ hstatus =>
    show (before.update _).ticket_status = some .ESCALATED
    rw [AgentState.update_ticket_status, hstatus]
    exact hup
  | git_done _ _ _ hpass _ hstatus => exact absurd ⟨rfl, hup, hpass.staged hstatus⟩ hstage
  | git_strike =>
    rw [if_pos (hlast hc.1 hup)]
    trivial
  | escalate hδ =>
    subst hδ
    rfl
  | advance hδ =>
    subst hδ
    exact hup

/-- An escalated ticket at the validator or the git pass was given up by the
    executor. -/
def EscalatedByExecutor (pc : Pc) (s : AgentState) (h : List (Visit W)) : Prop :=
  match pc with
  | .at .validator | .at .oversight_git =>
    s.ticket_status = some .ESCALATED → ∃ v ∈ h, v.escalates
  | _ => True

theorem escalated_by_executor_move {env : Env W} {v : Visit W} {s' : AgentState} {pc' : Pc}
    {h : List (Visit W)} (hmove : Move env v.before v.node v.events v.result s' pc')
    (hp : EscalatedByExecutor (.at v.node) v.before h) :
    EscalatedByExecutor pc' s' (h ++ [v]) := by
  -- a visit that gave up stays in the history
  have hmem : (∃ u ∈ h, u.escalates) → ∃ u ∈ h ++ [v], u.escalates := by
    intro hsome
    obtain ⟨u, hu, hesc⟩ := hsome
    exact ⟨u, List.mem_append_left _ hu, hesc⟩
  obtain ⟨node, before, events, result⟩ := v
  simp only at hmove hp
  cases hmove with
  | executor_mock _ _ _ hδ =>
    subst hδ
    intro hst
    cases hst
  | @executor_real _ _ δ _ _ _ hend =>
    intro hst
    refine ⟨_, List.mem_append_right _ List.mem_cons_self, rfl, ?_⟩
    rcases hend.ticket_status with ⟨hpass, -⟩ | ⟨hgave, -⟩
    · rw [AgentState.update_ticket_status, hpass] at hst
      cases hst
    · exact hgave
  | validator_mock _ hδ =>
    subst hδ
    exact fun hst => hmem (hp hst)
  | validator_pass _ _ hδ =>
    subst hδ
    exact fun hst => hmem (hp hst)
  | validator_fail => split <;> trivial
  | git_strike => split <;> trivial
  | _ => trivial

/-- Every git pass that commits after the executor gave up stages an
    escalated ticket; without such a pass the ticket stays given up. -/
theorem ainvoke_given_up {env : Env W} {s : AgentState} (hs : Fresh s) (w : W) (n : Nat)
    (hstage : ∀ v ∈ (ainvoke env n s w).1, ¬v.stages_escalated) :
    ((∃ v ∈ (ainvoke env n s w).1, v.escalates) →
      GivenUp (ainvoke env n s w).2.pc (ainvoke env n s w).2.state) ∧
    (ainvoke env n s w).1.Pairwise fun v u => v.escalates → ¬u.commits := by
  revert hstage
  apply fresh_invariant hs (P := fun h c => (∀ v ∈ h, ¬v.stages_escalated) →
    ((∃ v ∈ h, v.escalates) → GivenUp c.pc c.state) ∧
      h.Pairwise fun v u => v.escalates → ¬u.commits)
  · intro _
    refine ⟨?_, List.Pairwise.nil⟩
    intro ⟨v, hv, _⟩
    cases hv
  · intro h c v c' hP hst hc hmove hstage
    obtain ⟨hup, hpair⟩ := hP fun u hu => hstage u (List.mem_append_left _ hu)
    have hnow : ¬v.stages_escalated := hstage v (by simp)
    rw [hst.pc, ← hst.before] at hup
    constructor
    · intro ⟨u, hu, hesc⟩
      rcases List.mem_append.mp hu with hu | hu
      · exact given_up_persist hmove hc hnow (hup ⟨u, hu, hesc⟩)
      · rw [List.mem_singleton.mp hu] at hesc
        exact given_up_of_escalates hmove hesc
    · refine List.pairwise_append.mpr ⟨hpair, List.pairwise_singleton _ _, ?_⟩
      intro u hu v' hv' hesc ⟨hnode, hcommit⟩
      obtain rfl := List.mem_singleton.mp hv'
      -- the commit would have been staged, and the ticket is escalated
      have hstatus := hup ⟨u, hu, hesc⟩
      rw [hnode] at hstatus
      have hstaged := hst.commits hnode
      rw [hcommit] at hstaged
      exact hnow ⟨hnode, hstatus, hstaged.symm⟩

theorem ainvoke_escalated_by_executor {env : Env W} {s : AgentState} (hs : Fresh s) (w : W)
    (n : Nat) :
    EscalatedByExecutor (ainvoke env n s w).2.pc (ainvoke env n s w).2.state
        (ainvoke env n s w).1 ∧
      ((ainvoke env n s w).1.Pairwise (fun v u => v.escalates → ¬u.commits) →
        ∀ v ∈ (ainvoke env n s w).1, ¬v.stages_escalated) := by
  apply fresh_invariant hs (P := fun h c => EscalatedByExecutor c.pc c.state h ∧
    (h.Pairwise (fun v u => v.escalates → ¬u.commits) → ∀ v ∈ h, ¬v.stages_escalated))
  · refine ⟨trivial, ?_⟩
    intro _ v hv
    cases hv
  · intro h c v c' ⟨hby, hP⟩ hst hc hmove
    rw [hst.pc, ← hst.before] at hby
    refine ⟨escalated_by_executor_move hmove hby, ?_⟩
    intro hpair u hu
    obtain ⟨hpair, -, hcross⟩ := List.pairwise_append.mp hpair
    rcases List.mem_append.mp hu with hu | hu
    · exact hP hpair u hu
    · obtain rfl := List.mem_singleton.mp hu
      intro ⟨hnode, hstatus, hstaged⟩
      rw [hnode] at hby
      obtain ⟨x, hx, hesc⟩ := hby hstatus
      have hcommit := hst.commits hnode
      rw [hstaged] at hcommit
      exact hcross x hx u List.mem_cons_self hesc ⟨hnode, hcommit⟩

/-- **Escalation is final** in a run exactly when none of its git passes
    stages the files of an escalated ticket. -/
theorem escalation_final_iff (env : Env W) (s : AgentState) (w : W) (hs : Fresh s) (n : Nat) :
    EscalationFinal (ainvoke env n s w).1 (ainvoke env n s w).2 ↔
      ∀ v ∈ (ainvoke env n s w).1, ¬v.stages_escalated := by
  constructor
  · intro hfinal
    exact (ainvoke_escalated_by_executor hs w n).2 hfinal.no_commit
  · intro hstage
    obtain ⟨hup, hpair⟩ := ainvoke_given_up hs w n hstage
    refine ⟨hpair, ?_⟩
    intro hend hesc
    have hgiven := hup hesc
    rw [hend] at hgiven
    exact hgiven

/-! ## Runs: counting -/

/-- One move keeps the count. -/
theorem counts_move {env : Env W} {s s' : AgentState} {v : Visit W} {pc' : Pc}
    {h : List (Visit W)} (hmove : Move env v.before v.node v.events v.result s' pc')
    (hc : Control env (.at v.node) v.before) (hp : Counts env s (.at v.node) v.before h) :
    Counts env s pc' s' (h ++ [v]) := by
  obtain ⟨node, before, events, result⟩ := v
  simp only at hmove hc hp
  -- only a git pass can skip the count
  have hnode : node ≠ .oversight_git →
      ¬(⟨node, before, events, result⟩ : Visit W).skips_escalate := fun hn hskip => hn hskip.1
  have hretry : ∀ k : Int, Uncounted s s' ∧ (∀ v ∈ h ++ [⟨node, before, events, result⟩],
      ¬v.skips_escalate) → Counts env s (.at (if k ≥ MAX_STRIKES then .escalate else .executor)) s'
        (h ++ [⟨node, before, events, result⟩]) := by
    intro k hk
    split <;> exact hk
  cases hmove with
  | raised => trivial
  | analyzer => exact ⟨hp.1, no_skip_snoc hp.2 (hnode nofun)⟩
  | architect =>
    exact Or.inl ⟨⟨hc.ticket_status, hc.last_validation_passed, hc.strikes⟩, hp.1,
      no_skip_snoc hp.2 (hnode nofun)⟩
  | dispatch_end =>
    rcases hp with ⟨hfresh, hsame, hskip⟩ | hby
    · exact Or.inl ⟨hfresh, hsame, no_skip_snoc hskip (hnode nofun)⟩
    · exact Or.inr ⟨hby.1, hby.2.snoc (hnode nofun) rfl rfl rfl⟩
  | dispatch_executor hrouter =>
    rcases hp with ⟨-, hsame, hskip⟩ | ⟨hsettled, -⟩
    · exact ⟨hsame, no_skip_snoc hskip (hnode nofun)⟩
    · rw [hsettled.dispatch_router] at hrouter
      cases hrouter
  | executor_mock _ _ _ hδ =>
    subst hδ
    exact ⟨hp.1, no_skip_snoc hp.2 (hnode nofun)⟩
  | executor_real _ _ _ hend =>
    exact ⟨hp.1.confined hend.confined, no_skip_snoc hp.2 (hnode nofun)⟩
  | validator_mock _ hδ =>
    subst hδ
    exact ⟨hp.1, no_skip_snoc hp.2 (hnode nofun)⟩
  | validator_pass _ _ hδ =>
    subst hδ
    exact ⟨hp.1, no_skip_snoc hp.2 (hnode nofun)⟩
  | validator_fail _ _ hδ =>
    subst hδ
    exact hretry _ ⟨hp.1, no_skip_snoc hp.2 (hnode nofun)⟩
  | @git_idle _ _ _ _ δ _ _ _ hpass hfiles hstatus =>
    have hsame := hp.1.confined hpass.confined
    have hkeep : (before.update δ).ticket_status = before.ticket_status := by
      rw [AgentState.update_ticket_status, hstatus, Option.none_or]
    by_cases hesc : before.ticket_status = some .ESCALATED
    · exact SettledBy.skipped (by rw [hkeep, hesc]) hsame
        ⟨_, List.mem_append_right _ List.mem_cons_self, rfl, hesc, hfiles⟩
    · refine SettledBy.accepted (by rw [hkeep]; exact hesc) hsame (no_skip_snoc hp.2 ?_)
      intro hskip
      exact hesc hskip.2.1
  | git_done _ _ _ hpass hfiles hstatus =>
    refine SettledBy.accepted ?_ (hp.1.confined hpass.confined) (no_skip_snoc hp.2 ?_)
    · rw [AgentState.update_ticket_status, hstatus]
      nofun
    · intro ⟨_, _, hnone⟩
      rw [hfiles] at hnone
      cases hnone
  | git_strike _ _ _ hpass hfiles =>
    refine hretry _ ⟨hp.1.confined hpass.confined, no_skip_snoc hp.2 ?_⟩
    intro ⟨_, _, hnone⟩
    rw [hfiles] at hnone
    cases hnone
  | escalate hδ =>
    subst hδ
    obtain ⟨⟨hcount, hrun⟩, hskip⟩ := hp
    refine SettledBy.escalate rfl ?_ ?_ (no_skip_snoc hskip (hnode nofun))
    · rw [← hcount]
      rfl
    · show (if before.escalations + 1 > env.MAX_ESCALATIONS
        then some RunStatus.HALTED_ESCALATION_BUDGET else none).or before.run_status = _
      rw [hcount, hrun]
      split <;> rfl
  | advance hδ =>
    subst hδ
    exact Or.inr ⟨hc, hp.snoc (hnode nofun) rfl rfl rfl⟩

theorem ainvoke_counts {env : Env W} {s : AgentState} (hs : Fresh s) (w : W) (n : Nat) :
    Counts env s (ainvoke env n s w).2.pc (ainvoke env n s w).2.state (ainvoke env n s w).1 := by
  apply fresh_invariant hs (P := fun h c => Counts env s c.pc c.state h)
  · refine ⟨⟨rfl, rfl⟩, ?_⟩
    intro v hv
    cases hv
  · intro h c v c' hP hst hc hmove
    rw [hst.pc, ← hst.before] at hP
    exact counts_move hmove hc hP

/-- **Every escalation is counted** in a run that ends exactly when no git
    pass finds nothing to commit on an escalated ticket. -/
theorem escalation_counted_iff (env : Env W) (s : AgentState) (w : W) (hs : Fresh s) (n : Nat)
    (hend : (ainvoke env n s w).2.pc = .END) :
    EscalationCounted env s (ainvoke env n s w).2.state ↔
      ∀ v ∈ (ainvoke env n s w).1, ¬v.skips_escalate := by
  have hcounts : Counts env s (ainvoke env n s w).2.pc _ _ := ainvoke_counts hs w n
  rw [hend] at hcounts
  rcases hcounts with ⟨hfresh, hsame, hskip⟩ | ⟨-, hby⟩
  · have hst := hfresh.ticket_status
    constructor
    · intro _
      exact hskip
    · intro _
      refine ⟨?_, fun _ => hsame.1, ?_⟩
      · rw [hst]
        nofun
      · rw [hsame.2, hst]
        simp
  -- how the ticket was closed: by the node, past the node, or accepted
  cases hby with
  | escalate hst hcount hrun hskip =>
    constructor
    · intro _
      exact hskip
    · intro _
      refine ⟨fun _ => hcount, fun hne => absurd hst hne, ?_⟩
      rw [hrun, hst]
      by_cases hmax : s.escalations + 1 > env.MAX_ESCALATIONS
      · simp [hmax]
      · simp [hmax]
  | skipped hst hsame hskip =>
    obtain ⟨v, hv, hskip⟩ := hskip
    constructor
    · intro hcounted
      have hone := hcounted.escalated hst
      have hzero := hsame.1
      omega
    · intro hnone
      exact absurd hskip (hnone v hv)
  | accepted hst hsame hskip =>
    constructor
    · intro _
      exact hskip
    · intro _
      refine ⟨fun hesc => absurd hesc hst, fun _ => hsame.1, ?_⟩
      rw [hsame.2]
      simp [hst]

end runs

section small
attribute [local instance] Unicode.ascii

/-- The executor gives the ticket up, the validator accepts it, and the git
    pass commits it: the run ends `DONE`. -/
theorem escalation_not_final :
    ¬EscalationFinal
      (ainvoke unchecked 15 { active_ticket := some (small_ticket ["a.py"]) } false).1
      (ainvoke unchecked 15 { active_ticket := some (small_ticket ["a.py"]) } false).2 := by
  intro h
  have hst := h.status (by decide +kernel) (by decide +kernel)
  revert hst
  decide +kernel

/-- The fast checks never pass, and no file can be staged. -/
def unstageable : Env Bool :=
  small_env (.RuntimeClient (small_repo fun command =>
    command == lit "git status" || (lit "git add").isPrefixOf command))

/-- The executor gives the ticket up, the validator still accepts it, and the
    git pass cannot stage it: the ticket stays escalated. -/
theorem escalation_final_iff_unstageable :
    (∃ v ∈ (ainvoke unstageable 15 { active_ticket := some (small_ticket ["a.py"]) } false).1,
        v.escalates) ∧
      EscalationFinal
        (ainvoke unstageable 15 { active_ticket := some (small_ticket ["a.py"]) } false).1
        (ainvoke unstageable 15 { active_ticket := some (small_ticket ["a.py"]) } false).2 :=
  ⟨by decide +kernel,
    (escalation_final_iff unstageable { active_ticket := some (small_ticket ["a.py"]) } false
      ⟨rfl, rfl, rfl⟩ 15).mpr (by decide +kernel)⟩

/-- Without declared files the git pass has nothing to do, and the escalation
    is never counted. -/
theorem escalation_not_counted :
    ¬EscalationCounted unchecked { active_ticket := some (small_ticket []) }
      (ainvoke unchecked 15 { active_ticket := some (small_ticket []) } false).2.state := by
  intro h
  have hone := h.escalated (by decide +kernel)
  revert hone
  decide +kernel

theorem escalation_counted_iff_small :
    EscalationCounted unverifiable { active_ticket := some (small_ticket []) }
      (ainvoke unverifiable 15 { active_ticket := some (small_ticket []) } false).2.state :=
  (escalation_counted_iff unverifiable { active_ticket := some (small_ticket []) } false
    ⟨rfl, rfl, rfl⟩ 15 (by decide +kernel)).mpr (by decide +kernel)

end small

end Syndicate
