import Syndicate.Budget

/-! # Strike accounting

    The executor charges a strike before each attempt.  The validator and
    the git pass charge one more when they reject the attempt that was
    charged already.  On the real path the strike count is the number of
    attempts plus the number of those rejections (`ainvoke_strikes`), so the
    accounts of a run are right exactly while neither of the two rejects
    anything (`strikes_accounted_iff`). -/

namespace Syndicate

open Py Framework

variable {W : Type}

/-! ## Rejections -/

/-- Some command returned with a non-zero exit code. -/
def command_failed (es : List (Event W)) : Bool :=
  es.any fun
    | .run_action _ _ _ (.ok r) _ => r.exit_code != 0
    | _ => false

/-- The visit rejects the attempt before it: a verification command that
    failed, or a git pass that saw no commit of the declared files. -/
def Visit.rejects (v : Visit W) : Bool :=
  match v.node with
  | .validator => command_failed v.events
  | .oversight_git => declares_files v.before.ticket && !head_moved v.events
  | _ => false

/-- The last attempt is rejected after all. -/
def reject_last (verdicts : List Bool) : List Bool :=
  if verdicts.isEmpty then [] else verdicts.dropLast ++ [true]

/-- One visit's share in the verdicts: the executor's fast checks give each
    attempt its own, a later rejection overrides the last one. -/
def add_verdicts (verdicts : List Bool) (v : Visit W) : List Bool :=
  if v.rejects then reject_last verdicts
  else verdicts ++ (checks v.events).map fun r => r.exit_code != 0

/-- For each attempt of a run, whether it was rejected. -/
def verdicts (h : List (Visit W)) : List Bool := h.foldl add_verdicts []

@[simp] theorem verdicts_snoc (h : List (Visit W)) (v : Visit W) :
    verdicts (h ++ [v]) = add_verdicts (verdicts h) v := by
  simp [verdicts]

/-- The accounts of a run are right: no strike beyond the budget, one strike
    for each attempt, and a run that ended escalated made all its attempts
    and saw every one rejected. -/
structure StrikesAccounted (h : List (Visit W)) (c : Config W) : Prop where
  bound : c.state.strikes ≤ MAX_STRIKES
  cost : c.state.strikes = attempts h
  escalated : c.pc = .END → c.state.ticket_status = some .ESCALATED →
    verdicts h = List.replicate MAX_STRIKES.toNat true

/-! ## Runs without a late rejection -/

/-- What the verdicts of a run are when it stands at `pc` and neither the
    validator nor the git pass has rejected anything: the executor is only
    entered once, with all strikes left. -/
def Clean (pc : Pc) (s : AgentState) (verdicts : List Bool) : Prop :=
  match pc with
  | .at .analyzer | .at .architect | .at .executor => verdicts = [] ∧ s.strikes = 0
  | .at .dispatch => (Fresh s ∧ verdicts = []) ∨
      (Settled s ∧ (s.ticket_status = some .ESCALATED →
        verdicts = List.replicate MAX_STRIKES.toNat true))
  | .at .validator | .at .oversight_git | .at .advance | .END =>
    s.ticket_status = some .ESCALATED → verdicts = List.replicate MAX_STRIKES.toNat true
  | .at .escalate => False
  | .raised _ => True

/-- A visit that makes no attempt and rejects none leaves the verdicts. -/
theorem add_verdicts_quiet {vs : List Bool} {v : Visit W} (hq : Quiet v.events)
    (hrej : v.rejects = false) : add_verdicts vs v = vs := by
  unfold add_verdicts
  rw [hrej, hq.checks]
  simp

/-- A loop that gave up with every strike to spend leaves three rejections. -/
theorem verdicts_of_exhausted {as : List Attempt} (hrej : ∀ a ∈ as, a.Rejected)
    (hlen : as.length = MAX_STRIKES.toNat) :
    as.map (fun a => a.check.exit_code != 0) = List.replicate MAX_STRIKES.toNat true := by
  rw [List.eq_replicate_iff]
  constructor
  · rw [List.length_map, hlen]
  · intro b hb
    obtain ⟨a, ha, rfl⟩ := List.mem_map.mp hb
    have hne := hrej a ha
    simpa [Attempt.Rejected] using hne

section runs
variable [Unicode]

/-! ## What a run charges -/

section move
variable {env : Env W} {s s' : AgentState} {n : Node} {es : List (Event W)}
  {r : Except PyExc AgentState} {pc' : Pc}

/-- What a node that returns charges on the real path: the attempts it made,
    and one strike if it rejects. -/
theorem Move.accounts (h : Move env s n es r s' pc') (hreal : env.isMock = false)
    (hpc : ∀ e, pc' ≠ .raised e) :
    s'.strikes = s.strikes + (feedbacks es).length +
      (if (⟨n, s, es, r⟩ : Visit W).rejects then 1 else 0) := by
  cases h with
  | raised => exact absurd rfl (hpc _)
  | analyzer hquiet => simp [hquiet.feedbacks, Visit.rejects]
  | architect hquiet => simp [hquiet.feedbacks, Visit.rejects]
  | dispatch_end => simp [feedbacks, Visit.rejects]
  | dispatch_executor => simp [feedbacks, Visit.rejects]
  | executor_mock hmock =>
    rw [hreal] at hmock
    cases hmock
  | executor_real _ _ hrec hend => simp [hrec.feedbacks, hend.strike_count, Visit.rejects]
  | validator_mock hmock =>
    rw [hreal] at hmock
    cases hmock
  | validator_pass _ hexit hδ => simp [feedbacks, Visit.rejects, command_failed, hexit, hδ]
  | validator_fail _ hexit hδ => simp [feedbacks, Visit.rejects, command_failed, hexit, hδ]
  | git_idle _ hquiet _ _ hfiles _ hstrike =>
    simp [hquiet.feedbacks, Visit.rejects, hfiles, hstrike]
  | git_done _ hquiet hsetup hpass hfiles hstatus hstrike =>
    -- HEAD moved exactly when the pass is done, and then no strike is charged
    have hmoved := (hpass.head_moved hsetup).mpr hstatus
    simp [hquiet.feedbacks, Visit.rejects, hfiles, hmoved, hstrike]
  | git_strike _ hquiet hsetup hpass hfiles hstatus hstrike =>
    have hstill : head_moved es = false := by
      rw [← Bool.not_eq_true, hpass.head_moved hsetup, hstatus]
      simp
    simp [hquiet.feedbacks, Visit.rejects, hfiles, hstill, hstrike]
  | escalate hδ => simp [feedbacks, Visit.rejects, hδ, escalate_node]
  | advance hδ => simp [feedbacks, Visit.rejects, hδ, advance_node]

end move

/-- **The strike count of a real run**: its attempts, and the rejections by
    the validator and the git pass on top. -/
theorem ainvoke_strikes {env : Env W} {s : AgentState} (hreal : env.isMock = false) (hs : Fresh s)
    (w : W) (n : Nat) (hnr : ∀ e, (ainvoke env n s w).2.pc ≠ .raised e) :
    (ainvoke env n s w).2.state.strikes =
      attempts (ainvoke env n s w).1 + (ainvoke env n s w).1.countP Visit.rejects := by
  revert hnr
  apply fresh_invariant hs (P := fun h c => (∀ e, c.pc ≠ .raised e) →
    c.state.strikes = attempts h + h.countP Visit.rejects)
  · intro _
    exact hs.strikes
  · intro h c v c' hP hst hc hmove hnr
    have hsofar := hP (by rw [hst.pc]; simp)
    have hstep : c'.state.strikes = v.before.strikes + (feedbacks v.events).length +
        (if v.rejects then 1 else 0) := hmove.accounts hreal hnr
    rw [hst.before, hsofar] at hstep
    rw [hstep, attempts_append, attempts_singleton, List.countP_append,
      List.countP_singleton]
    split <;> omega

/-- A move that rejects nothing keeps the verdicts clean. -/
theorem clean_move {env : Env W} {s s' : AgentState} {n : Node} {es : List (Event W)}
    {r : Except PyExc AgentState} {pc' : Pc} {vs : List Bool} (hreal : env.isMock = false)
    (h : Move env s n es r s' pc') (hc : Control env (.at n) s)
    (hrej : (⟨n, s, es, r⟩ : Visit W).rejects = false) (hp : Clean (.at n) s vs) :
    Clean pc' s' (add_verdicts vs ⟨n, s, es, r⟩) := by
  -- away from the executor no verdict is added
  have hquiet : n ≠ .executor → add_verdicts vs ⟨n, s, es, r⟩ = vs := by
    intro hn
    exact add_verdicts_quiet (h.quiet hn) hrej
  -- with no rejection, the strikes are charged by the attempts alone
  have hcharged := h.accounts hreal
  rw [hrej] at hcharged
  cases h with
  | raised => trivial
  | analyzer => rw [hquiet (by simp)]; exact hp
  | architect =>
    rw [hquiet (by simp)]
    exact Or.inl ⟨⟨hc.ticket_status, hc.last_validation_passed, hc.strikes⟩, hp.1⟩
  | dispatch_end =>
    rw [hquiet (by simp)]
    intro hesc
    rcases hp with ⟨hfresh, -⟩ | ⟨-, hvs⟩
    · rw [hfresh.ticket_status] at hesc
      cases hesc
    · exact hvs hesc
  | dispatch_executor hrouter =>
    rw [hquiet (by simp)]
    rcases hp with ⟨hfresh, hvs⟩ | ⟨hsettled, -⟩
    · exact ⟨hvs, hfresh.strikes⟩
    · rw [hsettled.dispatch_router] at hrouter
      cases hrouter
  | executor_mock hmock =>
    rw [hreal] at hmock
    cases hmock
  | @executor_real _ as δ _ _ hrec hend =>
    -- three attempts were made from zero strikes, and each of them failed its check
    intro hesc
    obtain ⟨hvs, hzero⟩ := hp
    have hst : δ.ticket_status = some .ESCALATED := by
      rcases hend.ticket_status with ⟨hpass, -⟩ | ⟨hgave, -⟩
      · rw [AgentState.update_ticket_status, hpass] at hesc
        cases hesc
      · exact hgave
    obtain ⟨hall, hlen⟩ := hend.escalated hst
    rw [hzero, Int.sub_zero] at hlen
    rw [add_verdicts, hrej, hvs, hrec.checks, ← verdicts_of_exhausted hall hlen]
    simp
  | validator_mock hmock =>
    rw [hreal] at hmock
    cases hmock
  | validator_pass _ _ hδ =>
    rw [hquiet (by simp)]
    subst hδ
    exact hp
  | validator_fail _ _ hδ =>
    -- a failing validation charges a strike, which `hcharged` excludes
    have hsame : s.strikes + 1 = s.strikes := by simpa [hδ, feedbacks] using hcharged (by simp)
    omega
  | git_idle _ _ _ _ _ hstatus =>
    rw [hquiet (by simp)]
    show _ → vs = _
    rw [AgentState.update_ticket_status, hstatus]
    exact hp
  | git_done _ _ _ _ _ hstatus =>
    show _ → _
    rw [AgentState.update_ticket_status, hstatus]
    simp
  | git_strike _ hq _ _ _ _ hstrike =>
    -- likewise
    have hsame : s.strikes + 1 = s.strikes := by
      simpa [hstrike, hq.feedbacks] using hcharged (by simp)
    omega
  | escalate => exact hp.elim
  | advance hδ =>
    rw [hquiet (by simp)]
    subst hδ
    exact Or.inr ⟨hc, hp⟩

theorem ainvoke_clean {env : Env W} {s : AgentState} (hreal : env.isMock = false) (hs : Fresh s)
    (w : W) (n : Nat) (hrej : ∀ v ∈ (ainvoke env n s w).1, v.rejects = false) :
    Clean (ainvoke env n s w).2.pc (ainvoke env n s w).2.state
      (verdicts (ainvoke env n s w).1) := by
  revert hrej
  apply fresh_invariant hs (P := fun h c => (∀ v ∈ h, v.rejects = false) →
    Clean c.pc c.state (verdicts h))
  · intro _
    exact ⟨rfl, hs.strikes⟩
  · intro h c v c' hP hst hc hmove hrej
    have hsofar := hP fun u hu => hrej u (List.mem_append_left _ hu)
    have hnow : v.rejects = false := hrej v (by simp)
    rw [hst.pc, ← hst.before] at hsofar
    rw [verdicts_snoc]
    exact clean_move hreal hmove hc hnow hsofar

/-- **Strike accounting.**  The accounts of a real run are right exactly when
    no verification command failed and every git pass of a ticket that
    declares files saw `HEAD` move.  (The state of a run that an exception
    ended is the one before the node that raised.) -/
theorem strikes_accounted_iff (env : Env W) (s : AgentState) (w : W) (hreal : env.isMock = false)
    (hs : Fresh s) (n : Nat) (hnr : ∀ e, (ainvoke env n s w).2.pc ≠ .raised e) :
    StrikesAccounted (ainvoke env n s w).1 (ainvoke env n s w).2 ↔
      ∀ v ∈ (ainvoke env n s w).1, v.rejects = false := by
  have hstrikes := ainvoke_strikes hreal hs w n hnr
  have hspent : Spent (ainvoke env n s w).1 (ainvoke env n s w).2 := ainvoke_spent hs w n
  constructor
  · intro hacc v hv
    have hcost := hacc.cost
    have hzero : (ainvoke env n s w).1.countP Visit.rejects = 0 := by omega
    exact Bool.eq_false_iff.mpr (List.countP_eq_zero.mp hzero v hv)
  · intro hrej
    have hzero : (ainvoke env n s w).1.countP Visit.rejects = 0 := by
      rw [List.countP_eq_zero]
      intro v hv
      rw [hrej v hv]
      simp
    rw [hzero] at hstrikes
    have hle := hspent.attempts
    refine ⟨by omega, by omega, ?_⟩
    intro hend hesc
    have hclean := ainvoke_clean hreal hs w n hrej
    rw [hend] at hclean
    exact hclean hesc

end runs

section small
attribute [local instance] Unicode.ascii

/-- There the run ends escalated after two attempts, with four strikes. -/
theorem strikes_not_accounted :
    ¬StrikesAccounted (ainvoke unverifiable 15 { active_ticket := some (small_ticket []) } false).1
      (ainvoke unverifiable 15 { active_ticket := some (small_ticket []) } false).2 := by
  intro h
  have hbound := h.bound
  revert hbound
  decide +kernel

/-- Where every check passes the accounts are right. -/
theorem strikes_accounted_iff_small :
    StrikesAccounted
      (ainvoke healthy 15
        { active_ticket := some (small_ticket ["a.py"]) } false).1
      (ainvoke healthy 15
        { active_ticket := some (small_ticket ["a.py"]) } false).2 :=
  (strikes_accounted_iff healthy
    { active_ticket := some (small_ticket ["a.py"]) } false rfl ⟨rfl, rfl, rfl⟩ 15
    (by
      have hend : (ainvoke healthy 15
          { active_ticket := some (small_ticket ["a.py"]) } false).2.pc = .END := by
        decide +kernel
      rw [hend]
      simp)).mpr (by decide +kernel)

end small

end Syndicate
