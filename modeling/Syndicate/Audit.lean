import Syndicate.Strikes

/-! # The audit trail

    Three nodes reject attempts: the executor (fast checks), the validator
    and the git pass.  What a node appends to `attempt_log` reaches a
    `DecisionSummary` of the ledger before a run ends, whatever the state it
    started from (`ainvoke_filed`).  The executor and the git pass append a
    line for each rejection; the validator appends none, so exactly the
    failed verifications are missing (`rejections_audited_iff`). -/

namespace Syndicate

open Py Framework

variable {W : Type}

/-! ## Lines and summaries -/

/-- The lines a visit appended to `attempt_log`. -/
def Visit.lines_logged (v : Visit W) : List PyStr :=
  match v.result with
  | .ok δ => (δ.attempt_log.getD []).drop v.before.log.length
  | .error _ => []

theorem Visit.lines_logged_ok {v : Visit W} {δ : AgentState} (hr : v.result = .ok δ) :
    v.lines_logged = (δ.attempt_log.getD []).drop v.before.log.length := by
  unfold lines_logged
  rw [hr]

/-- The `DecisionSummary` a visit of `advance` appended to the ledger. -/
def Visit.summary (v : Visit W) : Option DecisionSummary :=
  match v.node, v.result with
  | .advance, .ok δ => (δ.decision_ledger.getD []).getLast?
  | _, _ => none

/-- A line is in the summary of some later `advance`. -/
def Filed (line : PyStr) (later : List (Visit W)) : Prop :=
  ∃ a ∈ later, ∃ d, a.summary = some d ∧ line <:+: d.summary

theorem Filed.snoc {line : PyStr} {later : List (Visit W)} (h : Filed line later) (v : Visit W) :
    Filed line (later ++ [v]) := by
  obtain ⟨a, ha, d, hd⟩ := h
  exact ⟨a, List.mem_append_left _ ha, d, hd⟩

/-- `'; '.join(parts)` contains each of its parts. -/
theorem infix_join {sep : PyStr} {part : PyStr} {parts : List PyStr} (h : part ∈ parts) :
    part <:+: join sep parts := by
  unfold join
  induction parts with
  | nil => cases h
  | cons x rest ih =>
    cases rest with
    | nil =>
      obtain rfl := List.mem_singleton.mp h
      exact List.intercalate_singleton ▸ List.infix_refl part
    | cons y rest =>
      rw [List.intercalate_cons_cons]
      rcases List.mem_cons.mp h with rfl | hrest
      · rw [List.append_assoc]
        exact List.infix_append' [] part _
      · obtain ⟨pre, post, heq⟩ := ih hrest
        exact ⟨x ++ sep ++ pre, post, by rw [← heq]; simp⟩

/-- The summary of a log contains each of its lines. -/
theorem infix_distil {line : PyStr} {log : List PyStr} (h : line ∈ log) :
    line <:+: (distil log).summary := by
  have hne : log.isEmpty = false := by
    cases log with
    | nil => cases h
    | cons x rest => rfl
  unfold distil
  simp only [hne, Bool.false_eq_true, if_false]
  exact infix_join h

/-- Every line logged so far is still in the log or already filed. -/
def Kept (log : List PyStr) (h : List (Visit W)) : Prop :=
  AtEach (fun v later => ∀ line ∈ v.lines_logged, line ∈ log ∨ Filed line later) h

/-- Every line logged so far is filed. -/
def AllFiled (h : List (Visit W)) : Prop :=
  AtEach (fun v later => ∀ line ∈ v.lines_logged, Filed line later) h

/-- The nodes a run stands at before its first attempt and behind
    `advance`. -/
def Pc.idle : Pc → Prop
  | .at .analyzer | .at .architect | .at .dispatch | .END => True
  | _ => False

/-- What a visit appended to the log is in the log behind it. -/
theorem lines_logged_subset {v : Visit W} {δ : AgentState} (hr : v.result = .ok δ)
    (hn : δ.attempt_log = none ∨ ∃ lines, δ.attempt_log = some lines) :
    ∀ line ∈ v.lines_logged, line ∈ (v.before.update δ).log := by
  intro line hline
  rw [Visit.lines_logged_ok hr] at hline
  rw [AgentState.update_log]
  rcases hn with hlog | ⟨lines, hlog⟩
  · rw [hlog] at hline
    simp at hline
  · rw [hlog] at hline ⊢
    exact List.mem_of_mem_drop hline

/-- Behind a node, a run is idle only if it was idle before or has just
    advanced. -/
theorem idle_next {n : Node} {s : AgentState} (h : (next n s).idle) :
    n = .advance ∨ (Pc.at n).idle ∧ n ≠ .executor ∧ n ≠ .oversight_git := by
  cases n with
  | advance => exact Or.inl rfl
  | analyzer => exact Or.inr ⟨trivial, (by simp), (by simp)⟩
  | architect => exact Or.inr ⟨trivial, (by simp), (by simp)⟩
  | dispatch => exact Or.inr ⟨trivial, (by simp), (by simp)⟩
  | executor => exact h.elim
  | escalate => exact h.elim
  | validator =>
    simp only [next, validator_router] at h
    split at h
    · exact h.elim
    · split at h <;> exact h.elim
  | oversight_git =>
    simp only [next, oversight_git_router] at h
    split at h
    · exact h.elim
    split at h
    · exact h.elim
    · split at h <;> exact h.elim

section visits
variable [Unicode]

/-! ## Rejections -/

/-- A check of visit `v` that rejected an attempt, given as the lines that
    would record it. -/
inductive Visit.Rejection (v : Visit W) : (PyStr → Prop) → Prop where
  /-- The fast checks of the executor's attempt number `i`. -/
  | fast_check {i : Nat} {r : ActionResult} (hnode : v.node = .executor)
      (hcheck : (checks v.events)[i]? = some r) (hexit : r.exit_code ≠ 0) :
      Rejection v (fun line => line = fast_check_line (v.before.strikes + (i + 1 : Nat)) r)
  /-- The verification command: any line the validator logs. -/
  | verification (hnode : v.node = .validator) (hrej : v.rejects = true) :
      Rejection v (fun _ => True)
  /-- One of the three git checks, under whatever reason. -/
  | git (hnode : v.node = .oversight_git) (hrej : v.rejects = true) :
      Rejection v (fun line => ∃ reason, line = strike_line reason)

/-- Every rejection of a run was logged by the visit that rejected, and its
    line is in a summary of the ledger. -/
def RejectionsAudited (h : List (Visit W)) : Prop :=
  AtEach (fun v later => ∀ records, v.Rejection records →
    ∃ line ∈ v.lines_logged, records line ∧ Filed line later) h

/-! ## What a visit logs -/

/-- The loop logs the fast check of each of its attempts. -/
theorem fast_check_line_mem {strike : Int} {as : List Attempt} {i : Nat} {r : ActionResult}
    (h : (as.map (·.check))[i]? = some r) :
    fast_check_line (strike + (i + 1 : Nat)) r ∈ attempt_lines strike as := by
  induction as generalizing strike i with
  | nil => simp at h
  | cons a as ih =>
    cases i with
    | zero =>
      simp only [List.map_cons, List.getElem?_cons_zero, Option.some.injEq] at h
      subst h
      simp [attempt_lines]
    | succ i =>
      simp only [List.map_cons, List.getElem?_cons_succ] at h
      have hmem : fast_check_line (strike + 1 + (i + 1 : Nat)) r ∈ attempt_lines (strike + 1) as :=
        ih h
      have hnum : strike + 1 + (i + 1 : Nat) = strike + (i + 1 + 1 : Nat) := by omega
      rw [hnum] at hmem
      exact List.mem_cons_of_mem _ (List.mem_cons_of_mem _ hmem)

/-- Every node but `advance` leaves the log alone or adds to it; those before
    the first attempt leave it alone. -/
theorem Does.attempt_log {env : Env W} {s δ : AgentState} {n : Node} {es : List (Event W)}
    (h : Does env s n es (.ok δ)) (hn : n ≠ .advance) :
    δ.attempt_log = none ∨
      (n = .executor ∨ n = .oversight_git) ∧ ∃ lines, δ.attempt_log = some (s.log ++ lines) := by
  cases h with
  | executor_mock => exact Or.inr ⟨Or.inl rfl, _, rfl⟩
  | executor_real _ _ _ hend => exact Or.inr ⟨Or.inl rfl, _, hend.attempt_log⟩
  | oversight_git _ _ _ hpass => exact Or.inr ⟨Or.inr rfl, hpass.attempt_log⟩
  | advance => exact absurd rfl hn
  | _ => exact Or.inl rfl

/-- The executor and the git pass log a line for each of their rejections. -/
theorem Does.logs_rejection {env : Env W} {v : Visit W} {δ : AgentState} {records : PyStr → Prop}
    (h : Does env v.before v.node v.events (.ok δ)) (hr : v.result = .ok δ)
    (hrej : v.Rejection records) (hn : v.node ≠ .validator) :
    ∃ line ∈ v.lines_logged, records line := by
  rw [Visit.lines_logged_ok hr]
  obtain ⟨node, before, events, result⟩ := v
  simp only at h hn ⊢
  cases hrej with
  | fast_check hnode hcheck hexit =>
    simp only at hnode hcheck
    subst hnode
    cases h with
    | executor_mock _ hquiet =>
      rw [hquiet.checks] at hcheck
      simp at hcheck
    | executor_real _ _ hrec hend =>
      rw [hrec.checks] at hcheck
      refine ⟨_, ?_, rfl⟩
      rw [hend.attempt_log]
      simpa using fast_check_line_mem hcheck
  | verification hnode => exact absurd hnode hn
  | git hnode hrej =>
    simp only at hnode
    subst hnode
    cases h with
    | oversight_git _ _ hsetup hpass =>
      simp only [Visit.rejects, Bool.and_eq_true, Bool.not_eq_true'] at hrej
      obtain ⟨hfiles, hstill⟩ := hrej
      -- `HEAD` did not move, so the pass was not done
      have hst : δ.ticket_status ≠ some .DONE := by
        intro hdone
        rw [(hpass.head_moved hsetup).mpr hdone] at hstill
        cases hstill
      obtain ⟨lines, reason, hlog⟩ := hpass.logs_reason hfiles hst
      refine ⟨strike_line reason, ?_, reason, rfl⟩
      rw [hlog]
      simp

theorem Does.advance_eq {env : Env W} {s δ : AgentState} {es : List (Event W)}
    (h : Does env s .advance es (.ok δ)) : δ = advance_node s := by
  cases h
  rfl

/-- The validator logs nothing. -/
theorem Does.validator_silent {env : Env W} {s δ : AgentState} {es : List (Event W)}
    (h : Does env s .validator es (.ok δ)) : δ.attempt_log = none := by
  cases h <;> rfl

end visits

/-! ## Along a run -/

section runs
variable [Unicode]

/-- One step keeps every logged line in the log until `advance` files it. -/
theorem kept_step {env : Env W} {c c' : Config W} {v : Visit W} {h : List (Visit W)}
    (hst : Stepped env c v c') (hkept : Kept c.state.log h) (hidle : c.pc.idle → AllFiled h) :
    Kept c'.state.log (h ++ [v]) ∧ (c'.pc.idle → AllFiled (h ++ [v])) := by
  -- a node that raised logs nothing, one that returned may append or, as `advance`, empty
  cases hr : v.result with
  | error e =>
    obtain ⟨hs, hp⟩ := hst.error e hr
    have hnone : v.lines_logged = [] := by
      unfold Visit.lines_logged
      rw [hr]
    rw [hs, hp]
    refine ⟨atEach_snoc.mpr ⟨hkept.mono ?_, ?_⟩, fun hi => hi.elim⟩
    · intro u post _ hu line hline
      exact (hu line hline).imp_right fun hfiled => hfiled.snoc v
    · rw [hnone]
      simp
  | ok δ =>
    obtain ⟨hs, hp⟩ := hst.ok δ hr
    have hdoes := hst.does
    rw [hr, ← hst.before] at hdoes
    rw [← hst.before] at hkept hs hp
    by_cases hadv : v.node = .advance
    · -- every line of the log is in the summary, and the log is empty behind it
      rw [hadv] at hdoes
      have hδ := hdoes.advance_eq
      have hnone : v.lines_logged = [] := by
        rw [Visit.lines_logged_ok hr, hδ]
        exact List.drop_nil
      have hsummary : v.summary = some (distil v.before.log) := by
        unfold Visit.summary
        rw [hadv, hr, hδ]
        simp [advance_node]
      have hall : AllFiled (h ++ [v]) := by
        refine atEach_snoc.mpr ⟨hkept.mono ?_, ?_⟩
        · intro u post _ hu line hline
          rcases hu line hline with hlog | hfiled
          · exact ⟨v, by simp, _, hsummary, infix_distil hlog⟩
          · exact hfiled.snoc v
        · rw [hnone]
          simp
      exact ⟨hall.mono fun u post _ hu line hline => Or.inr (hu line hline), fun _ => hall⟩
    · have hlog := hdoes.attempt_log hadv
      have hlogs : δ.attempt_log = none ∨ ∃ lines, δ.attempt_log = some lines := by
        rcases hlog with hl | ⟨-, lines, hl⟩
        · exact Or.inl hl
        · exact Or.inr ⟨_, hl⟩
      have hsub := lines_logged_subset hr hlogs
      -- the log of any other node only grows
      have hgrow : ∀ line ∈ v.before.log, line ∈ (v.before.update δ).log := by
        intro line hline
        rw [AgentState.update_log]
        rcases hlog with hl | ⟨-, lines, hl⟩
        · rw [hl]
          exact hline
        · rw [hl]
          exact List.mem_append_left _ hline
      rw [hs]
      constructor
      · refine atEach_snoc.mpr ⟨hkept.mono ?_, ?_⟩
        · intro u post _ hu line hline
          rcases hu line hline with hlog | hfiled
          · exact Or.inl (hgrow line hlog)
          · exact Or.inr (hfiled.snoc v)
        · intro line hline
          exact Or.inl (hsub line hline)
      · intro hi
        rw [hp] at hi
        -- it is idle behind `v` only where nothing was logged by `v`
        obtain ⟨hidle', hexec, hgit⟩ := (idle_next hi).resolve_left hadv
        have hsilent : δ.attempt_log = none := by
          rcases hlog with hl | ⟨hn | hn, -⟩
          · exact hl
          · exact absurd hn hexec
          · exact absurd hn hgit
        rw [← hst.pc] at hidle'
        refine atEach_snoc.mpr ⟨(hidle hidle').mono ?_, ?_⟩
        · intro u post _ hu line hline
          exact (hu line hline).snoc v
        · rw [Visit.lines_logged_ok hr, hsilent]
          simp

theorem ainvoke_filed {env : Env W} {s : AgentState} (w : W) (n : Nat) :
    Kept (ainvoke env n s w).2.state.log (ainvoke env n s w).1 ∧
      ((ainvoke env n s w).2.pc.idle → AllFiled (ainvoke env n s w).1) := by
  apply ainvoke_invariant (P := fun h c => Kept c.state.log h ∧ (c.pc.idle → AllFiled h))
  · exact ⟨atEach_nil, fun _ => atEach_nil⟩
  · intro h c v c' ⟨hkept, hidle⟩ hst
    exact kept_step hst hkept hidle

/-- Every visit of a run that did not raise returned. -/
theorem ainvoke_returned {env : Env W} {s : AgentState} (w : W) (n : Nat)
    (hnr : ∀ e, (ainvoke env n s w).2.pc ≠ .raised e) :
    ∀ v ∈ (ainvoke env n s w).1, ∃ δ, v.result = .ok δ ∧
      Does env v.before v.node v.events (.ok δ) := by
  revert hnr
  apply ainvoke_invariant (P := fun h c => (∀ e, c.pc ≠ .raised e) → ∀ v ∈ h,
    ∃ δ, v.result = .ok δ ∧ Does env v.before v.node v.events (.ok δ))
  · intro _ v hv
    cases hv
  · intro h c v c' hP hst hnr u hu
    rcases List.mem_append.mp hu with hu | hu
    · exact hP (by rw [hst.pc]; simp) u hu
    · rw [List.mem_singleton.mp hu]
      have hdoes := hst.does
      rw [← hst.before] at hdoes
      cases hr : v.result with
      | ok δ =>
        rw [hr] at hdoes
        exact ⟨δ, rfl, hdoes⟩
      | error e => exact absurd (hst.error e hr).2 (hnr e)

/-- **The audit trail** of a run that ends, from any state and on either
    client, explains every rejection exactly when no verification command
    failed. -/
theorem rejections_audited_iff (env : Env W) (s : AgentState) (w : W) (n : Nat)
    (hend : (ainvoke env n s w).2.pc = .END) :
    RejectionsAudited (ainvoke env n s w).1 ↔
      ∀ v ∈ (ainvoke env n s w).1, ¬(v.node = .validator ∧ v.rejects = true) := by
  have hreturned : ∀ v ∈ (ainvoke env n s w).1, ∃ δ, v.result = .ok δ ∧
      Does env v.before v.node v.events (.ok δ) := ainvoke_returned w n (by rw [hend]; simp)
  constructor
  · intro haudit v hv ⟨hnode, hrej⟩
    obtain ⟨pre, post, hsplit⟩ := List.append_of_mem hv
    -- the rejection would need a line of the validator, which logs none
    obtain ⟨line, hline, -⟩ := haudit pre v post hsplit _ (Visit.Rejection.verification hnode hrej)
    obtain ⟨δ, hr, hdoes⟩ := hreturned v hv
    rw [hnode] at hdoes
    rw [Visit.lines_logged_ok hr, hdoes.validator_silent] at hline
    simp at hline
  · intro hverified
    -- the run ended, so every line it logged is in a summary
    have hfiled : AllFiled (ainvoke env n s w).1 := by
      apply (ainvoke_filed w n).2
      rw [hend]
      trivial
    refine AtEach.mono hfiled (fun v later hv hlines => ?_)
    intro records hrej
    obtain ⟨δ, hr, hdoes⟩ := hreturned v hv
    have hnode : v.node ≠ .validator := by
      intro hnode
      cases hrej with
      | fast_check hexec => rw [hnode] at hexec; cases hexec
      | verification _ hrej => exact hverified v hv ⟨hnode, hrej⟩
      | git hgit => rw [hnode] at hgit; cases hgit
    obtain ⟨line, hline, hrec⟩ := hdoes.logs_rejection hr hrej hnode
    exact ⟨line, hline, hrec, hlines line hline⟩

end runs

section small
attribute [local instance] Unicode.ascii

/-- A verification that never passes is charged twice, and no line of the
    ledger says why. -/
theorem rejections_not_audited :
    ¬RejectionsAudited
      (ainvoke unverifiable 15 { active_ticket := some (small_ticket []) } false).1 := by
  intro haudit
  have hsilent : ∃ v ∈ (ainvoke unverifiable 15
      { active_ticket := some (small_ticket []) } false).1,
      v.node = .validator ∧ v.rejects = true ∧ v.lines_logged = [] := by
    decide +kernel
  obtain ⟨v, hv, hnode, hrej, hnone⟩ := hsilent
  obtain ⟨pre, post, hsplit⟩ := List.append_of_mem hv
  obtain ⟨line, hline, -⟩ := haudit pre v post hsplit _ (Visit.Rejection.verification hnode hrej)
  rw [hnone] at hline
  cases hline

/-- Three failed fast checks, all of them explained. -/
theorem rejections_audited_iff_small :
    RejectionsAudited (ainvoke unchecked 15 { active_ticket := some (small_ticket ["a.py"]) } false).1 :=
  (rejections_audited_iff unchecked { active_ticket := some (small_ticket ["a.py"]) } false 15
    (by decide +kernel)).mpr (by decide +kernel)

end small

end Syndicate
