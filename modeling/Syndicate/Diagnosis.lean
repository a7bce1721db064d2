import Syndicate.Strikes

/-! # Diagnosis threading

    What rejected an attempt is to be told to the next one.  Inside the
    executor it is a local variable, across nodes it is the field
    `validation_diagnosis`.  A failed verification writes that field; a
    failed git pass charges its strike and leaves the field as the validator
    cleared it.  So the feedback of a run is right exactly while no git pass
    sends the ticket back (`diagnosis_threaded_iff`). -/

namespace Syndicate

open Py Framework

variable {W : Type}

/-! ## What rejected the last attempt -/

/-- The output of the last command of `es` that returned. -/
def last_output (es : List (Event W)) : Option PyStr :=
  (es.filterMap fun
    | .run_action _ _ _ (.ok r) _ => some r.output
    | _ => none).getLast?

/-- What the check said by which the visit rejects the attempt before it:
    the verification command, or the git step that failed. -/
def Visit.rejected_with (v : Visit W) : Option PyStr :=
  if v.rejects then last_output v.events else none

/-- `d` is the output `o`, or what is left of it by `_truncate_diagnosis`. -/
def Diagnoses (o d : PyStr) : Prop := d = o ∨ truncate_diagnosis o = .ok d

/-- Every call of `_run_agentic_loop` in `v`, a visit behind `pre`, is told
    what rejected the attempt before it.  The first call of the run has none
    before it. -/
structure Visit.Threaded (pre : List (Visit W)) (v : Visit W) : Prop where
  /-- The attempt before was made in an earlier visit, and the visit right
      before this one rejected it. -/
  first : ∀ f, (feedbacks v.events)[0]? = some f → attempts pre ≠ 0 →
    ∃ u o d, pre.getLast? = some u ∧ u.rejected_with = some o ∧ Diagnoses o d ∧ f = some d
  /-- The attempt before was made in this visit, and its fast checks rejected
      it. -/
  later : ∀ i f, (feedbacks v.events)[i + 1]? = some f →
    ∃ r d, (checks v.events)[i]? = some r ∧ r.exit_code ≠ 0 ∧ Diagnoses r.output d ∧ f = some d

def DiagnosisThreaded (h : List (Visit W)) : Prop := Past Visit.Threaded h

/-- `v` is entered from a git pass that sent the ticket back. -/
def Visit.retries_git (pre : List (Visit W)) (v : Visit W) : Prop :=
  v.node = .executor ∧ ∃ u, pre.getLast? = some u ∧ u.node = .oversight_git

instance (pre : List (Visit W)) (v : Visit W) : Decidable (v.retries_git pre) :=
  inferInstanceAs (Decidable (_ ∧ ∃ u ∈ pre.getLast?, u.node = .oversight_git))

theorem Visit.Threaded.quiet {pre : List (Visit W)} {v : Visit W} (hq : Quiet v.events) :
    v.Threaded pre where
  first := by simp [hq.feedbacks]
  later := by simp [hq.feedbacks]

/-- The calls of an execution of the executor: the first is told what the
    state holds, the others what its own checks said. -/
theorem Budgeted.told {n : Nat} {feedback f : Option PyStr} {es : List (Event W)} {i : Nat}
    (hb : Budgeted n feedback es) (hf : (feedbacks es)[i]? = some f) :
    (feedback :: (checks es).map fun r => some r.output)[i]? = some f := by
  obtain ⟨rest, hrest⟩ := hb.chained
  obtain ⟨hlt, -⟩ := List.getElem?_eq_some_iff.mp hf
  rw [← hrest, List.getElem?_append_left hlt]
  exact hf

theorem Budgeted.told_later {n m : Nat} {feedback f : Option PyStr} {es : List (Event W)} {i : Nat}
    (hb : Budgeted n feedback es) (hcalled : Called m es) (hf : (feedbacks es)[i + 1]? = some f) :
    ∃ r d, (checks es)[i]? = some r ∧ r.exit_code ≠ 0 ∧ Diagnoses r.output d ∧ f = some d := by
  obtain ⟨hlt, -⟩ := List.getElem?_eq_some_iff.mp hf
  obtain ⟨r, hr, hfail⟩ := hcalled.rejected i hlt
  have htold := hb.told hf
  rw [List.getElem?_cons_succ, List.getElem?_map, hr, Option.map_some, Option.some.injEq] at htold
  exact ⟨r, r.output, hr, hfail, Or.inl rfl, htold.symm⟩

/-! ## What waits for the executor -/

/-- What the field `validation_diagnosis` holds when the run stands at `pc`
    behind the visits `h`. -/
def Waiting (pc : Pc) (s : AgentState) (h : List (Visit W)) : Prop :=
  match pc with
  | .at .analyzer | .at .architect => attempts h = 0
  | .at .dispatch => attempts h = 0 ∨ Settled s
  | .at .executor =>
    (attempts h = 0 ∧ ∀ u, h.getLast? = some u → u.node ≠ .oversight_git) ∨
    (attempts h ≠ 0 ∧ ∃ u, h.getLast? = some u ∧
      ((u.node = .oversight_git ∧ s.diagnosis = none) ∨
       (u.node ≠ .oversight_git ∧ ∃ o d, u.rejected_with = some o ∧
          truncate_diagnosis o = .ok d ∧ s.diagnosis = some d)))
  | .at .validator => attempts h ≠ 0
  | .at .oversight_git => attempts h ≠ 0 ∧ s.diagnosis = none
  | .at .escalate | .at .advance | .END | .raised _ => True

section runs
variable [Unicode]

/-- A git pass leaves the diagnosis as it is. -/
theorem GitPass.validation_diagnosis {client : Client W} {s δ : AgentState} {cwd : PyVal}
    {setup es : List (Event W)} {git_log : List PyStr}
    (h : GitPass client s cwd setup git_log es δ) : δ.validation_diagnosis = none := by
  cases h <;> rfl

/-- Every execution of the executor on a real client is budgeted. -/
theorem Does.budgeted {env : Env W} {s : AgentState} {es : List (Event W)}
    {r : Except PyExc AgentState} (h : Does env s .executor es r)
    {api : RuntimeClient W} (hreal : env.get_runtime_client = .ok (.RuntimeClient api)) :
    Budgeted (MAX_STRIKES - s.strikes).toNat s.diagnosis es := by
  cases h with
  | raised _ hbudget => exact hbudget rfl
  | executor_mock hmock =>
    rw [hreal] at hmock
    cases hmock
  | executor_real _ hbudget => exact hbudget

omit [Unicode] in
/-- An execution of the executor is told right exactly when no git pass sent
    it back. -/
theorem threaded_iff {v : Visit W} {h : List (Visit W)} {n m : Nat} (hnode : v.node = .executor)
    (hb : Budgeted n v.before.diagnosis v.events) (hcalled : Called (m + 1) v.events)
    (hwait : Waiting (.at .executor) v.before h) : v.Threaded h ↔ ¬v.retries_git h := by
  -- within the execution every later attempt is told of the one before it
  have hlater : ∀ i f, (feedbacks v.events)[i + 1]? = some f →
      ∃ r d, (checks v.events)[i]? = some r ∧ r.exit_code ≠ 0 ∧ Diagnoses r.output d ∧
        f = some d := fun i f hf => hb.told_later hcalled hf
  rcases hwait with ⟨hnone, hlast⟩ | ⟨hsome, u, hu, ⟨hgit, hdiag⟩ | ⟨hgit, o, d, ho, hd, hdiag⟩⟩
  · -- the first attempt of the run
    have hfirst : v.Threaded h := ⟨fun f _ hne => absurd hnone hne, hlater⟩
    refine iff_of_true hfirst ?_
    intro ⟨_, u, hu, hgit⟩
    exact hlast u hu hgit
  · -- a git pass sent the ticket back: the executor is told nothing
    apply iff_of_false
    · intro hthreaded
      obtain ⟨f, hf⟩ : ∃ f, (feedbacks v.events)[0]? = some f := by
        have hcall : feedbacks v.events ≠ [] := hcalled.called (Nat.succ_pos m)
        cases hfs : feedbacks v.events with
        | nil => exact absurd hfs hcall
        | cons f fs => exact ⟨f, rfl⟩
      have htold : some v.before.diagnosis = some f := hb.told hf
      obtain ⟨_, _, d, -, -, -, hfd⟩ := hthreaded.first f hf hsome
      rw [hfd, hdiag] at htold
      cases htold
    · rw [not_not]
      exact ⟨hnode, u, hu, hgit⟩
  · -- a failed verification did: the executor is told its diagnosis
    have hfirst : v.Threaded h := by
      refine ⟨?_, hlater⟩
      intro f hf _
      have htold : some v.before.diagnosis = some f := hb.told hf
      rw [hdiag] at htold
      exact ⟨u, o, d, hu, ho, Or.inr hd, (Option.some.inj htold).symm⟩
    refine iff_of_true hfirst ?_
    intro ⟨_, u', hu', hgit'⟩
    rw [hu] at hu'
    rw [← Option.some.inj hu'] at hgit'
    exact hgit hgit'

/-- A diagnosis of the validator is of the output of the command that
    failed. -/
theorem Does.diagnosed {env : Env W} {s δ : AgentState} {es : List (Event W)} {d : PyStr}
    (h : Does env s .validator es (.ok δ)) (hd : δ.validation_diagnosis = some (some d)) :
    command_failed es = true ∧ ∃ o, last_output es = some o ∧ truncate_diagnosis o = .ok d := by
  cases h with
  | validator_mock => cases hd
  | validator_pass => cases hd
  | @validator_fail _ r d' _ _ hreal hexit hdiag =>
    obtain rfl : d' = d := by simpa using hd
    refine ⟨by simp [command_failed, hexit], r.output, rfl, hdiag⟩

/-- One step leaves for the executor what it is to be told, unless it is a
    git pass. -/
theorem waiting_move {env : Env W} {v : Visit W} {s' : AgentState} {pc' : Pc}
    {h : List (Visit W)} (hmove : Move env v.before v.node v.events v.result s' pc')
    (hdoes : Does env v.before v.node v.events v.result) (hreal : env.isMock = false)
    (hc : Control env (.at v.node) v.before)
    (hcalled : v.node = .executor → feedbacks v.events ≠ [])
    (hwait : Waiting (.at v.node) v.before h) : Waiting pc' s' (h ++ [v]) := by
  have hlast : (h ++ [v]).getLast? = some v := List.getLast?_concat
  have hquiet : v.node ≠ .executor → attempts (h ++ [v]) = attempts h := by
    intro hn
    rw [attempts_append, attempts_singleton, (hmove.quiet hn).feedbacks]
    rfl
  obtain ⟨node, before, events, result⟩ := v
  simp only at hmove hdoes hc hcalled hwait hquiet
  cases hmove with
  | raised => trivial
  | analyzer => exact (hquiet (by simp)).trans hwait
  | architect => exact Or.inl ((hquiet (by simp)).trans hwait)
  | dispatch_end => trivial
  | dispatch_executor hrouter =>
    left
    refine ⟨?_, ?_⟩
    · rw [hquiet (by simp)]
      rcases hwait with hnone | hsettled
      · exact hnone
      · rw [hsettled.dispatch_router] at hrouter
        cases hrouter
    · intro u hu
      rw [hlast] at hu
      rw [← Option.some.inj hu]
      simp
  | executor_mock hmock =>
    rw [hreal] at hmock
    cases hmock
  | executor_real =>
    show attempts _ ≠ 0
    rw [attempts_append, attempts_singleton]
    have hcall := List.length_pos_iff.mpr (hcalled rfl)
    show attempts h + (feedbacks events).length ≠ 0
    omega
  | validator_mock hmock =>
    rw [hreal] at hmock
    cases hmock
  | validator_pass _ _ hδ =>
    subst hδ
    exact ⟨by rw [hquiet (by simp)]; exact hwait, rfl⟩
  | @validator_fail r d _ _ δ _ hexit hδ =>
    by_cases h3 : before.strikes + 1 ≥ MAX_STRIKES
    · rw [if_pos h3]
      trivial
    rw [if_neg h3]
    right
    obtain ⟨hfailed, o, ho, hd⟩ := hdoes.diagnosed (d := d) (by rw [hδ])
    refine ⟨by rw [hquiet (by simp)]; exact hwait, _, hlast, Or.inr ⟨by simp, o, d, ?_, hd, ?_⟩⟩
    · simp only [Visit.rejected_with, Visit.rejects, hfailed, if_true]
      exact ho
    · subst hδ
      rfl
  | git_idle => trivial
  | git_done => trivial
  | git_strike _ _ _ hpass =>
    by_cases h3 : before.strikes + 1 ≥ MAX_STRIKES
    · rw [if_pos h3]
      trivial
    rw [if_neg h3]
    right
    obtain ⟨hsome, hdiag⟩ := hwait
    refine ⟨by rw [hquiet (by simp)]; exact hsome, _, hlast, Or.inl ⟨rfl, ?_⟩⟩
    -- the pass charges a strike and leaves the diagnosis cleared
    unfold AgentState.diagnosis AgentState.update
    rw [hpass.validation_diagnosis, Option.none_or]
    exact hdiag
  | escalate => trivial
  | advance hδ =>
    subst hδ
    exact Or.inr hc

/-! ## Along a run -/

/-- **Diagnosis threading.**  In a fresh run on a real client, after any
    number of node executions, every call of `_run_agentic_loop` but the
    first was told what rejected the attempt before it exactly when no git
    pass sent the ticket back to the executor. -/
theorem diagnosis_threaded_iff (env : Env W) (api : RuntimeClient W)
    (hreal : env.get_runtime_client = .ok (.RuntimeClient api)) (s : AgentState) (hs : Fresh s)
    (w : W) (n : Nat) :
    DiagnosisThreaded (ainvoke env n s w).1 ↔
      Past (fun pre v => ¬v.retries_git pre) (ainvoke env n s w).1 := by
  have hmock : env.isMock = false := by simp [Env.isMock, hreal, Client.isMock]
  have hexecuted := ainvoke_executed env s w n
  -- what the executor will be told, and every execution told right so far
  have key : (∀ v ∈ (ainvoke env n s w).1, v.Executed env) →
      Waiting (ainvoke env n s w).2.pc (ainvoke env n s w).2.state (ainvoke env n s w).1 ∧
      Past (fun pre v => v.Threaded pre ↔ ¬v.retries_git pre) (ainvoke env n s w).1 := by
    apply fresh_invariant hs (P := fun h c => (∀ v ∈ h, v.Executed env) →
      Waiting c.pc c.state h ∧ Past (fun pre v => v.Threaded pre ↔ ¬v.retries_git pre) h)
    · intro _
      exact ⟨rfl, past_nil⟩
    · intro h c v c' hP hst hc hmove hex
      obtain ⟨hwait, hpast⟩ := hP fun u hu => hex u (List.mem_append_left _ hu)
      rw [hst.pc, ← hst.before] at hwait
      have hdoes := hst.does
      rw [← hst.before] at hdoes
      have hcalled : v.node = .executor →
          Called (MAX_STRIKES - v.before.strikes).toNat v.events := by
        intro hnode
        obtain ⟨w', hevents, -⟩ := hex v (by simp)
        rw [hevents, hnode]
        exact executor_node_called env hreal v.before w'
      -- the executor is entered with a strike left, so it calls the loop
      have hleft : v.node = .executor → ∃ k, (MAX_STRIKES - v.before.strikes).toNat = k + 1 := by
        intro hnode
        rw [hnode] at hc
        have := hc.2
        exact ⟨(MAX_STRIKES - v.before.strikes).toNat - 1, by omega⟩
      constructor
      · apply waiting_move hmove hdoes hmock hc _ hwait
        intro hnode
        obtain ⟨k, hk⟩ := hleft hnode
        exact (hcalled hnode).called (by omega)
      · apply hpast.snoc
        by_cases hnode : v.node = .executor
        · obtain ⟨k, hk⟩ := hleft hnode
          have hcalled' := hcalled hnode
          rw [hnode] at hdoes hwait
          rw [hk] at hcalled'
          exact threaded_iff hnode (hdoes.budgeted hreal) hcalled' hwait
        · refine iff_of_true (Visit.Threaded.quiet (hmove.quiet hnode)) ?_
          intro hgit
          exact hnode hgit.1
  have hpast := (key hexecuted).2
  constructor
  · intro hthreaded pre v post heq
    exact (hpast pre v post heq).mp (hthreaded pre v post heq)
  · intro hgit pre v post heq
    exact (hpast pre v post heq).mpr (hgit pre v post heq)

end runs

section small
attribute [local instance] Unicode.ascii

/-- Two attempts that the verification rejects, and none after a git pass:
    what the verification said is passed on. -/
theorem diagnosis_threaded_iff_unverifiable :
    attempts (ainvoke unverifiable 15
        { active_ticket := some (small_ticket ["a.py"]) } false).1 = 2 ∧
      DiagnosisThreaded (ainvoke unverifiable 15
        { active_ticket := some (small_ticket ["a.py"]) } false).1 :=
  ⟨by decide +kernel, (diagnosis_threaded_iff unverifiable _ rfl
    { active_ticket := some (small_ticket ["a.py"]) } ⟨rfl, rfl, rfl⟩ false 15).mpr
      (by decide +kernel)⟩

/-- Everything works but the commit. -/
def uncommittable : Env Bool :=
  small_env (.RuntimeClient (small_repo fun command => (lit "git commit").isPrefixOf command))

/-- A ticket for it, as far as the second attempt. -/
def uncommittable_run : List (Visit Bool) :=
  (ainvoke uncommittable 7 { active_ticket := some (small_ticket ["a.py"]) } false).1

/-- The attempt behind a failed commit is told nothing. -/
theorem diagnosis_not_threaded : ¬DiagnosisThreaded uncommittable_run := by
  intro hthreaded
  have hseventh : (uncommittable_run[6]?.map fun v => (feedbacks v.events)[0]?) =
      some (some none) := by
    decide +kernel
  have hsixth : attempts (uncommittable_run.take 6) ≠ 0 := by decide +kernel
  obtain ⟨v, hv, hcall⟩ := Option.map_eq_some_iff.mp hseventh
  obtain ⟨hlt, hget⟩ := List.getElem?_eq_some_iff.mp hv
  have hsplit : uncommittable_run =
      uncommittable_run.take 6 ++ v :: uncommittable_run.drop 7 := by
    rw [← hget, List.getElem_cons_drop, List.take_append_drop]
  have htold := (hthreaded _ v _ hsplit).first none hcall hsixth
  simp at htold

end small

end Syndicate
