import Syndicate.Session
import Syndicate.Audit

/-! # The size of the ledger

    `advance` joins the log as it is: a summary is as long as the lines it
    is made of, and those quote the model's summaries, the commands'
    outputs and, in a commit message, the log itself.  So no bound on the
    summaries follows from the program alone (`summaries_unbounded`).  With
    a bound on the texts that come from outside there is one, since a ticket
    takes at most fifteen node executions (`ledger_bounded`). -/

namespace Syndicate

open Py Framework

variable {W : Type}

/-! ## Texts from outside -/

/-- A command's answer of bounded length. -/
structure ActionResult.Within (M : Nat) (r : ActionResult) : Prop where
  output : r.output.length ≤ M
  exit_code : (str_int r.exit_code).length ≤ M

instance (M : Nat) (r : ActionResult) : Decidable (r.Within M) :=
  decidable_of_iff (r.output.length ≤ M ∧ (str_int r.exit_code).length ≤ M)
    ⟨fun h => ⟨h.1, h.2⟩, fun h => ⟨h.output, h.exit_code⟩⟩

/-- The answers the sandbox gave. -/
def answers (es : List (Event W)) : List ActionResult :=
  es.filterMap fun
    | .run_action _ _ _ (.ok r) _ => some r
    | _ => none

theorem answered {es : List (Event W)} {cwd : PyVal} {command : PyStr} {w w' : W}
    {r : ActionResult} (h : ran cwd command w r w' ∈ es) : r ∈ answers es :=
  List.mem_filterMap.mpr ⟨_, h, rfl⟩

section texts
variable [Unicode]

/-- The head of a commit message. -/
def commit_head (ticket : Dict) : PyStr :=
  lit "[" ++ str ((ticket_id ticket).or (.str (lit "TICKET"))) ++ lit "] " ++
    str (((ticket.get "intent").or (ticket.get "title")).or (.str (lit "update"))) ++ lit "\n\n"

/-- What a git pass quotes of a ticket. -/
def quoted_texts (ticket : Dict) : List PyStr :=
  [commit_head ticket, Py.repr (declared_files ticket)] ++
    match quote_paths (declared_files ticket) with
    | .ok paths => [join (lit " ") paths]
    | .error _ => []

/-- The texts from outside that a visit can write to the log have at most
    `M` characters: the model's summaries, the answers to fast checks and to
    git commands, and what a git pass quotes of the ticket. -/
structure Visit.TextsWithin (M : Nat) (v : Visit W) : Prop where
  summaries : ∀ summary ∈ summaries v.events, summary.length ≤ M
  checks : ∀ r ∈ checks v.events, r.Within M
  commands : v.node = .oversight_git → ∀ r ∈ answers v.events, r.Within M
  ticket : v.node = .oversight_git → ∀ text ∈ quoted_texts v.before.ticket, text.length ≤ M

instance (M : Nat) (v : Visit W) : Decidable (v.TextsWithin M) :=
  decidable_of_iff
    ((∀ summary ∈ summaries v.events, summary.length ≤ M) ∧ (∀ r ∈ checks v.events, r.Within M) ∧
      (v.node = .oversight_git → ∀ r ∈ answers v.events, r.Within M) ∧
      (v.node = .oversight_git → ∀ text ∈ quoted_texts v.before.ticket, text.length ≤ M))
    ⟨fun h => ⟨h.1, h.2.1, h.2.2.1, h.2.2.2⟩,
      fun h => ⟨h.summaries, h.checks, h.commands, h.ticket⟩⟩

/-! ## How much a visit adds to the log -/

/-- A commit message is its head and the log. -/
theorem length_commit_message_le (ticket : Dict) (log : List PyStr) :
    (commit_message ticket log).length ≤ (commit_head ticket).length + joined_size log + 11 := by
  have hbody : (if log.isEmpty then lit "no attempts" else join (lit "; ") log).length ≤
      joined_size log + 11 := by
    split
    · exact Nat.le_add_left 11 _
    · have := length_join_le (show (lit "; ").length ≤ 2 from Nat.le_refl 2) log
      omega
  have hsplit : commit_message ticket log =
      commit_head ticket ++ if log.isEmpty then lit "no attempts" else join (lit "; ") log := rfl
  rw [hsplit, List.length_append]
  omega

theorem length_repr_head_le {M : Nat} {r : ActionResult} (hr : r.Within M) :
    (repr_head (head_of r)).length ≤ 10 * M + 4 := by
  unfold head_of
  split
  · have hrepr := length_repr_str_le (strip r.output)
    have hstrip := length_strip_le r.output
    have hout := hr.output
    simp only [repr_head]
    omega
  · exact Nat.le_add_left 4 _

omit [Unicode] in
theorem length_git_line_le {M k : Nat} {command : PyStr} {r : ActionResult} (hr : r.Within M)
    (hc : command.length ≤ k) : (git_line command r).length ≤ k + 2 * M + 9 := by
  have hout := hr.output
  have hexit := hr.exit_code
  simp only [git_line, List.length_append]
  have h₁ : (lit "$ ").length = 2 := rfl
  have h₂ : (lit "\nexit=").length = 6 := rfl
  have h₃ : (lit "\n").length = 1 := rfl
  omega

/-- No command of a pass is much longer than the log it commits. -/
theorem length_command_le {M : Nat} {s : AgentState} {command : PyStr}
    (hc : command ∈ setup_commands ∨ IsCommit s command)
    (htexts : ∀ text ∈ quoted_texts s.ticket, text.length ≤ M) :
    command.length ≤ 5 * joined_size s.log + 5 * M + 75 := by
  rcases hc with hsetup | rfl | ⟨paths, hpaths, rfl⟩ | rfl
  · have hall : ∀ c ∈ setup_commands, c.length ≤ 75 := by decide
    have := hall command hsetup
    omega
  · have hlen : git_head.length = 18 := rfl
    omega
  · have hjoin : (join (lit " ") paths).length ≤ M := by
      apply htexts
      unfold quoted_texts
      rw [hpaths]
      simp
    have hlen : (lit "git add -- ").length = 11 := rfl
    rw [git_add, List.length_append]
    omega
  · have hhead : (commit_head s.ticket).length ≤ M := htexts _ (by simp [quoted_texts])
    have hmessage := length_commit_message_le s.ticket s.log
    have hquote := length_shlex_quote_le (commit_message s.ticket s.log)
    have hlen : (lit "git commit -m ").length = 14 := rfl
    rw [git_commit, List.length_append]
    omega

/-- No line of a pass is much longer than the log it commits. -/
theorem PassLine.length_le {M : Nat} {s : AgentState} {es : List (Event W)} {line : PyStr}
    (h : PassLine s es line) (htexts : ∀ text ∈ quoted_texts s.ticket, text.length ≤ M)
    (hresults : ∀ r ∈ answers es, r.Within M) :
    line.length + 2 ≤ 5 * joined_size s.log + 25 * M + 300 := by
  have hfiles : (Py.repr (declared_files s.ticket)).length ≤ M :=
    htexts _ (by simp [quoted_texts])
  cases h with
  | command hc hran =>
    have := length_git_line_le (hresults _ (answered hran)) (length_command_le hc htexts)
    omega
  | add_failed =>
    have hlen : (strike_line Syndicate.add_failed).length ≤ 100 := by decide
    omega
  | commit_failed hran =>
    have hexit := (hresults _ (answered hran)).exit_code
    have hfixed : (lit "oversight_git: ").length + (lit "git commit failed (exit=").length +
        (lit "); declared ").length + (lit "files_changed=").length +
        (lit " produced no commit").length ≤ 100 := by decide
    simp only [strike_line, Syndicate.commit_failed, List.length_append]
    omega
  | head_unmoved hb hh =>
    have hbefore := length_repr_head_le (hresults _ (answered hb))
    have hafter := length_repr_head_le (hresults _ (answered hh))
    have hfixed : (lit "oversight_git: ").length +
        (lit "git commit exited 0 but HEAD did not move (before=").length + (lit ", ").length +
        (lit "after=").length + (lit "); declared files_changed=").length +
        (lit " showed no changes").length ≤ 200 := by decide
    simp only [strike_line, Syndicate.head_unmoved, List.length_append]
    omega

/-- What an attempt of the executor logs. -/
theorem attempt_lines_size_le {M : Nat} {strike : Int} {as : List Attempt}
    (hstrike : 0 ≤ strike) (hlen : strike + as.length ≤ MAX_STRIKES)
    (hsummaries : ∀ a ∈ as, a.summary.length ≤ M) (hchecks : ∀ a ∈ as, a.check.Within M) :
    joined_size (attempt_lines strike as) ≤ as.length * (25 * M + 100) := by
  induction as generalizing strike with
  | nil => exact Nat.zero_le _
  | cons a as ih =>
    have hrest := ih (show 0 ≤ strike + 1 by omega)
      (by simp only [List.length_cons] at hlen; omega)
      (fun b hb => hsummaries b (List.mem_cons_of_mem a hb))
      (fun b hb => hchecks b (List.mem_cons_of_mem a hb))
    have hsummary := hsummaries a List.mem_cons_self
    obtain ⟨hout, hexit⟩ := hchecks a List.mem_cons_self
    have hnum : (str_int (strike + 1)).length = 1 := by
      have h3 : strike + 1 = 1 ∨ strike + 1 = 2 ∨ strike + 1 = 3 := by
        simp only [List.length_cons, MAX_STRIKES] at hlen
        omega
      rcases h3 with h | h | h <;> rw [h] <;> rfl
    have hrepr := length_repr_str_le a.summary
    have hrepr' := length_repr_str_le a.check.output
    have hfixed : (lit "strike=").length + (lit " summary=").length + (lit "strike=").length +
        (lit " fast_check exit_code=").length + (lit " output=").length ≤ 60 := by decide
    rw [attempt_lines, List.length_cons, Nat.add_mul, Nat.one_mul]
    simp only [joined_size, List.map_cons, List.sum_cons, summary_line, fast_check_line,
      List.length_append] at hrest ⊢
    omega

theorem dummy_lines_size_le : joined_size (DUMMY_ACTIONS.map dummy_line) ≤ 1400 := by
  have hline : ∀ action : PyStr, action.length ≤ 20 → (dummy_line action).length + 2 ≤ 700 := by
    intro action hlen
    have hrepr := length_repr_str_le action
    have hrepr' := length_repr_str_le (lit "[mock] " ++ action)
    have hfixed : (lit "action=").length + (lit " exit_code=").length + (str_int 0).length +
        (lit " output=").length ≤ 40 := by decide
    have hmock : (lit "[mock] ").length = 7 := rfl
    rw [List.length_append] at hrepr'
    simp only [dummy_line, action_line, List.length_append]
    omega
  have hparts : ∀ part ∈ DUMMY_ACTIONS.map dummy_line, part.length + 2 ≤ 700 := by
    intro part hpart
    obtain ⟨action, haction, rfl⟩ := List.mem_map.mp hpart
    have hall : ∀ action ∈ DUMMY_ACTIONS, action.length ≤ 20 := by decide
    exact hline action (hall action haction)
  have hlines := joined_size_le hparts
  simpa [DUMMY_ACTIONS] using hlines

/-! ## How much a visit adds -/

/-- A bound on the log after `k` visits. -/
def reach (M : Nat) : Nat → Nat
  | 0 => 0
  | k + 1 => 46 * reach M k + 225 * M + 2700

omit [Unicode] in
theorem reach_mono {M k k' : Nat} (h : k ≤ k') : reach M k ≤ reach M k' := by
  induction h with
  | refl => exact Nat.le_refl _
  | step _ ih =>
    simp only [reach]
    omega

/-- A visit writes at most what the bound allows for it. -/
theorem visit_grows {env : Env W} {v : Visit W} {δ : AgentState} {M : Nat}
    (hdoes : Does env v.before v.node v.events (.ok δ)) (hr : v.result = .ok δ)
    (hex : v.Executed env) (hc : Control env (.at v.node) v.before) (hv : v.TextsWithin M) :
    joined_size (v.before.update δ).log ≤ 46 * joined_size v.before.log + 225 * M + 2700 := by
  rw [AgentState.update_log]
  -- `advance` empties the log, and two nodes write to it
  by_cases hadv : v.node = .advance
  · rw [hadv] at hdoes
    rw [hdoes.advance_eq]
    exact Nat.zero_le _
  rcases hdoes.attempt_log hadv with hnone | ⟨hn | hn, -⟩
  · rw [hnone, Option.getD_none]
    omega
  · -- the executor: two lines for each of three attempts at most
    obtain ⟨node, before, events, result⟩ := v
    simp only at hn hdoes hc hv ⊢
    subst hn
    cases hdoes with
    | executor_mock =>
      have := dummy_lines_size_le
      rw [Option.getD_some, joined_size_append]
      omega
    | @executor_real _ _ as _ _ _ hrec hend =>
      obtain ⟨h0, h3⟩ := hc
      have hlen := hend.length_le
      have hsummaries : ∀ a ∈ as, a.summary.length ≤ M := by
        intro a ha
        apply hv.summaries
        show a.summary ∈ summaries events
        rw [hrec.summaries]
        exact List.mem_map_of_mem ha
      have hchecks : ∀ a ∈ as, a.check.Within M := by
        intro a ha
        apply hv.checks
        show a.check ∈ checks events
        rw [hrec.checks]
        exact List.mem_map_of_mem ha
      have hsize := attempt_lines_size_le h0 (by omega) hsummaries hchecks
      have has : as.length * (25 * M + 100) ≤ 3 * (25 * M + 100) := by
        apply Nat.mul_le_mul_right
        unfold MAX_STRIKES at h3 hlen
        omega
      rw [hend.attempt_log, Option.getD_some, joined_size_append]
      omega
  · -- the git pass: nine lines, each one a little longer than the log
    obtain ⟨w, hevents, hres⟩ := hex
    have hcommands := hv.commands hn
    have hlogs := oversight_git_node_logs env v.before w
    rw [hn] at hevents hres
    rw [hevents] at hcommands
    obtain ⟨lines, hlog, hlen, hline⟩ := hlogs δ (hres.symm.trans hr)
    have hsize := joined_size_le fun line h => (hline line h).length_le (hv.ticket hn) hcommands
    have hnine := Nat.mul_le_mul_right (5 * joined_size v.before.log + 25 * M + 300) hlen
    rw [hlog, Option.getD_some, joined_size_append]
    omega

/-! ## A ticket -/

/-- The summaries a ticket has added to the ledger when its run stands at
    `pc`: none before `advance`, one at most behind it, where the log is
    empty again. -/
def Compressed (pc : Pc) (s : AgentState) (new : List DecisionSummary) : Prop :=
  match pc with
  | .at .analyzer | .at .architect => new = [] ∧ s.log = []
  | .at .dispatch => s.log = [] ∧ new.length ≤ 1 ∧ (new = [] ∨ Settled s)
  | .END => s.log = [] ∧ new.length ≤ 1
  | .at .executor | .at .validator | .at .oversight_git | .at .escalate | .at .advance => new = []
  | .raised _ => new = [] ∨ (s.log = [] ∧ new.length ≤ 1)

omit [Unicode] in
/-- A summary is one more entry, or the log that is still to be summed up. -/
theorem Compressed.entries {pc : Pc} {s : AgentState} {new : List DecisionSummary}
    (h : Compressed pc s new) : new.length + (if s.log = [] then 0 else 1) ≤ 1 := by
  have hempty : s.log = [] ∧ new.length ≤ 1 → new.length + (if s.log = [] then 0 else 1) ≤ 1 := by
    intro ⟨hlog, hlen⟩
    simpa [hlog] using hlen
  have hnone : new = [] → new.length + (if s.log = [] then 0 else 1) ≤ 1 := by
    rintro rfl
    split <;> simp
  rcases pc with n | _ | e
  · cases n with
    | dispatch => exact hempty ⟨h.1, h.2.1⟩
    | analyzer | architect => exact hnone h.1
    | executor | validator | oversight_git | escalate | advance => exact hnone h
  · exact hempty h
  · rcases h with h | h
    · exact hnone h
    · exact hempty h

/-- A ticket's run so far, in numbers. -/
structure Growth (M : Nat) (s₀ : AgentState) (h : List (Visit W)) (c : Config W) : Prop where
  log : joined_size c.state.log ≤ reach M h.length
  ledger : ∃ new, c.state.ledger = s₀.ledger ++ new ∧ Compressed c.pc c.state new ∧
    ∀ d ∈ new, d.summary.length ≤ reach M h.length + 11
  started : c.pc = .at .analyzer ∨ 1 ≤ executions .analyzer h

omit [Unicode] in
/-- A node that leaves the ledger. -/
theorem ledger_kept {s δ : AgentState} (h : δ.decision_ledger = none) :
    (s.update δ).ledger = s.ledger := by
  unfold AgentState.ledger AgentState.update
  rw [h, Option.none_or]

theorem compressed_move {env : Env W} {s s' : AgentState} {n : Node} {es : List (Event W)}
    {r : Except PyExc AgentState} {pc' : Pc} {L new : List DecisionSummary}
    (h : Move env s n es r s' pc') (hc : Control env (.at n) s) (hledger : s.ledger = L ++ new)
    (hnew : Compressed (.at n) s new) :
    ∃ new', s'.ledger = L ++ new' ∧ Compressed pc' s' new' ∧
      ∀ d ∈ new', d ∈ new ∨ d = distil s.log := by
  -- what holds of a node that leaves the ledger
  have hkeep : ∀ t, t.ledger = s.ledger → Compressed pc' t new →
      ∃ new', t.ledger = L ++ new' ∧ Compressed pc' t new' ∧
        ∀ d ∈ new', d ∈ new ∨ d = distil s.log := by
    intro t ht hpc
    exact ⟨new, ht.trans hledger, hpc, fun d hd => Or.inl hd⟩
  cases h with
  | raised =>
    apply hkeep _ rfl
    cases n with
    | dispatch => exact Or.inr ⟨hnew.1, hnew.2.1⟩
    | analyzer | architect => exact Or.inl hnew.1
    | executor | validator | oversight_git | escalate | advance => exact Or.inl hnew
  | analyzer => exact hkeep _ (ledger_kept rfl) ⟨hnew.1, by simpa using hnew.2⟩
  | architect =>
    have hlen : new.length ≤ 1 := by simp [hnew.1]
    exact hkeep _ (ledger_kept rfl) ⟨by simpa using hnew.2, hlen, Or.inl hnew.1⟩
  | dispatch_end => exact hkeep _ rfl ⟨hnew.1, hnew.2.1⟩
  | dispatch_executor hrouter =>
    apply hkeep _ rfl
    rcases hnew.2.2 with hnone | hsettled
    · exact hnone
    · rw [hsettled.dispatch_router] at hrouter
      cases hrouter
  | executor_mock _ _ _ hδ => exact hkeep _ (ledger_kept (by rw [hδ])) hnew
  | executor_real _ _ _ hend => exact hkeep _ (ledger_kept hend.confined.decision_ledger) hnew
  | validator_mock _ hδ => exact hkeep _ (ledger_kept (by rw [hδ])) hnew
  | validator_pass _ _ hδ => exact hkeep _ (ledger_kept (by rw [hδ])) hnew
  | validator_fail _ _ hδ =>
    apply hkeep _ (ledger_kept (by rw [hδ]))
    split <;> exact hnew
  | git_idle _ _ _ hpass => exact hkeep _ (ledger_kept hpass.confined.decision_ledger) hnew
  | git_done _ _ _ hpass => exact hkeep _ (ledger_kept hpass.confined.decision_ledger) hnew
  | git_strike _ _ _ hpass =>
    apply hkeep _ (ledger_kept hpass.confined.decision_ledger)
    split <;> exact hnew
  | escalate hδ => exact hkeep _ (ledger_kept (by rw [hδ]; rfl)) hnew
  | advance hδ =>
    have hnone : new = [] := hnew
    subst hδ hnone
    refine ⟨[distil s.log], ?_, ⟨rfl, Nat.le_refl 1, Or.inr hc⟩, ?_⟩
    · rw [List.append_nil] at hledger
      rw [← hledger]
      rfl
    · intro d hd
      exact Or.inr (List.mem_singleton.mp hd)

omit [Unicode] in
theorem length_distil_le (log : List PyStr) :
    (distil log).summary.length ≤ joined_size log + 11 := by
  have hjoin := length_join_le (show (lit "; ").length ≤ 2 from Nat.le_refl 2) log
  by_cases hempty : log.isEmpty
  · rw [distil, if_pos hempty]
    exact Nat.le_add_left 11 _
  · rw [distil, if_neg hempty]
    exact Nat.le_trans hjoin (Nat.le_add_right _ 11)

theorem growth_step {env : Env W} {M : Nat} {s₀ : AgentState} {h : List (Visit W)} {c c' : Config W}
    {v : Visit W} (hg : Growth M s₀ h c) (hst : Stepped env c v c')
    (hc : Control env (.at v.node) v.before)
    (hmove : Move env v.before v.node v.events v.result c'.state c'.pc) (hex : v.Executed env)
    (hv : v.TextsWithin M) : Growth M s₀ (h ++ [v]) c' := by
  obtain ⟨hlog, ⟨new, hledger, hnew, hsize⟩, hstarted⟩ := hg
  rw [hst.pc, ← hst.before] at hnew
  rw [← hst.before] at hlog hledger
  have hmono : reach M h.length ≤ reach M (h ++ [v]).length :=
    reach_mono (by rw [List.length_append]; omega)
  obtain ⟨new', hledger', hnew', hfrom⟩ := compressed_move hmove hc hledger hnew
  refine ⟨?_, ⟨new', hledger', hnew', ?_⟩, ?_⟩
  · cases hr : v.result with
    | error e =>
      rw [(hst.error e hr).1, ← hst.before]
      omega
    | ok δ =>
      have hdoes := hst.does
      rw [hr, ← hst.before] at hdoes
      have hgrow := visit_grows hdoes hr hex hc hv
      rw [(hst.ok δ hr).1, ← hst.before, List.length_append, List.length_singleton, reach]
      omega
  · -- the summary that `advance` adds is as long as the log it is made of
    intro d hd
    rcases hfrom d hd with hold | rfl
    · have := hsize d hold
      omega
    · have := length_distil_le v.before.log
      omega
  · right
    rw [executions_append, executions_singleton]
    rcases hstarted with hentry | hsome
    · have hnode : v.node = .analyzer := by simpa [hst.pc] using hentry
      rw [if_pos hnode]
      omega
    · omega

theorem ainvoke_growth {env : Env W} {M : Nat} {s : AgentState} (hs : Fresh s) (hlog : s.log = [])
    (w : W) (n : Nat) (htexts : ∀ v ∈ (ainvoke env n s w).1, v.TextsWithin M) :
    Growth M s (ainvoke env n s w).1 (ainvoke env n s w).2 := by
  have key : (∀ v ∈ (ainvoke env n s w).1, v.Executed env ∧ v.TextsWithin M) →
      Growth M s (ainvoke env n s w).1 (ainvoke env n s w).2 := by
    apply fresh_invariant hs (P := fun h c => (∀ v ∈ h, v.Executed env ∧ v.TextsWithin M) →
      Growth M s h c)
    · intro _
      refine ⟨?_, ⟨[], (List.append_nil _).symm, ⟨rfl, hlog⟩, by simp⟩, Or.inl rfl⟩
      show joined_size s.log ≤ 0
      rw [hlog]
      exact Nat.le_refl 0
    · intro h c v c' hP hst hc hmove hall
      have hg := hP fun u hu => hall u (List.mem_append_left _ hu)
      obtain ⟨hex, hv⟩ := hall v (by simp)
      exact growth_step hg hst hc hmove hex hv
  exact key fun v hv => ⟨ainvoke_executed env s w n v hv, htexts v hv⟩

/-! ## A session of tickets -/

/-- The caller hands the next ticket in when the one before is over, and
    keeps the ledger and the log. -/
structure HandsIn (pc : Pc) (s s' : AgentState) : Prop where
  ended : pc = .END
  fresh : Fresh s'
  decision_ledger : s'.decision_ledger = s.decision_ledger
  attempt_log : s'.attempt_log = s.attempt_log

omit [Unicode] in
/-- The characters of the ledger and of the log. -/
def kept_size (s : AgentState) : Nat :=
  (s.ledger.map (·.summary.length)).sum + (s.log.map List.length).sum

/-- The bound on a summary, for texts of at most `M` characters. -/
def summary_bound (M : Nat) : Nat := reach M 15 + 11

/-- A session so far, in numbers. -/
structure SessionGrowth (M : Nat) (h : List (Visit W)) (pc : Pc) (s : AgentState) : Prop where
  summaries : ∀ d ∈ s.ledger, d.summary.length ≤ summary_bound M
  log : joined_size s.log ≤ summary_bound M
  ended : pc = .END → s.log = []
  entries : s.ledger.length + (if s.log = [] then 0 else 1) ≤ executions .analyzer h

theorem session_growth {M : Nat} {max_escalations : Int} {s₀ s : AgentState} {h : List (Visit W)}
    {pc : Pc} (hledger : s₀.ledger = []) (hlog : s₀.log = [])
    (hsession : Session max_escalations HandsIn s₀ h pc s) (htexts : ∀ v ∈ h, v.TextsWithin M) :
    SessionGrowth M h pc s := by
  induction hsession with
  | start =>
    refine ⟨?_, ?_, fun _ => hlog, ?_⟩
    · rw [hledger]
      simp
    · rw [hlog]
      exact Nat.zero_le _
    · rw [hledger, hlog]
      simp
  | @invoke h pc s s' env _ hset _ w n ih =>
    obtain ⟨hsummaries, -, hover, hentries⟩ := ih fun v hv => htexts v (List.mem_append_left _ hv)
    -- the ticket before has been filed, so this one starts from an empty log
    have hempty : s.log = [] := hover hset.ended
    have hlog' : s'.log = [] := by
      rw [AgentState.log, hset.attempt_log]
      exact hempty
    have hledger' : s'.ledger = s.ledger := by
      rw [AgentState.ledger, hset.decision_ledger, AgentState.ledger]
    have hg := ainvoke_growth (M := M) hset.fresh hlog' w n
      fun v hv => htexts v (List.mem_append_right _ hv)
    obtain ⟨new, hnew, hpc, hsize⟩ := hg.ledger
    have h15 : reach M (ainvoke env n s' w).1.length ≤ reach M 15 :=
      reach_mono (ainvoke_length hset.fresh w n)
    have hsum := hpc.entries
    have hgrown := hg.log
    refine ⟨?_, ?_, ?_, ?_⟩
    · rw [hnew, hledger']
      intro d hd
      rcases List.mem_append.mp hd with hold | hadded
      · exact hsummaries d hold
      · have := hsize d hadded
        unfold summary_bound
        omega
    · unfold summary_bound
      omega
    · intro hend
      rw [hend] at hpc
      exact hpc.1
    · rw [hnew, hledger', List.length_append, executions_append]
      rw [hempty, if_pos rfl] at hentries
      -- a run that never reached the analyzer has added no entry
      rcases hg.started with hentry | hsome
      · rw [hentry] at hpc
        obtain ⟨hnone, hlog''⟩ : new = [] ∧ (ainvoke env n s' w).2.state.log = [] := hpc
        rw [hnone, hlog'', if_pos rfl, List.length_nil]
        omega
      · omega

omit [Unicode] in
/-- As many characters as entries allow. -/
theorem kept_size_le {s : AgentState} {B : Nat} (hsummaries : ∀ d ∈ s.ledger, d.summary.length ≤ B)
    (hlog : joined_size s.log ≤ B) :
    kept_size s ≤ (s.ledger.length + if s.log = [] then 0 else 1) * B := by
  have hledger : (s.ledger.map (·.summary.length)).sum ≤ s.ledger.length * B := by
    have hall : ∀ k ∈ s.ledger.map (·.summary.length), k ≤ B := by
      intro k hk
      obtain ⟨d, hd, rfl⟩ := List.mem_map.mp hk
      exact hsummaries d hd
    simpa using List.sum_le_card_nsmul _ _ hall
  unfold kept_size
  rw [Nat.add_mul]
  by_cases hempty : s.log = []
  · rw [hempty]
    simpa using hledger
  · have hsum : (s.log.map List.length).sum ≤ joined_size s.log :=
      List.sum_le_sum fun line _ => Nat.le_add_right line.length 2
    rw [if_neg hempty]
    omega

/-- **Compression, for bounded texts.**  Where every text that comes from
    outside has at most `M` characters, a bound on the summaries depends on
    nothing else: not on the number of tickets, nor on the attempts made for
    them.  What is kept after a number of tickets is at most as many times
    that bound. -/
theorem ledger_bounded (M : Nat) (max_escalations : Int) (s₀ s : AgentState) (h : List (Visit W))
    (pc : Pc) (hledger : s₀.ledger = []) (hlog : s₀.log = [])
    (hsession : Session max_escalations HandsIn s₀ h pc s) (htexts : ∀ v ∈ h, v.TextsWithin M) :
    (∀ d ∈ s.ledger, d.summary.length ≤ summary_bound M) ∧
      kept_size s ≤ executions .analyzer h * summary_bound M := by
  have hgrowth := session_growth hledger hlog hsession htexts
  refine ⟨hgrowth.summaries, ?_⟩
  calc kept_size s
      ≤ (s.ledger.length + if s.log = [] then 0 else 1) * summary_bound M :=
        kept_size_le hgrowth.summaries hgrowth.log
    _ ≤ executions .analyzer h * summary_bound M :=
        Nat.mul_le_mul_right (summary_bound M) hgrowth.entries

end texts

section small
attribute [local instance] Unicode.ascii

/-- A sandbox where every command succeeds and prints `text`. -/
def verbose (text : PyStr) : Env Unit where
  get_runtime_client := .ok (.RuntimeClient {
    run_action := fun _ _ _ w => (.ok ⟨0, text⟩, w)
    read_file := fun _ w => (.error ⟨.FileNotFoundError, []⟩, w)
    write_file := fun _ _ w => (.ok (), w)
    edit_file := fun _ _ _ w => (.ok (), w) })
  get_llm_client := fun _ w => (.ok (), w)
  messages_create := fun _ w => (.ok ⟨[], lit "end_turn"⟩, w)
  json_loads := fun _ => .ok (.dict [])
  MAX_ESCALATIONS := 3

/-- The stub ticket, with short texts. -/
theorem ledger_bounded_stub :
    (∀ d ∈ (ainvoke (verbose (lit "ok")) 8 {} ()).2.state.ledger,
        d.summary.length ≤ summary_bound 100) ∧
      kept_size (ainvoke (verbose (lit "ok")) 8 {} ()).2.state ≤
        executions .analyzer ([] ++ (ainvoke (verbose (lit "ok")) 8 {} ()).1) * summary_bound 100 := by
  have hsession := @Session.invoke Unit _ 3 HandsIn {} [] .END {} {} (verbose (lit "ok")) .start
    ⟨rfl, ⟨rfl, rfl, rfl⟩, rfl, rfl⟩ rfl () 8
  exact ledger_bounded 100 3 {} _ _ _ rfl rfl hsession (by decide +kernel)

/-- What its git pass logs. -/
def verbose_pass (text : PyStr) : List PyStr :=
  [git_is_repo, git_user_name, git_user_email].map fun command => git_line command ⟨0, text⟩

/-- One ticket is enough: the summary quotes what the commands print. -/
theorem summaries_unbounded :
    ¬∃ B, ∀ (env : Env Unit) (n : Nat), ∀ d ∈ (ainvoke env n {} ()).2.state.ledger,
      d.summary.length ≤ B := by
  intro ⟨B, hB⟩
  let text : PyStr := List.replicate (B + 1) (0 : CodePoint)
  have hlog : (ainvoke (verbose text) 6 {} ()).2.state.log =
      [summary_line 1 [], fast_check_line 1 ⟨0, lit "fast checks passed"⟩] ++ verbose_pass text :=
    rfl
  have hledger : (ainvoke (verbose text) 7 {} ()).2.state.ledger =
      (ainvoke (verbose text) 6 {} ()).2.state.ledger ++
        [distil (ainvoke (verbose text) 6 {} ()).2.state.log] := rfl
  have hbound := hB (verbose text) 7 (distil (ainvoke (verbose text) 6 {} ()).2.state.log)
    (by rw [hledger]; simp)
  have hline : (git_line git_is_repo ⟨0, text⟩).length ≤
      (distil (ainvoke (verbose text) 6 {} ()).2.state.log).summary.length := by
    rw [hlog]
    exact length_le_join (by simp [verbose_pass]) (lit "; ")
  have htext : text.length ≤ (git_line git_is_repo ⟨0, text⟩).length := by
    simp only [git_line, List.length_append]
    omega
  have hlen : text.length = B + 1 := List.length_replicate
  omega

end small

end Syndicate
