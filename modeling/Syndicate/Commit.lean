import Syndicate.Spec.Control

/-! # Commit-gated completion

    `TruthfulGit` is what the code may believe of the sandbox's git: a look
    at `HEAD` tells the truth, and only a commit moves it; a commit may exit
    0 without acting.  Under it a real run ends `DONE` exactly when the
    commit of its last git pass moved `HEAD` (`completion_is_gated`).

    A cycle of a run is an executor run, its verification, and the git pass
    if the verification passed.  `Ends` says which cycle decided a run; every
    git pass acts on what its own cycle wrote (`OwnCycle`). -/

namespace Syndicate

open Py Framework

variable {W : Type}

/-! ## The sandbox's git -/

/-- What is assumed of git; `head cwd w` is the commit that `HEAD` names in
    world `w`, if it names one. -/
structure TruthfulGit (api : RuntimeClient W) (head : PyVal → W → Option PyStr) : Prop where
  rev_parse : ∀ cwd w r w', api.run_action (.str git_head) cwd none w = (.ok r, w') →
    head_of r = head cwd w ∧ head cwd w' = head cwd w
  add : ∀ paths cwd w r w', api.run_action (.str (git_add paths)) cwd none w = (.ok r, w') →
    head cwd w' = head cwd w
  commit_failed : ∀ message cwd w r w',
    api.run_action (.str (git_commit message)) cwd none w = (.ok r, w') → r.exit_code ≠ 0 →
    head cwd w' = head cwd w

/-- A commit after which `HEAD` names another commit than before. -/
def Event.moves_head (head : PyVal → W → Option PyStr) : Event W → Prop
  | .run_action (.str command) cwd pre _ post =>
    (lit "git commit").isPrefixOf command = true ∧
      head cwd post ≠ none ∧ head cwd post ≠ head cwd pre
  | _ => False

/-- Some commit among the events moved `HEAD`. -/
def MovesHead (head : PyVal → W → Option PyStr) (es : List (Event W)) : Prop :=
  ∃ e ∈ es, e.moves_head head

/-- The commit of a git pass moved `HEAD`. -/
def Visit.moves_head (head : PyVal → W → Option PyStr) (v : Visit W) : Prop :=
  v.node = .oversight_git ∧ MovesHead head v.events

/-- A verification of `ticket` that passed: its command exited 0. -/
def Visit.verifies (ticket : Dict) (v : Visit W) : Prop :=
  v.node = .validator ∧ ∃ w r w',
    .run_action (verification_command ticket) (workspace_dir ticket) w (.ok r) w' ∈ v.events ∧
      r.exit_code = 0

/-! ## What a git pass believes -/

section events
variable {head : PyVal → W → Option PyStr}

@[simp] theorem movesHead_nil : ¬MovesHead head [] := by
  simp [MovesHead]

@[simp] theorem movesHead_cons (e : Event W) (es : List (Event W)) :
    MovesHead head (e :: es) ↔ e.moves_head head ∨ MovesHead head es := by
  simp [MovesHead]

/-- The setup of a pass moves nothing. -/
theorem movesHead_setup {cwd : PyVal} {setup : List (Event W)}
    (h : ∀ e ∈ setup, IsSetup cwd e) (es : List (Event W)) :
    MovesHead head (setup ++ es) ↔ MovesHead head es := by
  constructor
  · intro ⟨e, he, hm⟩
    rcases List.mem_append.mp he with he | he
    · have hnone := (setup_stages_nothing h).1
      obtain ⟨command, -, pre, r, post, rfl⟩ := h e he
      exact absurd hm.1 (List.any_eq_false.mp hnone _ he)
    · exact ⟨e, he, hm⟩
  · intro ⟨e, he, hm⟩
    exact ⟨e, List.mem_append_right _ he, hm⟩

section commands
variable (cwd : PyVal) (w : W) (r : ActionResult) (w' : W)

/-! Of the commands of a pass only the commit can move `HEAD`. -/

@[simp] theorem head_moves_nothing : ¬(ran cwd git_head w r w').moves_head head := by
  intro hm
  exact absurd hm.1 (by decide)

@[simp] theorem add_moves_nothing (paths : List PyStr) :
    ¬(ran cwd (git_add paths) w r w').moves_head head := by
  have hne : (lit "git commit").isPrefixOf (git_add paths) = false := rfl
  simp [Event.moves_head, ran, hne]

@[simp] theorem commit_moves (message : PyStr) :
    (ran cwd (git_commit message) w r w').moves_head head ↔
      head cwd w' ≠ none ∧ head cwd w' ≠ head cwd w := by
  have hpre : (lit "git commit").isPrefixOf (git_commit message) = true := rfl
  simp [Event.moves_head, ran, hpre]

end commands

variable [Unicode]

/-- **A git pass believes the right commits**: it returns `DONE` exactly when
    its commit moved `HEAD`. -/
theorem GitPass.done_iff_moves {api : RuntimeClient W} (hgit : TruthfulGit api head)
    {s δ : AgentState} {cwd : PyVal} {setup es : List (Event W)} {git_log : List PyStr}
    (hsetup : ∀ e ∈ setup, IsSetup cwd e)
    (h : GitPass (.RuntimeClient api) s cwd setup git_log es δ) :
    δ.ticket_status = some .DONE ↔ MovesHead head es := by
  cases h with
  | no_files =>
    have hnone : MovesHead head (setup ++ []) ↔ MovesHead head [] := movesHead_setup hsetup []
    rw [List.append_nil] at hnone
    simp [hnone]
  | add_failed => simp [movesHead_setup hsetup, git_strike]
  | commit_failed _ _ _ _ _ hc hexit =>
    have hsame := hgit.commit_failed _ _ _ _ _ hc hexit
    simp [movesHead_setup hsetup, git_strike, hsame]
  | head_unmoved _ _ hb ha _ _ _ hh hexit =>
    obtain ⟨hbefore, hb'⟩ := hgit.rev_parse _ _ _ _ hb
    have ha' := hgit.add _ _ _ _ _ ha
    obtain ⟨hafter, -⟩ := hgit.rev_parse _ _ _ _ hh
    -- both looks at `HEAD` speak of the worlds around the commit
    rw [hafter, hbefore, ← hb', ← ha'] at hexit
    simp only [movesHead_setup hsetup, movesHead_cons, movesHead_nil, head_moves_nothing,
      add_moves_nothing, commit_moves, git_strike, false_or, or_false]
    rcases hexit with hexit | hexit <;> simp [hexit]
  | done _ _ hb ha _ _ _ hh hmoved =>
    obtain ⟨hbefore, hb'⟩ := hgit.rev_parse _ _ _ _ hb
    have ha' := hgit.add _ _ _ _ _ ha
    obtain ⟨hafter, -⟩ := hgit.rev_parse _ _ _ _ hh
    rw [hafter, hbefore, ← hb', ← ha'] at hmoved
    simp [movesHead_setup hsetup, hmoved]

end events

/-! ## The cycle that decides a run -/

/-- `x` is an executor run and `v` the verification behind it, of the ticket
    of `s`; it passed, and its verdict is the one in `s`. -/
structure Tried (s : AgentState) (x v : Visit W) : Prop where
  executor : x.node = .executor
  verified : v.verifies s.ticket
  verdict : s.last_validation_passed = v.verdict_written
  passed : v.verdict_written = some true
  not_done : x.status_written = some .LOCAL_PASS ∨ x.status_written = some .ESCALATED

/-- `Tried` sees the ticket and the verdict only. -/
theorem Tried.of_eq {s s' : AgentState} {x v : Visit W} (h : Tried s x v)
    (hticket : s'.ticket = s.ticket)
    (hverdict : s'.last_validation_passed = s.last_validation_passed) : Tried s' x v where
  executor := h.executor
  verified := by rw [hticket]; exact h.verified
  verdict := by rw [hverdict]; exact h.verdict
  passed := h.passed
  not_done := h.not_done

/-- Visits behind a cycle: they attempt nothing and decide nothing. -/
def Closing (rest : List (Visit W)) : Prop :=
  ∀ u ∈ rest, u.node = .advance ∨ u.node = .dispatch

theorem closing_nil : Closing ([] : List (Visit W)) := by
  intro u hu
  cases hu

/-- No git pass so far has moved `HEAD`. -/
def Unmoved (head : PyVal → W → Option PyStr) (h : List (Visit W)) : Prop :=
  ∀ u ∈ h, ¬u.moves_head head

/-- What decided a run that stands in state `s` with history `h`. -/
inductive Ends (head : PyVal → W → Option PyStr) (h : List (Visit W)) (s : AgentState) : Prop where
  /-- Nothing yet, or a run halted before its first attempt. -/
  | untouched (hnone : Unmoved head h) (hstatus : s.ticket_status = none)
  /-- The escalation. -/
  | escalated (hnone : Unmoved head h) (hstatus : s.ticket_status = some .ESCALATED)
  /-- A git pass that believed its commit. -/
  | committed {pre rest : List (Visit W)} {x v g : Visit W}
      (hsplit : h = pre ++ x :: v :: g :: rest) (hclosing : Closing rest)
      (htried : Tried s x v)
      (hgit : g.moves_head head) (hstatus : s.ticket_status = some .DONE)
      (hwritten : g.status_written = some .DONE)
  /-- A git pass of a ticket that declares no files. -/
  | idle {pre rest : List (Visit W)} {x v g : Visit W}
      (hsplit : h = pre ++ x :: v :: g :: rest) (hclosing : Closing rest)
      (htried : Tried s x v) (hnone : Unmoved head h) (hgit : g.node = .oversight_git)
      (hstatus : s.ticket_status = x.status_written) (hwritten : g.status_written = none)
      (hfiles : declares_files s.ticket = false)

/-- Every git pass acts on the verdict and the status of its own cycle: the
    executor run and the verification right before it. -/
def OwnCycle (h : List (Visit W)) : Prop :=
  Past (fun before g => g.node = .oversight_git →
    ∃ pre x v, before = pre ++ [x, v] ∧ Tried g.before x v ∧
      g.before.ticket_status = x.status_written) h

/-- What is known of the current cycle when the run stands at `pc`. -/
def Gate (head : PyVal → W → Option PyStr) (pc : Pc) (s : AgentState) (h : List (Visit W)) : Prop :=
  match pc with
  | .at .dispatch | .at .advance | .END => Ends head h s
  | .at .validator => Unmoved head h ∧ ∃ pre x, h = pre ++ [x] ∧ x.node = .executor ∧
      s.ticket_status = x.status_written ∧
      (x.status_written = some .LOCAL_PASS ∨ x.status_written = some .ESCALATED)
  | .at .oversight_git => Unmoved head h ∧ ∃ pre x v, h = pre ++ [x, v] ∧ Tried s x v ∧
      s.ticket_status = x.status_written
  | .raised _ => True
  | _ => Unmoved head h

theorem not_moves_of_node {head : PyVal → W → Option PyStr} {v : Visit W}
    (hn : v.node ≠ .oversight_git) : ¬v.moves_head head := fun hm => hn hm.1

theorem unmoved_snoc {head : PyVal → W → Option PyStr} {h : List (Visit W)} {v : Visit W}
    (hh : Unmoved head h) (hv : ¬v.moves_head head) : Unmoved head (h ++ [v]) := by
  intro u hu
  rcases List.mem_append.mp hu with hu | hu
  · exact hh u hu
  · rw [List.mem_singleton.mp hu]
    exact hv

/-- `advance` and `dispatch` change nothing that decides a run. -/
theorem Ends.snoc {head : PyVal → W → Option PyStr} {h : List (Visit W)} {s s' : AgentState}
    {v : Visit W} (hends : Ends head h s) (hv : v.node = .advance ∨ v.node = .dispatch)
    (hticket : s'.ticket = s.ticket) (hstatus : s'.ticket_status = s.ticket_status)
    (hverdict : s'.last_validation_passed = s.last_validation_passed) :
    Ends head (h ++ [v]) s' := by
  have hnot : ¬v.moves_head head := by
    apply not_moves_of_node
    rcases hv with hv | hv <;> simp [hv]
  have hclose : ∀ rest, Closing rest → Closing (rest ++ [v]) := by
    intro rest hrest u hu
    rcases List.mem_append.mp hu with hu | hu
    · exact hrest u hu
    · rw [List.mem_singleton.mp hu]
      exact hv
  cases hends with
  | untouched hnone hst => exact Ends.untouched (unmoved_snoc hnone hnot) (by rw [hstatus, hst])
  | escalated hnone hst => exact Ends.escalated (unmoved_snoc hnone hnot) (by rw [hstatus, hst])
  | @committed pre rest x u g hsplit hclosing htried hgit hst hwritten =>
    have hsplit' : h ++ [v] = pre ++ x :: u :: g :: (rest ++ [v]) := by rw [hsplit]; simp
    exact Ends.committed hsplit' (hclose rest hclosing) (htried.of_eq hticket hverdict) hgit
      (by rw [hstatus, hst]) hwritten
  | @idle pre rest x u g hsplit hclosing htried hnone hgit hst hwritten hfiles =>
    have hsplit' : h ++ [v] = pre ++ x :: u :: g :: (rest ++ [v]) := by rw [hsplit]; simp
    exact Ends.idle hsplit' (hclose rest hclosing) (htried.of_eq hticket hverdict)
      (unmoved_snoc hnone hnot) hgit (by rw [hstatus, hst]) hwritten (by rw [hticket]; exact hfiles)

/-! ## The gate -/

/-- The outcome of a run with history `h` that ended in state `s` rests on
    the commit and the verification of its last cycle. -/
structure CommitGated (head : PyVal → W → Option PyStr) (h : List (Visit W)) (s : AgentState) :
    Prop where
  /-- `DONE` is what the last git pass proved. -/
  done : s.ticket_status = some .DONE ↔
    ∃ g, last_visit .oversight_git h = some g ∧ g.moves_head head
  /-- The verification passed behind the last executor run. -/
  verified : s.ticket_status = some .DONE → ∃ pre x v post, h = pre ++ x :: v :: post ∧
    x.node = .executor ∧ v.verifies s.ticket ∧ ∀ u ∈ post, u.node ≠ .executor
  local_pass : s.ticket_status = some .LOCAL_PASS → declares_files s.ticket = false ∧
    ∃ v, last_visit .validator h = some v ∧ v.verifies s.ticket
  /-- No git pass acts on a status or a verdict of an earlier cycle ... -/
  own_cycle : OwnCycle h
  /-- ... and what the run ends on was written in its last one. -/
  fresh : s.ticket_status = some .DONE ∨ s.ticket_status = some .LOCAL_PASS →
    ∃ pre x v g rest, h = pre ++ x :: v :: g :: rest ∧ Tried s x v ∧ g.node = .oversight_git ∧
      Closing rest ∧ s.ticket_status = g.status_written.or x.status_written

theorem last_visit_closing {n : Node} {h rest : List (Visit W)} (hrest : Closing rest)
    (hadv : n ≠ .advance) (hdisp : n ≠ .dispatch) : last_visit n (h ++ rest) = last_visit n h := by
  have hnone : rest.filter (fun v => v.node = n) = [] := by
    rw [List.filter_eq_nil_iff]
    intro u hu heq
    have hun : u.node = n := of_decide_eq_true heq
    rcases hrest u hu with hu | hu
    · exact hadv (by rw [← hun, hu])
    · exact hdisp (by rw [← hun, hu])
  unfold last_visit
  rw [List.filter_append, hnone, List.append_nil]

/-- The last visits of a run whose last cycle is `x`, `v`, `g`. -/
theorem last_visits_of_cycle {h pre rest : List (Visit W)} {x v g : Visit W}
    (hsplit : h = pre ++ x :: v :: g :: rest) (hrest : Closing rest) (hv : v.node = .validator)
    (hg : g.node = .oversight_git) :
    last_visit .oversight_git h = some g ∧ last_visit .validator h = some v := by
  have hsplit' : h = ((pre ++ [x] ++ [v]) ++ [g]) ++ rest := by rw [hsplit]; simp
  rw [hsplit', last_visit_closing (n := .oversight_git) hrest (by decide) (by decide),
    last_visit_closing (n := .validator) hrest (by decide) (by decide)]
  simp only [last_visit_snoc, hv, hg, if_true]
  exact ⟨trivial, by simp⟩

/-- A history in which no git pass moved `HEAD` has no last one that did. -/
theorem Unmoved.last_visit {head : PyVal → W → Option PyStr} {h : List (Visit W)}
    (hnone : Unmoved head h) :
    ¬∃ g, Syndicate.last_visit .oversight_git h = some g ∧ g.moves_head head := by
  intro ⟨g, hg, hm⟩
  have hmem := List.mem_of_getLast? hg
  exact hnone g (List.mem_of_mem_filter hmem) hm

/-- What ends a run gates it. -/
theorem Ends.gated {head : PyVal → W → Option PyStr} {h : List (Visit W)} {s : AgentState}
    (hends : Ends head h s) (hown : OwnCycle h) : CommitGated head h s := by
  -- an outcome that is neither `DONE` nor `LOCAL_PASS` owes one thing only
  have hother : Unmoved head h → s.ticket_status ≠ some .DONE →
      s.ticket_status ≠ some .LOCAL_PASS → CommitGated head h s := by
    intro hnone hdone hpass
    exact {
      done := iff_of_false hdone hnone.last_visit
      verified := fun h => absurd h hdone
      local_pass := fun h => absurd h hpass
      own_cycle := hown
      fresh := fun h => absurd h (not_or.mpr ⟨hdone, hpass⟩) }
  cases hends with
  | untouched hnone hst => exact hother hnone (by rw [hst]; simp) (by rw [hst]; simp)
  | escalated hnone hst => exact hother hnone (by rw [hst]; simp) (by rw [hst]; simp)
  | @committed pre rest x v g hsplit hclosing htried hgit hst hwritten =>
    have hlast := last_visits_of_cycle hsplit hclosing htried.verified.1 hgit.1
    refine ⟨iff_of_true hst ⟨g, hlast.1, hgit⟩, ?_, ?_, hown, ?_⟩
    · intro _
      refine ⟨pre, x, v, g :: rest, hsplit, htried.executor, htried.verified, ?_⟩
      intro u hu
      rcases List.mem_cons.mp hu with rfl | hu
      · rw [hgit.1]
        simp
      · rcases hclosing u hu with hu | hu <;> rw [hu] <;> simp
    · rw [hst]
      simp
    · intro _
      exact ⟨pre, x, v, g, rest, hsplit, htried, hgit.1, hclosing, by rw [hst, hwritten]; rfl⟩
  | @idle pre rest x v g hsplit hclosing htried hnone hgit hst hwritten hfiles =>
    have hlast := last_visits_of_cycle hsplit hclosing htried.verified.1 hgit
    have hdone : s.ticket_status ≠ some .DONE := by
      rw [hst]
      rcases htried.not_done with hx | hx <;> rw [hx] <;> simp
    refine ⟨iff_of_false hdone hnone.last_visit, fun h => absurd h hdone, ?_, hown, ?_⟩
    · intro _
      exact ⟨hfiles, v, hlast.2, htried.verified⟩
    · intro _
      exact ⟨pre, x, v, g, rest, hsplit, htried, hgit, hclosing, by rw [hst, hwritten]; rfl⟩

section runs
variable [Unicode] {env : Env W} {api : RuntimeClient W} {head : PyVal → W → Option PyStr}

/-- One move keeps the gate. -/
theorem gate_move (hclient : env.get_runtime_client = .ok (.RuntimeClient api))
    (hgit : TruthfulGit api head) {v : Visit W} {s' : AgentState} {pc' : Pc} {h : List (Visit W)}
    (hmove : Move env v.before v.node v.events v.result s' pc')
    (hc : Control env (.at v.node) v.before) (hp : Gate head (.at v.node) v.before h) :
    Gate head pc' s' (h ++ [v]) := by
  obtain ⟨node, before, events, result⟩ := v
  simp only at hmove hc hp
  -- a client of the runtime is not the mock, so the two mock moves cannot be taken
  have hreal : env.isMock = false := by simp [Env.isMock, hclient, Client.isMock]
  have hnode : node ≠ .oversight_git →
      ¬(⟨node, before, events, result⟩ : Visit W).moves_head head := fun hn => not_moves_of_node hn
  -- a strike sends the ticket back or escalates it; the gate asks the same of both
  have hretry : ∀ k : Int, Unmoved head (h ++ [⟨node, before, events, result⟩]) →
      Gate head (.at (if k ≥ MAX_STRIKES then .escalate else .executor)) s'
        (h ++ [⟨node, before, events, result⟩]) := by
    intro k hk
    split <;> exact hk
  cases hmove with
  | raised => trivial
  | analyzer => exact unmoved_snoc hp (hnode (by simp))
  | architect => exact Ends.untouched (unmoved_snoc hp (hnode (by simp))) hc.ticket_status
  | dispatch_end => exact hp.snoc (Or.inr rfl) rfl rfl rfl
  | dispatch_executor hrouter =>
    -- the router picks a ticket only while the state is fresh
    have hfresh : Fresh s' := by
      rcases hc with hc | hc
      · exact hc
      · rw [hc.dispatch_router] at hrouter
        cases hrouter
    cases hp with
    | untouched hnone => exact unmoved_snoc hnone (hnode (by simp))
    | escalated hnone => exact unmoved_snoc hnone (hnode (by simp))
    | idle _ _ _ hnone => exact unmoved_snoc hnone (hnode (by simp))
    | committed _ _ _ _ hst =>
      rw [hfresh.ticket_status] at hst
      cases hst
  | executor_mock hmock =>
    rw [hreal] at hmock
    cases hmock
  | @executor_real _ _ δ _ _ _ hend =>
    have hst : δ.ticket_status = some .LOCAL_PASS ∨ δ.ticket_status = some .ESCALATED :=
      hend.ticket_status.imp And.left And.left
    refine ⟨unmoved_snoc hp (hnode (by simp)), h, _, rfl, rfl, ?_, hst⟩
    rw [AgentState.update_ticket_status]
    show _ = δ.ticket_status
    rcases hst with hst | hst <;> rw [hst] <;> rfl
  | validator_mock hmock =>
    rw [hreal] at hmock
    cases hmock
  | validator_pass _ hexit hδ =>
    -- the verdict of this visit is what the gate asks of a later git pass
    subst hδ
    obtain ⟨hnone, pre, x, rfl, hx, hst, hnot⟩ := hp
    refine ⟨unmoved_snoc hnone (hnode (by simp)), pre, x, _, List.append_assoc pre [x] [_], ?_, hst⟩
    exact {
      executor := hx
      verified := ⟨rfl, _, _, _, List.mem_cons_self, hexit⟩
      verdict := rfl
      passed := rfl
      not_done := hnot }
  | validator_fail => exact hretry _ (unmoved_snoc hp.1 (hnode (by simp)))
  | @git_idle _ _ _ _ δ hcl _ hsetup hpass hfiles hstatus =>
    -- nothing to commit: the ticket ends with HEAD where it was
    obtain ⟨hnone, pre, x, v, rfl, htried, hst⟩ := hp
    rw [hclient] at hcl
    cases hcl
    have hstill : ¬MovesHead head events := by
      rw [← hpass.done_iff_moves hgit hsetup, hstatus]
      simp
    have hconf := hpass.confined
    have hticket : (before.update δ).ticket = before.ticket := by
      rw [AgentState.update_ticket, hconf.active_ticket]
      rfl
    refine @Ends.idle W head _ _ pre [] x v _ (List.append_assoc pre [x, v] [_]) closing_nil
      (htried.of_eq hticket ?_) (unmoved_snoc hnone fun hm => hstill hm.2) rfl ?_ hstatus ?_
    · show δ.last_validation_passed.or _ = _
      rw [hconf.last_validation_passed]
      rfl
    · rw [AgentState.update_ticket_status, hstatus]
      exact hst
    · rw [hticket]
      exact hfiles
  | @git_done _ _ _ _ δ hcl _ hsetup hpass hfiles hstatus =>
    -- the one move of HEAD, and the attempt before it was verified
    obtain ⟨hnone, pre, x, v, rfl, htried, -⟩ := hp
    rw [hclient] at hcl
    cases hcl
    have hmoved : MovesHead head events := (hpass.done_iff_moves hgit hsetup).mp hstatus
    have hconf := hpass.confined
    refine @Ends.committed W head _ _ pre [] x v _ (List.append_assoc pre [x, v] [_]) closing_nil
      (htried.of_eq ?_ ?_) ⟨rfl, hmoved⟩ ?_ hstatus
    · rw [AgentState.update_ticket, hconf.active_ticket]
      rfl
    · show δ.last_validation_passed.or _ = _
      rw [hconf.last_validation_passed]
      rfl
    · rw [AgentState.update_ticket_status, hstatus]
      rfl
  | @git_strike _ _ _ _ δ hcl _ hsetup hpass hfiles hstatus =>
    -- the commit failed, so HEAD stayed and the retry starts unmoved
    rw [hclient] at hcl
    cases hcl
    have hstill : ¬MovesHead head events := by
      rw [← hpass.done_iff_moves hgit hsetup, hstatus]
      simp
    exact hretry _ (unmoved_snoc hp.1 fun hm => hstill hm.2)
  | escalate hδ =>
    subst hδ
    exact Ends.escalated (unmoved_snoc hp (hnode (by simp))) rfl
  | advance hδ =>
    subst hδ
    exact hp.snoc (Or.inl rfl) rfl rfl rfl

theorem ainvoke_gate (hclient : env.get_runtime_client = .ok (.RuntimeClient api))
    (hgit : TruthfulGit api head) {s : AgentState} (hs : Fresh s) (w : W) (n : Nat) :
    Gate head (ainvoke env n s w).2.pc (ainvoke env n s w).2.state (ainvoke env n s w).1 ∧
      OwnCycle (ainvoke env n s w).1 := by
  apply fresh_invariant hs (P := fun h c => Gate head c.pc c.state h ∧ OwnCycle h)
  · refine ⟨?_, past_nil⟩
    intro u hu
    cases hu
  · intro h c v c' ⟨hgate, hown⟩ hst hc hmove
    rw [hst.pc, ← hst.before] at hgate
    refine ⟨gate_move hclient hgit hmove hc hgate, hown.snoc ?_⟩
    intro hn
    rw [hn] at hgate
    exact hgate.2

/-- **Commit-gated completion.**  A fresh run on the real path that ends is
    `DONE` exactly when the commit of its last git pass moved `HEAD`, and
    then the verification command had passed behind the last attempt; it is
    `LOCAL_PASS` only if there was nothing to commit and the last
    verification passed; nothing stale decides. -/
theorem completion_is_gated (env : Env W) (api : RuntimeClient W)
    (head : PyVal → W → Option PyStr) (s : AgentState) (w : W) (n : Nat)
    (hclient : env.get_runtime_client = .ok (.RuntimeClient api)) (hgit : TruthfulGit api head)
    (hs : Fresh s) (hend : (ainvoke env n s w).2.pc = .END) :
    CommitGated head (ainvoke env n s w).1 (ainvoke env n s w).2.state := by
  obtain ⟨hgate, hown⟩ := ainvoke_gate hclient hgit hs w n
  rw [hend] at hgate
  exact Ends.gated hgate hown

end runs

section small
attribute [local instance] Unicode.ascii

/-- The commit `HEAD` names in the small world. -/
def small_head : PyVal → Bool → Option PyStr :=
  fun _ committed => some (if committed then lit "b" else lit "a")

/-- The small world's git is truthful. -/
theorem small_repo_truthful : TruthfulGit (small_repo fun _ => false) small_head where
  rev_parse := by
    intro cwd w r w' h
    have hhead : ∀ committed : Bool,
        head_of ⟨0, if committed then lit "b" else lit "a"⟩ =
          some (if committed then lit "b" else lit "a") := by
      decide
    cases h
    exact ⟨hhead w, rfl⟩
  add := by
    intro paths cwd w r w' h
    have hne : (lit "git commit").isPrefixOf (git_add paths) = false := rfl
    simp only [small_repo, git_add_ne_head, hne] at h
    cases h
    rfl
  commit_failed := by
    intro message cwd w r w' h hexit
    have hpre : (lit "git commit").isPrefixOf (git_commit message) = true := rfl
    simp only [small_repo, git_commit_ne_head, hpre] at h
    cases w <;> cases h
    · exact absurd rfl hexit
    · rfl

/-- There a ticket whose checks pass is committed and `DONE`. -/
theorem completion_is_gated_small :
    CommitGated small_head
      (ainvoke healthy 15 { active_ticket := some (small_ticket ["a.py"]) } false).1
      (ainvoke healthy 15 { active_ticket := some (small_ticket ["a.py"]) } false).2.state ∧
    (ainvoke healthy 15 { active_ticket := some (small_ticket ["a.py"]) } false).2.state.ticket_status
      = some .DONE :=
  ⟨completion_is_gated healthy (small_repo fun _ => false) small_head
    { active_ticket := some (small_ticket ["a.py"]) } false 15 rfl small_repo_truthful
    ⟨rfl, rfl, rfl⟩ (by decide +kernel), by decide +kernel⟩

end small

end Syndicate
