import Syndicate.Spec.Executor

/-! # What `oversight_git_node` does

    A pass is a setup, then for a ticket that declares files the four
    commands `git rev-parse HEAD`, `git add`, `git commit`,
    `git rev-parse HEAD`, of which the later ones run only while the earlier
    ones succeed.  `GitPass` lists the five ways a pass can end, each with
    the events it left and the update it returned. -/

namespace Syndicate

open Py Framework

variable {W : Type}

/-- The event of a command that returned. -/
def ran (cwd : PyVal) (command : PyStr) (w : W) (r : ActionResult) (w' : W) : Event W :=
  .run_action (.str command) cwd w (.ok r) w'

/-- The commands of a pass that come before the first look at `HEAD`. -/
def setup_commands : List PyStr := [git_is_repo, git_init, git_user_name, git_user_email]

/-- An event of the setup: one of its commands, in the workspace. -/
def IsSetup (cwd : PyVal) (e : Event W) : Prop :=
  ∃ command ∈ setup_commands, ∃ pre r post, e = .run_action (.str command) cwd pre r post

theorem IsSetup.isSandbox {cwd : PyVal} {e : Event W} (h : IsSetup cwd e) : e.isSandbox = true := by
  obtain ⟨command, -, pre, r, post, rfl⟩ := h
  rfl

/-! ## Reading a pass -/

/-- What each `git rev-parse HEAD` that returned said. -/
def heads (es : List (Event W)) : List (Option PyStr) :=
  es.filterMap fun
    | .run_action (.str command) _ _ (.ok r) _ =>
      if command = git_head then some (head_of r) else none
    | _ => none

/-- The pass saw `HEAD` twice, and the second time at another commit. -/
def head_moved (es : List (Event W)) : Bool :=
  match heads es with
  | [before, after] => after.isSome && after != before
  | _ => false

/-- Some `git commit` was issued. -/
def commits (es : List (Event W)) : Bool :=
  es.any fun
    | .run_action (.str command) _ _ _ _ => (lit "git commit").isPrefixOf command
    | _ => false

/-- Some `git add` succeeded. -/
def staged (es : List (Event W)) : Bool :=
  es.any fun
    | .run_action (.str command) _ _ (.ok r) _ =>
      (lit "git add").isPrefixOf command && r.exit_code == 0
    | _ => false

@[simp] theorem commits_append (es es' : List (Event W)) :
    commits (es ++ es') = (commits es || commits es') := List.any_append

@[simp] theorem staged_append (es es' : List (Event W)) :
    staged (es ++ es') = (staged es || staged es') := List.any_append

@[simp] theorem heads_append (es es' : List (Event W)) : heads (es ++ es') = heads es ++ heads es' :=
  List.filterMap_append

theorem heads_ran (cwd : PyVal) (command : PyStr) (w : W) (r : ActionResult) (w' : W)
    (es : List (Event W)) :
    heads (ran cwd command w r w' :: es) =
      if command = git_head then head_of r :: heads es else heads es := by
  by_cases h : command = git_head <;> simp [heads, ran, h]

/-- The staging and committing commands are not looks at `HEAD`. -/
theorem git_add_ne_head (paths : List PyStr) : git_add paths ≠ git_head := by
  intro h
  have h4 := congrArg (fun l => l[4]?) h
  revert h4
  show some (CodePoint.ofChar 'a') ≠ some (CodePoint.ofChar 'r')
  decide

theorem git_commit_ne_head (message : PyStr) : git_commit message ≠ git_head := by
  intro h
  have h4 := congrArg (fun l => l[4]?) h
  revert h4
  show some (CodePoint.ofChar 'c') ≠ some (CodePoint.ofChar 'r')
  decide

/-- The setup does not look at `HEAD`. -/
theorem heads_setup {cwd : PyVal} {setup : List (Event W)}
    (h : ∀ e ∈ setup, IsSetup cwd e) : heads setup = [] := by
  unfold heads
  rw [List.filterMap_eq_nil_iff]
  intro e he
  obtain ⟨command, hmem, pre, r, post, rfl⟩ := h e he
  have hne : command ≠ git_head := by
    intro heq
    subst heq
    revert hmem
    decide
  cases r with
  | ok r => simp [hne]
  | error x => rfl

/-- The setup stages nothing and commits nothing. -/
theorem setup_stages_nothing {cwd : PyVal} {setup : List (Event W)}
    (h : ∀ e ∈ setup, IsSetup cwd e) : commits setup = false ∧ staged setup = false := by
  have hcommands : ∀ command ∈ setup_commands,
      (lit "git commit").isPrefixOf command = false ∧ (lit "git add").isPrefixOf command = false := by
    decide
  unfold commits staged
  rw [List.any_eq_false, List.any_eq_false]
  constructor
  · intro e he
    obtain ⟨command, hmem, pre, r, post, rfl⟩ := h e he
    simp [(hcommands command hmem).1]
  · intro e he
    obtain ⟨command, hmem, pre, r, post, rfl⟩ := h e he
    cases r with
    | ok r => simp [(hcommands command hmem).2]
    | error x => simp

section commands
variable (cwd : PyVal) (w : W) (r : Except PyExc ActionResult) (w' : W) (es : List (Event W))

/-- A look at `HEAD` neither stages nor commits. -/
theorem head_stages_nothing :
    commits (.run_action (.str git_head) cwd w r w' :: es) = commits es ∧
      staged (.run_action (.str git_head) cwd w r w' :: es) = staged es := by
  have hc : (lit "git commit").isPrefixOf git_head = false := by decide
  have hs : (lit "git add").isPrefixOf git_head = false := by decide
  constructor
  · simp [commits, hc]
  · cases r <;> simp [staged, hs]

theorem add_stages (paths : List PyStr) :
    commits (.run_action (.str (git_add paths)) cwd w r w' :: es) = commits es ∧
      staged (.run_action (.str (git_add paths)) cwd w r w' :: es) =
        ((match r with | .ok a => a.exit_code == 0 | .error _ => false) || staged es) := by
  have hc : (lit "git commit").isPrefixOf (git_add paths) = false := rfl
  have hs : (lit "git add").isPrefixOf (git_add paths) = true := rfl
  constructor
  · simp [commits, hc]
  · cases r <;> simp [staged, hs]

theorem commit_commits (message : PyStr) :
    commits (.run_action (.str (git_commit message)) cwd w r w' :: es) = true := by
  have hc : (lit "git commit").isPrefixOf (git_commit message) = true := rfl
  simp [commits, hc]

end commands

section pass
variable [Unicode]

/-- `client` answers `command` in `w` with `r`, and leaves `w'`. -/
def Answers (client : Client W) (cwd : PyVal) (command : PyStr) (w : W) (r : ActionResult)
    (w' : W) : Prop :=
  client.run_action (.str command) cwd none w = (.ok r, w')

/-- How a pass of `oversight_git_node` that returns can go.  `setup` are the
    events of the setup and `git_log` the lines logged up to there. -/
inductive GitPass (client : Client W) (s : AgentState) (cwd : PyVal) (setup : List (Event W))
    (git_log : List PyStr) : List (Event W) → AgentState → Prop where
  /-- Nothing declared: no commit is attempted. -/
  | no_files (hfiles : declares_files s.ticket = false) :
      GitPass client s cwd setup git_log setup { attempt_log := some (s.log ++ git_log) }
  | add_failed {paths : List PyStr} {b a : ActionResult} {w₁ w₂ w₃ : W}
      (hfiles : declares_files s.ticket = true)
      (hpaths : quote_paths (declared_files s.ticket) = .ok paths)
      (hb : Answers client cwd git_head w₁ b w₂)
      (ha : Answers client cwd (git_add paths) w₂ a w₃) (hexit : a.exit_code ≠ 0) :
      GitPass client s cwd setup git_log
        (setup ++ [ran cwd git_head w₁ b w₂, ran cwd (git_add paths) w₂ a w₃])
        (git_strike s (git_log ++ [git_line git_head b, git_line (git_add paths) a]) add_failed)
  | commit_failed {paths : List PyStr} {b a c : ActionResult} {w₁ w₂ w₃ w₄ : W}
      (hfiles : declares_files s.ticket = true)
      (hpaths : quote_paths (declared_files s.ticket) = .ok paths)
      (hb : Answers client cwd git_head w₁ b w₂)
      (ha : Answers client cwd (git_add paths) w₂ a w₃) (hadd : a.exit_code = 0)
      (hc : Answers client cwd (git_commit (commit_message s.ticket s.log)) w₃ c w₄) (hexit : c.exit_code ≠ 0) :
      GitPass client s cwd setup git_log
        (setup ++ [ran cwd git_head w₁ b w₂, ran cwd (git_add paths) w₂ a w₃,
          ran cwd (git_commit (commit_message s.ticket s.log)) w₃ c w₄])
        (git_strike s (git_log ++ [git_line git_head b, git_line (git_add paths) a,
          git_line (git_commit (commit_message s.ticket s.log)) c]) (commit_failed c (declared_files s.ticket)))
  | head_unmoved {paths : List PyStr} {b a c h : ActionResult}
      {w₁ w₂ w₃ w₄ w₅ : W}
      (hfiles : declares_files s.ticket = true)
      (hpaths : quote_paths (declared_files s.ticket) = .ok paths)
      (hb : Answers client cwd git_head w₁ b w₂)
      (ha : Answers client cwd (git_add paths) w₂ a w₃) (hadd : a.exit_code = 0)
      (hc : Answers client cwd (git_commit (commit_message s.ticket s.log)) w₃ c w₄) (hcommit : c.exit_code = 0)
      (hh : Answers client cwd git_head w₄ h w₅)
      (hexit : head_of h = none ∨ head_of h = head_of b) :
      GitPass client s cwd setup git_log
        (setup ++ [ran cwd git_head w₁ b w₂, ran cwd (git_add paths) w₂ a w₃,
          ran cwd (git_commit (commit_message s.ticket s.log)) w₃ c w₄, ran cwd git_head w₄ h w₅])
        (git_strike s (git_log ++ [git_line git_head b, git_line (git_add paths) a,
          git_line (git_commit (commit_message s.ticket s.log)) c, git_line git_head h])
          (head_unmoved (head_of b) (head_of h) (declared_files s.ticket)))
  | done {paths : List PyStr} {b a c h : ActionResult} {w₁ w₂ w₃ w₄ w₅ : W}
      (hfiles : declares_files s.ticket = true)
      (hpaths : quote_paths (declared_files s.ticket) = .ok paths)
      (hb : Answers client cwd git_head w₁ b w₂)
      (ha : Answers client cwd (git_add paths) w₂ a w₃) (hadd : a.exit_code = 0)
      (hc : Answers client cwd (git_commit (commit_message s.ticket s.log)) w₃ c w₄) (hcommit : c.exit_code = 0)
      (hh : Answers client cwd git_head w₄ h w₅)
      (hmoved : head_of h ≠ none ∧ head_of h ≠ head_of b) :
      GitPass client s cwd setup git_log
        (setup ++ [ran cwd git_head w₁ b w₂, ran cwd (git_add paths) w₂ a w₃,
          ran cwd (git_commit (commit_message s.ticket s.log)) w₃ c w₄, ran cwd git_head w₄ h w₅])
        { attempt_log := some (s.log ++ (git_log ++ [git_line git_head b,
            git_line (git_add paths) a, git_line (git_commit (commit_message s.ticket s.log)) c,
            git_line git_head h])),
          ticket_status := some .DONE }

section passes
variable {client : Client W} {s δ : AgentState} {cwd : PyVal} {setup es : List (Event W)}
  {git_log : List PyStr}

theorem GitPass.confined (h : GitPass client s cwd setup git_log es δ) : δ.Confined := by
  cases h <;> exact ⟨rfl, rfl, rfl, rfl, rfl⟩

/-- A pass adds to the log. -/
theorem GitPass.attempt_log (h : GitPass client s cwd setup git_log es δ) :
    ∃ lines, δ.attempt_log = some (s.log ++ lines) := by
  cases h <;> exact ⟨_, rfl⟩

/-- A pass that declared files and verified no commit says why. -/
theorem GitPass.logs_reason (h : GitPass client s cwd setup git_log es δ)
    (hfiles : declares_files s.ticket = true) (hst : δ.ticket_status ≠ some .DONE) :
    ∃ lines reason, δ.attempt_log = some (s.log ++ (lines ++ [strike_line reason])) := by
  cases h with
  | no_files hnone =>
    rw [hfiles] at hnone
    cases hnone
  | done => exact absurd rfl hst
  | _ => exact ⟨_, _, rfl⟩

/-- The three verdicts of a pass: nothing to commit, a strike, a verified
    commit. -/
theorem GitPass.verdict (h : GitPass client s cwd setup git_log es δ) :
    (declares_files s.ticket = false ∧ δ.ticket_status = none ∧ δ.strike_count = none) ∨
    (declares_files s.ticket = true ∧ δ.ticket_status = none ∧
      δ.strike_count = some (s.strikes + 1)) ∨
    (declares_files s.ticket = true ∧ δ.ticket_status = some .DONE ∧ δ.strike_count = none) := by
  cases h with
  | no_files hfiles => exact Or.inl ⟨hfiles, rfl, rfl⟩
  | add_failed hfiles => exact Or.inr (Or.inl ⟨hfiles, rfl, rfl⟩)
  | commit_failed hfiles => exact Or.inr (Or.inl ⟨hfiles, rfl, rfl⟩)
  | head_unmoved hfiles => exact Or.inr (Or.inl ⟨hfiles, rfl, rfl⟩)
  | done hfiles => exact Or.inr (Or.inr ⟨hfiles, rfl, rfl⟩)

/-- A pass of a ticket that declares files believes its commit exactly when
    it saw `HEAD` move. -/
theorem GitPass.head_moved (h : GitPass client s cwd setup git_log es δ)
    (hsetup : ∀ e ∈ setup, IsSetup cwd e) :
    head_moved es = true ↔ δ.ticket_status = some .DONE := by
  have hnone := heads_setup hsetup
  have hnil : heads ([] : List (Event W)) = [] := rfl
  unfold Syndicate.head_moved
  cases h with
  | no_files => simp [hnone]
  | add_failed => simp [hnone, hnil, heads_ran, git_add_ne_head, git_strike]
  | commit_failed =>
    simp [hnone, hnil, heads_ran, git_add_ne_head, git_commit_ne_head, git_strike]
  | head_unmoved _ _ _ _ _ _ _ _ hexit =>
    simp only [heads_append, hnone, heads_ran, hnil, git_add_ne_head, git_commit_ne_head,
      git_strike, if_true, if_false, List.nil_append]
    rcases hexit with hexit | hexit <;> simp [hexit]
  | done _ _ _ _ _ _ _ _ hmoved =>
    simp only [heads_append, hnone, heads_ran, hnil, git_add_ne_head, git_commit_ne_head,
      if_true, if_false, List.nil_append]
    simp [Option.isSome_iff_ne_none, hmoved.1, hmoved.2]

end passes

/-! ## Running one command -/

/-- A command that raises ends the pass; one that returns hands on its
    result, its log line and its event. -/
theorem wp_git_run_bind {α : Type} {client : Client W} {cwd : PyVal} {command : PyStr}
    {git_log : List PyStr} {f : ActionResult × List PyStr → M W α}
    {Q : Except PyExc α → W → List (Event W) → Prop} {w : W}
    (hok : ∀ r w', Answers client cwd command w r w' →
      Prog.wp (f (r, git_log ++ [git_line command r]))
        (fun x w'' es => Q x w'' (ran cwd command w r w' :: es)) w')
    (herr : ∀ e w', Q (.error e) w' [.run_action (.str command) cwd w (.error e) w']) :
    Prog.wp (git_run client cwd command git_log >>= f) Q w := by
  unfold git_run Client.act
  simp only [Prog.wp_bind, Prog.wp_call]
  rcases hr : client.run_action (.str command) cwd none w with ⟨_ | r, w'⟩
  · simp only [Prog.andThen_error]
    exact herr _ _
  · simp only [Prog.andThen_ok, Prog.wp_pure, List.singleton_append]
    exact hok r w' hr

theorem emits_git_run (client : Client W) (cwd : PyVal) (command : PyStr) (git_log : List PyStr)
    {P : Event W → Prop} (hP : ∀ pre r post, P (.run_action (.str command) cwd pre r post)) :
    Prog.Emits P (git_run client cwd command git_log) :=
  Prog.emits_bind (Prog.emits_call hP) fun _ => Prog.emits_pure _

/-! ## The setup -/

/-- The setup runs its own commands only. -/
theorem emits_git_setup (client : Client W) (cwd : PyVal) :
    Prog.Emits (IsSetup cwd) (git_setup client cwd) := by
  have hrun : ∀ command ∈ setup_commands, ∀ git_log,
      Prog.Emits (IsSetup cwd) (git_run client cwd command git_log) := by
    intro command hmem git_log
    exact emits_git_run client cwd command git_log fun pre r post =>
      ⟨command, hmem, pre, r, post, rfl⟩
  unfold git_setup
  refine Prog.emits_bind (hrun _ (by simp [setup_commands]) _) fun is_repo => ?_
  refine Prog.emits_bind ?_ fun git_log => ?_
  · refine Prog.emits_ite ?_ (Prog.emits_pure _)
    exact Prog.emits_bind (hrun _ (by simp [setup_commands]) _) fun _ => Prog.emits_pure _
  refine Prog.emits_bind (hrun _ (by simp [setup_commands]) _) fun name => ?_
  exact Prog.emits_bind (hrun _ (by simp [setup_commands]) _) fun _ => Prog.emits_pure _

/-! ## The commit half -/

/-- The commit half of a pass: one case for each branch, in the order of the
    source. -/
theorem git_commit_pass_spec (client : Client W) (s : AgentState) (cwd : PyVal)
    (git_log : List PyStr) (setup : List (Event W)) (hfiles : declares_files s.ticket = true)
    (w : W) :
    Prog.wp (git_commit_pass client s cwd git_log)
      (fun r _ es => ∀ δ, r = .ok δ → GitPass client s cwd setup git_log (setup ++ es) δ) w := by
  unfold git_commit_pass
  -- `git rev-parse HEAD`, before anything is staged
  apply wp_git_run_bind
  · intro b w₂ hb
    rw [Prog.wp_bind, Prog.wp_ofExcept]
    -- paths that cannot be quoted raise out of the pass
    rcases hpaths : quote_paths (declared_files s.ticket) with e | paths
    · rw [Prog.andThen_error]
      intro δ hδ
      cases hδ
    rw [Prog.andThen_ok]
    apply wp_git_run_bind
    · intro a w₃ ha
      rw [Prog.wp_ite]
      constructor
      · intro hexit
        rw [Prog.wp_pure]
        intro δ hδ
        cases hδ
        simpa using GitPass.add_failed hfiles hpaths hb ha hexit
      · intro hadd
        -- staged; a commit is issued on every way on from here
        have hadd : a.exit_code = 0 := Decidable.not_not.mp hadd
        apply wp_git_run_bind
        · intro c w₄ hc
          rw [Prog.wp_ite]
          constructor
          · intro hexit
            rw [Prog.wp_pure]
            intro δ hδ
            cases hδ
            simpa using GitPass.commit_failed hfiles hpaths hb ha hadd hc hexit
          · intro hcommit
            -- the commit reports success, and the head is asked for once more
            have hcommit : c.exit_code = 0 := Decidable.not_not.mp hcommit
            apply wp_git_run_bind
            · intro h w₅ hh
              rw [Prog.wp_ite]
              constructor
              · intro hexit
                rw [Prog.wp_pure]
                intro δ hδ
                cases hδ
                simpa using GitPass.head_unmoved hfiles hpaths hb ha hadd hc hcommit hh hexit
              · intro hmoved
                rw [Prog.wp_pure]
                intro δ hδ
                cases hδ
                simpa using GitPass.done hfiles hpaths hb ha hadd hc hcommit hh (not_or.mp hmoved)
            · intro e w' δ hδ
              cases hδ
        · intro e w' δ hδ
          cases hδ
    · intro e w' δ hδ
      cases hδ
  · intro e w' δ hδ
    cases hδ

/-- However a pass ends, it has issued its commit exactly if it has staged. -/
theorem git_commit_pass_commits (client : Client W) (s : AgentState) (cwd : PyVal)
    (git_log : List PyStr) (w : W) :
    Prog.wp (git_commit_pass client s cwd git_log) (fun _ _ es => commits es = staged es) w := by
  have hnil : commits ([] : List (Event W)) = staged ([] : List (Event W)) := rfl
  unfold git_commit_pass
  apply wp_git_run_bind
  · intro b w₂ hb
    rw [Prog.wp_bind, Prog.wp_ofExcept]
    rcases quote_paths (declared_files s.ticket) with e | paths
    · simp only [Prog.andThen_error, ran, head_stages_nothing, hnil]
    rw [Prog.andThen_ok]
    apply wp_git_run_bind
    · intro a w₃ ha
      rw [Prog.wp_ite]
      constructor
      · intro hexit
        simp [ran, head_stages_nothing, add_stages, hexit, hnil]
      · intro hadd
        have hadd : a.exit_code = 0 := Decidable.not_not.mp hadd
        -- from here on the commit is on record
        apply wp_git_run_bind
        · intro c w₄ hc
          apply Prog.wp_mono (Q := fun _ _ _ => True) trivial
          intro r w' es _
          simp [ran, head_stages_nothing, add_stages, commit_commits, hadd]
        · intro e w'
          simp [ran, head_stages_nothing, add_stages, commit_commits, hadd]
    · intro e w'
      simp [ran, head_stages_nothing, add_stages, hnil]
  · intro e w'
    simp only [head_stages_nothing, hnil]

theorem emits_git_commit_pass (client : Client W) (s : AgentState) (cwd : PyVal)
    (git_log : List PyStr) :
    Prog.Emits (fun e => e.isSandbox = true) (git_commit_pass client s cwd git_log) := by
  have hrun : ∀ command git_log,
      Prog.Emits (fun e => e.isSandbox = true) (git_run client cwd command git_log) :=
    fun command git_log => emits_git_run client cwd command git_log fun _ _ _ => rfl
  unfold git_commit_pass
  refine Prog.emits_bind (hrun _ _) fun b => ?_
  refine Prog.emits_bind (Prog.emits_ofExcept _) fun paths => ?_
  refine Prog.emits_bind (hrun _ _) fun a => ?_
  refine Prog.emits_ite (Prog.emits_pure _) ?_
  refine Prog.emits_bind (hrun _ _) fun c => ?_
  refine Prog.emits_ite (Prog.emits_pure _) ?_
  refine Prog.emits_bind (hrun _ _) fun h => ?_
  exact Prog.emits_ite (Prog.emits_pure _) (Prog.emits_pure _)

/-! ## The node -/

/-- A pass of `oversight_git_node` makes no attempt, commits what it staged
    and nothing else, and if it returns it went one of the ways of
    `GitPass`. -/
theorem oversight_git_node_spec (env : Env W) (s : AgentState) (w : W) :
    Prog.wp (oversight_git_node env s)
      (fun r _ es => Quiet es ∧ commits es = staged es ∧ ∀ δ, r = .ok δ →
        ∃ client setup git_log, env.get_runtime_client = .ok client ∧
          (∀ e ∈ setup, IsSetup (workspace_dir s.ticket) e) ∧
          GitPass client s (workspace_dir s.ticket) setup git_log es δ) w := by
  unfold oversight_git_node
  rw [Prog.wp_bind, Prog.wp_ofExcept]
  rcases henv : env.get_runtime_client with e | client
  · rw [Prog.andThen_error]
    refine ⟨⟨rfl, rfl, rfl⟩, rfl, ?_⟩
    intro δ hδ
    cases hδ
  rw [Prog.andThen_ok]
  apply Prog.wp_seq
    (R := fun _ _ es => ∀ e ∈ es, IsSetup (workspace_dir s.ticket) e)
  · exact emits_git_setup client (workspace_dir s.ticket) w
  · intro git_log w' setup hsetup
    -- the setup stages and commits nothing, so the commit half decides
    have hquiet := (sandbox_quiet fun e he => (hsetup e he).isSandbox).1
    obtain ⟨hcommits, hstaged⟩ := setup_stages_nothing hsetup
    rw [Prog.wp_ite]
    constructor
    · intro hfiles
      have hpass := git_commit_pass_spec client s (workspace_dir s.ticket) git_log setup hfiles w'
      have hemits := emits_git_commit_pass client s (workspace_dir s.ticket) git_log w'
      have hgit := git_commit_pass_commits client s (workspace_dir s.ticket) git_log w'
      refine ⟨hquiet.append (sandbox_quiet hemits).1, ?_, ?_⟩
      · simp only [List.nil_append, commits_append, staged_append, hcommits, hstaged,
          Bool.false_or]
        exact hgit
      · intro δ hδ
        exact ⟨client, setup, git_log, rfl, hsetup, hpass δ hδ⟩
    · intro hfiles
      rw [Prog.wp_pure, List.nil_append, List.append_nil]
      refine ⟨hquiet, by rw [hcommits, hstaged], ?_⟩
      intro δ hδ
      cases hδ
      exact ⟨client, setup, git_log, rfl, hsetup, GitPass.no_files (Bool.not_eq_true _ ▸ hfiles)⟩
  · intro e w' es hsetup
    obtain ⟨hcommits, hstaged⟩ := setup_stages_nothing hsetup
    refine ⟨(sandbox_quiet fun e he => (hsetup e he).isSandbox).1, ?_, ?_⟩
    · rw [List.nil_append, hcommits, hstaged]
    · intro δ hδ
      cases hδ

/-! ## The lines of a pass -/

/-- The commands of the commit half. -/
def IsCommit (s : AgentState) (command : PyStr) : Prop :=
  command = git_head ∨
  (∃ paths, quote_paths (declared_files s.ticket) = .ok paths ∧ command = git_add paths) ∨
  command = git_commit (commit_message s.ticket s.log)

/-- A line a pass on state `s` with the events `es` can log. -/
inductive PassLine (s : AgentState) (es : List (Event W)) : PyStr → Prop where
  /-- A command of the pass, and what it answered. -/
  | command {command : PyStr} {cwd : PyVal} {r : ActionResult} {w w' : W}
      (hcommand : command ∈ setup_commands ∨ IsCommit s command)
      (hran : ran cwd command w r w' ∈ es) : PassLine s es (git_line command r)
  | add_failed : PassLine s es (strike_line add_failed)
  | commit_failed {command : PyStr} {cwd : PyVal} {r : ActionResult} {w w' : W}
      (hran : ran cwd command w r w' ∈ es) :
      PassLine s es (strike_line (commit_failed r (declared_files s.ticket)))
  | head_unmoved {cwd : PyVal} {b h : ActionResult} {w₁ w₂ w₃ w₄ : W}
      (hb : ran cwd git_head w₁ b w₂ ∈ es) (hh : ran cwd git_head w₃ h w₄ ∈ es) :
      PassLine s es (strike_line (head_unmoved (head_of b) (head_of h) (declared_files s.ticket)))

/-- What the setup logs: the answers of its commands, four at most. -/
structure SetupLog (cwd : PyVal) (setup : List (Event W)) (git_log : List PyStr) : Prop where
  length : git_log.length ≤ 4
  line : ∀ line ∈ git_log, ∃ command ∈ setup_commands, ∃ r w w',
    line = git_line command r ∧ ran cwd command w r w' ∈ setup

omit [Unicode] in
theorem SetupLog.run {cwd : PyVal} {setup : List (Event W)} {git_log : List PyStr} {command : PyStr}
    (h : SetupLog cwd setup git_log) (hc : command ∈ setup_commands) (hlen : git_log.length < 4)
    (r : ActionResult) (w w' : W) :
    SetupLog cwd (setup ++ [ran cwd command w r w']) (git_log ++ [git_line command r]) where
  length := by
    rw [List.length_append, List.length_singleton]
    omega
  line := by
    intro line hline
    rcases List.mem_append.mp hline with hline | hline
    · obtain ⟨command', hc', r', w₁, w₂, heq, hran⟩ := h.line line hline
      exact ⟨command', hc', r', w₁, w₂, heq, List.mem_append_left _ hran⟩
    · exact ⟨command, hc, r, w, w', List.mem_singleton.mp hline, by simp⟩

theorem git_setup_logs (client : Client W) (cwd : PyVal) (w : W) :
    Prog.wp (git_setup client cwd)
      (fun r _ es => ∀ git_log, r = .ok git_log → SetupLog cwd es git_log) w := by
  have hnil : SetupLog cwd ([] : List (Event W)) [] := ⟨Nat.zero_le 4, by simp⟩
  have hrepo : git_is_repo ∈ setup_commands := by simp [setup_commands]
  have hinit : git_init ∈ setup_commands := by simp [setup_commands]
  have hname : git_user_name ∈ setup_commands := by simp [setup_commands]
  have hemail : git_user_email ∈ setup_commands := by simp [setup_commands]
  unfold git_setup
  apply wp_git_run_bind
  · intro is_repo w₁ _
    have h₁ := hnil.run hrepo (by simp) is_repo w w₁
    rw [List.nil_append] at h₁ ⊢
    -- the repository is made when there is none
    apply Prog.wp_seq (R := fun r _ es => ∀ git_log, r = .ok git_log →
      SetupLog cwd (ran cwd git_is_repo w is_repo w₁ :: es) git_log ∧ git_log.length ≤ 2)
    · rw [Prog.wp_ite]
      constructor
      · intro _
        apply wp_git_run_bind
        · intro r w₂ _
          rw [Prog.wp_pure]
          intro git_log heq
          cases heq
          exact ⟨h₁.run hinit (by simp) r w₁ w₂, by simp⟩
        · intro e w' git_log heq
          cases heq
      · intro _
        rw [Prog.wp_pure]
        intro git_log heq
        cases heq
        exact ⟨h₁, by simp⟩
    · intro git_log w₂ es hlog
      obtain ⟨h₂, hlen⟩ := hlog git_log rfl
      apply wp_git_run_bind
      · intro r w₃ _
        have h₃ := h₂.run hname (by omega) r w₂ w₃
        apply wp_git_run_bind
        · intro r' w₄ _
          have h₄ := h₃.run hemail (by rw [List.length_append, List.length_singleton]; omega) r' w₃ w₄
          rw [Prog.wp_pure]
          intro git_log' heq
          cases heq
          simpa using h₄
        · intro e w' git_log' heq
          cases heq
      · intro e w' git_log' heq
        cases heq
    · intro e w' es _ git_log heq
      cases heq
  · intro e w' git_log heq
    cases heq

/-- The lines of a setup and of the commands run behind it. -/
theorem SetupLog.commands {s : AgentState} {cwd : PyVal} {setup : List (Event W)}
    {git_log : List PyStr} (h : SetupLog cwd setup git_log) (xs : List (PyStr × W × ActionResult × W))
    (hxs : ∀ x ∈ xs, IsCommit s x.1) :
    ∀ line ∈ git_log ++ xs.map fun x => git_line x.1 x.2.2.1,
      PassLine s (setup ++ xs.map fun x => ran cwd x.1 x.2.1 x.2.2.1 x.2.2.2) line := by
  intro line hline
  rcases List.mem_append.mp hline with hline | hline
  · obtain ⟨command, hc, r, w, w', rfl, hran⟩ := h.line line hline
    exact PassLine.command (Or.inl hc) (List.mem_append_left _ hran)
  · obtain ⟨x, hx, rfl⟩ := List.mem_map.mp hline
    exact PassLine.command (Or.inr (hxs x hx)) (List.mem_append_right _ (List.mem_map_of_mem hx))

/-- A pass logs nine lines at most, each one its own. -/
theorem GitPass.lines {client : Client W} {s δ : AgentState} {cwd : PyVal}
    {setup es : List (Event W)} {git_log : List PyStr}
    (h : GitPass client s cwd setup git_log es δ) (hsetup : SetupLog cwd setup git_log) :
    ∃ lines, δ.attempt_log = some (s.log ++ lines) ∧ lines.length ≤ 9 ∧
      ∀ line ∈ lines, PassLine s es line := by
  have hlen := hsetup.length
  -- every command of the pass is one of three kinds
  have hhead : IsCommit s git_head := Or.inl rfl
  have hadd : ∀ paths, quote_paths (declared_files s.ticket) = .ok paths →
      IsCommit s (git_add paths) := fun paths hpaths => Or.inr (Or.inl ⟨paths, hpaths, rfl⟩)
  have hcommit : IsCommit s (git_commit (commit_message s.ticket s.log)) := Or.inr (Or.inr rfl)
  cases h with
  | no_files => exact ⟨git_log, rfl, by omega, by simpa using hsetup.commands (s := s) [] (by simp)⟩
  | @add_failed paths b a w₁ w₂ w₃ _ hpaths =>
    have hlines := hsetup.commands (s := s) [(git_head, w₁, b, w₂), (git_add paths, w₂, a, w₃)]
      (by simp [hhead, hadd paths hpaths])
    refine ⟨_, rfl, by simp; omega, ?_⟩
    intro line hline
    rcases List.mem_append.mp hline with hline | hline
    · exact hlines line hline
    · rw [List.mem_singleton.mp hline]
      exact PassLine.add_failed
  | @commit_failed paths b a c w₁ w₂ w₃ w₄ _ hpaths =>
    have hlines := hsetup.commands (s := s) [(git_head, w₁, b, w₂), (git_add paths, w₂, a, w₃),
      (git_commit (commit_message s.ticket s.log), w₃, c, w₄)]
      (by simp [hhead, hadd paths hpaths, hcommit])
    refine ⟨_, rfl, by simp; omega, ?_⟩
    intro line hline
    rcases List.mem_append.mp hline with hline | hline
    · exact hlines line hline
    · rw [List.mem_singleton.mp hline]
      exact PassLine.commit_failed (List.mem_append_right _
        (List.mem_cons_of_mem _ (List.mem_cons_of_mem _ List.mem_cons_self)))
  | @head_unmoved paths b a c h w₁ w₂ w₃ w₄ w₅ _ hpaths =>
    have hlines := hsetup.commands (s := s) [(git_head, w₁, b, w₂), (git_add paths, w₂, a, w₃),
      (git_commit (commit_message s.ticket s.log), w₃, c, w₄), (git_head, w₄, h, w₅)]
      (by simp [hhead, hadd paths hpaths, hcommit])
    refine ⟨_, rfl, by simp; omega, ?_⟩
    intro line hline
    rcases List.mem_append.mp hline with hline | hline
    · exact hlines line hline
    · rw [List.mem_singleton.mp hline]
      exact PassLine.head_unmoved (List.mem_append_right _ List.mem_cons_self)
        (List.mem_append_right _ (List.mem_cons_of_mem _
          (List.mem_cons_of_mem _ (List.mem_cons_of_mem _ List.mem_cons_self))))
  | @done paths b a c h w₁ w₂ w₃ w₄ w₅ _ hpaths =>
    have hlines := hsetup.commands (s := s) [(git_head, w₁, b, w₂), (git_add paths, w₂, a, w₃),
      (git_commit (commit_message s.ticket s.log), w₃, c, w₄), (git_head, w₄, h, w₅)]
      (by simp [hhead, hadd paths hpaths, hcommit])
    exact ⟨_, rfl, by simp; omega, hlines⟩

/-- A pass that returns has logged nine lines at most, each one its own. -/
theorem oversight_git_node_logs (env : Env W) (s : AgentState) (w : W) :
    Prog.wp (oversight_git_node env s)
      (fun r _ es => ∀ δ, r = .ok δ → ∃ lines, δ.attempt_log = some (s.log ++ lines) ∧
        lines.length ≤ 9 ∧ ∀ line ∈ lines, PassLine s es line) w := by
  unfold oversight_git_node
  rw [Prog.wp_bind, Prog.wp_ofExcept]
  rcases env.get_runtime_client with e | client
  · rw [Prog.andThen_error]
    intro δ hδ
    cases hδ
  rw [Prog.andThen_ok]
  apply Prog.wp_seq (git_setup_logs client (workspace_dir s.ticket) w)
  · intro git_log w' setup hlog
    have hsetup := hlog git_log rfl
    rw [Prog.wp_ite]
    constructor
    · intro hfiles
      apply Prog.wp_mono
        (git_commit_pass_spec client s (workspace_dir s.ticket) git_log setup hfiles w')
      intro r w'' es hpass δ hδ
      rw [List.nil_append]
      exact (hpass δ hδ).lines hsetup
    · intro hfiles
      rw [Prog.wp_pure]
      intro δ hδ
      cases hδ
      have hpass : GitPass client s (workspace_dir s.ticket) setup git_log setup _ :=
        GitPass.no_files (Bool.not_eq_true _ ▸ hfiles)
      simpa using hpass.lines hsetup
  · intro e w' es _ δ hδ
    cases hδ

end pass

end Syndicate
