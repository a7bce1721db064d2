import Syndicate.Spec.Staging

/-! # The commands of a git pass

    Ticket, log and issue are text that the pass splices into shell
    commands.  Each command is one simple command all the same, and its
    arguments are the fixed ones, the listed paths and the message. -/

namespace Syndicate

open Py Framework

variable {W : Type}

/-- The arguments of the commands that splice in nothing of a ticket. -/
def fixed_argv : List (List PyStr) :=
  [[lit "git", lit "rev-parse", lit "--is-inside-work-tree"],
   [lit "git", lit "init"],
   [lit "git", lit "config", lit "user.name", GIT_BOT_NAME],
   [lit "git", lit "config", lit "user.email", GIT_BOT_EMAIL],
   [lit "git", lit "rev-parse", lit "HEAD"]]

/-- The setup and the looks at `HEAD`. -/
theorem words_fixed : ∀ command ∈ git_head :: setup_commands,
    ∃ argv, Shell.words command = some argv ∧ argv ∈ fixed_argv := by
  simp only [setup_commands, List.forall_mem_cons]
  refine ⟨⟨_, rfl, ?_⟩, ⟨_, rfl, ?_⟩, ⟨_, rfl, ?_⟩, ⟨_, rfl, ?_⟩, ⟨_, rfl, ?_⟩, ?_⟩
  · decide
  · decide
  · decide
  · decide
  · decide
  · simp

/-- Path strings are listed as they are. -/
theorem listed_paths_of_strings {ticket : Dict} {paths : List PyStr}
    (h : declared_files ticket = .list (paths.map PyVal.str)) : listed_paths ticket = paths := by
  rw [listed_paths, h]
  show (paths.map PyVal.str).map entry_text = paths
  rw [List.map_map]
  exact List.map_id paths

section
variable [Unicode]

/-- What a pass for this ticket and log may run. -/
inductive PassArgv (ticket : Dict) (attempt_log : List PyStr) : List PyStr → Prop where
  | fixed {argv : List PyStr} (h : argv ∈ fixed_argv) : PassArgv ticket attempt_log argv
  | add (h : declares_files ticket = true) :
      PassArgv ticket attempt_log (lit "git" :: lit "add" :: lit "--" :: listed_paths ticket)
  | commit (h : declares_files ticket = true) :
      PassArgv ticket attempt_log
        [lit "git", lit "commit", lit "-m", commit_message ticket attempt_log]

/-- A command in the workspace that the shell reads as one simple command,
    which is one that the pass may run. -/
def OneCommand (s : AgentState) (e : Event W) : Prop :=
  ∃ command pre r post, e = .run_action (.str command) (workspace_dir s.ticket) pre r post ∧
    ∃ argv, Shell.words command = some argv ∧ PassArgv s.ticket s.log argv

/-- One command of the pass. -/
theorem emits_pass_run (client : Client W) {s : AgentState} {command : PyStr} {argv : List PyStr}
    (hwords : Shell.words command = some argv) (hargv : PassArgv s.ticket s.log argv)
    (git_log : List PyStr) :
    Prog.Emits (OneCommand s) (git_run client (workspace_dir s.ticket) command git_log) :=
  emits_git_run client _ command git_log fun pre r post =>
    ⟨command, pre, r, post, rfl, argv, hwords, hargv⟩

theorem emits_commit_commands (client : Client W) {s : AgentState}
    (hfiles : declares_files s.ticket = true) (git_log : List PyStr) :
    Prog.Emits (OneCommand s) (git_commit_pass client s (workspace_dir s.ticket) git_log) := by
  obtain ⟨argv, hhead, hfixed⟩ := words_fixed git_head List.mem_cons_self
  have hlook : ∀ git_log,
      Prog.Emits (OneCommand s) (git_run client (workspace_dir s.ticket) git_head git_log) :=
    emits_pass_run client hhead (.fixed hfixed)
  unfold git_commit_pass
  refine Prog.emits_bind (hlook _) fun before => ?_
  refine Prog.emits_ofExcept_bind fun paths hpaths => ?_
  -- the paths are quoted by now
  obtain rfl := quote_paths_ok hpaths
  refine Prog.emits_bind (emits_pass_run client (words_git_add _) (.add hfiles) _) fun add_result => ?_
  refine Prog.emits_ite (Prog.emits_pure _) ?_
  refine Prog.emits_bind (emits_pass_run client (words_git_commit _) (.commit hfiles) _)
    fun commit_result => ?_
  refine Prog.emits_ite (Prog.emits_pure _) ?_
  refine Prog.emits_bind (hlook _) fun after => ?_
  exact Prog.emits_ite (Prog.emits_pure _) (Prog.emits_pure _)

/-- **No shell injection.**  Whatever characters a ticket and its log have,
    each command of a pass is one simple command: the fixed ones,
    `git add --` with the listed paths, `git commit -m` with the message. -/
theorem no_shell_injection (env : Env W) (s : AgentState) :
    Prog.Emits (OneCommand s) (oversight_git_node env s) ∧
      ∀ paths : List PyStr, declared_files s.ticket = .list (paths.map PyVal.str) →
        listed_paths s.ticket = paths := by
  refine ⟨?_, fun paths hpaths => listed_paths_of_strings hpaths⟩
  unfold oversight_git_node
  refine Prog.emits_bind (Prog.emits_ofExcept _) fun client => ?_
  refine Prog.emits_bind ?_ fun git_log => ?_
  · intro w e he
    obtain ⟨command, hmem, pre, r, post, rfl⟩ := emits_git_setup client _ w e he
    obtain ⟨argv, hwords, hfixed⟩ := words_fixed command (List.mem_cons_of_mem _ hmem)
    exact ⟨command, pre, r, post, rfl, argv, hwords, .fixed hfixed⟩
  · by_cases hfiles : declares_files s.ticket = true
    · rw [if_pos hfiles]
      exact emits_commit_commands client hfiles git_log
    · rw [if_neg hfiles]
      exact Prog.emits_pure _

end

end Syndicate
