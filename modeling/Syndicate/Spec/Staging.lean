import Syndicate.Py.Object
import Syndicate.Py.Shell
import Syndicate.Spec.Oversight

/-! # What a git pass commits

    A repository as far as staging and committing goes: the files of the
    workspace, the index, and the tree of `HEAD`.  `GitHost` says what the
    documentation of git says of the commands of a pass; `RepoPass` is what a
    pass makes of a repository then.  `git add` stages what its pathspecs
    match, listed or not, and `git commit` commits the whole index. -/

namespace Syndicate

open Py Framework

/-- Files by their path, as seen from the workspace. -/
abbrev Tree (Blob : Type) := PyStr → Option Blob

structure Repo (Blob : Type) where
  worktree : Tree Blob
  index : Tree Blob
  /-- The tree of `HEAD`, if there is a commit yet. -/
  head : Option (Tree Blob)

namespace Repo

variable {Blob : Type} (r : Repo Blob)

/-- What the next commit is compared with. -/
def base : Tree Blob := r.head.getD fun _ => none

/-- The index with these paths as they are in the workspace. -/
def stage (paths : PyStr → Bool) : Tree Blob := fun p =>
  if paths p then r.worktree p else r.index p

end Repo

section host
variable {W Blob : Type} [Unicode]

/-- A host where git does what its documentation says.  `pathspec r spec p`:
    the pathspec matches the path and git does not ignore it.
    `stages r specs p`: `git add` stages the path, also before it fails. -/
structure GitHost (client : Client W) (cwd : PyVal) (repo : W → Repo Blob)
    (pathspec : Repo Blob → PyStr → PyStr → Bool)
    (stages : Repo Blob → List PyStr → PyStr → Bool) : Prop where
  /-- Looking, configuring and `git init` change no file, no entry and no
      commit. -/
  looks : ∀ command ∈ git_head :: setup_commands, ∀ w r w',
    Answers client cwd command w r w' → repo w' = repo w
  add : ∀ command specs, Shell.words command = some (lit "git" :: lit "add" :: lit "--" :: specs) →
    ∀ w r w', Answers client cwd command w r w' →
      repo w' = { repo w with index := (repo w).stage (stages (repo w) specs) }
  /-- Where it succeeds it has staged what the pathspecs match. -/
  added : ∀ command specs,
    Shell.words command = some (lit "git" :: lit "add" :: lit "--" :: specs) →
    ∀ w r w', Answers client cwd command w r w' → r.exit_code = 0 →
      ∀ p, stages (repo w) specs p = specs.any fun spec => pathspec (repo w) spec p
  /-- A commit has the whole index; one that fails changes nothing (there are
      no hooks that edit the index). -/
  commit : ∀ command message,
    Shell.words command = some [lit "git", lit "commit", lit "-m", message] →
    ∀ w r w', Answers client cwd command w r w' →
      repo w' = if r.exit_code = 0 then { repo w with head := some (repo w).index } else repo w

end host

/-! ## The paths of a ticket -/

/-- The text of an entry; one that is no string is quoted as the empty one. -/
def entry_text : PyVal → PyStr
  | .str s => s
  | _ => []

/-- The entries of `files_changed`, or of `target_files`. -/
def listed_paths (ticket : Dict) : List PyStr :=
  match iterate (declared_files ticket) with
  | .ok entries => entries.map entry_text
  | .error _ => []

theorem quote_value_ok {v : PyVal} {path : PyStr} (h : quote_value v = .ok path) :
    path = shlex_quote (entry_text v) := by
  unfold quote_value at h
  cases v with
  | str s => exact (Except.ok.inj h).symm
  | _ =>
    dsimp only at h
    split at h
    · cases h
    · exact (Except.ok.inj h).symm

theorem quote_paths_ok {ticket : Dict} {paths : List PyStr}
    (h : quote_paths (declared_files ticket) = .ok paths) :
    paths = (listed_paths ticket).map shlex_quote := by
  have hall : ∀ (entries : List PyVal) {paths : List PyStr}, entries.mapM quote_value = .ok paths →
      paths = (entries.map entry_text).map shlex_quote := by
    intro entries
    induction entries with
    | nil =>
      intro paths hpaths
      exact (Except.ok.inj hpaths).symm
    | cons v entries ih =>
      intro paths hpaths
      rw [List.mapM_cons, except_bind_ok] at hpaths
      obtain ⟨path, hpath, hpaths⟩ := hpaths
      obtain ⟨rest, hrest, hpaths⟩ := except_bind_ok.mp hpaths
      rw [← Except.ok.inj hpaths, quote_value_ok hpath, ih hrest]
      rfl
  obtain ⟨entries, hentries, hpaths⟩ := except_bind_ok.mp h
  rw [hall entries hpaths, listed_paths, hentries]

/-- The arguments of `git add` are `--` and the listed paths, whatever
    characters they have. -/
theorem words_git_add (specs : List PyStr) :
    Shell.words (git_add (specs.map shlex_quote)) =
      some (lit "git" :: lit "add" :: lit "--" :: specs) := by
  have hsteps : ∀ t, Shell.words (lit "git add -- " ++ t) =
      ((((Shell.lex .plain none t).map (lit "--" :: ·)).map (lit "add" :: ·)).map (lit "git" :: ·)) :=
    fun t => rfl
  rw [git_add, hsteps, Shell.lex_quoted]
  rfl

/-- The argument of `-m` is the message. -/
theorem words_git_commit (message : PyStr) :
    Shell.words (git_commit message) = some [lit "git", lit "commit", lit "-m", message] := by
  have hsteps : ∀ t, Shell.words (lit "git commit -m " ++ t) =
      ((((Shell.lex .plain none t).map (lit "-m" :: ·)).map (lit "commit" :: ·)).map
        (lit "git" :: ·)) :=
    fun t => rfl
  rw [git_commit, hsteps, Shell.lex_quote_end]
  rfl

/-! ## A pass over a repository -/

/-- What a pass that returns makes of a repository: it commits what is staged
    then, or it strikes and leaves that in the index, or it does neither. -/
inductive RepoPass {Blob : Type} (pathspec : Repo Blob → PyStr → PyStr → Bool)
    (stages : Repo Blob → List PyStr → PyStr → Bool) (specs : List PyStr) (r : Repo Blob) :
    Repo Blob → AgentState → Prop where
  | no_files {δ : AgentState} (hstatus : δ.ticket_status = none) (hstrike : δ.strike_count = none) :
      RepoPass pathspec stages specs r r δ
  | struck {r' : Repo Blob} {δ : AgentState} (hstatus : δ.ticket_status = none)
      (hindex : r'.index = r.stage (stages r specs)) : RepoPass pathspec stages specs r r' δ
  | done {r' : Repo Blob} {δ : AgentState} (hstrike : δ.strike_count = none)
      (hstages : ∀ p, stages r specs p = specs.any fun spec => pathspec r spec p)
      (hhead : r'.head = some (r.stage (stages r specs))) : RepoPass pathspec stages specs r r' δ

section pass
variable {W Blob : Type} [Unicode] {client : Client W} {cwd : PyVal} {repo : W → Repo Blob}
  {pathspec : Repo Blob → PyStr → PyStr → Bool} {stages : Repo Blob → List PyStr → PyStr → Bool}

theorem GitHost.setup (git : GitHost client cwd repo pathspec stages) (w : W) :
    Prog.wp (git_setup client cwd) (fun x w' _ => ∀ git_log, x = .ok git_log → repo w' = repo w)
      w := by
  -- no command of the setup changes files, entries or commits
  have hlooks : ∀ command ∈ setup_commands, ∀ w r w', Answers client cwd command w r w' →
      repo w' = repo w := fun command hmem => git.looks command (List.mem_cons_of_mem _ hmem)
  have hraise : ∀ (e : PyExc) (w' : W), ∀ git_log : List PyStr,
      Except.error e = Except.ok git_log → repo w' = repo w := by
    intro e w' git_log h
    cases h
  unfold git_setup
  apply wp_git_run_bind
  · intro is_repo w₁ h₁
    have hrepo₁ := hlooks _ (by simp [setup_commands]) _ _ _ h₁
    apply Prog.wp_seq (R := fun x w₂ _ => ∀ git_log : List PyStr, x = .ok git_log → repo w₂ = repo w)
    · rw [Prog.wp_ite]
      constructor
      · intro _
        apply wp_git_run_bind
        · intro r w₂ h₂ git_log _
          exact (hlooks _ (by simp [setup_commands]) _ _ _ h₂).trans hrepo₁
        · exact hraise
      · intro _ git_log _
        exact hrepo₁
    · intro git_log w₂ es hrepo₂
      apply wp_git_run_bind
      · intro r w₃ h₃
        apply wp_git_run_bind
        · intro r' w₄ h₄ git_log' _
          calc repo w₄ = repo w₃ := hlooks _ (by simp [setup_commands]) _ _ _ h₄
            _ = repo w₂ := hlooks _ (by simp [setup_commands]) _ _ _ h₃
            _ = repo w := hrepo₂ git_log rfl
        · exact hraise
      · exact hraise
    · intro e w' es _ git_log h
      cases h
  · exact hraise

/-- The commit half, command by command. -/
theorem GitHost.commit_pass (git : GitHost client cwd repo pathspec stages) (s : AgentState)
    (git_log : List PyStr) (w : W) :
    Prog.wp (git_commit_pass client s cwd git_log)
      (fun x w' _ => ∀ δ, x = .ok δ →
        RepoPass pathspec stages (listed_paths s.ticket) (repo w) (repo w') δ) w := by
  have hraise : ∀ (e : PyExc) (w' : W), ∀ δ : AgentState, Except.error e = Except.ok δ →
      RepoPass pathspec stages (listed_paths s.ticket) (repo w) (repo w') δ := by
    intro e w' δ h
    cases h
  have hlook := git.looks git_head List.mem_cons_self
  unfold git_commit_pass
  apply wp_git_run_bind
  · intro b w₂ hb
    have hrepo₂ := hlook _ _ _ hb
    rw [Prog.wp_bind, Prog.wp_ofExcept]
    rcases hpaths : quote_paths (declared_files s.ticket) with e | paths
    · rw [Prog.andThen_error]
      exact hraise e w₂
    obtain rfl := quote_paths_ok hpaths
    have hadd := git.add _ _ (words_git_add (listed_paths s.ticket))
    have hadded := git.added _ _ (words_git_add (listed_paths s.ticket))
    have hcommit := git.commit _ _ (words_git_commit (commit_message s.ticket s.log))
    rw [Prog.andThen_ok]
    apply wp_git_run_bind
    · intro a w₃ ha
      -- from here on the index is what the pass leaves
      have hrepo₃ := hadd _ _ _ ha
      rw [hrepo₂] at hrepo₃
      rw [Prog.wp_ite]
      constructor
      · intro _
        rw [Prog.wp_pure]
        intro δ hδ
        cases hδ
        exact .struck rfl (congrArg Repo.index hrepo₃)
      · intro hexit
        have hexit : a.exit_code = 0 := Decidable.not_not.mp hexit
        have hstages := hadded _ _ _ ha hexit
        rw [hrepo₂] at hstages
        apply wp_git_run_bind
        · intro c w₄ hc
          have hrepo₄ := hcommit _ _ _ hc
          rw [hrepo₃] at hrepo₄
          have hindex₄ : (repo w₄).index = (repo w).stage (stages (repo w) (listed_paths s.ticket)) := by
            rw [hrepo₄]
            split <;> rfl
          rw [Prog.wp_ite]
          constructor
          · intro _
            rw [Prog.wp_pure]
            intro δ hδ
            cases hδ
            exact .struck rfl hindex₄
          · intro hexit
            rw [if_pos (Decidable.not_not.mp hexit)] at hrepo₄
            apply wp_git_run_bind
            · intro h w₅ hh
              have hrepo₅ := hlook _ _ _ hh
              rw [Prog.wp_ite]
              constructor
              · intro _
                rw [Prog.wp_pure]
                intro δ hδ
                cases hδ
                exact .struck rfl (by rw [hrepo₅]; exact hindex₄)
              · intro _
                rw [Prog.wp_pure]
                intro δ hδ
                cases hδ
                exact .done rfl hstages (by rw [hrepo₅, hrepo₄])
            · exact hraise
        · exact hraise
    · exact hraise
  · exact hraise

/-- The pass. -/
theorem GitHost.pass {env : Env W} {s : AgentState} {w : W} {δ : AgentState}
    (git : GitHost client (workspace_dir s.ticket) repo pathspec stages)
    (henv : env.get_runtime_client = .ok client) (hrun : (oversight_git_node env s w).val = .ok δ) :
    RepoPass pathspec stages (listed_paths s.ticket) (repo w)
      (repo (oversight_git_node env s w).world) δ := by
  have hwp : Prog.wp (oversight_git_node env s) (fun x w' _ => ∀ δ, x = .ok δ →
      RepoPass pathspec stages (listed_paths s.ticket) (repo w) (repo w') δ) w := by
    unfold oversight_git_node
    rw [Prog.wp_bind, Prog.wp_ofExcept, henv, Prog.andThen_ok]
    apply Prog.wp_seq (git.setup w)
    · intro git_log w' es hrepo
      rw [← hrepo git_log rfl, Prog.wp_ite]
      constructor
      · intro _
        exact git.commit_pass s git_log w'
      · intro _
        rw [Prog.wp_pure]
        intro δ hδ
        cases hδ
        exact .no_files rfl rfl
    · intro e w' es _ δ hδ
      cases hδ
  exact hwp δ hrun

end pass

/-! ## The scope of a commit -/

section scope
variable {W Blob : Type} [Unicode] {client : Client W} {repo : W → Repo Blob}
  (pathspec : Repo Blob → PyStr → PyStr → Bool) (stages : Repo Blob → List PyStr → PyStr → Bool)

/-- What is not listed is at its state of `HEAD` in the index, or in the
    workspace where a pathspec matches it all the same. -/
def OnlyListed (specs : List PyStr) (r : Repo Blob) : Prop :=
  ∀ p, p ∉ specs → (if specs.any fun spec => pathspec r spec p then r.worktree p else r.index p) =
    r.base p

/-- The index already has what `git add` stages. -/
def StagesNothing (specs : List PyStr) (r : Repo Blob) : Prop :=
  ∀ p, stages r specs p = true → r.worktree p = r.index p

variable {pathspec stages}

/-- **The scope of a commit.**  A pass that returns `DONE` has committed listed
    paths only if and only if nothing else differed from `HEAD` in the index or
    under a pathspec before; a strike leaves the index as it was if and only
    if it had nothing to stage. -/
theorem commit_scope_iff {env : Env W} {s : AgentState} {w : W} {δ : AgentState}
    (git : GitHost client (workspace_dir s.ticket) repo pathspec stages)
    (henv : env.get_runtime_client = .ok client) (hrun : (oversight_git_node env s w).val = .ok δ) :
    (δ.ticket_status = some .DONE →
      ((∃ tree, (repo (oversight_git_node env s w).world).head = some tree ∧
        ∀ p, tree p ≠ (repo w).base p → p ∈ listed_paths s.ticket) ↔
          OnlyListed pathspec (listed_paths s.ticket) (repo w))) ∧
      (δ.strike_count ≠ none →
        ((repo (oversight_git_node env s w).world).index = (repo w).index ↔
          StagesNothing stages (listed_paths s.ticket) (repo w))) := by
  have hpass := git.pass henv hrun
  generalize repo (oversight_git_node env s w).world = r' at hpass
  constructor
  · intro hdone
    cases hpass with
    | no_files hstatus | struck hstatus =>
      rw [hstatus] at hdone
      cases hdone
    | done _ hstages hhead =>
      -- what is committed: the worktree under a pathspec, the index elsewhere
      have htree : (repo w).stage (stages (repo w) (listed_paths s.ticket)) = fun p =>
          if (listed_paths s.ticket).any fun spec => pathspec (repo w) spec p then
            (repo w).worktree p else (repo w).index p := by
        funext p
        rw [Repo.stage, hstages p]
      rw [htree] at hhead
      constructor
      · rintro ⟨tree, htree', honly⟩ p hp
        obtain rfl := Option.some.inj (hhead.symm.trans htree')
        by_contra hne
        exact hp (honly p hne)
      · intro honly
        refine ⟨_, hhead, fun p hne => ?_⟩
        by_contra hp
        exact hne (honly p hp)
  · intro hstrike
    cases hpass with
    | no_files _ hnone | done hnone =>
      exact absurd hnone hstrike
    | struck _ hindex =>
      rw [hindex]
      constructor
      · intro hsame p hp
        have hp' := congrFun hsame p
        rw [Repo.stage, if_pos hp] at hp'
        exact hp'
      · intro hnothing
        funext p
        by_cases hp : stages (repo w) (listed_paths s.ticket) p = true
        · rw [Repo.stage, if_pos hp, hnothing p hp]
        · rw [Repo.stage, if_neg hp]

end scope

/-! ## A small repository -/

/-- A repository of two known paths, and how many commits it has. -/
structure Checkout where
  repo : Repo PyStr
  commits : Nat

namespace Checkout

def paths : List PyStr := [lit "a.py", lit ".env"]

/-- A glob of `*` and `?`; both match a slash. -/
def glob : PyStr → PyStr → Bool
  | [], path => path.isEmpty
  | c :: pattern, path =>
    if c = CodePoint.ofChar '*' then path.tails.any (glob pattern)
    else
      match path with
      | [] => false
      | d :: path => (c == CodePoint.ofChar '?' || c == d) && glob pattern path

/-- A pathspec is a path, a directory or a glob. -/
def pathspec (_ : Repo PyStr) (spec path : PyStr) : Bool :=
  spec == path || spec == lit "." || (spec ++ lit "/").isPrefixOf path || glob spec path

/-- Each pathspec matches a file. -/
def found (r : Repo PyStr) (specs : List PyStr) : Bool :=
  specs.all fun spec => paths.any fun path =>
    ((r.worktree path).isSome || (r.index path).isSome) && pathspec r spec path

/-- What `git add` stages: nothing, if a pathspec matches no file. -/
def stages (r : Repo PyStr) (specs : List PyStr) (path : PyStr) : Bool :=
  found r specs && specs.any fun spec => pathspec r spec path

def add_files (specs : List PyStr) (w : Checkout) : ActionResult × Checkout :=
  (⟨if found w.repo specs then 0 else 128, []⟩,
    { w with repo := { w.repo with index := w.repo.stage (stages w.repo specs) } })

/-- Without a change in the index there is nothing to commit. -/
def commit_index (w : Checkout) : ActionResult × Checkout :=
  if paths.all fun path => w.repo.index path == w.repo.base path then (⟨1, []⟩, w)
  else (⟨0, []⟩, ⟨{ w.repo with head := some w.repo.index }, w.commits + 1⟩)

def show_head (w : Checkout) : ActionResult :=
  if w.commits = 0 then ⟨128, []⟩ else ⟨0, lit w.commits.repr⟩

def run (argv : List PyStr) (w : Checkout) : ActionResult × Checkout :=
  if argv = [lit "git", lit "rev-parse", lit "HEAD"] then (show_head w, w)
  else if argv.take 3 = [lit "git", lit "add", lit "--"] then add_files (argv.drop 3) w
  else if argv.take 3 = [lit "git", lit "commit", lit "-m"] then commit_index w
  else (⟨0, []⟩, w)

theorem run_add (specs : List PyStr) (w : Checkout) :
    run (lit "git" :: lit "add" :: lit "--" :: specs) w = add_files specs w := by
  have hne : lit "git" :: lit "add" :: lit "--" :: specs ≠
      [lit "git", lit "rev-parse", lit "HEAD"] := by
    intro h
    have hadd : lit "add" ≠ lit "rev-parse" := by decide
    exact hadd (List.cons.inj (List.cons.inj h).2).1
  rw [run, if_neg hne]
  exact if_pos rfl

theorem run_commit (message : PyStr) (w : Checkout) :
    run [lit "git", lit "commit", lit "-m", message] w = commit_index w := by
  have hcommit : lit "commit" ≠ lit "rev-parse" ∧ lit "commit" ≠ lit "add" := by decide
  have hne : [lit "git", lit "commit", lit "-m", message] ≠
      [lit "git", lit "rev-parse", lit "HEAD"] := by
    intro h
    exact hcommit.1 (List.cons.inj (List.cons.inj h).2).1
  have hadd : List.take 3 [lit "git", lit "commit", lit "-m", message] ≠
      [lit "git", lit "add", lit "--"] := by
    intro h
    exact hcommit.2 (List.cons.inj (List.cons.inj h).2).1
  rw [run, if_neg hne, if_neg hadd]
  exact if_pos rfl

/-- The sandbox around it. -/
def api : RuntimeClient Checkout where
  run_action := fun action _ _ w =>
    match action with
    | .str command =>
      match Shell.words command with
      | some argv => (.ok (run argv w).1, (run argv w).2)
      | none => (.ok ⟨2, []⟩, w)
    | _ => (.ok ⟨2, []⟩, w)
  read_file := fun _ w => (.error ⟨.FileNotFoundError, []⟩, w)
  write_file := fun _ _ w => (.ok (), w)
  edit_file := fun _ _ _ w => (.ok (), w)

def env : Env Checkout where
  get_runtime_client := .ok (.RuntimeClient api)
  get_llm_client := fun _ w => (.ok (), w)
  messages_create := fun _ w => (.ok ⟨[], lit "end_turn"⟩, w)
  json_loads := fun _ => .ok (.dict [])
  MAX_ESCALATIONS := 3

section host
variable [Unicode]

theorem answers_run {cwd : PyVal} {command : PyStr} {argv : List PyStr}
    (h : Shell.words command = some argv) {w : Checkout} {r : ActionResult} {w' : Checkout}
    (hanswers : Answers (.RuntimeClient api) cwd command w r w') : run argv w = (r, w') := by
  have hrun : (Client.RuntimeClient api).run_action (.str command) cwd none w =
      (.ok (run argv w).1, (run argv w).2) := by
    simp only [Client.run_action, api, h]
  rw [Answers, hrun] at hanswers
  obtain ⟨hr, hw⟩ := Prod.mk.inj hanswers
  rw [← Except.ok.inj hr, ← hw]

/-- Its git does what the documentation says. -/
theorem host (cwd : PyVal) :
    GitHost (.RuntimeClient api) cwd Checkout.repo pathspec stages where
  looks := by
    have hlooks : ∀ command ∈ git_head :: setup_commands,
        ∃ argv, Shell.words command = some argv ∧ ∀ w, (run argv w).2 = w := by
      simp only [setup_commands, List.forall_mem_cons]
      refine ⟨⟨_, rfl, fun w => rfl⟩, ⟨_, rfl, fun w => rfl⟩, ⟨_, rfl, fun w => rfl⟩,
        ⟨_, rfl, fun w => rfl⟩, ⟨_, rfl, fun w => rfl⟩, ?_⟩
      simp
    intro command hmem w r w' hanswers
    obtain ⟨argv, hwords, hsame⟩ := hlooks command hmem
    have hrun := answers_run hwords hanswers
    rw [← hsame w, hrun]
  add := by
    intro command specs hwords w r w' hanswers
    have hrun := (run_add specs w).symm.trans (answers_run hwords hanswers)
    have hw : (add_files specs w).2 = w' := congrArg Prod.snd hrun
    rw [← hw]
    rfl
  added := by
    intro command specs hwords w r w' hanswers hexit p
    have hrun := (run_add specs w).symm.trans (answers_run hwords hanswers)
    have hr : (add_files specs w).1 = r := congrArg Prod.fst hrun
    have hfound : found w.repo specs = true := by
      by_contra hno
      rw [← hr, add_files, if_neg hno] at hexit
      exact absurd hexit (show (128 : Int) ≠ 0 by decide)
    rw [stages, hfound, Bool.true_and]
  commit := by
    intro command message hwords w r w' hanswers
    have hrun := (run_commit message w).symm.trans (answers_run hwords hanswers)
    unfold commit_index at hrun
    -- with and without something to commit
    split at hrun
    · obtain ⟨rfl, rfl⟩ := Prod.mk.inj hrun
      rfl
    · obtain ⟨rfl, rfl⟩ := Prod.mk.inj hrun
      rfl

end host

/-- A state with a ticket that lists one file. -/
def state : AgentState :=
  { active_ticket := some [(lit "id", .str (lit "T")),
      (lit "files_changed", .list [.str (lit "a.py")])] }

def tree (files : List (PyStr × PyStr)) : Tree PyStr := fun path => files.lookup path

/-- The file is new and nothing is staged. -/
def fresh : Checkout where
  repo := { worktree := tree [(lit "a.py", lit "x")], index := tree [], head := none }
  commits := 0

/-- Both files have changed since the last commit, and nothing is staged. -/
def edited : Checkout where
  repo := { worktree := tree [(lit "a.py", lit "y"), (lit ".env", lit "NEW")],
            index := tree [(lit "a.py", lit "x"), (lit ".env", lit "KEY")],
            head := some (tree [(lit "a.py", lit "x"), (lit ".env", lit "KEY")]) }
  commits := 1

/-- The change of `.env` is not under the pathspec, and no other path is
    there. -/
theorem edited_only_listed :
    OnlyListed pathspec (listed_paths state.ticket) edited.repo := by
  intro p hp
  have hlisted : p ≠ lit "a.py" := fun h => hp (by rw [h]; decide)
  by_cases henv : p = lit ".env"
  · subst henv
    decide
  · have hnone : ∀ a b, tree [(lit "a.py", a), (lit ".env", b)] p = none := by
      intro a b
      simp [tree, List.lookup_cons, beq_false_of_ne hlisted, beq_false_of_ne henv]
    have hindex : edited.repo.index p = none := hnone _ _
    have hworktree : edited.repo.worktree p = none := hnone _ _
    rw [hindex, hworktree, ite_self]
    exact (hnone _ _).symm

/-- Another file was staged before. -/
def leftover : Checkout where
  repo := { worktree := tree [(lit "a.py", lit "x"), (lit ".env", lit "KEY")],
            index := tree [(lit ".env", lit "KEY")], head := none }
  commits := 0

/-- A change was staged and then undone in the workspace. -/
def undone : Checkout where
  repo := { worktree := tree [(lit "a.py", lit "x")], index := tree [(lit "a.py", lit "y")],
            head := some (tree [(lit "a.py", lit "x")]) }
  commits := 1

end Checkout

section small
attribute [local instance] Unicode.ascii

/-- Of the two files that have changed, the listed one alone is committed. -/
theorem commit_scope_iff_edited :
    ∃ δ, (oversight_git_node Checkout.env Checkout.state Checkout.edited).val = .ok δ ∧
      δ.ticket_status = some .DONE ∧
      ∃ tree, (oversight_git_node Checkout.env Checkout.state Checkout.edited).world.repo.head =
          some tree ∧
        ∀ p, tree p ≠ Checkout.edited.repo.base p → p ∈ listed_paths Checkout.state.ticket :=
  ⟨_, rfl, rfl, ((commit_scope_iff (Checkout.host _)
    (show Checkout.env.get_runtime_client = .ok (.RuntimeClient Checkout.api) from rfl)
    (show (oversight_git_node Checkout.env Checkout.state Checkout.edited).val = .ok _ from rfl)).1
    rfl).mpr Checkout.edited_only_listed⟩

/-- What was staged before is committed with the listed file; and a strike
    leaves in the index what it staged. -/
theorem leftover_is_committed :
    GitHost (.RuntimeClient Checkout.api) (workspace_dir Checkout.state.ticket) Checkout.repo
      Checkout.pathspec Checkout.stages ∧
    (∃ δ tree, (oversight_git_node Checkout.env Checkout.state Checkout.leftover).val = .ok δ ∧
      δ.ticket_status = some .DONE ∧
      (oversight_git_node Checkout.env Checkout.state Checkout.leftover).world.repo.head = some tree ∧
      tree (lit ".env") ≠ Checkout.leftover.repo.base (lit ".env") ∧
      lit ".env" ∉ listed_paths Checkout.state.ticket) ∧
    ∃ δ, (oversight_git_node Checkout.env Checkout.state Checkout.undone).val = .ok δ ∧
      δ.strike_count = some 1 ∧
      (oversight_git_node Checkout.env Checkout.state Checkout.undone).world.repo.index (lit "a.py") ≠
        Checkout.undone.repo.index (lit "a.py") := by
  refine ⟨Checkout.host _, ⟨_, _, rfl, rfl, rfl, ?_, ?_⟩, ⟨_, rfl, rfl, ?_⟩⟩
  · decide
  · decide
  · decide

end small

end Syndicate
