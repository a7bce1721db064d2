import Syndicate.Nodes.Executor

/-! # `validator_node` and `oversight_git_node` -/

namespace Syndicate

open Py Framework

variable {W : Type} [Unicode]

/-! ## Validator -/

/-- `_VALIDATOR_TIMEOUT_SECONDS`, as the whole seconds the adapter sends. -/
def VALIDATOR_TIMEOUT_SECONDS : Nat := 300

/-- `_DIAGNOSIS_MAX_LINES`. -/
def DIAGNOSIS_MAX_LINES : Nat := 60

/-- `_DIAGNOSIS_MAX_BYTES`. -/
def DIAGNOSIS_MAX_BYTES : Nat := 4096

/-- `_truncate_diagnosis`: the last lines, then the last bytes. -/
def truncate_diagnosis (output : PyStr) : Except PyExc PyStr :=
  let truncated := join (lit "\n") (lastN DIAGNOSIS_MAX_LINES (splitlines output))
  match encode truncated with
  | none => .error surrogates_not_allowed
  | some encoded =>
    if encoded.length > DIAGNOSIS_MAX_BYTES then
      .ok (decode_replace (lastN DIAGNOSIS_MAX_BYTES encoded))
    else .ok truncated

/-- `validator_node`. -/
def validator_node (env : Env W) (s : AgentState) : M W AgentState := do
  let client ← Prog.ofExcept env.get_runtime_client
  match client with
  | .MockRuntimeClient => pure { last_validation_passed := some true }
  | .RuntimeClient api => do
    let result ← api.act (verification_command s.ticket) (workspace_dir s.ticket)
      (some VALIDATOR_TIMEOUT_SECONDS)
    if result.exit_code = 0 then
      pure { last_validation_passed := some true, validation_diagnosis := some none }
    else do
      let diagnosis ← Prog.ofExcept (truncate_diagnosis result.output)
      pure { last_validation_passed := some false, validation_diagnosis := some (some diagnosis),
             strike_count := some (s.strikes + 1) }

/-! ## Oversight: the git pass -/

/-- `_GIT_BOT_NAME` and `_GIT_BOT_EMAIL`. -/
def GIT_BOT_NAME : PyStr := lit "syndicate-bot"
def GIT_BOT_EMAIL : PyStr := lit "syndicate-bot@example.invalid"

/-- The fixed commands of a pass. -/
def git_is_repo : PyStr := lit "git rev-parse --is-inside-work-tree"
def git_init : PyStr := lit "git init"
def git_user_name : PyStr := lit "git config user.name " ++ shlex_quote GIT_BOT_NAME
def git_user_email : PyStr := lit "git config user.email " ++ shlex_quote GIT_BOT_EMAIL
def git_head : PyStr := lit "git rev-parse HEAD"

/-- `git add -- {paths}`. -/
def git_add (paths : List PyStr) : PyStr := lit "git add -- " ++ join (lit " ") paths

/-- `git commit -m {message}`. -/
def git_commit (message : PyStr) : PyStr := lit "git commit -m " ++ shlex_quote message

/-- `shlex.quote(f)` of a value: a falsy one is `''`, and the regular
    expression search raises on anything but a string. -/
def quote_value : PyVal → Except PyExc PyStr
  | .str s => .ok (shlex_quote s)
  | v => if v.truthy then
      .error ⟨.TypeError, lit "expected string or bytes-like object"⟩
    else .ok (lit "''")

/-- `for f in files`: what iterating over the declared files yields. -/
def iterate : PyVal → Except PyExc (List PyVal)
  | .list xs => .ok xs
  | .tuple xs => .ok xs
  | .str s => .ok (s.map fun c => .str [c])
  | .enum _ value => .ok (value.map fun c => .str [c])
  | .dict items => .ok (items.map fun (k, _) => .str k)
  | _ => .error ⟨.TypeError, lit "object is not iterable"⟩

/-- `[shlex.quote(f) for f in files]`. -/
def quote_paths (files : PyVal) : Except PyExc (List PyStr) := do
  let fs ← iterate files
  fs.mapM quote_value

/-- The entry of one command in `git_log`. -/
def git_line (command : PyStr) (result : ActionResult) : PyStr :=
  lit "$ " ++ command ++ lit "\nexit=" ++ str_int result.exit_code ++ lit "\n" ++ result.output

/-- The closure `run` of `oversight_git_node`: run a command in the
    workspace and extend `git_log`. -/
def git_run (client : Client W) (cwd : PyVal) (command : PyStr) (git_log : List PyStr) :
    M W (ActionResult × List PyStr) := do
  let result ← client.act (.str command) cwd none
  pure (result, git_log ++ [git_line command result])

/-- The line a strike adds to the log. -/
def strike_line (reason : PyStr) : PyStr := lit "oversight_git: " ++ reason

/-- The closure `strike` of `oversight_git_node`. -/
def git_strike (s : AgentState) (git_log : List PyStr) (reason : PyStr) : AgentState :=
  { attempt_log := some (s.log ++ (git_log ++ [strike_line reason])),
    strike_count := some (s.strikes + 1) }

/-- `result.output.strip() if result.exit_code == 0 else None`. -/
def head_of (result : ActionResult) : Option PyStr :=
  if result.exit_code = 0 then some (strip result.output) else none

/-- `{head!r}` of an optional head. -/
def repr_head : Option PyStr → PyStr
  | none => lit "None"
  | some h => repr_str h

/-- The three reasons for a strike. -/
def add_failed : PyStr := lit "git add failed; nothing staged, no commit attempted"

def commit_failed (result : ActionResult) (files : PyVal) : PyStr :=
  lit "git commit failed (exit=" ++ str_int result.exit_code ++ lit "); declared " ++
    lit "files_changed=" ++ Py.repr files ++ lit " produced no commit"

def head_unmoved (before after : Option PyStr) (files : PyVal) : PyStr :=
  lit "git commit exited 0 but HEAD did not move (before=" ++ repr_head before ++ lit ", " ++
    lit "after=" ++ repr_head after ++ lit "); declared files_changed=" ++ Py.repr files ++
    lit " showed no changes"

/-- The commit message: ticket id, intent, and the log so far. -/
def commit_message (ticket : Dict) (attempt_log : List PyStr) : PyStr :=
  let intent := ((ticket.get "intent").or (ticket.get "title")).or (.str (lit "update"))
  let id := (ticket_id ticket).or (.str (lit "TICKET"))
  let body := if attempt_log.isEmpty then lit "no attempts" else join (lit "; ") attempt_log
  lit "[" ++ str id ++ lit "] " ++ str intent ++ lit "\n\n" ++ body

/-- The first half of a pass: make sure there is a repository, with the
    bot's repo-local identity.  Returns `git_log`. -/
def git_setup (client : Client W) (cwd : PyVal) : M W (List PyStr) := do
  let (is_repo, git_log) ← git_run client cwd git_is_repo []
  let git_log ← (if is_repo.exit_code ≠ 0 then do
      let (_, git_log) ← git_run client cwd git_init git_log
      pure git_log
    else pure git_log)
  let (_, git_log) ← git_run client cwd git_user_name git_log
  let (_, git_log) ← git_run client cwd git_user_email git_log
  pure git_log

/-- The second half, for a ticket that declares files: stage exactly those,
    commit, and believe the commit only if `HEAD` moved. -/
def git_commit_pass (client : Client W) (s : AgentState) (cwd : PyVal) (git_log : List PyStr) :
    M W AgentState := do
  let files := declared_files s.ticket
  let (head_before, git_log) ← git_run client cwd git_head git_log
  let paths ← Prog.ofExcept (quote_paths files)
  let (add_result, git_log) ← git_run client cwd (git_add paths) git_log
  if add_result.exit_code ≠ 0 then pure (git_strike s git_log add_failed)
  else do
    let (commit_result, git_log) ←
      git_run client cwd (git_commit (commit_message s.ticket s.log)) git_log
    if commit_result.exit_code ≠ 0 then
      pure (git_strike s git_log (commit_failed commit_result files))
    else do
      let (head_after, git_log) ← git_run client cwd git_head git_log
      if head_of head_after = none ∨ head_of head_after = head_of head_before then
        pure (git_strike s git_log (head_unmoved (head_of head_before) (head_of head_after) files))
      else pure { attempt_log := some (s.log ++ git_log), ticket_status := some .DONE }

/-- `oversight_git_node`. -/
def oversight_git_node (env : Env W) (s : AgentState) : M W AgentState := do
  let client ← Prog.ofExcept env.get_runtime_client
  let git_log ← git_setup client (workspace_dir s.ticket)
  if declares_files s.ticket then git_commit_pass client s (workspace_dir s.ticket) git_log
  else pure { attempt_log := some (s.log ++ git_log) }

end Syndicate
