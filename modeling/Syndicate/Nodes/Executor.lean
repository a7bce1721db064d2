import Syndicate.Nodes.Analyzer

/-! # `executor_node`: the tool-calling loop and the strike budget -/

namespace Syndicate

open Py Framework

variable {W : Type} [Unicode]

/-- `_MAX_TOOL_CALLS`. -/
def MAX_TOOL_CALLS : Nat := 25

/-- `_MAX_STRIKES`. -/
def MAX_STRIKES : Int := 3

/-- `_EXECUTOR_TOOLS`. -/
def EXECUTOR_TOOLS : List PyVal :=
  [.dict [(lit "type", .str (lit "bash_20250124")), (lit "name", .str (lit "bash"))],
   .dict [(lit "type", .str (lit "text_editor_20250728")),
          (lit "name", .str (lit "str_replace_based_edit_tool"))]]

/-- `_DUMMY_ACTIONS`. -/
def DUMMY_ACTIONS : List PyStr := [lit "git status", lit "python -m pytest"]

/-- `_FAST_CHECK_ACTIONS`. -/
def FAST_CHECK_ACTIONS : List PyStr := [lit "git status", lit "python -m pytest"]

/-! ## One tool call -/

/-- The `bash` branch of `_run_tool`. -/
def run_bash (client : RuntimeClient W) (tool_input : Dict) (cwd : PyVal) : M W (PyStr × Bool) :=
  if (tool_input.get "restart").truthy then pure (lit "bash session restarted", false)
  else do
    let command ← Prog.ofExcept (tool_input.getItem "command")
    let result ← client.act command cwd none
    if result.exit_code ≠ 0 then
      pure (lit "exit_code=" ++ str_int result.exit_code ++ lit "\n" ++ result.output, true)
    else pure (result.output, false)

/-- The `str_replace_based_edit_tool` branch of `_run_tool`. -/
def run_edit_tool (client : RuntimeClient W) (tool_input : Dict) : M W (PyStr × Bool) := do
  let command ← Prog.ofExcept (tool_input.getItem "command")
  let path ← Prog.ofExcept (tool_input.getItem "path")
  match command with
  | .str c =>
    if c = lit "view" then do
      let content ← client.read path
      pure (content, false)
    else if c = lit "create" then do
      let file_text ← Prog.ofExcept (tool_input.getItem "file_text")
      client.write path file_text
      pure (lit "created " ++ str path, false)
    else if c = lit "str_replace" then do
      let old_str ← Prog.ofExcept (tool_input.getItem "old_str")
      let new_str ← Prog.ofExcept (tool_input.getItem "new_str")
      client.edit path old_str new_str
      pure (lit "edited " ++ str path, false)
    else pure (lit "unsupported command " ++ repr_str c, true)
  | v => pure (lit "unsupported command " ++ Py.repr v, true)

/-- What `_run_tool` catches: `FileNotFoundError` and `ValueError`. -/
def tool_error (exc : PyExc) : Option (PyStr × Bool) :=
  if exc.kind = .FileNotFoundError ∨ exc.kind.isValueError then some (exc.msg, true) else none

/-- `_run_tool`: content and `is_error` of the tool result. -/
def run_tool (client : RuntimeClient W) (name : PyStr) (tool_input : Dict) (cwd : PyVal) :
    M W (PyStr × Bool) := do
  Prog.note (.run_tool name tool_input)
  Prog.catching
    (if name = lit "bash" then run_bash client tool_input cwd
     else if name = lit "str_replace_based_edit_tool" then run_edit_tool client tool_input
     else pure (lit "unknown tool " ++ repr_str name, true))
    tool_error

/-! ## One attempt -/

/-- The loop of `_run_agentic_loop` over the blocks of one reply. -/
def run_tools (client : RuntimeClient W) (cwd : PyVal) : List Block → M W (List ToolResult)
  | [] => pure []
  | .tool_use id name input :: rest => do
    let (content, is_error) ← run_tool client name input cwd
    let results ← run_tools client cwd rest
    pure (⟨id, content, is_error⟩ :: results)
  | _ :: rest => run_tools client cwd rest

/-- The turns left in `_run_agentic_loop`. -/
def agentic_turns (env : Env W) (client : RuntimeClient W) (cwd : PyVal) :
    Nat → List Message → M W PyStr
  | 0, _ => pure (lit "tool call cap reached without a final answer")
  | n + 1, messages => do
    let response ← env.create ⟨EXECUTOR_MODEL, 8096, EXECUTOR_TOOLS, messages⟩
    if response.stop_reason ≠ lit "tool_use" then pure response.text
    else do
      let tool_results ← run_tools client cwd response.content
      agentic_turns env client cwd n
        (messages ++ [.assistant response.content, .tool_results tool_results])

/-- The first message of an attempt. -/
def user_content (task_prompt : PyStr) (feedback : Option PyStr) : PyStr :=
  match feedback with
  | none => task_prompt
  | some f => task_prompt ++ lit "\n\nThe previous attempt failed its checks:\n" ++ f

/-- `_run_agentic_loop`. -/
def run_agentic_loop (env : Env W) (client : RuntimeClient W) (task_prompt : PyStr)
    (feedback : Option PyStr) (cwd ticket_id : PyVal) : M W PyStr := do
  Prog.note (.agentic_loop feedback)
  env.llm_client ticket_id
  let summary ← agentic_turns env client cwd MAX_TOOL_CALLS [.user (user_content task_prompt feedback)]
  Prog.note (.agentic_summary summary)
  pure summary

/-- The loop of `_run_fast_checks` over the actions left. -/
def fast_checks (client : RuntimeClient W) (cwd : PyVal) : List PyStr → M W ActionResult
  | [] => pure ⟨0, lit "fast checks passed"⟩
  | action :: rest => do
    let result ← client.act (.str action) cwd none
    if result.exit_code ≠ 0 then pure result
    else fast_checks client cwd rest

/-- `_run_fast_checks`. -/
def run_fast_checks (client : RuntimeClient W) (cwd : PyVal) : M W ActionResult := do
  let result ← fast_checks client cwd FAST_CHECK_ACTIONS
  Prog.note (.fast_checks result)
  pure result

/-! ## The node -/

/-- The log line of an attempt's summary. -/
def summary_line (strike : Int) (summary : PyStr) : PyStr :=
  lit "strike=" ++ str_int strike ++ lit " summary=" ++ repr_str summary

/-- The log line of an attempt's fast check. -/
def fast_check_line (strike : Int) (check : ActionResult) : PyStr :=
  lit "strike=" ++ str_int strike ++ lit " fast_check exit_code=" ++ str_int check.exit_code ++
    lit " output=" ++ repr_str check.output

/-- The log line of a dummy action in mock mode. -/
def action_line (action : PyStr) (result : ActionResult) : PyStr :=
  lit "action=" ++ repr_str action ++ lit " exit_code=" ++ str_int result.exit_code ++
    lit " output=" ++ repr_str result.output

/-- The loop of `executor_node` in mock mode. -/
def dummy_actions (client : Client W) : List PyStr → List PyStr → M W (List PyStr)
  | [], log => pure log
  | action :: rest, log => do
    let result ← client.act (.str action) .none none
    dummy_actions client rest (log ++ [action_line action result])

/-- `while strike < _MAX_STRIKES` of `executor_node`; the first argument is
    the number of times the condition still holds. -/
def executor_loop (env : Env W) (client : RuntimeClient W) (ticket : Dict) :
    Nat → Int → List PyStr → Option PyStr → M W AgentState
  | 0, strike, log, _ =>
    pure { attempt_log := some log, ticket_status := some .ESCALATED, strike_count := some strike }
  | n + 1, strike, log, feedback => do
    let summary ← run_agentic_loop env client (lit "Ticket: " ++ Py.repr (.dict ticket)) feedback
      (workspace_dir ticket) (ticket_id ticket)
    let check ← run_fast_checks client (workspace_dir ticket)
    let log' := log ++ [summary_line (strike + 1) summary, fast_check_line (strike + 1) check]
    if check.exit_code = 0 then
      pure { attempt_log := some log', ticket_status := some .LOCAL_PASS,
             strike_count := some (strike + 1), validation_diagnosis := some none }
    else executor_loop env client ticket n (strike + 1) log' (some check.output)

/-- `executor_node`. -/
def executor_node (env : Env W) (s : AgentState) : M W AgentState := do
  let client ← Prog.ofExcept env.get_runtime_client
  match client with
  | .MockRuntimeClient => do
    let log ← dummy_actions client DUMMY_ACTIONS s.log
    pure { attempt_log := some log, ticket_status := some .LOCAL_PASS }
  | .RuntimeClient api =>
    executor_loop env api s.ticket (MAX_STRIKES - s.strikes).toNat s.strikes s.log s.diagnosis

end Syndicate
