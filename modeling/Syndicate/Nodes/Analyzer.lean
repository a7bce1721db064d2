import Syndicate.Runtime

/-! # `analyzer_node` and `architect_node`

    Turn an issue into the ticket the executor consumes.  Without an issue
    both pass the given ticket, or a stub ticket, through. -/

namespace Syndicate

open Py Framework

variable {W : Type} [Unicode]

/-- `_ANALYZER_MODEL`, `_ARCHITECT_MODEL` and `_EXECUTOR_MODEL`. -/
def ANALYZER_MODEL : PyStr := lit "claude-sonnet-4-6"
def ARCHITECT_MODEL : PyStr := lit "claude-sonnet-4-6"
def EXECUTOR_MODEL : PyStr := lit "claude-sonnet-4-6"

/-- `_issue_key`. -/
def issue_key (issue : Dict) (role : String) : PyStr :=
  lit role ++ lit ":" ++ str (issue.getD "repo" (.str [])) ++ lit "#" ++
    str (issue.getD "number" (.str []))

/-- `_parse_llm_json`. -/
def parse_llm_json (env : Env W) (text : PyStr) : Except PyExc Dict :=
  match env.json_loads text with
  | .error e =>
    if e.kind = .JSONDecodeError then
      .error ⟨.ValueError, lit "LLM response was not valid JSON: " ++ repr_str text⟩
    else .error e
  | .ok (.dict parsed) => .ok parsed
  | .ok _ => .error ⟨.ValueError, lit "LLM response JSON was not an object: " ++ repr_str text⟩

/-- `_call_llm_json`. -/
def call_llm_json (env : Env W) (key model prompt : PyStr) (max_tokens : Nat) : M W Dict := do
  env.llm_client (.str key)
  let response ← env.create ⟨model, max_tokens, [], [.user prompt]⟩
  Prog.ofExcept (parse_llm_json env response.text)

/-- The part of both prompts that quotes the issue. -/
def issue_text (issue : Dict) : PyStr :=
  lit "Repo: " ++ str (issue.getD "repo" (.str [])) ++ lit "\n" ++
  lit "Issue #" ++ str (issue.getD "number" (.str [])) ++ lit ": " ++
    str (issue.getD "title" (.str [])) ++ lit "\n\n" ++
  str (issue.getD "body" (.str [])) ++ lit "\n\n"

/-- `_analyzer_prompt`. -/
def analyzer_prompt (issue : Dict) : PyStr :=
  lit "You are triaging a GitHub issue for automated resolution.\n" ++
  issue_text issue ++
  lit "Reply with a single JSON object, no prose, with keys:\n" ++
  lit "  \"problem_summary\": one sentence stating the bug or request\n" ++
  lit "  \"root_cause_hypothesis\": your best guess at the underlying cause\n" ++
  lit "  \"suspected_files\": repo-relative file paths likely needing changes\n"

/-- `_TEST_MANIFEST_COMMANDS`: manifest file and the test command it implies,
    in the order they are tried. -/
def TEST_MANIFEST_COMMANDS : List (String × String) :=
  [("pyproject.toml", "python3 -m pytest -q"),
   ("pytest.ini", "python3 -m pytest -q"),
   ("setup.cfg", "python3 -m pytest -q"),
   ("package.json", "npm test"),
   ("Cargo.toml", "cargo test"),
   ("go.mod", "go test ./..."),
   ("Gemfile", "bundle exec rspec")]

/-- The loop of `_detect_verification_command` over the manifests left. -/
def detect_verification_command (client : Client W) (workspace_dir : PyVal) :
    List (String × String) → M W (Option PyStr)
  | [] => pure none
  | (filename, command) :: rest => do
    let found ← Prog.catching
      (do
        let _ ← client.read (.str (str workspace_dir ++ lit "/" ++ lit filename))
        pure true)
      (fun exc => if exc.kind = .FileNotFoundError then some false else none)
    if found then pure (some (lit command))
    else detect_verification_command client workspace_dir rest

/-- `_architect_prompt`. -/
def architect_prompt (issue : Dict) (analysis_json : PyStr) (detected_command : Option PyStr) :
    PyStr :=
  lit "You are turning a triaged GitHub issue into a work ticket for an " ++
  lit "autonomous coding agent.\n" ++
  issue_text issue ++
  lit "Analysis:\n" ++ analysis_json ++ lit "\n\n" ++
  (match detected_command with
   | some c =>
     lit "Test tooling detected in the checkout: " ++ repr_str c ++ lit ". Use this " ++
     lit "unless the issue clearly calls for a more specific command (e.g. one test file)."
   | none =>
     lit "No recognized test manifest was found in the checkout root. You " ++
     lit "must still specify a verification_command based on the issue and repo.") ++
  lit "\n\n" ++
  lit "Reply with a single JSON object, no prose, with keys:\n" ++
  lit "  \"title\": short imperative summary of the fix\n" ++
  lit "  \"intent\": one sentence describing the change, used in the commit message\n" ++
  lit "  \"files_changed\": repo-relative file paths this ticket will edit\n" ++
  lit "  \"verification_command\": shell command run in the workspace to confirm the fix\n"

/-- The stub ticket of `analyzer_node`. -/
def stub_ticket : Dict :=
  [(lit "id", .str (lit "TICKET-1")), (lit "title", .str (lit "stub ticket"))]

/-- `analyzer_node`. -/
def analyzer_node (env : Env W) (s : AgentState) : M W AgentState :=
  match s.issue with
  | none =>
    -- an empty ticket is falsy: the stub replaces it as well
    pure { active_ticket := some (if s.ticket.isEmpty then stub_ticket else s.ticket) }
  | some issue => do
    let analysis ←
      call_llm_json env (issue_key issue "analyzer") ANALYZER_MODEL (analyzer_prompt issue) 1024
    pure { issue_analysis := some analysis }

/-- The ticket `architect_node` builds from the issue and the model's plan. -/
def planned_ticket (issue planned : Dict) (workspace_dir verification_command : PyVal) : Dict :=
  [(lit "id", .str (str (issue.getD "repo" (.str (lit "issue"))) ++ lit "#" ++
      str (issue.getD "number" (.str (lit "0"))))),
   (lit "title", ((planned.get "title").or (issue.get "title")).or (.str (lit "untitled"))),
   (lit "intent", ((planned.get "intent").or (planned.get "title")).or (.str (lit "update"))),
   (lit "files_changed", (planned.get "files_changed").or (.list [])),
   (lit "workspace_dir", workspace_dir),
   (lit "verification_command", verification_command)]

/-- The refusal of `architect_node` to invent a verification command. -/
def no_verification_command (issue : Dict) : PyExc :=
  ⟨.ValueError,
    lit "architect could not derive a verification_command for " ++
    str (issue.getD "repo" (.str [])) ++ lit "#" ++ str (issue.getD "number" (.str [])) ++ lit ": " ++
    lit "no recognized test manifest in the checkout and the model did not " ++
    lit "provide one. Refusing to fabricate a default -- fix the issue/repo " ++
    lit "input or extend _TEST_MANIFEST_COMMANDS."⟩

/-- `architect_node`. -/
def architect_node (env : Env W) (s : AgentState) : M W AgentState :=
  match s.issue, s.issue_analysis with
  | some issue, some analysis => do
    let client ← Prog.ofExcept env.get_runtime_client
    let detected_command ←
      detect_verification_command client (workspace_dir issue) TEST_MANIFEST_COMMANDS
    let analysis_json ← Prog.ofExcept (json_dumps none (.dict analysis))
    let planned ← call_llm_json env (issue_key issue "architect") ARCHITECT_MODEL
      (architect_prompt issue analysis_json detected_command) 1024
    let verification_command :=
      (planned.get "verification_command").or ((detected_command.map PyVal.str).getD .none)
    if verification_command.truthy then
      pure {
        active_ticket :=
          some (planned_ticket issue planned (workspace_dir issue) verification_command) }
    else Prog.raise (no_verification_command issue)
  | _, _ => pure {}

end Syndicate
