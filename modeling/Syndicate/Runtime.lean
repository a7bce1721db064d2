import Syndicate.State
import Syndicate.Framework.Prog

/-! # `syndicate/runtime`: the execution backend

    `RuntimeClient` is the adapter interface of `runtime/base.py`, over a
    world `W` that stands for the sandbox and everything else outside.  A
    method may raise.  `MockRuntimeClient` is the stand-in of
    `runtime/mock.py`; `get_runtime_client` hands each node a new one, so it
    never holds a file here. -/

namespace Syndicate

open Py Framework

/-- `ActionResult`. -/
structure ActionResult where
  exit_code : Int
  output : PyStr
deriving DecidableEq

/-- `RuntimeClient`: what a real adapter does to the world. -/
structure RuntimeClient (W : Type) where
  run_action : (action cwd : PyVal) → (timeout : Option Nat) → W → Except PyExc ActionResult × W
  read_file : (path : PyVal) → W → Except PyExc PyStr × W
  write_file : (path content : PyVal) → W → Except PyExc Unit × W
  edit_file : (path old_string new_string : PyVal) → W → Except PyExc Unit × W

/-- The client a node works with. -/
inductive Client (W : Type) where
  | MockRuntimeClient
  | RuntimeClient (api : RuntimeClient W)

/-- `isinstance(client, MockRuntimeClient)`. -/
def Client.isMock {W : Type} : Client W → Bool
  | MockRuntimeClient => true
  | RuntimeClient _ => false

/-! ## The model's side of a conversation -/

/-- A content block of a reply. -/
inductive Block where
  | text (text : PyStr)
  | tool_use (id name : PyStr) (input : Dict)
  | other (type : PyStr)

/-- One `tool_result` entry. -/
structure ToolResult where
  tool_use_id : PyStr
  content : PyStr
  is_error : Bool

/-- An entry of the `messages` list: a user text, an assistant reply, or the
    user message that carries the tool results. -/
inductive Message where
  | user (content : PyStr)
  | assistant (content : List Block)
  | tool_results (content : List ToolResult)

/-- The arguments of `messages.create`. -/
structure Request where
  model : PyStr
  max_tokens : Nat
  tools : List PyVal
  messages : List Message

/-- What `messages.create` returns. -/
structure Response where
  content : List Block
  stop_reason : PyStr

/-- `''.join(block.text for block in response.content if block.type == 'text')`. -/
def Response.text (r : Response) : PyStr :=
  join [] (r.content.filterMap fun
    | .text t => some t
    | _ => none)

/-! ## Programs and their record -/

/-- What a run leaves on record: the calls that cross a seam of the program,
    and the two calls `executor_node` makes for each attempt. -/
inductive Event (W : Type) where
  /-- A command sent to the sandbox, with the world before and after. -/
  | run_action (action cwd : PyVal) (pre : W) (result : Except PyExc ActionResult) (post : W)
  /-- A file operation on the sandbox. -/
  | file (path : PyVal)
  /-- A call of `messages.create`. -/
  | messages_create (request : Request)
  /-- A call of `_run_tool` for one `tool_use` block. -/
  | run_tool (name : PyStr) (input : Dict)
  /-- A call of `_run_agentic_loop` with this feedback. -/
  | agentic_loop (feedback : Option PyStr)
  /-- `_run_agentic_loop` returned this summary. -/
  | agentic_summary (summary : PyStr)
  /-- `_run_fast_checks` returned this result. -/
  | fast_checks (result : ActionResult)

/-- Programs of the model: Python code over the world outside. -/
abbrev M (W : Type) := Prog W (Event W) PyExc

namespace RuntimeClient

variable {W : Type} (client : RuntimeClient W)

/-- `await client.run_action(action, cwd=cwd, timeout=timeout)`. -/
def act (action cwd : PyVal) (timeout : Option Nat) : M W ActionResult :=
  Prog.call (client.run_action action cwd timeout) (Event.run_action action cwd)

/-- `await client.read_file(path)`. -/
def read (path : PyVal) : M W PyStr :=
  Prog.call (client.read_file path) (fun _ _ _ => .file path)

/-- `await client.write_file(path, content)`. -/
def write (path content : PyVal) : M W Unit :=
  Prog.call (client.write_file path content) (fun _ _ _ => .file path)

/-- `await client.edit_file(path, old_string, new_string)`. -/
def edit (path old_string new_string : PyVal) : M W Unit :=
  Prog.call (client.edit_file path old_string new_string) (fun _ _ _ => .file path)

end RuntimeClient

namespace Client

variable {W : Type} [Unicode]

/-- `run_action` of either client: the mock answers every command with exit
    code 0 and an echo. -/
def run_action (client : Client W) (action cwd : PyVal) (timeout : Option Nat) :
    W → Except PyExc ActionResult × W :=
  match client with
  | MockRuntimeClient => fun w => (.ok ⟨0, lit "[mock] " ++ str action⟩, w)
  | RuntimeClient api => api.run_action action cwd timeout

/-- `await client.run_action(action, cwd=cwd, timeout=timeout)`. -/
def act (client : Client W) (action cwd : PyVal) (timeout : Option Nat) : M W ActionResult :=
  Prog.call (client.run_action action cwd timeout) (Event.run_action action cwd)

/-- `read_file` of either client: a new mock holds no file. -/
def read (client : Client W) (path : PyVal) : M W PyStr :=
  match client with
  | MockRuntimeClient =>
    Prog.call (fun w => (.error ⟨.FileNotFoundError, str path⟩, w)) (fun _ _ _ => .file path)
  | RuntimeClient api => api.read path

end Client

/-- Everything outside the program: the runtime client the factory picks
    (or its refusal to pick one), the model behind `_get_llm_client`, the
    JSON parser, and the `SYNDICATE_MAX_ESCALATIONS` setting. -/
structure Env (W : Type) where
  get_runtime_client : Except PyExc (Client W)
  /-- `_get_llm_client(key)`; may raise. -/
  get_llm_client : PyVal → W → Except PyExc Unit × W
  /-- `client.messages.create(...)` on the client last obtained. -/
  messages_create : Request → W → Except PyExc Response × W
  /-- `json.loads`. -/
  json_loads : PyStr → Except PyExc PyVal
  /-- `_MAX_ESCALATIONS`. -/
  MAX_ESCALATIONS : Int

namespace Env

variable {W : Type} (env : Env W)

/-- Obtain an LLM client for `key`. -/
def llm_client (key : PyVal) : M W Unit := fun w =>
  ⟨(env.get_llm_client key w).1, (env.get_llm_client key w).2, []⟩

/-- `await client.messages.create(...)`. -/
def create (request : Request) : M W Response :=
  Prog.call (env.messages_create request) (fun _ _ _ => .messages_create request)

/-- Every node of the run gets the mock. -/
def isMock : Bool :=
  match env.get_runtime_client with
  | .ok client => client.isMock
  | .error _ => false

end Env

end Syndicate
