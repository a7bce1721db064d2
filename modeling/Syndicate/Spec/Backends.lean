import Syndicate.Framework.Matching
import Syndicate.Graph

/-! # Backends that do the same

    The nodes see the sandbox and the model through `RuntimeClient` and
    `messages.create` only.  Two environments over different worlds that
    answer alike there give the same run, node by node, whatever else they
    are.  Of the file operations they need answer alike only on the paths and
    texts that the replies of the model name. -/

namespace Syndicate

open Py Framework

variable {W' W α : Type}

/-! ## What a run shows of the world -/

/-- An event without the worlds. -/
def Event.bare : Event W → Event Unit
  | .run_action action cwd _ result _ => .run_action action cwd () result ()
  | .file path => .file path
  | .messages_create request => .messages_create request
  | .run_tool name input => .run_tool name input
  | .agentic_loop feedback => .agentic_loop feedback
  | .agentic_summary summary => .agentic_summary summary
  | .fast_checks result => .fast_checks result

/-- A visit without the worlds. -/
def Visit.bare (v : Visit W) : Visit Unit :=
  { node := v.node, before := v.before, events := v.events.map Event.bare, result := v.result }

/-- The worlds are related by `R`, and the events are the same but for the
    worlds. -/
def beside_worlds (R : W' → W → Prop) : Coupling W' (Event W') W (Event W) where
  worlds := R
  events := fun e' e => e'.bare = e.bare

/-! ## Environments that answer alike -/

/-- What the file operations of a run may name: the paths, the texts they
    bring in, and the texts they look for. -/
structure Scope where
  path : PyVal → Prop
  text : PyVal → Prop
  pattern : PyVal → Prop

/-- The input of a call of the edit tool is in scope. -/
structure Scope.Allows (scope : Scope) (tool_input : Dict) : Prop where
  path : ∀ v, tool_input.getItem "path" = .ok v → scope.path v
  file_text : ∀ v, tool_input.getItem "file_text" = .ok v → scope.text v
  old_str : ∀ v, tool_input.getItem "old_str" = .ok v → scope.pattern v
  new_str : ∀ v, tool_input.getItem "new_str" = .ok v → scope.text v

/-- Every call of the edit tool in the reply is in scope. -/
def Scope.Covers (scope : Scope) (r : Response) : Prop :=
  ∀ id name input, Block.tool_use id name input ∈ r.content →
    name = lit "str_replace_based_edit_tool" → scope.Allows input

/-- The manifests that `architect_node` looks for are in scope. -/
def Scope.Manifests [Unicode] (scope : Scope) (s : AgentState) : Prop :=
  ∀ issue, s.issue = some issue → ∀ manifest ∈ TEST_MANIFEST_COMMANDS,
    scope.path (.str (str (workspace_dir issue) ++ lit "/" ++ lit manifest.1))

section alike
variable (R : W' → W → Prop) (scope : Scope)

/-- Commands are answered alike, and so are the file operations in scope. -/
structure RuntimeClient.Matches (client' : RuntimeClient W') (client : RuntimeClient W) : Prop where
  run_action : ∀ action cwd timeout, (beside_worlds R).Alike
    (client'.run_action action cwd timeout) (client.run_action action cwd timeout)
  read_file : ∀ path, scope.path path → (beside_worlds R).Alike
    (client'.read_file path) (client.read_file path)
  write_file : ∀ path content, scope.path path → scope.text content → (beside_worlds R).Alike
    (client'.write_file path content) (client.write_file path content)
  edit_file : ∀ path old_string new_string, scope.path path → scope.pattern old_string →
    scope.text new_string → (beside_worlds R).Alike
      (client'.edit_file path old_string new_string) (client.edit_file path old_string new_string)

inductive Client.Matches : Client W' → Client W → Prop
  | mock : Client.Matches .MockRuntimeClient .MockRuntimeClient
  | real {client' : Syndicate.RuntimeClient W'} {client : Syndicate.RuntimeClient W} :
      client'.Matches R scope client → Client.Matches (.RuntimeClient client') (.RuntimeClient client)

/-- What `get_runtime_client` returns or raises. -/
inductive ClientMatches : Except PyExc (Client W') → Except PyExc (Client W) → Prop
  | error (e : PyExc) : ClientMatches (.error e) (.error e)
  | ok {client' : Client W'} {client : Client W} :
      client'.Matches R scope client → ClientMatches (.ok client') (.ok client)

/-- The two environments answer alike, and the model stays in scope. -/
structure Env.Matches (env' : Env W') (env : Env W) : Prop where
  client : ClientMatches R scope env'.get_runtime_client env.get_runtime_client
  llm_client : ∀ key, (beside_worlds R).Alike (env'.get_llm_client key) (env.get_llm_client key)
  create : ∀ request, (beside_worlds R).Alike (env'.messages_create request) (env.messages_create request)
  replies : ∀ request w r, (env.messages_create request w).1 = .ok r → scope.Covers r
  json_loads : env'.json_loads = env.json_loads
  max_escalations : env'.MAX_ESCALATIONS = env.MAX_ESCALATIONS

end alike

/-! ## Tools -/

section programs
variable {R : W' → W → Prop} {scope : Scope} {client' : RuntimeClient W'} {client : RuntimeClient W}
  {V : α → Prop}

/-- The two programs end alike. -/
abbrev SameRun (R : W' → W → Prop) (m' : M W' α) (m : M W α) : Prop :=
  Prog.Matches (beside_worlds R) (fun _ => True) m' m

theorem same_ofExcept (r : Except PyExc α) :
    SameRun R (Prog.ofExcept r : M W' α) (Prog.ofExcept r) :=
  Prog.matches_ofExcept fun _ _ => trivial

theorem same_pure (a : α) : SameRun R (pure a : M W' α) (pure a) := Prog.matches_pure trivial

theorem same_bind {β : Type} {m' : M W' β} {m : M W β} {f' : β → M W' α} {f : β → M W α}
    (hm : SameRun R m' m) (hf : ∀ b, Prog.Matches (beside_worlds R) V (f' b) (f b)) :
    Prog.Matches (beside_worlds R) V (m' >>= f') (m >>= f) :=
  Prog.matches_bind hm fun b _ => hf b

/-- A call that leaves the same event whatever the worlds are. -/
theorem same_call {f' : W' → Except PyExc α × W'} {f : W → Except PyExc α × W}
    {ev' : W' → Except PyExc α → W' → Event W'} {ev : W → Except PyExc α → W → Event W}
    (hf : (beside_worlds R).Alike f' f) (hev : ∀ w' w r x' x, (ev' w' r x').bare = (ev w r x).bare) :
    SameRun R (Prog.call f' ev') (Prog.call f ev) :=
  Prog.matches_call hf (fun w' w r x' x _ _ => hev w' w r x' x) fun _ _ _ => trivial

theorem RuntimeClient.Matches.act (h : client'.Matches R scope client) (action cwd : PyVal)
    (timeout : Option Nat) : SameRun R (client'.act action cwd timeout) (client.act action cwd timeout) :=
  same_call (h.run_action action cwd timeout) fun _ _ _ _ _ => rfl

theorem RuntimeClient.Matches.read (h : client'.Matches R scope client) {path : PyVal}
    (hpath : scope.path path) : SameRun R (client'.read path) (client.read path) :=
  same_call (h.read_file path hpath) fun _ _ _ _ _ => rfl

theorem same_run_bash (h : client'.Matches R scope client) (tool_input : Dict) (cwd : PyVal) :
    SameRun R (run_bash client' tool_input cwd) (run_bash client tool_input cwd) := by
  unfold run_bash
  apply Prog.matches_ite
  · exact same_pure _
  · refine same_bind (same_ofExcept _) fun command => ?_
    refine same_bind (h.act command cwd none) fun result => ?_
    exact Prog.matches_ite (same_pure _) (same_pure _)

variable [Unicode]

theorem same_run_edit_tool (h : client'.Matches R scope client) {tool_input : Dict}
    (hscope : scope.Allows tool_input) :
    SameRun R (run_edit_tool client' tool_input) (run_edit_tool client tool_input) := by
  unfold run_edit_tool
  refine same_bind (same_ofExcept _) fun command => ?_
  refine Prog.matches_bind (Prog.matches_ofExcept hscope.path) fun path hpath => ?_
  split
  · apply Prog.matches_ite
    · exact same_bind (h.read hpath) fun _ => same_pure _
    apply Prog.matches_ite
    · refine Prog.matches_bind (Prog.matches_ofExcept hscope.file_text) fun file_text htext => ?_
      have hwrite := h.write_file path file_text hpath htext
      exact same_bind (same_call hwrite fun _ _ _ _ _ => rfl) fun _ => same_pure _
    apply Prog.matches_ite
    · refine Prog.matches_bind (Prog.matches_ofExcept hscope.old_str) fun old_str hold => ?_
      refine Prog.matches_bind (Prog.matches_ofExcept hscope.new_str) fun new_str hnew => ?_
      have hedit := h.edit_file path old_str new_str hpath hold hnew
      exact same_bind (same_call hedit fun _ _ _ _ _ => rfl) fun _ => same_pure _
    · exact same_pure _
  · exact same_pure _

theorem same_run_tool (h : client'.Matches R scope client) {name : PyStr} {tool_input : Dict} (cwd : PyVal)
    (hscope : name = lit "str_replace_based_edit_tool" → scope.Allows tool_input) :
    SameRun R (run_tool client' name tool_input cwd) (run_tool client name tool_input cwd) := by
  unfold run_tool
  refine same_bind (Prog.matches_note rfl) fun _ => ?_
  refine Prog.matches_catching ?_ fun _ _ _ => trivial
  apply Prog.matches_ite
  · exact same_run_bash h tool_input cwd
  · split
    · rename_i hname
      exact same_run_edit_tool h (hscope hname)
    · exact same_pure _

theorem same_run_tools (h : client'.Matches R scope client) (cwd : PyVal) {blocks : List Block}
    (hscope : ∀ id name input, Block.tool_use id name input ∈ blocks →
      name = lit "str_replace_based_edit_tool" → scope.Allows input) :
    SameRun R (run_tools client' cwd blocks) (run_tools client cwd blocks) := by
  induction blocks with
  | nil => exact same_pure _
  | cons block blocks ih =>
    have hrest := ih fun id name input hmem => hscope id name input (List.mem_cons_of_mem block hmem)
    cases block with
    | text t => exact hrest
    | other t => exact hrest
    | tool_use id name tool_input =>
      refine same_bind ?_ fun result => same_bind hrest fun _ => same_pure _
      exact same_run_tool h cwd (hscope id name tool_input List.mem_cons_self)

/-! ## An attempt -/

variable {env' : Env W'} {env : Env W}

omit [Unicode] in
/-- A request to the model: its reply is in scope. -/
theorem Env.Matches.create_covers (henv : env'.Matches R scope env) (request : Request) :
    Prog.Matches (beside_worlds R) scope.Covers (env'.create request) (env.create request) :=
  Prog.matches_call (henv.create request) (fun _ _ _ _ _ _ _ => rfl) fun w r hr =>
    henv.replies request w r hr

theorem same_agentic_turns (henv : env'.Matches R scope env) (h : client'.Matches R scope client)
    (cwd : PyVal) (n : Nat) (messages : List Message) :
    SameRun R (agentic_turns env' client' cwd n messages) (agentic_turns env client cwd n messages) := by
  induction n generalizing messages with
  | zero => exact same_pure _
  | succ n ih =>
    unfold agentic_turns
    refine Prog.matches_bind (henv.create_covers _) fun response hcovers => ?_
    apply Prog.matches_ite
    · exact same_pure _
    · exact same_bind (same_run_tools h cwd hcovers) fun _ => ih _

theorem same_run_agentic_loop (henv : env'.Matches R scope env) (h : client'.Matches R scope client)
    (task_prompt : PyStr) (feedback : Option PyStr) (cwd ticket_id : PyVal) :
    SameRun R (run_agentic_loop env' client' task_prompt feedback cwd ticket_id)
      (run_agentic_loop env client task_prompt feedback cwd ticket_id) := by
  unfold run_agentic_loop
  refine same_bind (Prog.matches_note rfl) fun _ => ?_
  refine same_bind (Prog.matches_quiet (henv.llm_client ticket_id)) fun _ => ?_
  refine same_bind (same_agentic_turns henv h cwd _ _) fun summary => ?_
  exact same_bind (Prog.matches_note rfl) fun _ => same_pure _

omit [Unicode] in
theorem same_fast_checks (h : client'.Matches R scope client) (cwd : PyVal) (actions : List PyStr) :
    SameRun R (fast_checks client' cwd actions) (fast_checks client cwd actions) := by
  induction actions with
  | nil => exact same_pure _
  | cons action actions ih =>
    refine same_bind (h.act _ cwd none) fun result => ?_
    exact Prog.matches_ite (same_pure _) ih

/-! ## The nodes -/

/-- The two nodes end alike, and the issue stays. -/
abbrev SameNode (R : W' → W → Prop) (m' : M W' AgentState) (m : M W AgentState) : Prop :=
  Prog.Matches (beside_worlds R) (fun δ => δ.issue = none) m' m

omit [Unicode] in
theorem same_node {δ : AgentState} (h : δ.issue = none) :
    SameNode R (pure δ : M W' AgentState) (pure δ) := Prog.matches_pure h

omit [Unicode] in
/-- A node begins with `get_runtime_client`. -/
theorem same_get_runtime_client (henv : env'.Matches R scope env) {f' : Client W' → M W' AgentState}
    {f : Client W → M W AgentState}
    (hf : ∀ client' client, Client.Matches R scope client' client → SameNode R (f' client') (f client)) :
    SameNode R (Prog.ofExcept env'.get_runtime_client >>= f')
      (Prog.ofExcept env.get_runtime_client >>= f) := by
  have hclient := henv.client
  generalize env'.get_runtime_client = found' at hclient
  generalize env.get_runtime_client = found at hclient
  cases hclient with
  | error e => exact Prog.matches_raise e
  | ok hmatches => exact hf _ _ hmatches

theorem same_act {client' : Client W'} {client : Client W} (h : client'.Matches R scope client)
    (action cwd : PyVal) (timeout : Option Nat) :
    SameRun R (client'.act action cwd timeout) (client.act action cwd timeout) := by
  cases h with
  | mock => exact same_call (fun _ _ hR => ⟨rfl, hR⟩) fun _ _ _ _ _ => rfl
  | real h => exact h.act action cwd timeout

theorem same_read {client' : Client W'} {client : Client W} (h : client'.Matches R scope client)
    {path : PyVal} (hpath : scope.path path) : SameRun R (client'.read path) (client.read path) := by
  cases h with
  | mock =>
    show SameRun R
      (Prog.call (fun w' => (.error ⟨.FileNotFoundError, str path⟩, w')) fun _ _ _ => .file path)
      (Prog.call (fun w => (.error ⟨.FileNotFoundError, str path⟩, w)) fun _ _ _ => .file path)
    apply same_call
    · intro w' w hR
      exact ⟨rfl, hR⟩
    · intro _ _ _ _ _
      rfl
  | real h => exact h.read hpath

theorem same_call_llm_json (henv : env'.Matches R scope env) (key model prompt : PyStr) (max_tokens : Nat) :
    SameRun R (call_llm_json env' key model prompt max_tokens)
      (call_llm_json env key model prompt max_tokens) := by
  have hparse : ∀ text, parse_llm_json env' text = parse_llm_json env text := by
    intro text
    rw [parse_llm_json, parse_llm_json, henv.json_loads]
  unfold call_llm_json
  refine same_bind (Prog.matches_quiet (henv.llm_client _)) fun _ => ?_
  refine Prog.matches_bind (henv.create_covers _) fun response _ => ?_
  rw [hparse]
  exact same_ofExcept _

theorem same_detect_verification_command {client' : Client W'} {client : Client W}
    (h : client'.Matches R scope client) (workspace_dir : PyVal) {manifests : List (String × String)}
    (hpaths : ∀ manifest ∈ manifests,
      scope.path (.str (str workspace_dir ++ lit "/" ++ lit manifest.1))) :
    SameRun R (detect_verification_command client' workspace_dir manifests)
      (detect_verification_command client workspace_dir manifests) := by
  induction manifests with
  | nil => exact same_pure _
  | cons manifest manifests ih =>
    rw [List.forall_mem_cons] at hpaths
    refine same_bind ?_ fun found => Prog.matches_ite (same_pure _) (ih hpaths.2)
    refine Prog.matches_catching ?_ fun _ _ _ => trivial
    exact same_bind (same_read h hpaths.1) fun _ => same_pure _

theorem same_analyzer_node (henv : env'.Matches R scope env) (s : AgentState) :
    SameNode R (analyzer_node env' s) (analyzer_node env s) := by
  unfold analyzer_node
  split
  · exact same_node rfl
  · exact same_bind (same_call_llm_json henv _ _ _ _) fun _ => same_node rfl

theorem same_architect_node (henv : env'.Matches R scope env) {s : AgentState} (hs : scope.Manifests s) :
    SameNode R (architect_node env' s) (architect_node env s) := by
  unfold architect_node
  split
  · rename_i issue analysis hissue _
    refine same_get_runtime_client henv fun client' client hclient => ?_
    refine same_bind (same_detect_verification_command hclient _ (hs issue hissue)) fun detected => ?_
    refine same_bind (same_ofExcept _) fun analysis_json => ?_
    refine same_bind (same_call_llm_json henv _ _ _ _) fun planned => ?_
    exact Prog.matches_ite (same_node rfl) (Prog.matches_raise _)
  · exact same_node rfl

theorem same_executor_loop (henv : env'.Matches R scope env) (h : client'.Matches R scope client)
    (ticket : Dict) (n : Nat) (strike : Int) (log : List PyStr) (feedback : Option PyStr) :
    SameNode R (executor_loop env' client' ticket n strike log feedback)
      (executor_loop env client ticket n strike log feedback) := by
  induction n generalizing strike log feedback with
  | zero => exact same_node rfl
  | succ n ih =>
    unfold executor_loop
    refine same_bind (same_run_agentic_loop henv h _ _ _ _) fun summary => ?_
    have hchecks : SameRun R (run_fast_checks client' (workspace_dir ticket))
        (run_fast_checks client (workspace_dir ticket)) := by
      refine same_bind (same_fast_checks h _ _) fun result => ?_
      exact same_bind (Prog.matches_note rfl) fun _ => same_pure _
    refine same_bind hchecks fun check => ?_
    exact Prog.matches_ite (same_node rfl) (ih _ _ _)

theorem same_executor_node (henv : env'.Matches R scope env) (s : AgentState) :
    SameNode R (executor_node env' s) (executor_node env s) := by
  have hdummy : ∀ (actions log : List PyStr),
      SameRun R (dummy_actions (.MockRuntimeClient : Client W') actions log)
        (dummy_actions (.MockRuntimeClient : Client W) actions log) := by
    intro actions
    induction actions with
    | nil => exact fun _ => same_pure _
    | cons action actions ih =>
      exact fun _ => same_bind (same_act (.mock : Client.Matches R scope _ _) _ _ _) fun _ => ih _
  unfold executor_node
  refine same_get_runtime_client henv fun client' client hclient => ?_
  cases hclient with
  | mock => exact same_bind (hdummy _ _) fun _ => same_node rfl
  | real h => exact same_executor_loop henv h _ _ _ _ _

omit [Unicode] in
theorem same_validator_node (henv : env'.Matches R scope env) (s : AgentState) :
    SameNode R (validator_node env' s) (validator_node env s) := by
  unfold validator_node
  refine same_get_runtime_client henv fun client' client hclient => ?_
  cases hclient with
  | mock => exact same_node rfl
  | real h =>
    refine same_bind (h.act _ _ _) fun result => ?_
    refine Prog.matches_ite (same_node rfl) ?_
    exact same_bind (same_ofExcept _) fun _ => same_node rfl

theorem same_git_run {client' : Client W'} {client : Client W} (h : client'.Matches R scope client)
    (cwd : PyVal) (command : PyStr) (git_log : List PyStr) :
    SameRun R (git_run client' cwd command git_log) (git_run client cwd command git_log) :=
  same_bind (same_act h _ _ _) fun _ => same_pure _

theorem same_git_setup {client' : Client W'} {client : Client W} (h : client'.Matches R scope client)
    (cwd : PyVal) : SameRun R (git_setup client' cwd) (git_setup client cwd) := by
  unfold git_setup
  refine same_bind (same_git_run h _ _ _) fun is_repo => ?_
  refine same_bind ?_ fun git_log => ?_
  · exact Prog.matches_ite (same_bind (same_git_run h _ _ _) fun _ => same_pure _) (same_pure _)
  · refine same_bind (same_git_run h _ _ _) fun user_name => ?_
    exact same_bind (same_git_run h _ _ _) fun _ => same_pure _

theorem same_git_commit_pass {client' : Client W'} {client : Client W}
    (h : client'.Matches R scope client) (s : AgentState) (cwd : PyVal) (git_log : List PyStr) :
    SameNode R (git_commit_pass client' s cwd git_log) (git_commit_pass client s cwd git_log) := by
  unfold git_commit_pass
  refine same_bind (same_git_run h _ _ _) fun head_before => ?_
  refine same_bind (same_ofExcept _) fun paths => ?_
  refine same_bind (same_git_run h _ _ _) fun add_result => ?_
  refine Prog.matches_ite (same_node rfl) ?_
  refine same_bind (same_git_run h _ _ _) fun commit_result => ?_
  refine Prog.matches_ite (same_node rfl) ?_
  refine same_bind (same_git_run h _ _ _) fun head_after => ?_
  exact Prog.matches_ite (same_node rfl) (same_node rfl)

theorem same_oversight_git_node (henv : env'.Matches R scope env) (s : AgentState) :
    SameNode R (oversight_git_node env' s) (oversight_git_node env s) := by
  unfold oversight_git_node
  refine same_get_runtime_client henv fun client' client hclient => ?_
  refine same_bind (same_git_setup hclient _) fun git_log => ?_
  exact Prog.matches_ite (same_git_commit_pass hclient _ _ _) (same_node rfl)

/-- **Every node** ends alike in the two environments. -/
theorem same_node_program (henv : env'.Matches R scope env) (n : Node) {s : AgentState}
    (hs : scope.Manifests s) : SameNode R (node_program env' n s) (node_program env n s) := by
  cases n with
  | analyzer => exact same_analyzer_node henv s
  | architect => exact same_architect_node henv hs
  | executor => exact same_executor_node henv s
  | validator => exact same_validator_node henv s
  | oversight_git => exact same_oversight_git_node henv s
  | dispatch => exact same_node rfl
  | advance => exact same_node rfl
  | escalate =>
    show SameNode R (pure (escalate_node env'.MAX_ESCALATIONS s))
      (pure (escalate_node env.MAX_ESCALATIONS s))
    rw [henv.max_escalations]
    exact same_node rfl

/-! ## Runs -/

/-- Two runs stand at the same place, in related worlds. -/
structure Config.Same (R : W' → W → Prop) (scope : Scope) (c' : Config W') (c : Config W) : Prop where
  pc : c'.pc = c.pc
  state : c'.state = c.state
  world : R c'.world c.world
  manifests : scope.Manifests c.state

theorem same_execute (henv : env'.Matches R scope env) (n : Node) {c' : Config W'} {c : Config W}
    (h : c'.Same R scope c) : (execute env' n c').1.bare = (execute env n c).1.bare ∧
      (execute env' n c').2.Same R scope (execute env n c).2 := by
  obtain ⟨hpc, hstate, hworld, hmanifests⟩ := h
  obtain ⟨hval, hissue, hworld', hevents⟩ :=
    same_node_program henv n hmanifests c'.world c.world hworld
  have hbare : (node_program env' n c.state c'.world).events.map Event.bare =
      (node_program env n c.state c.world).events.map Event.bare := by
    rw [← List.forall₂_eq_eq_eq, List.forall₂_map_left_iff, List.forall₂_map_right_iff]
    exact hevents
  unfold execute
  dsimp only
  rw [hstate, hval]
  constructor
  · rw [Visit.bare, Visit.bare, hbare]
  · cases hend : (node_program env n c.state c.world).val with
    | error e => exact ⟨rfl, rfl, hworld', hmanifests⟩
    | ok δ =>
      refine ⟨rfl, rfl, hworld', ?_⟩
      intro issue hsome
      have hnone : δ.issue = none := hissue δ hend
      have hsame : (c.state.update δ).issue = c.state.issue := by
        show δ.issue.or c.state.issue = _
        rw [hnone]
        rfl
      exact hmanifests issue (hsame ▸ hsome)

/-- **The backend does not show**: from related worlds two environments that
    answer alike make the same visits, in the same states, and end alike. -/
theorem same_ainvoke (henv : env'.Matches R scope env) {s : AgentState} (hs : scope.Manifests s)
    {w' : W'} {w : W} (hR : R w' w) (n : Nat) :
    (ainvoke env' n s w').1.map Visit.bare = (ainvoke env n s w).1.map Visit.bare ∧
      (ainvoke env' n s w').2.Same R scope (ainvoke env n s w).2 := by
  have hstep : ∀ (c' : Config W') (c : Config W), c'.Same R scope c →
      Option.Rel (fun x' x => x'.1.bare = x.1.bare ∧ x'.2.Same R scope x.2) ((graph env').step c')
        ((graph env).step c) := by
    intro c' c hsame
    unfold graph
    dsimp only
    rw [hsame.pc]
    cases c.pc with
    | «at» n => exact .some (same_execute henv n hsame)
    | END | raised e => exact .none
  obtain ⟨hvisits, hend⟩ := Machine.run_matches
    (S := fun (v' : Visit W') (v : Visit W) => v'.bare = v.bare) hstep n
    (⟨rfl, rfl, hR, hs⟩ : (entry s w').Same R scope (entry s w))
  refine ⟨?_, hend⟩
  rw [← List.forall₂_eq_eq_eq, List.forall₂_map_left_iff, List.forall₂_map_right_iff]
  exact hvisits

end programs

end Syndicate
