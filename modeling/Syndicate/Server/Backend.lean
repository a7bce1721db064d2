import Syndicate.Runtime.Agreement
import Syndicate.Runtime.HeadCheck
import Syndicate.Server.Encodes
import Syndicate.Spec.Backends

/-! # The adapter under a whole run

    What `OpenHandsRuntimeClient` is for: a sandbox that keeps texts under
    paths, with a shell.  Over paths that library and server keep apart, and
    texts that have bytes, a run through the adapter is the run over such a
    sandbox, visit by visit, and the driver emits the same envelopes. -/

namespace Syndicate

open Py Http Framework Server

variable {S H : Type}

/-! ## The two sandboxes -/

/-- The world of an agent server: its state, and whatever else there is. -/
abbrev Agent (S H : Type) := S × H

/-- A file operation, beside the rest of the world. -/
def on_files {F α : Type} (f : F → α × F) (w : F × H) : α × (F × H) := ((f w.1).1, (f w.1).2, w.2)

/-- What CPython raises where a text is needed. -/
def must_be_str : PyExc := ⟨.TypeError, lit "must be str"⟩

/-- A method or attribute of `str` that another type lacks. -/
def no_attribute (name : String) : PyExc :=
  ⟨.Other (lit "AttributeError"), lit "object has no attribute '" ++ lit name ++ lit "'"⟩

section
variable [Unicode]

namespace OpenHandsRuntimeClient

variable (http : Transport S)

/-- `write_file` on any arguments. -/
def write_any (path content : PyVal) (s : S) : Except PyExc Unit × S :=
  match path, content with
  | .str path, .str content => write_file http path content s
  | .str _, _ => (.error (no_attribute "encode"), s)
  | _, _ => (.error (no_attribute "rsplit"), s)

/-- `edit_file` on any arguments: `str_replace` counts, and then replaces,
    before the path is looked at. -/
def edit_any (path old_string new_string : PyVal) (s : S) : Except PyExc Unit × S :=
  match path, old_string, new_string with
  | .str path, .str old_string, .str new_string => edit_file http path old_string new_string s
  | path, .str old_string, new_string =>
    match read_file http (str path) s with
    | (.error e, s) => (.error e, s)
    | (.ok content, s) =>
      if count old_string content ≠ 1 then
        (.error ⟨.ValueError, lit "expected exactly one occurrence of old_string in " ++ Py.repr path ++
          lit ", found " ++ str_int (count old_string content)⟩, s)
      else
        match new_string with
        | .str _ => (.error (no_attribute "rsplit"), s)
        | _ => (.error must_be_str, s)
  | path, _, _ =>
    match read_file http (str path) s with
    | (.error e, s) => (.error e, s)
    | (.ok _, s) => (.error must_be_str, s)

/-- The adapter over a server. -/
def api (server : BashServer (Agent S H)) : RuntimeClient (Agent S H) where
  run_action := run_action server
  -- the path goes into the URL as `str` makes it
  read_file := fun path => on_files (read_file http (str path))
  write_file := fun path content => on_files (write_any http path content)
  edit_file := fun path old_string new_string => on_files (edit_any http path old_string new_string)

end OpenHandsRuntimeClient

/-- A shell: what a command answers and does. -/
abbrev Shell (W : Type) :=
  (action cwd : PyVal) → (timeout : Option Nat) → W → Except PyExc ActionResult × W

namespace Dictionary

open MockRuntimeClient (Files)

/-- **The sandbox the adapter stands for**: texts under paths, and a shell. -/
def api (shell : Shell (Files × H)) : RuntimeClient (Files × H) where
  run_action := shell
  read_file := fun path => on_files fun files =>
    match path with
    | .str path => (MockRuntimeClient.read_file path files, files)
    | _ => (.error must_be_str, files)
  write_file := fun path content => on_files fun files =>
    match path, content with
    | .str path, .str content => (.ok (), MockRuntimeClient.write_file path content files)
    | _, _ => (.error must_be_str, files)
  edit_file := fun path old_string new_string => on_files fun files =>
    match path, old_string, new_string with
    | .str path, .str old_string, .str new_string =>
      MockRuntimeClient.edit_file path old_string new_string files
    | _, _, _ => (.error must_be_str, files)

end Dictionary

/-! ## The same files -/

/-- The server holds the bytes of what the dictionary holds; the rest of the
    world is the same. -/
def HoldsBeside (http : Transport S) (files : S → AgentFiles) (paths : Set PyStr) (w' : Agent S H)
    (w : MockRuntimeClient.Files × H) : Prop :=
  Holds http paths w.1 (files w'.1) ∧ w'.2 = w.2

/-- Strings of these sets. -/
def scope_of (paths texts : Set PyStr) : Scope where
  path := fun v => ∃ path ∈ paths, v = .str path
  text := fun v => ∃ text ∈ texts, v = .str text
  pattern := fun v => ∃ pattern : PyStr, v = .str pattern

omit [Unicode] in
theorem ok_unit_inj {r r' : Except PyExc Unit}
    (h : (r.map fun _ => (none : Option PyStr)) = r'.map fun _ => none) : r = r' := by
  cases r <;> cases r' <;> simp_all [Except.map]

section sandboxes
variable {http : Transport S} {files : S → AgentFiles} (hdoc : Documented http files) {s₀ : S}
  {paths texts : Set PyStr} (h : Faithful http s₀ paths texts)
  {server : OpenHandsRuntimeClient.BashServer (Agent S H)} {shell : Shell (MockRuntimeClient.Files × H)}
  (hshell : ∀ action cwd timeout, (beside_worlds (HoldsBeside http files paths)).Alike
    (OpenHandsRuntimeClient.run_action server action cwd timeout) (shell action cwd timeout))
include hdoc h hshell

/-- **The adapter matches the dictionary** on the paths and texts that the
    server keeps as they are, if the shells do. -/
theorem api_matches :
    (OpenHandsRuntimeClient.api http server).Matches (HoldsBeside http files paths)
      (scope_of paths texts) (Dictionary.api shell) where
  run_action := hshell
  read_file := by
    rintro _ ⟨path, hpath, rfl⟩ ⟨s, rest⟩ ⟨mock, rest'⟩ ⟨hholds, hrest⟩
    refine ⟨h.read_file hdoc hholds hpath, ?_, hrest⟩
    show Holds http paths mock (files (OpenHandsRuntimeClient.read_file http path s).2)
    rwa [openhands_read_keeps hdoc]
  write_file := by
    rintro _ _ ⟨path, hpath, rfl⟩ ⟨content, hcontent, rfl⟩
    rintro ⟨s, rest⟩ ⟨mock, rest'⟩ ⟨hholds, hrest⟩
    obtain ⟨hok, hnext⟩ :=
      h.write_file hdoc hholds hpath ⟨content, hcontent⟩ (h.content path hpath content hcontent)
    exact ⟨hok, hnext, hrest⟩
  edit_file := by
    rintro _ _ _ ⟨path, hpath, rfl⟩ ⟨old_string, rfl⟩ ⟨new_string, hnew, rfl⟩
    rintro ⟨s, rest⟩ ⟨mock, rest'⟩ ⟨hholds, hrest⟩
    have hcall : (FileCall.edit_file path old_string new_string).Over paths texts := by
      refine ⟨hpath, ?_⟩
      intro text htext
      obtain rfl := Option.some.inj htext
      exact hnew
    obtain ⟨hanswer, hnext⟩ := h.serve hdoc hholds hcall
    exact ⟨ok_unit_inj hanswer, hnext, hrest⟩

end sandboxes

/-! ## The same model -/

/-- The model and its settings, over the rest of the world. -/
structure Brain (H : Type) where
  get_llm_client : PyVal → H → Except PyExc Unit × H
  messages_create : Request → H → Except PyExc Response × H
  json_loads : PyStr → Except PyExc PyVal
  MAX_ESCALATIONS : Int

/-- A call that leaves the files alone. -/
def on_rest {F α : Type} (f : H → α × H) (w : F × H) : α × (F × H) := ((f w.2).1, w.1, (f w.2).2)

/-- The environment of this model and a sandbox. -/
def Brain.env {F : Type} (brain : Brain H) (client : RuntimeClient (F × H)) : Env (F × H) where
  get_runtime_client := .ok (.RuntimeClient client)
  get_llm_client := fun key => on_rest (brain.get_llm_client key)
  messages_create := fun request => on_rest (brain.messages_create request)
  json_loads := brain.json_loads
  MAX_ESCALATIONS := brain.MAX_ESCALATIONS

/-- The model names paths and texts of these sets only. -/
def Brain.StaysIn (brain : Brain H) (paths texts : Set PyStr) : Prop :=
  ∀ request rest r, (brain.messages_create request rest).1 = .ok r → (scope_of paths texts).Covers r

theorem Brain.env_matches {http : Transport S} {files : S → AgentFiles} (hdoc : Documented http files)
    {s₀ : S} {paths texts : Set PyStr} (h : Faithful http s₀ paths texts) {brain : Brain H}
    (hbrain : brain.StaysIn paths texts)
    {server : OpenHandsRuntimeClient.BashServer (Agent S H)}
    {shell : Shell (MockRuntimeClient.Files × H)}
    (hshell : ∀ action cwd timeout, (beside_worlds (HoldsBeside http files paths)).Alike
      (OpenHandsRuntimeClient.run_action server action cwd timeout) (shell action cwd timeout)) :
    (brain.env (OpenHandsRuntimeClient.api http server)).Matches (HoldsBeside http files paths)
      (scope_of paths texts) (brain.env (Dictionary.api shell)) where
  client := .ok (.real (api_matches hdoc h hshell))
  llm_client := by
    rintro key ⟨files, rest⟩ ⟨mock, rest'⟩ ⟨hholds, rfl⟩
    exact ⟨rfl, hholds, rfl⟩
  create := by
    rintro request ⟨files, rest⟩ ⟨mock, rest'⟩ ⟨hholds, rfl⟩
    exact ⟨rfl, hholds, rfl⟩
  replies := fun request w r hr => hbrain request w.2 r hr
  json_loads := rfl
  max_escalations := rfl

/-! ## The same run -/

section served
variable {W' W : Type} {R : W' → W → Prop} {scope : Scope} {env' : Env W'} {env : Env W} {w' : W'} {w : W}

omit [Unicode] in
theorem updates_bare (h : List (Visit W)) : updates (h.map Visit.bare) = updates h := by
  unfold updates
  rw [List.filterMap_map]
  rfl

/-- The driver sees the same graph. -/
theorem same_served_graph (henv : env'.Matches R scope env) (hR : R w' w) (n : Nat) :
    served_graph env' w' n = served_graph env w n := by
  funext values thread_id
  -- a run of the server has no issue
  have hmanifests : scope.Manifests (input_state values) := by
    intro issue hissue
    cases hissue
  obtain ⟨hvisits, hend⟩ := same_ainvoke henv hmanifests hR n
  have hupdates : updates (ainvoke env' n (input_state values) w').1 =
      updates (ainvoke env n (input_state values) w).1 := by
    rw [← updates_bare, hvisits, updates_bare]
  have hending : (ainvoke env' n (input_state values) w').2.ending =
      (ainvoke env n (input_state values) w).2.ending := by
    unfold Config.ending
    rw [hend.pc, hend.state]
  show GraphRun.mk (updates (ainvoke env' n (input_state values) w').1) _ =
    GraphRun.mk (updates (ainvoke env n (input_state values) w).1) _
  rw [hupdates, hending]

end served

/-- **Nobody sees the adapter**: where library and server keep the paths apart
    that a run names, and the texts have bytes, a run of the graph through the
    adapter makes the visits that it makes over the dictionary, ends in the
    same state, and leaves the same files; and the driver emits the same
    envelopes and leaves the same record. -/
theorem adapter_run_unseen {http : Transport S} {files : S → AgentFiles} (hdoc : Documented http files)
    {s₀ : S} {paths texts : Set PyStr} (h : Faithful http s₀ paths texts) (brain : Brain H)
    (hbrain : brain.StaysIn paths texts)
    (server : OpenHandsRuntimeClient.BashServer (Agent S H)) (shell : Shell (MockRuntimeClient.Files × H))
    (hshell : ∀ action cwd timeout, (beside_worlds (HoldsBeside http files paths)).Alike
      (OpenHandsRuntimeClient.run_action server action cwd timeout) (shell action cwd timeout))
    (w' : Agent S H) (w : MockRuntimeClient.Files × H) (hw : HoldsBeside http files paths w' w) (n : Nat) :
    let adapter := brain.env (OpenHandsRuntimeClient.api http server)
    let dictionary := brain.env (Dictionary.api shell)
    (∀ s, (scope_of paths texts).Manifests s →
      (ainvoke adapter n s w').1.map Visit.bare = (ainvoke dictionary n s w).1.map Visit.bare ∧
      (ainvoke adapter n s w').2.pc = (ainvoke dictionary n s w).2.pc ∧
      (ainvoke adapter n s w').2.state = (ainvoke dictionary n s w).2.state ∧
      HoldsBeside http files paths (ainvoke adapter n s w').2.world (ainvoke dictionary n s w).2.world) ∧
    ∀ now r, drive_run now (served_graph adapter w' n) r = drive_run now (served_graph dictionary w n) r := by
  intro adapter dictionary
  have henv := Brain.env_matches hdoc h hbrain hshell
  constructor
  · intro s hs
    obtain ⟨hvisits, hend⟩ := same_ainvoke henv hs hw n
    exact ⟨hvisits, hend.pc, hend.state, hend.world⟩
  · intro now r
    rw [same_served_graph henv hw n]

end

/-! ## A small run -/

section small
attribute [local instance] Unicode.ascii

/-- The tool call of the small model. -/
def creates : Dict :=
  [(lit "command", .str (lit "create")), (lit "path", .str (lit "a")), (lit "file_text", .str (lit "x"))]

/-- It creates a file, and is done. -/
def small_brain : Brain Nat where
  get_llm_client := fun _ k => (.ok (), k)
  messages_create := fun _ k =>
    if k = 0 then
      (.ok ⟨[.tool_use (lit "t") (lit "str_replace_based_edit_tool") creates], lit "tool_use"⟩, 1)
    else (.ok ⟨[.text (lit "done")], lit "end_turn"⟩, k)
  json_loads := fun _ => .ok (.dict [])
  MAX_ESCALATIONS := 3

/-- Every command succeeds. -/
def obliging : OpenHandsRuntimeClient.BashServer (Agent AgentFiles Nat) :=
  fun _ _ w => (.ok (response 0 [] []), w)

/-- The request of a small run. -/
def small_input : AgentState := input_state (build_initial_state (lit "r") (lit "x"))

/-- In the end the server has the file. -/
theorem adapter_run_unseen_creates : ∃ name bytes, agent_http.download_name (lit "a") = some name ∧
    encode (lit "x") = some bytes ∧
    (ainvoke (small_brain.env (OpenHandsRuntimeClient.api agent_http obliging)) 15 small_input
      (fun _ => none, 0)).2.world.1 name = some bytes := by
  have hname : agent_http.download_name (lit "a") = some [0x61] ∧
      agent_http.upload_name (lit "a") = some [0x61] := by
    decide +kernel
  have hfaithful : Faithful agent_http (fun _ => none) {lit "a"} {lit "x"} := {
    named := by
      rintro - _ rfl
      exact ⟨_, hname⟩
    nameless := by
      rintro _ rfl hnone
      rw [hname.1] at hnone
      cases hnone
    content := by
      rintro _ _ _ rfl
      exact (encode_isSome _).mp (by decide +kernel)
    apart := by
      rintro - _ rfl _ rfl _
      rfl }
  have hallows : (scope_of {lit "a"} {lit "x"}).Allows creates := {
    path := fun v hv => ⟨lit "a", rfl, (Except.ok.inj hv).symm⟩
    file_text := fun v hv => ⟨lit "x", rfl, (Except.ok.inj hv).symm⟩
    old_str := fun v hv => by cases hv
    new_str := fun v hv => by cases hv }
  have hbrain : small_brain.StaysIn {lit "a"} {lit "x"} := by
    intro request k r hr id name input hmem _
    simp only [small_brain] at hr
    split at hr
    · obtain rfl := Except.ok.inj hr
      obtain ⟨-, -, rfl⟩ : id = lit "t" ∧ name = lit "str_replace_based_edit_tool" ∧ input = creates := by
        simpa using hmem
      exact hallows
    · obtain rfl := Except.ok.inj hr
      simp at hmem
  have hrun := adapter_run_unseen agent_documented hfaithful small_brain hbrain obliging
    (fun _ _ _ w => (.ok ⟨0, []⟩, w)) (fun action cwd timeout w' w hw => ⟨rfl, hw⟩) (fun _ => none, 0)
    ([], 0) ⟨holds_empty fun _ => rfl, rfl⟩ 15
  obtain ⟨-, -, -, hholds, -⟩ := hrun.1 small_input (by intro issue hissue; cases hissue)
  have hdictionary : ((ainvoke (small_brain.env (Dictionary.api fun _ _ _ w => (.ok ⟨0, []⟩, w))) 15
      small_input ([], 0)).2.world.1).lookup (lit "a") = some (lit "x") := by
    decide +kernel
  obtain ⟨bytes, hbytes, hfile⟩ := hholds.some rfl hdictionary
  rw [hname.1, Option.bind_some] at hfile
  exact ⟨_, bytes, hname.1, hbytes, hfile⟩

end small

end Syndicate
