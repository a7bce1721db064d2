import Syndicate.Spec.Executor

/-! # The conversation of an attempt

    `_run_agentic_loop` keeps the `messages` list: a user text, and for each
    turn the reply and the results of its tool calls.

    * `Round`: a turn that asked for tools, with its answers.
    * `transcript`: the list after some rounds.
    * `attempt_replies`: what the model replied, by a run that remembers it.
    * `Conversation`: what holds of the requests, the tool calls and the
      result of an attempt. -/

namespace Syndicate

open Py Framework

/-! ## A run beside a history -/

section beside
variable {W H α : Type}

/-- What `f` does, beside a history that stays as it is. -/
def beside (f : W → α × W) : W × H → α × (W × H) := fun w => ((f w.1).1, (f w.1).2, w.2)

def RuntimeClient.beside (H : Type) (client : RuntimeClient W) : RuntimeClient (W × H) where
  run_action := fun action cwd timeout => Syndicate.beside (client.run_action action cwd timeout)
  read_file := fun path => Syndicate.beside (client.read_file path)
  write_file := fun path content => Syndicate.beside (client.write_file path content)
  edit_file := fun path old_string new_string =>
    Syndicate.beside (client.edit_file path old_string new_string)

def Client.beside (H : Type) : Client W → Client (W × H)
  | MockRuntimeClient => MockRuntimeClient
  | RuntimeClient api => RuntimeClient (api.beside H)

/-- The history after one more answer of `messages.create`. -/
def remember (replies : List Response) : Except PyExc Response → List Response
  | .ok response => replies ++ [response]
  | .error _ => replies

/-- The same environment, with a history of what `messages.create`
    returned. -/
def Env.recorded (env : Env W) : Env (W × List Response) where
  get_runtime_client := env.get_runtime_client.map (Client.beside _)
  get_llm_client := fun key => Syndicate.beside (env.get_llm_client key)
  messages_create := fun request w =>
    ((env.messages_create request w.1).1, (env.messages_create request w.1).2,
      remember w.2 (env.messages_create request w.1).1)
  json_loads := env.json_loads
  MAX_ESCALATIONS := env.MAX_ESCALATIONS

/-- An event without the history. -/
def Event.present : Event (W × H) → Event W
  | .run_action action cwd pre result post => .run_action action cwd pre.1 result post.1
  | .file path => .file path
  | .messages_create request => .messages_create request
  | .run_tool name input => .run_tool name input
  | .agentic_loop feedback => .agentic_loop feedback
  | .agentic_summary summary => .agentic_summary summary
  | .fast_checks result => .fast_checks result

/-- The worlds differ by this history. -/
def With (h : H) (w' : W × H) (w : W) : Prop := w' = (w, h)

theorem follows_beside {h : H} {f : W → Except PyExc α × W}
    {ev' : W × H → Except PyExc α → W × H → Event (W × H)} {ev : W → Except PyExc α → W → Event W}
    (hev : ∀ w r x, (ev' (w, h) r (x, h)).present = ev w r x) :
    Prog.Follows (With h) Event.present (Prog.call (beside f) ev') (Prog.call f ev) := by
  apply Prog.follows_call
  · intro w' w hw
    obtain rfl : w' = (w, h) := hw
    exact ⟨rfl, rfl⟩
  · intro w' w r x' x hw hx
    obtain rfl : w' = (w, h) := hw
    obtain rfl : x' = (x, h) := hx
    exact hev w r x

theorem follows_run_bash (client : RuntimeClient W) (h : H) (tool_input : Dict) (cwd : PyVal) :
    Prog.Follows (With h) Event.present (run_bash (client.beside H) tool_input cwd)
      (run_bash client tool_input cwd) := by
  unfold run_bash
  apply Prog.follows_ite
  · exact Prog.follows_pure _
  · refine Prog.follows_bind (Prog.follows_ofExcept _) fun command => ?_
    refine Prog.follows_bind (follows_beside fun _ _ _ => rfl) fun result => ?_
    exact Prog.follows_ite (Prog.follows_pure _) (Prog.follows_pure _)

variable [Unicode]

theorem follows_run_edit_tool (client : RuntimeClient W) (h : H) (tool_input : Dict) :
    Prog.Follows (With h) Event.present (run_edit_tool (client.beside H) tool_input)
      (run_edit_tool client tool_input) := by
  unfold run_edit_tool
  refine Prog.follows_bind (Prog.follows_ofExcept _) fun command => ?_
  refine Prog.follows_bind (Prog.follows_ofExcept _) fun path => ?_
  split
  · apply Prog.follows_ite
    · exact Prog.follows_bind (follows_beside fun _ _ _ => rfl) fun _ => Prog.follows_pure _
    apply Prog.follows_ite
    · refine Prog.follows_bind (Prog.follows_ofExcept _) fun file_text => ?_
      exact Prog.follows_bind (follows_beside fun _ _ _ => rfl) fun _ => Prog.follows_pure _
    apply Prog.follows_ite
    · refine Prog.follows_bind (Prog.follows_ofExcept _) fun old_str => ?_
      refine Prog.follows_bind (Prog.follows_ofExcept _) fun new_str => ?_
      exact Prog.follows_bind (follows_beside fun _ _ _ => rfl) fun _ => Prog.follows_pure _
    · exact Prog.follows_pure _
  · exact Prog.follows_pure _

theorem follows_run_tools (client : RuntimeClient W) (h : H) (cwd : PyVal) (blocks : List Block) :
    Prog.Follows (With h) Event.present (run_tools (client.beside H) cwd blocks)
      (run_tools client cwd blocks) := by
  have hcall : ∀ name tool_input, Prog.Follows (With h) Event.present
      (run_tool (client.beside H) name tool_input cwd) (run_tool client name tool_input cwd) := by
    intro name tool_input
    unfold run_tool
    refine Prog.follows_bind (Prog.follows_note rfl) fun _ => ?_
    apply Prog.follows_catching
    apply Prog.follows_ite
    · exact follows_run_bash client h tool_input cwd
    apply Prog.follows_ite
    · exact follows_run_edit_tool client h tool_input
    · exact Prog.follows_pure _
  induction blocks with
  | nil => exact Prog.follows_pure _
  | cons block blocks ih =>
    cases block with
    | text t => exact ih
    | other t => exact ih
    | tool_use id name tool_input =>
      refine Prog.follows_bind (hcall name tool_input) fun result => ?_
      exact Prog.follows_bind ih fun _ => Prog.follows_pure _

/-- The turns go as they go without the history. -/
theorem follows_agentic_turns (env : Env W) (client : RuntimeClient W) (cwd : PyVal) (n : Nat)
    (messages : List Message) :
    Prog.Follows (fun w' w => w'.1 = w) Event.present
      (agentic_turns env.recorded (client.beside _) cwd n messages)
      (agentic_turns env client cwd n messages) := by
  induction n generalizing messages with
  | zero => exact Prog.follows_pure _
  | succ n ih =>
    unfold agentic_turns
    refine Prog.follows_bind ?_ fun response => ?_
    · apply Prog.follows_call
      · rintro w' w rfl
        exact ⟨rfl, rfl⟩
      · intro w' w r x' x _ _
        rfl
    · apply Prog.follows_ite
      · exact Prog.follows_pure _
      · refine Prog.follows_bind ?_ fun results => ih _
        intro w' w hw
        have hwith : With w'.2 w' w := Prod.ext hw rfl
        obtain ⟨hval, hworld, hevents⟩ :=
          follows_run_tools client w'.2 cwd response.content w' w hwith
        exact ⟨hval, congrArg Prod.fst hworld, hevents⟩

theorem follows_agentic_loop (env : Env W) (client : RuntimeClient W) (task_prompt : PyStr)
    (feedback : Option PyStr) (cwd ticket_id : PyVal) :
    Prog.Follows (fun w' w => w'.1 = w) Event.present
      (run_agentic_loop env.recorded (client.beside _) task_prompt feedback cwd ticket_id)
      (run_agentic_loop env client task_prompt feedback cwd ticket_id) := by
  unfold run_agentic_loop
  refine Prog.follows_bind (Prog.follows_note rfl) fun _ => ?_
  refine Prog.follows_bind ?_ fun _ => ?_
  · rintro w' w rfl
    exact ⟨rfl, rfl, rfl⟩
  refine Prog.follows_bind (follows_agentic_turns env client cwd MAX_TOOL_CALLS _) fun summary => ?_
  exact Prog.follows_bind (Prog.follows_note rfl) fun _ => Prog.follows_pure _

/-- The replies of an attempt, in the order they came. -/
def attempt_replies (env : Env W) (client : RuntimeClient W) (task_prompt : PyStr)
    (feedback : Option PyStr) (cwd ticket_id : PyVal) (w : W) : List Response :=
  (run_agentic_loop env.recorded (client.beside _) task_prompt feedback cwd ticket_id (w, [])).world.2

end beside

/-! ## Reading an attempt -/

/-- The requests of `messages.create`. -/
def requests {W : Type} (es : List (Event W)) : List Request :=
  es.filterMap fun
    | .messages_create request => some request
    | _ => none

/-- The tool calls that were executed. -/
def executed {W : Type} (es : List (Event W)) : List (PyStr × Dict) :=
  es.filterMap fun
    | .run_tool name tool_input => some (name, tool_input)
    | _ => none

/-- The ids of the `tool_use` blocks. -/
def tool_use_ids (content : List Block) : List PyStr :=
  content.filterMap fun
    | .tool_use id _ _ => some id
    | _ => none

/-- What the `tool_use` blocks call. -/
def tool_calls (content : List Block) : List (PyStr × Dict) :=
  content.filterMap fun
    | .tool_use _ name tool_input => some (name, tool_input)
    | _ => none

/-- The reply asks for tools. -/
def Response.Asks (r : Response) : Prop := r.stop_reason = lit "tool_use"

instance (r : Response) : Decidable r.Asks := inferInstanceAs (Decidable (_ = _))

/-- The calls that a reply is entitled to. -/
def asked (r : Response) : List (PyStr × Dict) := if r.Asks then tool_calls r.content else []

/-- The text of the first reply that asks for nothing, or the cap message. -/
def final_text (replies : List Response) : PyStr :=
  match replies.find? fun r => !decide r.Asks with
  | some r => r.text
  | none => lit "tool call cap reached without a final answer"

section reading
variable {W H : Type}

@[simp] theorem requests_append (es es' : List (Event W)) :
    requests (es ++ es') = requests es ++ requests es' := List.filterMap_append

@[simp] theorem executed_append (es es' : List (Event W)) :
    executed (es ++ es') = executed es ++ executed es' := List.filterMap_append

theorem requests_present (es : List (Event (W × H))) :
    requests (es.map Event.present) = requests es := by
  rw [requests, List.filterMap_map]
  apply List.filterMap_congr
  intro e _
  cases e <;> rfl

theorem executed_present (es : List (Event (W × H))) :
    executed (es.map Event.present) = executed es := by
  rw [executed, List.filterMap_map]
  apply List.filterMap_congr
  intro e _
  cases e <;> rfl

/-- What a tool does in the sandbox is neither. -/
theorem nothing_read {es : List (Event W)}
    (h : ∀ e ∈ es, ∀ request name tool_input, e ≠ .messages_create request ∧
      e ≠ .run_tool name tool_input) : requests es = [] ∧ executed es = [] := by
  constructor
  · apply List.filterMap_eq_nil_iff.mpr
    intro e he
    cases e with
    | messages_create request => exact absurd rfl (h _ he request [] []).1
    | _ => rfl
  · apply List.filterMap_eq_nil_iff.mpr
    intro e he
    cases e with
    | run_tool name tool_input => exact absurd rfl (h _ he ⟨[], 0, [], []⟩ name tool_input).2
    | _ => rfl

end reading

/-! ## The list of messages -/

/-- A turn that asked for tools: the reply, and one result for each of its
    calls, under the id of the call. -/
structure Round where
  content : List Block
  results : List ToolResult
  answered : results.map (·.tool_use_id) = tool_use_ids content

/-- The `messages` list after these rounds. -/
def transcript (prompt : PyStr) (rounds : List Round) : List Message :=
  .user prompt :: rounds.flatMap fun r => [.assistant r.content, .tool_results r.results]

/-- The role of a message. -/
def Message.isUser : Message → Bool
  | .user _ | .tool_results _ => true
  | .assistant _ => false

/-- The replies among the messages. -/
def assistant_contents (messages : List Message) : List (List Block) :=
  messages.filterMap fun
    | .assistant content => some content
    | _ => none

/-- The roles alternate, from user on. -/
def Alternates (messages : List Message) : Prop :=
  ∀ i m, messages[i]? = some m → (m.isUser = true ↔ i % 2 = 0)

/-- Each reply's calls are answered in the very next message, and a message
    with results stands nowhere else. -/
structure AnsweredInPlace (messages : List Message) : Prop where
  next : ∀ i content, messages[i]? = some (.assistant content) →
    ∃ results, messages[i + 1]? = some (.tool_results results) ∧
      results.map (·.tool_use_id) = tool_use_ids content
  only : ∀ i results, messages[i]? = some (.tool_results results) →
    ∃ j content, i = j + 1 ∧ messages[j]? = some (.assistant content) ∧
      results.map (·.tool_use_id) = tool_use_ids content

section messages
variable {α β : Type}

/-- Two by two. -/
theorem getElem?_pairs (f g : α → β) (xs : List α) (j : Nat) :
    (xs.flatMap fun x => [f x, g x])[2 * j]? = xs[j]?.map f ∧
      (xs.flatMap fun x => [f x, g x])[2 * j + 1]? = xs[j]?.map g := by
  induction xs generalizing j with
  | nil => exact ⟨rfl, rfl⟩
  | cons x xs ih =>
    cases j with
    | zero => exact ⟨rfl, rfl⟩
    | succ j => exact ih j

theorem transcript_user (prompt : PyStr) (rounds : List Round) :
    (transcript prompt rounds)[0]? = some (.user prompt) := rfl

theorem transcript_assistant (prompt : PyStr) (rounds : List Round) (j : Nat) :
    (transcript prompt rounds)[2 * j + 1]? = rounds[j]?.map fun r => .assistant r.content :=
  (getElem?_pairs _ _ rounds j).1

theorem transcript_results (prompt : PyStr) (rounds : List Round) (j : Nat) :
    (transcript prompt rounds)[2 * j + 2]? = rounds[j]?.map fun r => .tool_results r.results :=
  (getElem?_pairs _ _ rounds j).2

/-- The three places of a message. -/
theorem place_cases (i : Nat) : i = 0 ∨ (∃ j, i = 2 * j + 1) ∨ ∃ j, i = 2 * j + 2 := by
  by_cases h0 : i = 0
  · exact Or.inl h0
  · by_cases hodd : i % 2 = 1
    · exact Or.inr (Or.inl ⟨i / 2, by omega⟩)
    · exact Or.inr (Or.inr ⟨(i - 2) / 2, by omega⟩)

theorem transcript_length (prompt : PyStr) (rounds : List Round) :
    (transcript prompt rounds).length = 2 * rounds.length + 1 := by
  rw [transcript, List.length_cons, List.length_flatMap]
  simp [Nat.mul_comm]

theorem transcript_alternates (prompt : PyStr) (rounds : List Round) :
    Alternates (transcript prompt rounds) := by
  intro i m h
  rcases place_cases i with rfl | ⟨j, rfl⟩ | ⟨j, rfl⟩
  · rw [transcript_user] at h
    obtain rfl := Option.some.inj h
    exact iff_of_true rfl rfl
  · rw [transcript_assistant] at h
    obtain ⟨r, -, rfl⟩ := Option.map_eq_some_iff.mp h
    exact iff_of_false Bool.false_ne_true (by omega)
  · rw [transcript_results] at h
    obtain ⟨r, -, rfl⟩ := Option.map_eq_some_iff.mp h
    exact iff_of_true rfl (by omega)

theorem transcript_answered (prompt : PyStr) (rounds : List Round) :
    AnsweredInPlace (transcript prompt rounds) where
  next := by
    intro i content h
    rcases place_cases i with rfl | ⟨j, rfl⟩ | ⟨j, rfl⟩
    · cases h
    · rw [transcript_assistant] at h
      obtain ⟨r, hr, heq⟩ := Option.map_eq_some_iff.mp h
      obtain rfl := Message.assistant.inj heq
      refine ⟨r.results, ?_, r.answered⟩
      rw [transcript_results, hr]
      rfl
    · rw [transcript_results] at h
      obtain ⟨r, -, heq⟩ := Option.map_eq_some_iff.mp h
      cases heq
  only := by
    intro i results h
    rcases place_cases i with rfl | ⟨j, rfl⟩ | ⟨j, rfl⟩
    · cases h
    · rw [transcript_assistant] at h
      obtain ⟨r, -, heq⟩ := Option.map_eq_some_iff.mp h
      cases heq
    · rw [transcript_results] at h
      obtain ⟨r, hr, heq⟩ := Option.map_eq_some_iff.mp h
      obtain rfl := Message.tool_results.inj heq
      refine ⟨2 * j + 1, r.content, rfl, ?_, r.answered⟩
      rw [transcript_assistant, hr]
      rfl

theorem transcript_contents (prompt : PyStr) (rounds : List Round) :
    assistant_contents (transcript prompt rounds) = rounds.map (·.content) := by
  show assistant_contents (rounds.flatMap _) = _
  induction rounds with
  | nil => rfl
  | cons r rounds ih => exact congrArg (r.content :: ·) ih

theorem transcript_snoc (prompt : PyStr) (rounds : List Round) (r : Round) :
    transcript prompt rounds ++ [.assistant r.content, .tool_results r.results] =
      transcript prompt (rounds ++ [r]) := by
  simp [transcript]

end messages

/-! ## The tool calls of a reply -/

section calls
variable {W : Type} [Unicode]

theorem run_tool_reads (client : RuntimeClient W) (name : PyStr) (tool_input : Dict) (cwd : PyVal)
    (w : W) : Prog.wp (run_tool client name tool_input cwd)
      (fun _ _ es => requests es = [] ∧ executed es = [(name, tool_input)]) w := by
  unfold run_tool
  rw [Prog.wp_bind, Prog.wp_note, Prog.andThen_ok, Prog.wp_catching]
  -- no tool asks the model, and none calls another
  have hbranch : Prog.Emits (fun e : Event W => ∀ request name tool_input,
      e ≠ .messages_create request ∧ e ≠ .run_tool name tool_input)
      (if name = lit "bash" then run_bash client tool_input cwd
       else if name = lit "str_replace_based_edit_tool" then run_edit_tool client tool_input
       else pure (lit "unknown tool " ++ repr_str name, true)) := by
    apply Prog.emits_ite
    · exact emits_run_bash (by simp) client tool_input cwd
    apply Prog.emits_ite
    · exact emits_run_edit_tool (by simp) client tool_input
    · exact Prog.emits_pure _
  obtain ⟨hrequests, hexecuted⟩ := nothing_read (hbranch w)
  exact ⟨hrequests, congrArg ((name, tool_input) :: ·) hexecuted⟩

/-- The calls are executed in order, each once; those after one that raised
    are not. -/
theorem run_tools_reads (client : RuntimeClient W) (cwd : PyVal) (blocks : List Block) (w : W) :
    Prog.wp (run_tools client cwd blocks) (fun r _ es => requests es = [] ∧
      executed es <+: tool_calls blocks ∧ ∀ results, r = .ok results →
        executed es = tool_calls blocks ∧
          results.map (·.tool_use_id) = tool_use_ids blocks) w := by
  induction blocks generalizing w with
  | nil =>
    refine ⟨rfl, List.prefix_refl [], ?_⟩
    intro results h
    obtain rfl : [] = results := Except.ok.inj h
    exact ⟨rfl, rfl⟩
  | cons block blocks ih =>
    cases block with
    | text t => exact ih w
    | other t => exact ih w
    | tool_use id name tool_input =>
      have hcalls : tool_calls (.tool_use id name tool_input :: blocks) =
          [(name, tool_input)] ++ tool_calls blocks := rfl
      rw [hcalls, run_tools]
      apply Prog.wp_seq (run_tool_reads client name tool_input cwd w)
      · intro result w' es hone
        obtain ⟨hnone, hcall⟩ := hone
        obtain ⟨content, is_error⟩ := result
        show Prog.wp (run_tools client cwd blocks >>= _) _ w'
        apply Prog.wp_seq (ih w')
        · intro results w'' es' hrest
          -- this call and those behind it were answered
          obtain ⟨hnone', hprefix, hreturned⟩ := hrest
          obtain ⟨hall, hids⟩ := hreturned results rfl
          rw [Prog.wp_pure, requests_append, requests_append, executed_append, executed_append,
            hnone, hnone', hcall, hall]
          refine ⟨rfl, by simp [executed], ?_⟩
          intro results' h
          obtain rfl := Except.ok.inj h
          exact ⟨by simp [executed], congrArg (id :: ·) hids⟩
        · intro exc w'' es' hrest
          -- one behind it raised
          obtain ⟨hnone', hprefix, -⟩ := hrest
          rw [requests_append, executed_append, hnone, hnone', hcall]
          refine ⟨rfl, (List.prefix_append_right_inj _).mpr hprefix, ?_⟩
          intro results h
          cases h
      · intro exc w' es hone
        obtain ⟨hnone, hcall⟩ := hone
        rw [hnone, hcall]
        refine ⟨rfl, List.prefix_append _ _, ?_⟩
        intro results h
        cases h

end calls

/-! ## The turns -/

/-- The turns that are left, after these rounds: at most `n` of them. -/
structure Turns {W : Type} (prompt : PyStr) (rounds : List Round) (n : Nat)
    (replies : List Response) (es : List (Event W)) (r : Except PyExc PyStr) : Prop where
  /-- A request carries the rounds so far. -/
  transcripts : ∀ k request, (requests es)[k]? = some request → ∃ later : List Round,
    request.messages = transcript prompt (rounds ++ later) ∧ later.length = k ∧
      later.map (·.content) = (replies.take k).map (·.content)
  calls : (requests es).length ≤ n
  executes : executed es <+: replies.flatMap asked
  /-- Only the last reply may ask for nothing. -/
  asks : ∀ reply ∈ replies.dropLast, reply.Asks
  returns : ∀ summary, r = .ok summary → executed es = replies.flatMap asked ∧
    replies.length = (requests es).length ∧ summary = final_text replies ∧
      ((∀ reply ∈ replies, reply.Asks) → replies.length = n)

/-- The conversation of an attempt, as `messages.create` and the tools saw
    it. -/
structure Conversation {W : Type} (replies : List Response) (es : List (Event W))
    (r : Except PyExc PyStr) : Prop where
  /-- The k-th request has `2 k + 1` messages, from user to user. -/
  length : ∀ k request, (requests es)[k]? = some request → request.messages.length = 2 * k + 1
  alternates : ∀ request ∈ requests es, Alternates request.messages
  answered : ∀ request ∈ requests es, AnsweredInPlace request.messages
  /-- The assistant's messages are the replies so far. -/
  contents : ∀ k request, (requests es)[k]? = some request →
    assistant_contents request.messages = (replies.take k).map (·.content)
  calls : (requests es).length ≤ MAX_TOOL_CALLS
  /-- Calls are executed in order, each once, and no other. -/
  executes : executed es <+: replies.flatMap asked
  asks : ∀ reply ∈ replies.dropLast, reply.Asks
  /-- An attempt that returns has executed all of them. -/
  returns : ∀ summary, r = .ok summary → executed es = replies.flatMap asked ∧
    replies.length = (requests es).length ∧ summary = final_text replies ∧
      ((∀ reply ∈ replies, reply.Asks) → replies.length = MAX_TOOL_CALLS)

section turns
variable {W : Type} {prompt : PyStr} {rounds : List Round} {n : Nat} {replies : List Response}
  {es es' : List (Event W)} {r : Except PyExc PyStr} {request : Request} {response : Response}

theorem Turns.cap : Turns prompt rounds 0 [] ([] : List (Event W))
    (.ok (lit "tool call cap reached without a final answer")) where
  transcripts := by
    intro k request h
    cases h
  calls := Nat.le_refl 0
  executes := List.prefix_refl []
  asks := by simp
  returns := by
    intro summary h
    obtain rfl := Except.ok.inj h
    exact ⟨rfl, rfl, rfl, fun _ => rfl⟩

/-- The first request of the turns left. -/
theorem only_request {k : Nat} {request' : Request}
    (hmessages : request.messages = transcript prompt rounds) (h : [request][k]? = some request') :
    ∃ later : List Round, request'.messages = transcript prompt (rounds ++ later) ∧
      later.length = k ∧ later.map (·.content) = (replies.take k).map (·.content) := by
  cases k with
  | zero =>
    obtain rfl := Option.some.inj h
    exact ⟨[], by rw [List.append_nil, hmessages], rfl, rfl⟩
  | succ k => cases h

theorem Turns.no_reply (hmessages : request.messages = transcript prompt rounds) (exc : PyExc) :
    Turns prompt rounds (n + 1) [] [(.messages_create request : Event W)] (.error exc) where
  transcripts := fun _ _ h => only_request hmessages h
  calls := Nat.le_add_left 1 n
  executes := List.prefix_refl []
  asks := by simp
  returns := by
    intro summary h
    cases h

theorem Turns.final (hmessages : request.messages = transcript prompt rounds)
    (hasks : ¬response.Asks) :
    Turns prompt rounds (n + 1) [response] [(.messages_create request : Event W)]
      (.ok response.text) where
  transcripts := fun _ _ h => only_request hmessages h
  calls := Nat.le_add_left 1 n
  executes := List.nil_prefix
  asks := by simp
  returns := by
    intro summary h
    obtain rfl := Except.ok.inj h
    refine ⟨by simp [asked, hasks, executed], rfl, by simp [final_text, hasks], ?_⟩
    intro hall
    exact absurd (hall response List.mem_cons_self) hasks

/-- A tool call raised. -/
theorem Turns.raised (hmessages : request.messages = transcript prompt rounds)
    (hasks : response.Asks) (hnone : requests es = [])
    (hexecuted : executed es <+: tool_calls response.content) (exc : PyExc) :
    Turns prompt rounds (n + 1) [response] (.messages_create request :: es) (.error exc) := by
  have hrequests : requests (.messages_create request :: es) = [request] :=
    congrArg (request :: ·) hnone
  refine ⟨?_, ?_, ?_, by simp, ?_⟩
  · rw [hrequests]
    exact fun _ _ h => only_request hmessages h
  · rw [hrequests]
    exact Nat.le_add_left 1 n
  · show executed es <+: _
    simpa [asked, hasks] using hexecuted
  · intro summary h
    cases h

/-- A round, and the turns after it. -/
theorem Turns.round (hmessages : request.messages = transcript prompt rounds)
    (hasks : response.Asks) (hnone : requests es = [])
    (hexecuted : executed es = tool_calls response.content) {round : Round}
    (hround : round.content = response.content)
    (h : Turns prompt (rounds ++ [round]) n replies es' r) :
    Turns prompt rounds (n + 1) (response :: replies) (.messages_create request :: (es ++ es')) r := by
  have hrequests : requests (.messages_create request :: (es ++ es')) = request :: requests es' := by
    show request :: requests (es ++ es') = _
    rw [requests_append, hnone, List.nil_append]
  have hcalls : executed (.messages_create request :: (es ++ es')) =
      asked response ++ executed es' := by
    show executed (es ++ es') = _
    rw [executed_append, hexecuted, asked, if_pos hasks]
  refine ⟨?_, ?_, ?_, ?_, ?_⟩
  · rw [hrequests]
    intro k request' hk
    -- the first request carries the rounds so far, a later one this round too
    cases k with
    | zero =>
      obtain rfl := Option.some.inj hk
      exact ⟨[], by rw [List.append_nil, hmessages], rfl, rfl⟩
    | succ k =>
      obtain ⟨later, hlater, hlength, hcontents⟩ := h.transcripts k request' hk
      refine ⟨round :: later, by simpa using hlater, by simp [hlength], ?_⟩
      simp [hround, hcontents]
  · rw [hrequests]
    exact Nat.succ_le_succ h.calls
  · rw [hcalls, List.flatMap_cons]
    exact (List.prefix_append_right_inj _).mpr h.executes
  · intro reply hreply
    cases replies with
    | nil => simp at hreply
    | cons next replies =>
      rw [List.dropLast_cons_of_ne_nil (List.cons_ne_nil next replies)] at hreply
      rcases List.mem_cons.mp hreply with rfl | hreply
      · exact hasks
      · exact h.asks reply hreply
  · intro summary hsummary
    obtain ⟨hall, hlength, htext, hcap⟩ := h.returns summary hsummary
    refine ⟨?_, ?_, ?_, ?_⟩
    · rw [hcalls, hall, List.flatMap_cons]
    · rw [hrequests, List.length_cons, List.length_cons, hlength]
    · rw [htext]
      simp [final_text, hasks]
    · intro hasks'
      rw [List.length_cons, hcap fun reply hreply => hasks' reply (List.mem_cons_of_mem _ hreply)]

/-- Only the requests and the calls on record matter. -/
theorem Turns.congr {W' : Type} {es' : List (Event W')} (h : Turns prompt rounds n replies es r)
    (hrequests : requests es' = requests es) (hexecuted : executed es' = executed es) :
    Turns prompt rounds n replies es' r := by
  refine ⟨?_, ?_, ?_, h.asks, ?_⟩
  · rw [hrequests]
    exact h.transcripts
  · rw [hrequests]
    exact h.calls
  · rw [hexecuted]
    exact h.executes
  · rw [hrequests, hexecuted]
    exact h.returns

/-- There is no client, so there are no turns. -/
theorem Turns.none (hrequests : requests es = []) (hexecuted : executed es = []) (exc : PyExc) :
    Turns prompt rounds n [] es (.error exc) := by
  refine ⟨?_, ?_, ?_, by simp, ?_⟩
  · rw [hrequests]
    intro k request h
    cases h
  · rw [hrequests]
    exact Nat.zero_le n
  · rw [hexecuted]
    exact List.nil_prefix
  · intro summary h
    cases h

theorem Turns.conversation (h : Turns prompt [] MAX_TOOL_CALLS replies es r) :
    Conversation replies es r := by
  have hplace : ∀ request ∈ requests es, ∃ rounds, request.messages = transcript prompt rounds := by
    intro request hrequest
    obtain ⟨k, hk⟩ := List.getElem?_of_mem hrequest
    obtain ⟨later, hlater, -⟩ := h.transcripts k request hk
    exact ⟨later, hlater⟩
  refine ⟨?_, ?_, ?_, ?_, h.calls, h.executes, h.asks, h.returns⟩
  · intro k request hk
    obtain ⟨later, hlater, rfl, -⟩ := h.transcripts k request hk
    rw [hlater]
    exact transcript_length prompt later
  · intro request hrequest
    obtain ⟨rounds, hrounds⟩ := hplace request hrequest
    rw [hrounds]
    exact transcript_alternates prompt rounds
  · intro request hrequest
    obtain ⟨rounds, hrounds⟩ := hplace request hrequest
    rw [hrounds]
    exact transcript_answered prompt rounds
  · intro k request hk
    obtain ⟨later, hlater, -, hcontents⟩ := h.transcripts k request hk
    rw [hlater, ← hcontents]
    exact transcript_contents prompt later

end turns

section attempt
variable {W : Type} [Unicode]

/-- The turns left of an attempt, after some rounds. -/
theorem agentic_turns_conversation (env : Env W) (client : RuntimeClient W) (cwd : PyVal)
    (prompt : PyStr) (n : Nat) (rounds : List Round) (w : W) (replies : List Response) :
    Prog.wp (agentic_turns env.recorded (client.beside _) cwd n (transcript prompt rounds))
      (fun r w' es => ∃ more, w'.2 = replies ++ more ∧ Turns prompt rounds n more es r)
      (w, replies) := by
  induction n generalizing rounds w replies with
  | zero => exact ⟨[], (List.append_nil replies).symm, .cap⟩
  | succ n ih =>
    rw [agentic_turns, Prog.wp_bind]
    unfold Env.create
    rw [Prog.wp_call]
    dsimp only [Env.recorded]
    rcases env.messages_create _ w with ⟨exc | response, w₁⟩
    · exact ⟨[], (List.append_nil replies).symm, .no_reply rfl exc⟩
    dsimp only [remember]
    rw [Prog.andThen_ok, Prog.wp_ite]
    constructor
    · intro hfinal
      exact ⟨[response], rfl, .final rfl hfinal⟩
    intro hasks
    have hasks : response.Asks := Decidable.not_not.mp hasks
    -- the tools do not touch the history
    have hbeside := (follows_run_tools client (replies ++ [response]) cwd response.content
      (w₁, replies ++ [response]) w₁ rfl).2.1
    have hreads := run_tools_reads (client.beside _) cwd response.content
      (w₁, replies ++ [response])
    rw [Prog.wp_bind]
    unfold Prog.wp at hreads ⊢
    revert hreads hbeside
    rcases run_tools (client.beside _) cwd response.content (w₁, replies ++ [response]) with
      ⟨exc | results, w₂, es⟩
    · intro hbeside hreads
      obtain ⟨hnone, hprefix, -⟩ := hreads
      exact ⟨[response], congrArg Prod.snd hbeside, .raised rfl hasks hnone hprefix exc⟩
    · intro hbeside hreads
      obtain ⟨hnone, -, hreturned⟩ := hreads
      obtain ⟨hexecuted, hids⟩ := hreturned results rfl
      obtain rfl : w₂ = (_, replies ++ [response]) := hbeside
      rw [Prog.andThen_ok]
      -- the round is complete, and the transcript is one round longer
      have hnext : transcript prompt rounds ++
          [.assistant response.content, .tool_results results] =
            transcript prompt (rounds ++ [⟨response.content, results, hids⟩]) :=
        transcript_snoc prompt rounds ⟨response.content, results, hids⟩
      rw [hnext]
      apply Prog.wp_mono (ih _ _ _)
      intro r w₃ es' hrest
      obtain ⟨more, hmore, hturns⟩ := hrest
      have hmessages : (Request.mk EXECUTOR_MODEL 8096 EXECUTOR_TOOLS
          (transcript prompt rounds)).messages = transcript prompt rounds := rfl
      have hround := Turns.round hmessages hasks hnone hexecuted rfl hturns
      refine ⟨response :: more, ?_, hround⟩
      rw [hmore, List.append_assoc]
      rfl

/-- **The conversation protocol of an attempt.** -/
theorem conversation_protocol (env : Env W) (client : RuntimeClient W) (task_prompt : PyStr)
    (feedback : Option PyStr) (cwd ticket_id : PyVal) (w : W) :
    Conversation (attempt_replies env client task_prompt feedback cwd ticket_id w)
      (run_agentic_loop env client task_prompt feedback cwd ticket_id w).events
      (run_agentic_loop env client task_prompt feedback cwd ticket_id w).val := by
  have hfollows := follows_agentic_loop env client task_prompt feedback cwd ticket_id (w, []) w rfl
  obtain ⟨hval, -, hevents⟩ := hfollows
  -- the turns are read off a run that keeps the replies beside its world
  have hturns : Prog.wp
      (run_agentic_loop env.recorded (client.beside _) task_prompt feedback cwd ticket_id)
      (fun r w' es => Turns (user_content task_prompt feedback) [] MAX_TOOL_CALLS w'.2 es r)
      (w, []) := by
    unfold run_agentic_loop
    rw [Prog.wp_bind, Prog.wp_note, Prog.andThen_ok, Prog.wp_bind]
    unfold Env.llm_client
    dsimp only [Prog.wp, Env.recorded, beside]
    rcases env.get_llm_client ticket_id w with ⟨exc | _, w₁⟩
    · exact Turns.none rfl rfl exc
    rw [Prog.andThen_ok]
    have hstart : [Message.user (user_content task_prompt feedback)] =
        transcript (user_content task_prompt feedback) [] := rfl
    rw [hstart]
    apply Prog.wp_seq (agentic_turns_conversation env client cwd _ MAX_TOOL_CALLS [] w₁ [])
    · intro summary w₂ es h
      obtain ⟨more, hmore, hturns⟩ := h
      rw [List.nil_append] at hmore
      rw [Prog.wp_bind, Prog.wp_note, Prog.andThen_ok, Prog.wp_pure, hmore]
      apply hturns.congr
      · simp [requests]
      · simp [executed]
    · intro exc w₂ es h
      obtain ⟨more, hmore, hturns⟩ := h
      rw [List.nil_append] at hmore
      rw [hmore]
      exact hturns.congr rfl rfl
  have hpresent := hturns.congr (requests_present _) (executed_present _)
  rw [hval, hevents] at hpresent
  exact hpresent.conversation

end attempt

end Syndicate
