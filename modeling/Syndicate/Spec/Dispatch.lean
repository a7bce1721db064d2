import Syndicate.Spec.Staging

/-! # Which tool calls are answered

    `_run_tool` turns a `FileNotFoundError` or a `ValueError` into a tool
    result.  A key that the input lacks is neither: the call raises, and with
    it the run. -/

namespace Syndicate

open Py Framework

variable {W : Type}

/-- The exceptions that `_run_tool` is prepared for. -/
def Expected (exc : PyExc) : Prop := exc.kind = .FileNotFoundError ∨ exc.kind.isValueError = true

/-- A client whose methods return what they declare, or raise
    `FileNotFoundError` or `ValueError`. -/
structure RuntimeClient.Declared (client : RuntimeClient W) : Prop where
  run_action : ∀ action cwd timeout w exc,
    (client.run_action action cwd timeout w).1 = .error exc → Expected exc
  read_file : ∀ path w exc, (client.read_file path w).1 = .error exc → Expected exc
  write_file : ∀ path content w exc, (client.write_file path content w).1 = .error exc → Expected exc
  edit_file : ∀ path old_string new_string w exc,
    (client.edit_file path old_string new_string w).1 = .error exc → Expected exc

/-- The keys of its input that a call reads without a default, in order. -/
def required_keys (name : PyStr) (tool_input : Dict) : List String :=
  if name = lit "bash" then
    if (tool_input.get "restart").truthy then [] else ["command"]
  else if name = lit "str_replace_based_edit_tool" then
    "command" :: "path" ::
      (match tool_input.get "command" with
      | .str c =>
        if c = lit "view" then []
        else if c = lit "create" then ["file_text"]
        else if c = lit "str_replace" then ["old_str", "new_str"]
        else []
      | _ => [])
  else []

/-- The input has these keys. -/
def Has (tool_input : Dict) (keys : List String) : Prop :=
  ∀ key ∈ keys, (tool_input.find key).isSome

instance (tool_input : Dict) (keys : List String) : Decidable (Has tool_input keys) :=
  inferInstanceAs (Decidable (∀ key ∈ keys, (tool_input.find key).isSome))

/-! ## How a branch ends -/

/-- A branch returned, or raised what `_run_tool` is prepared for. -/
def Answered {α : Type} (r : Except PyExc α) : Prop := ∀ exc, r = .error exc → Expected exc

theorem answered_ok {α : Type} (a : α) : Answered (.ok a) := by
  intro exc h
  cases h

theorem not_expected_keyError (msg : PyStr) : ¬Expected ⟨.KeyError, msg⟩ := by
  intro h
  rcases h with h | h
  · cases h
  · cases h

/-- What `_run_tool` makes of an answered branch is a result. -/
theorem recover_ok_iff (r : Except PyExc (PyStr × Bool)) :
    (∃ content is_error, Prog.recover tool_error r = .ok (content, is_error)) ↔ Answered r := by
  cases r with
  | ok a => exact iff_of_true ⟨a.1, a.2, rfl⟩ (answered_ok a)
  | error exc =>
    by_cases hexc : Expected exc
    · have hcaught : tool_error exc = some (exc.msg, true) := if_pos hexc
      simp only [Prog.recover, hcaught]
      refine iff_of_true ⟨exc.msg, true, rfl⟩ ?_
      intro exc' h
      exact Except.error.inj h ▸ hexc
    · have hraised : tool_error exc = none := if_neg hexc
      simp only [Prog.recover, hraised]
      refine iff_of_false ?_ fun h => hexc (h exc rfl)
      intro h
      obtain ⟨content, is_error, h⟩ := h
      cases h

section branches
variable {α β : Type} {tool_input : Dict} {keys : List String} {w : W}

/-- Reading a key: from here on the branch needs that key and what the rest
    of it needs. -/
theorem wp_getItem_bind {key : String} {f : PyVal → M W α}
    (h : ∀ v, tool_input.find key = some v →
      Prog.wp (f v) (fun r _ _ => Answered r ↔ Has tool_input keys) w) :
    Prog.wp (Prog.ofExcept (tool_input.getItem key) >>= f)
      (fun r _ _ => Answered r ↔ Has tool_input (key :: keys)) w := by
  rw [Prog.wp_bind, Prog.wp_ofExcept]
  unfold Has
  rw [Dict.getItem, List.forall_mem_cons]
  cases hfind : tool_input.find key with
  | none =>
    -- `KeyError`, which nobody catches
    refine iff_of_false ?_ fun h => Bool.false_ne_true h.1
    intro hanswered
    exact not_expected_keyError _ (hanswered _ rfl)
  | some v =>
    dsimp only
    rw [Prog.andThen_ok]
    apply Prog.wp_mono (h v hfind)
    intro r w' es hr
    rw [hr, Has]
    simp

/-- A call of the client, and then a result. -/
theorem wp_call_bind {f : W → Except PyExc β × W} {ev : W → Except PyExc β → W → Event W}
    {g : β → M W α} (hf : Answered (f w).1)
    (hg : ∀ b w', Prog.wp (g b) (fun r _ _ => Answered r) w') :
    Prog.wp (Prog.call f ev >>= g) (fun r _ _ => Answered r ↔ Has tool_input []) w := by
  have hnone : Has tool_input [] := fun key hkey => absurd hkey List.not_mem_nil
  rw [Prog.wp_bind, Prog.wp_call]
  revert hf
  rcases f w with ⟨e | b, w'⟩
  · intro hf
    refine iff_of_true ?_ hnone
    intro exc h
    exact hf exc (congrArg Except.error (Except.error.inj h))
  · intro _
    dsimp only
    rw [Prog.andThen_ok]
    apply Prog.wp_mono (hg b w')
    intro r w'' es hr
    exact iff_of_true hr hnone

end branches

section dispatch
variable {client : RuntimeClient W}

theorem run_bash_answered (hclient : client.Declared) (tool_input : Dict) (cwd : PyVal) (w : W) :
    Prog.wp (run_bash client tool_input cwd)
      (fun r _ _ => Answered r ↔ Has tool_input (required_keys (lit "bash") tool_input)) w := by
  unfold run_bash required_keys
  rw [if_pos rfl]
  by_cases hrestart : (tool_input.get "restart").truthy = true
  · rw [if_pos hrestart, if_pos hrestart]
    exact iff_of_true (answered_ok _) fun key hkey => absurd hkey List.not_mem_nil
  · rw [if_neg hrestart, if_neg hrestart]
    apply wp_getItem_bind
    intro command _
    apply wp_call_bind
    · exact hclient.run_action command cwd none w
    · intro result w'
      rw [Prog.wp_ite]
      exact ⟨fun _ => answered_ok _, fun _ => answered_ok _⟩

variable [Unicode]

theorem run_edit_tool_answered (hclient : client.Declared) (tool_input : Dict) (w : W) :
    Prog.wp (run_edit_tool client tool_input) (fun r _ _ => Answered r ↔
      Has tool_input (required_keys (lit "str_replace_based_edit_tool") tool_input)) w := by
  have hname : lit "str_replace_based_edit_tool" ≠ lit "bash" := by decide
  have hnone : Has tool_input [] := fun key hkey => absurd hkey List.not_mem_nil
  unfold run_edit_tool required_keys
  rw [if_neg hname, if_pos rfl]
  apply wp_getItem_bind
  intro command hcommand
  apply wp_getItem_bind
  intro path _
  have hget : tool_input.get "command" = command := by rw [Dict.get, hcommand, Option.getD_some]
  rw [hget]
  cases command with
  | str c =>
    dsimp only
    -- each command reads its own keys on top of `command` and `path`
    by_cases hview : c = lit "view"
    · rw [if_pos hview, if_pos hview]
      apply wp_call_bind
      · exact hclient.read_file path w
      · intro content w'
        exact answered_ok _
    rw [if_neg hview, if_neg hview]
    by_cases hcreate : c = lit "create"
    · rw [if_pos hcreate, if_pos hcreate]
      apply wp_getItem_bind
      intro file_text _
      apply wp_call_bind
      · exact hclient.write_file path file_text w
      · intro _ w'
        exact answered_ok _
    rw [if_neg hcreate, if_neg hcreate]
    by_cases hreplace : c = lit "str_replace"
    · rw [if_pos hreplace, if_pos hreplace]
      apply wp_getItem_bind
      intro old_str _
      apply wp_getItem_bind
      intro new_str _
      apply wp_call_bind
      · exact hclient.edit_file path old_str new_str w
      · intro _ w'
        exact answered_ok _
    rw [if_neg hreplace, if_neg hreplace]
    exact iff_of_true (answered_ok _) hnone
  | _ => exact iff_of_true (answered_ok _) hnone

/-- One call of `_run_tool`. -/
theorem run_tool_returns (hclient : client.Declared) (name : PyStr) (tool_input : Dict)
    (cwd : PyVal) (w : W) :
    Prog.wp (run_tool client name tool_input cwd) (fun r _ _ =>
      (∃ content is_error, r = .ok (content, is_error)) ↔
        Has tool_input (required_keys name tool_input)) w := by
  unfold run_tool
  rw [Prog.wp_bind, Prog.wp_note, Prog.andThen_ok, Prog.wp_catching]
  simp only [recover_ok_iff]
  by_cases hbash : name = lit "bash"
  · rw [if_pos hbash, hbash]
    exact run_bash_answered hclient tool_input cwd w
  rw [if_neg hbash]
  by_cases hedit : name = lit "str_replace_based_edit_tool"
  · rw [if_pos hedit, hedit]
    exact run_edit_tool_answered hclient tool_input w
  rw [if_neg hedit, required_keys, if_neg hbash, if_neg hedit]
  exact iff_of_true (answered_ok _) fun key hkey => absurd hkey List.not_mem_nil

/-- The calls of one reply: the run goes on if each of them is answered. -/
theorem run_tools_returns (hclient : client.Declared) (cwd : PyVal) (blocks : List Block) (w : W) :
    Prog.wp (run_tools client cwd blocks) (fun r _ _ => (∃ results, r = .ok results) ↔
      ∀ id name tool_input, .tool_use id name tool_input ∈ blocks →
        Has tool_input (required_keys name tool_input)) w := by
  induction blocks generalizing w with
  | nil => exact iff_of_true ⟨[], rfl⟩ fun _ _ _ h => absurd h List.not_mem_nil
  | cons block blocks ih =>
    cases block with
    | tool_use id name tool_input =>
      have hall : (∀ id' name' tool_input', Block.tool_use id' name' tool_input' ∈
            Block.tool_use id name tool_input :: blocks →
            Has tool_input' (required_keys name' tool_input')) ↔
          Has tool_input (required_keys name tool_input) ∧
            ∀ id' name' tool_input', Block.tool_use id' name' tool_input' ∈ blocks →
              Has tool_input' (required_keys name' tool_input') := by
        constructor
        · intro h
          exact ⟨h id name tool_input List.mem_cons_self,
            fun id' name' tool_input' hmem => h _ _ _ (List.mem_cons_of_mem _ hmem)⟩
        · intro h id' name' tool_input' hmem
          rcases List.mem_cons.mp hmem with heq | hmem
          · obtain ⟨-, rfl, rfl⟩ := Block.tool_use.inj heq
            exact h.1
          · exact h.2 id' name' tool_input' hmem
      simp only [hall]
      rw [run_tools, Prog.wp_bind]
      apply Prog.wp_mono (run_tool_returns hclient name tool_input cwd w)
      intro r w' es hcall
      cases r with
      | error exc =>
        -- this call raised, and with it the rest
        refine iff_of_false ?_ fun h => ?_
        · intro h
          obtain ⟨results, h⟩ := h
          cases h
        · obtain ⟨content, is_error, h⟩ := hcall.mpr h.1
          cases h
      | ok result =>
        obtain ⟨content, is_error⟩ := result
        have hhas := hcall.mp ⟨content, is_error, rfl⟩
        rw [Prog.andThen_ok]
        show Prog.wp (run_tools client cwd blocks >>= _) _ w'
        rw [Prog.wp_bind]
        apply Prog.wp_mono (ih w')
        intro r w'' es' hrest
        cases r with
        | error exc =>
          refine iff_of_false ?_ fun h => ?_
          · intro h
            obtain ⟨results, h⟩ := h
            cases h
          · obtain ⟨results, h⟩ := hrest.mpr h.2
            cases h
        | ok results => exact iff_of_true ⟨_, rfl⟩ ⟨hhas, hrest.mp ⟨results, rfl⟩⟩
    | text _ | other _ =>
      rw [run_tools]
      · apply Prog.wp_mono (ih w)
        intro r w' es h
        rw [h]
        simp
      · simp

/-- **Tool dispatch.**  With a client that keeps to its interface a call
    returns a result if and only if the input has the keys that the call
    reads; and a reply whose calls all return one is answered. -/
theorem tool_dispatch_iff (hclient : client.Declared) (cwd : PyVal) (w : W) :
    (∀ name tool_input,
      (∃ content is_error, (run_tool client name tool_input cwd w).val = .ok (content, is_error)) ↔
        Has tool_input (required_keys name tool_input)) ∧
      ∀ blocks, (∃ results, (run_tools client cwd blocks w).val = .ok results) ↔
        ∀ id name tool_input, Block.tool_use id name tool_input ∈ blocks →
          Has tool_input (required_keys name tool_input) :=
  ⟨fun name tool_input => run_tool_returns hclient name tool_input cwd w,
    fun blocks => run_tools_returns hclient cwd blocks w⟩

end dispatch

section small
attribute [local instance] Unicode.ascii

theorem checkout_declared : Checkout.api.Declared where
  run_action := by
    intro action cwd timeout w exc h
    unfold Checkout.api at h
    dsimp only at h
    split at h
    · split at h <;> cases h
    · cases h
  read_file := by
    intro path w exc h
    obtain rfl := Except.error.inj h
    exact Or.inl rfl
  write_file := by
    intro path content w exc h
    cases h
  edit_file := by
    intro path old_string new_string w exc h
    cases h

/-- A look at a file that is not there is answered. -/
theorem tool_dispatch_iff_view :
    ∃ content is_error, (run_tool Checkout.api (lit "str_replace_based_edit_tool")
      [(lit "command", .str (lit "view")), (lit "path", .str (lit "a.py"))] .none
      Checkout.fresh).val = .ok (content, is_error) :=
  ((tool_dispatch_iff checkout_declared .none Checkout.fresh).1 _ _).mpr (by decide)

/-- A `bash` call without a command is not: it raises a `KeyError`. -/
theorem missing_key_raises : Checkout.api.Declared ∧
    ¬∃ content is_error, (run_tool Checkout.api (lit "bash") [] .none Checkout.fresh).val =
      .ok (content, is_error) := by
  refine ⟨checkout_declared, ?_⟩
  intro h
  obtain ⟨content, is_error, h⟩ := h
  cases h

end small

end Syndicate
