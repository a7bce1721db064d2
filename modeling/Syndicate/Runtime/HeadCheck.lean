import Syndicate.Spec.Oversight

/-! # `run_action` of the OpenHands adapter, and the look at `HEAD`

    The adapter hands on stdout and stderr as one text.  `oversight_git_node`
    compares two such texts to see whether `HEAD` moved, and takes a first
    look that fails for a repository without a commit. -/

namespace Syndicate

open Py Framework

variable {W : Type}

/-! ## `runtime/openhands.py` -/

/-- The `BashOutput` of the agent server: the JSON object, with the types
    that the wire protocol gives its fields. -/
structure BashOutput where
  data : Dict
  exit_code : Option Int
  stdout : Option PyStr
  stderr : Option PyStr
  has_exit_code : data.get "exit_code" = (exit_code.map PyVal.int).getD .none
  has_stdout : data.get "stdout" = (stdout.map PyVal.str).getD .none
  has_stderr : data.get "stderr" = (stderr.map PyVal.str).getD .none

/-- `(data.get('stdout') or '') + (data.get('stderr') or '')`. -/
def BashOutput.output (data : BashOutput) : PyStr := data.stdout.getD [] ++ data.stderr.getD []

namespace OpenHandsRuntimeClient

/-- `self._default_timeout`, in seconds. -/
def default_timeout : Nat := 300

/-- The server: `POST /api/bash/execute_bash_command` with a JSON body and a
    time limit, `raise_for_status` and `response.json()` included. -/
abbrev BashServer (W : Type) := (json : Dict) → (timeout : Nat) → W → Except PyExc BashOutput × W

/-- The JSON body of a request. -/
def payload (action cwd : PyVal) (timeout : Option Nat) : Dict :=
  [(lit "command", action)] ++
    (match cwd with
    | .none => []
    | cwd => [(lit "cwd", cwd)]) ++
    (match timeout with
    | none => []
    | some seconds => [(lit "timeout", .int seconds)])

/-- The time limit of the HTTP call: some slack over that of the command. -/
def request_timeout (timeout : Option Nat) : Nat :=
  match timeout with
  | none => default_timeout
  | some seconds => seconds + 30

section
variable [Unicode]

/-- What `run_action` makes of a response. -/
def read_output (action : PyVal) (data : BashOutput) : Except PyExc ActionResult :=
  match data.exit_code with
  | none => .error ⟨.RuntimeError, lit "OpenHands runtime returned no exit_code for action " ++
      Py.repr action ++ lit ": " ++ Py.repr (.dict data.data)⟩
  | some exit_code => .ok ⟨exit_code, data.output⟩

/-- `run_action`. -/
def run_action (server : BashServer W) (action cwd : PyVal) (timeout : Option Nat) (w : W) :
    Except PyExc ActionResult × W :=
  match server (payload action cwd timeout) (request_timeout timeout) w with
  | (.error e, w') => (.error e, w')
  | (.ok data, w') => (read_output action data, w')

/-- The adapter over a server; `api` has its file operations. -/
def client (server : BashServer W) (api : RuntimeClient W) : RuntimeClient W :=
  { api with run_action := run_action server }

end

end OpenHandsRuntimeClient

open OpenHandsRuntimeClient

/-! ## The looks at `HEAD` -/

/-- The responses to `git rev-parse HEAD` among the commands of a pass. -/
def looks (server : BashServer W) (es : List (Event W)) : List BashOutput :=
  es.filterMap fun
    | .run_action (.str command) cwd pre _ _ =>
      if command = git_head then
        (server (payload (.str command) cwd none) default_timeout pre).1.toOption
      else none
    | _ => none

/-- `HEAD` named the commit `h` before the pass, and every look that succeeds
    still shows it. -/
def HeadStays (h : PyStr) (looks : List BashOutput) : Prop :=
  ∀ look ∈ looks, look.exit_code = some 0 → strip (look.stdout.getD []) = h

instance (h : PyStr) (looks : List BashOutput) : Decidable (HeadStays h looks) :=
  inferInstanceAs (Decidable (∀ look ∈ looks, _ → _))

/-- Where a second look succeeds, so did the first, and both printed the
    same. -/
def LooksAgree : List BashOutput → Prop
  | [before, after] => after.exit_code = some 0 →
      before.exit_code = some 0 ∧ strip before.output = strip after.output
  | _ => True

instance : (looks : List BashOutput) → Decidable (LooksAgree looks)
  | [] | [_] | _ :: _ :: _ :: _ => isTrue trivial
  | [_, _] => inferInstanceAs (Decidable (_ → _ ∧ _))

section looks
variable {server : BashServer W}

@[simp] theorem looks_append (es es' : List (Event W)) :
    looks server (es ++ es') = looks server es ++ looks server es' :=
  List.filterMap_append

/-- The setup does not look at `HEAD`. -/
theorem looks_setup {cwd : PyVal} {setup : List (Event W)} (h : ∀ e ∈ setup, IsSetup cwd e) :
    looks server setup = [] := by
  unfold looks
  rw [List.filterMap_eq_nil_iff]
  intro e he
  obtain ⟨command, hmem, pre, r, post, rfl⟩ := h e he
  have hne : command ≠ git_head := by
    rintro rfl
    exact absurd hmem (by decide)
  simp [hne]

theorem looks_other {cwd : PyVal} {command : PyStr} (h : command ≠ git_head) (w : W)
    (r : ActionResult) (w' : W) (es : List (Event W)) :
    looks server (ran cwd command w r w' :: es) = looks server es := by
  simp [looks, ran, h]

variable [Unicode] {api : RuntimeClient W}

/-- A look that returned: the response behind it. -/
theorem looks_head {cwd : PyVal} {w w' : W} {r : ActionResult}
    (h : Answers (.RuntimeClient (client server api)) cwd git_head w r w') :
    ∃ data : BashOutput, data.exit_code = some r.exit_code ∧ data.output = r.output ∧
      ∀ es, looks server (ran cwd git_head w r w' :: es) = data :: looks server es := by
  have hrun : run_action server (.str git_head) cwd none w = (.ok r, w') := h
  unfold run_action request_timeout at hrun
  rcases hserver : server (payload (.str git_head) cwd none) default_timeout w with ⟨_ | data, w''⟩
  · rw [hserver] at hrun
    cases hrun
  · rw [hserver] at hrun
    have hread := congrArg Prod.fst hrun
    have hlook : ∀ es, looks server (ran cwd git_head w r w' :: es) = data :: looks server es := by
      intro es
      simp [looks, ran, hserver, Except.toOption]
    simp only [read_output] at hread
    cases hcode : data.exit_code with
    | none =>
      rw [hcode] at hread
      cases hread
    | some code =>
      rw [hcode] at hread
      cases hread
      exact ⟨data, hcode, rfl, hlook⟩

/-- A pass over the adapter is done only if its two looks do not agree. -/
theorem GitPass.done_iff_looks {s δ : AgentState} {cwd : PyVal} {setup es : List (Event W)}
    {git_log : List PyStr} (hsetup : ∀ e ∈ setup, IsSetup cwd e)
    (h : GitPass (.RuntimeClient (client server api)) s cwd setup git_log es δ) :
    δ.ticket_status ≠ some .DONE ↔ LooksAgree (looks server es) := by
  have hnone : looks server setup = [] := looks_setup hsetup
  have hnil : looks server [] = [] := rfl
  cases h with
  | no_files => simp [hnone, LooksAgree]
  | add_failed _ _ hb =>
    obtain ⟨before, -, -, hlook⟩ := looks_head hb
    simp [hnone, hlook, looks_other (git_add_ne_head _), hnil, LooksAgree, git_strike]
  | commit_failed _ _ hb =>
    obtain ⟨before, -, -, hlook⟩ := looks_head hb
    simp [hnone, hlook, looks_other (git_add_ne_head _), looks_other (git_commit_ne_head _), hnil,
      LooksAgree, git_strike]
  | @head_unmoved paths b a c r _ _ _ _ _ _ _ hb _ _ _ _ hh hexit =>
    obtain ⟨before, hbcode, hbout, hblook⟩ := looks_head hb
    obtain ⟨after, hacode, haout, halook⟩ := looks_head hh
    simp only [looks_append, hnone, hblook, looks_other (git_add_ne_head _),
      looks_other (git_commit_ne_head _), halook, hnil, List.nil_append, LooksAgree, git_strike,
      hbcode, hacode, hbout, haout, Option.some_inj]
    -- an unmoved head: the second look failed or said what the first one said
    refine iff_of_true (by simp) ?_
    intro hok
    have hafter : head_of r = some (strip r.output) := if_pos hok
    rw [hafter] at hexit
    have hsame := hexit.resolve_left (by simp)
    unfold head_of at hsame
    rw [eq_comm, Option.ite_none_right_eq_some, Option.some_inj] at hsame
    exact hsame
  | @done paths b a c r _ _ _ _ _ _ _ hb _ _ _ _ hh hmoved =>
    obtain ⟨before, hbcode, hbout, hblook⟩ := looks_head hb
    obtain ⟨after, hacode, haout, halook⟩ := looks_head hh
    simp only [looks_append, hnone, hblook, looks_other (git_add_ne_head _),
      looks_other (git_commit_ne_head _), halook, hnil, List.nil_append, LooksAgree,
      hbcode, hacode, hbout, haout, Option.some_inj]
    -- a moved head: it succeeded and said something else
    refine iff_of_false (by simp) ?_
    intro hagree
    have hok : r.exit_code = 0 := by
      by_contra hbad
      exact hmoved.1 (if_neg hbad)
    obtain ⟨hbok, hsame⟩ := hagree hok
    apply hmoved.2
    rw [head_of, head_of, if_pos hok, if_pos hbok, hsame]

/-- **The `HEAD` check through the adapter.**  With `HEAD` at one commit all
    along, a pass that returns is not `DONE` exactly if its two looks agree. -/
theorem head_check_iff (server : BashServer W) (api : RuntimeClient W) (env : Env W)
    (henv : env.get_runtime_client = .ok (.RuntimeClient (client server api))) (s : AgentState)
    (w : W) (h : PyStr) (δ : AgentState) (hret : (oversight_git_node env s w).val = .ok δ) :
    (HeadStays h (looks server (oversight_git_node env s w).events) →
        δ.ticket_status ≠ some .DONE) ↔
      (HeadStays h (looks server (oversight_git_node env s w).events) →
        LooksAgree (looks server (oversight_git_node env s w).events)) := by
  obtain ⟨-, -, hspec⟩ := oversight_git_node_spec env s w
  obtain ⟨client', setup, git_log, hclient, hsetup, hpass⟩ := hspec δ hret
  rw [henv] at hclient
  obtain rfl := Except.ok.inj hclient
  rw [hpass.done_iff_looks hsetup]

end looks

/-! ## What git prints -/

/-- `s.rstrip()`. -/
def rstrip (s : PyStr) : PyStr := (s.reverse.dropWhile isspace).reverse

theorem rstrip_append (a e : PyStr) :
    rstrip (a ++ e) = if rstrip e = [] then rstrip a else a ++ rstrip e := by
  unfold rstrip
  rw [List.reverse_append, List.dropWhile_append]
  by_cases h : e.reverse.dropWhile isspace = []
  · simp [h]
  · simp [h]

/-- A look that prints the commit on stdout, as git does: what it shows on
    stderr counts, up to the white space at the end. -/
theorem outputs_agree_iff {before after : BashOutput} {h : PyStr} (hne : h ≠ [])
    (hword : ∀ c ∈ h, ¬isspace c = true) (hbefore : before.stdout = some (h ++ lit "\n"))
    (hafter : after.stdout = some (h ++ lit "\n")) :
    strip before.output = strip after.output ↔
      rstrip (before.stderr.getD []) = rstrip (after.stderr.getD []) := by
  have hstrip : ∀ e : PyStr, strip (h ++ lit "\n" ++ e) =
      if rstrip e = [] then h else h ++ lit "\n" ++ rstrip e := by
    intro e
    have hfront : (h ++ lit "\n" ++ e).dropWhile isspace = h ++ lit "\n" ++ e := by
      obtain ⟨c, cs, rfl⟩ := List.exists_cons_of_ne_nil hne
      have hc := hword c List.mem_cons_self
      simp [hc]
    have hline : rstrip (h ++ lit "\n") = h := by
      have hblank : rstrip (lit "\n") = [] := by decide
      rw [rstrip_append, if_pos hblank]
      have hrev : h.reverse ≠ [] := by simpa using hne
      obtain ⟨c, cs, hcs⟩ := List.exists_cons_of_ne_nil hrev
      have hc := hword c (List.mem_reverse.mp (by rw [hcs]; exact List.mem_cons_self))
      rw [rstrip, hcs, List.dropWhile_cons_of_neg hc, ← hcs, List.reverse_reverse]
    show rstrip ((h ++ lit "\n" ++ e).dropWhile isspace) = _
    rw [hfront, rstrip_append, hline]
  unfold BashOutput.output
  rw [hbefore, hafter, Option.getD_some, hstrip, hstrip]
  -- anything shown behind the line makes the look longer
  have hlonger : ∀ e : PyStr, h ≠ h ++ lit "\n" ++ e := by
    intro e heq
    have hlen := congrArg List.length heq
    have hline : (lit "\n").length = 1 := rfl
    simp only [List.length_append] at hlen
    omega
  by_cases hb : rstrip (before.stderr.getD []) = []
  · by_cases ha : rstrip (after.stderr.getD []) = []
    · rw [if_pos hb, if_pos ha, hb, ha, eq_self, eq_self]
    · rw [if_pos hb, if_neg ha, hb]
      exact iff_of_false (hlonger _) (Ne.symm ha)
  · by_cases ha : rstrip (after.stderr.getD []) = []
    · rw [if_neg hb, if_pos ha, ha]
      exact iff_of_false (Ne.symm (hlonger _)) hb
    · rw [if_neg hb, if_neg ha, List.append_cancel_left_eq]

section small
attribute [local instance] Unicode.ascii

/-- A response with an exit code and both texts. -/
def response (exit_code : Int) (stdout stderr : PyStr) : BashOutput where
  data := [(lit "exit_code", .int exit_code), (lit "stdout", .str stdout), (lit "stderr", .str stderr)]
  exit_code := some exit_code
  stdout := some stdout
  stderr := some stderr
  has_exit_code := by rfl
  has_stdout := by rfl
  has_stderr := by rfl

/-- A server that gives the responses it has in store, one after the other. -/
def scripted : BashServer (List BashOutput)
  | _, _, [] => (.error ⟨.Other (lit "ReadTimeout"), []⟩, [])
  | _, _, data :: rest => (.ok data, rest)

/-- The file operations play no part. -/
def no_files : RuntimeClient (List BashOutput) where
  run_action := fun _ _ _ w => (.error ⟨.RuntimeError, []⟩, w)
  read_file := fun _ w => (.error ⟨.RuntimeError, []⟩, w)
  write_file := fun _ _ w => (.error ⟨.RuntimeError, []⟩, w)
  edit_file := fun _ _ _ w => (.error ⟨.RuntimeError, []⟩, w)

/-- A node over the adapter. -/
def adapter_env : Env (List BashOutput) where
  get_runtime_client := .ok (.RuntimeClient (client scripted no_files))
  get_llm_client := fun _ w => (.ok (), w)
  messages_create := fun _ w => (.error ⟨.RuntimeError, []⟩, w)
  json_loads := fun _ => .error ⟨.JSONDecodeError, []⟩
  MAX_ESCALATIONS := 3

/-- The commit `HEAD` names all along. -/
def small_commit : PyStr := lit "5f3c"

/-- The responses of a pass whose commit exits 0 and does nothing; the two
    looks print `before` and `after` on stderr. -/
def idle_commit (exit_code : Int) (before after : PyStr) : List BashOutput :=
  [response 0 (lit "true\n") [], response 0 [] [], response 0 [] [],
    response exit_code (if exit_code = 0 then small_commit ++ lit "\n" else []) before,
    response 0 [] [], response 0 [] [], response 0 (small_commit ++ lit "\n") after]

/-- The first look times out; or git warns, once. -/
def transient_failure : List BashOutput := idle_commit 124 (lit "timed out") []
def one_warning : List BashOutput := idle_commit 0 (lit "warning: slow\n") []

/-- The state of a pass over one file. -/
def one_file : AgentState := { active_ticket := some (small_ticket ["a.py"]) }

/-- Two looks at the same commit: the pass that returns is not `DONE`. -/
theorem head_check_iff_alike : ∃ δ,
    (oversight_git_node adapter_env one_file (idle_commit 0 [] [])).val = .ok δ ∧
      δ.ticket_status ≠ some .DONE := by
  have hok : (oversight_git_node adapter_env one_file (idle_commit 0 [] [])).val.toOption.isSome =
      true := by
    decide +kernel
  cases hret : (oversight_git_node adapter_env one_file (idle_commit 0 [] [])).val with
  | error e =>
    rw [hret] at hok
    cases hok
  | ok δ =>
    refine ⟨δ, rfl, (head_check_iff scripted no_files adapter_env rfl one_file (idle_commit 0 [] [])
      small_commit δ hret).mpr (fun _ => ?_) ?_⟩ <;> decide +kernel

/-- A first look that times out, and a commit that does nothing: `DONE`. -/
theorem transient_failure_is_done :
    HeadStays small_commit
        (looks scripted (oversight_git_node adapter_env one_file transient_failure).events) ∧
      (oversight_git_node adapter_env one_file transient_failure).val.toOption.map
        (·.ticket_status) = some (some .DONE) := by
  decide +kernel

/-- A warning before the first look and none before the second: `DONE`. -/
example : HeadStays small_commit
        (looks scripted (oversight_git_node adapter_env one_file one_warning).events) ∧
      (oversight_git_node adapter_env one_file one_warning).val.toOption.map
        (·.ticket_status) = some (some .DONE) := by
  decide +kernel

end small

end Syndicate
