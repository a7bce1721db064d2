import Syndicate.Spec.Staging

/-! # Which tickets the architect hands on

    `architect_node` checks that the reply is a JSON object and that there is
    a verification command.  What the object holds goes into the ticket as it
    is: `WellTyped` is what makes a ticket of it that the later nodes can
    work with, `WellFormedTicket`. -/

namespace Syndicate

open Py Framework

/-! ## What `json.dumps` does not take -/

mutual
/-- Without a `default`, the only complaint of `json.dumps` is about a type. -/
theorem json_dumps_error : ∀ (v : PyVal) (exc : PyExc), json_dumps none v = .error exc →
    exc.kind = .TypeError
  | .none, _, h | .bool true, _, h | .bool false, _, h | .int _, _, h | .float _, _, h |
    .str _, _, h | .enum _ _, _, h => by cases h
  | .list xs, exc, h | .tuple xs, exc, h => by
    rw [json_dumps] at h
    cases hparts : json_dumps_all none xs with
    | error exc' =>
      rw [hparts] at h
      obtain rfl : exc' = exc := Except.error.inj h
      exact json_dumps_all_error xs exc' hparts
    | ok parts =>
      rw [hparts] at h
      cases h
  | .dict items, exc, h => by
    rw [json_dumps] at h
    cases hparts : json_dumps_items none items with
    | error exc' =>
      rw [hparts] at h
      obtain rfl : exc' = exc := Except.error.inj h
      exact json_dumps_items_error items exc' hparts
    | ok parts =>
      rw [hparts] at h
      cases h
  | .dataclass cls fields, exc, h => by
    obtain rfl := Except.error.inj h
    rfl

theorem json_dumps_all_error : ∀ (xs : List PyVal) (exc : PyExc),
    json_dumps_all none xs = .error exc → exc.kind = .TypeError
  | [], _, h => by cases h
  | x :: xs, exc, h => by
    rw [json_dumps_all] at h
    cases hx : json_dumps none x with
    | error exc' =>
      rw [hx] at h
      obtain rfl : exc' = exc := Except.error.inj h
      exact json_dumps_error x exc' hx
    | ok part =>
      rw [hx] at h
      cases hxs : json_dumps_all none xs with
      | error exc' =>
        rw [hxs] at h
        obtain rfl : exc' = exc := Except.error.inj h
        exact json_dumps_all_error xs exc' hxs
      | ok parts =>
        rw [hxs] at h
        cases h

theorem json_dumps_items_error : ∀ (items : List (PyStr × PyVal)) (exc : PyExc),
    json_dumps_items none items = .error exc → exc.kind = .TypeError
  | [], _, h => by cases h
  | (k, v) :: items, exc, h => by
    rw [json_dumps_items] at h
    cases hv : json_dumps none v with
    | error exc' =>
      rw [hv] at h
      obtain rfl : exc' = exc := Except.error.inj h
      exact json_dumps_error v exc' hv
    | ok part =>
      rw [hv] at h
      cases hitems : json_dumps_items none items with
      | error exc' =>
        rw [hitems] at h
        obtain rfl : exc' = exc := Except.error.inj h
        exact json_dumps_items_error items exc' hitems
      | ok parts =>
        rw [hitems] at h
        cases h
end

/-! ## The world of the architect -/

section world
variable {W : Type} [Unicode]

/-- The client reads the files that there are, and changes none. -/
structure ReadsFiles (client : Client W) (files : W → PyStr → Option PyStr) : Prop where
  found : ∀ path content w, files w path = some content →
    (client.read (.str path) w).val = .ok content
  missing : ∀ path w, files w path = none →
    ∃ msg, (client.read (.str path) w).val = .error ⟨.FileNotFoundError, msg⟩
  kept : ∀ path w, files (client.read (.str path) w).world = files w

/-- The model answers, with this text. -/
structure RepliesWith (env : Env W) (text : PyStr) : Prop where
  client : ∀ key w, (env.get_llm_client key w).1 = .ok ()
  reply : ∀ request w, ∃ response, (env.messages_create request w).1 = .ok response ∧
    response.text = text

/-- The command of the first manifest in the directory. -/
def first_manifest (files : PyStr → Option PyStr) (workspace_dir : PyVal)
    (manifests : List (String × String)) : Option PyStr :=
  (manifests.find? fun m => (files (str workspace_dir ++ lit "/" ++ lit m.1)).isSome).map
    fun m => lit m.2

theorem detect_spec {client : Client W} {files : W → PyStr → Option PyStr}
    (hfiles : ReadsFiles client files) (workspace_dir : PyVal) (manifests : List (String × String))
    (w : W) : Prog.wp (detect_verification_command client workspace_dir manifests)
      (fun r _ _ => r = .ok (first_manifest (files w) workspace_dir manifests)) w := by
  induction manifests generalizing w with
  | nil => rfl
  | cons m manifests ih =>
    obtain ⟨filename, command⟩ := m
    have hfirst : first_manifest (files w) workspace_dir ((filename, command) :: manifests) =
        if (files w (str workspace_dir ++ lit "/" ++ lit filename)).isSome then some (lit command)
        else first_manifest (files w) workspace_dir manifests := by
      unfold first_manifest
      rw [List.find?_cons]
      split <;> simp_all
    have hkept := hfiles.kept (str workspace_dir ++ lit "/" ++ lit filename) w
    rw [hfirst, detect_verification_command, Prog.wp_bind, Prog.wp_catching, Prog.wp_bind]
    unfold Prog.wp
    cases hfile : files w (str workspace_dir ++ lit "/" ++ lit filename) with
    | some content =>
      rw [hfiles.found _ content w hfile]
      exact rfl
    | none =>
      obtain ⟨msg, hmissing⟩ := hfiles.missing _ w hfile
      rw [hmissing]
      -- the exception is caught, and the next manifest is tried
      have hrest := ih (client.read (.str (str workspace_dir ++ lit "/" ++ lit filename)) w).world
      rw [hkept] at hrest
      exact hrest

theorem call_llm_json_val {env : Env W} {text : PyStr} (hmodel : RepliesWith env text)
    (key model prompt : PyStr) (max_tokens : Nat) (w : W) :
    Prog.wp (call_llm_json env key model prompt max_tokens)
      (fun r _ _ => r = parse_llm_json env text) w := by
  unfold call_llm_json Env.create
  obtain ⟨response, hresponse, htext⟩ := hmodel.reply ⟨model, max_tokens, [], [.user prompt]⟩
    (env.llm_client (.str key) w).world
  rw [Prog.wp_bind]
  unfold Prog.wp
  have hclient : (env.llm_client (.str key) w).val = .ok () := hmodel.client _ _
  rw [hclient, Prog.andThen_ok, Prog.wp_bind, Prog.wp_call, hresponse, Prog.andThen_ok,
    Prog.wp_ofExcept, htext]

/-- What the architect returns, given what it finds and what the model
    replies. -/
def architect_outcome (env : Env W) (text : PyStr) (issue analysis : Dict)
    (detected_command : Option PyStr) : Except PyExc AgentState := do
  let _ ← json_dumps none (.dict analysis)
  let planned ← parse_llm_json env text
  let verification_command :=
    (planned.get "verification_command").or ((detected_command.map PyVal.str).getD .none)
  if verification_command.truthy then
    .ok { active_ticket :=
      some (planned_ticket issue planned (workspace_dir issue) verification_command) }
  else .error (no_verification_command issue)

theorem architect_val {env : Env W} {s : AgentState} {issue analysis : Dict} {client : Client W}
    {files : W → PyStr → Option PyStr} {text : PyStr} (hissue : s.issue = some issue)
    (hanalysis : s.issue_analysis = some analysis) (hclient : env.get_runtime_client = .ok client)
    (hfiles : ReadsFiles client files) (hmodel : RepliesWith env text) (w : W) :
    (architect_node env s w).val = architect_outcome env text issue analysis
      (first_manifest (files w) (workspace_dir issue) TEST_MANIFEST_COMMANDS) := by
  have hwp : Prog.wp (architect_node env s) (fun r _ _ => r = architect_outcome env text issue
      analysis (first_manifest (files w) (workspace_dir issue) TEST_MANIFEST_COMMANDS)) w := by
    unfold architect_node
    rw [hissue, hanalysis]
    dsimp only
    rw [hclient, Prog.wp_bind, Prog.wp_ofExcept, Prog.andThen_ok, Prog.wp_bind]
    apply Prog.wp_mono (detect_spec hfiles (workspace_dir issue) TEST_MANIFEST_COMMANDS w)
    intro r w₁ es hr
    rw [hr, Prog.andThen_ok, Prog.wp_bind, Prog.wp_ofExcept]
    unfold architect_outcome
    -- the analysis is written into the prompt before the model is called
    cases hdumps : json_dumps none (.dict analysis) with
    | error exc => rfl
    | ok analysis_json =>
      rw [Prog.andThen_ok, Prog.wp_bind]
      apply Prog.wp_mono (call_llm_json_val hmodel _ _ _ _ w₁)
      intro r w₂ es' hr
      rw [hr]
      cases hparse : parse_llm_json env text with
      | error exc => rfl
      | ok planned =>
        rw [Prog.andThen_ok, Prog.wp_ite]
        constructor
        · intro htruthy
          exact (if_pos htruthy).symm
        · intro hfalsy
          exact (if_neg hfalsy).symm
  exact hwp

end world

/-! ## Tickets -/

/-- A string, or nothing that counts. -/
def TextOrFalsy (v : PyVal) : Prop := v.truthy = true → ∃ s, v = .str s

/-- The plan and the issue have the types that they are asked for. -/
structure WellTyped (issue planned : Dict) : Prop where
  title : TextOrFalsy (planned.get "title")
  issue_title : (planned.get "title").truthy = false → TextOrFalsy (issue.get "title")
  intent : TextOrFalsy (planned.get "intent")
  files_changed : (planned.get "files_changed").truthy = true →
    ∃ paths : List PyStr, planned.get "files_changed" = .list (paths.map PyVal.str)
  workspace_dir : TextOrFalsy (issue.get "workspace_dir")
  verification_command : (planned.get "verification_command").truthy = true →
    ∃ command, planned.get "verification_command" = .str command ∧ strip command ≠ []

/-- A value that is a string with something in it. -/
def NonEmptyText (v : PyVal) : Prop := ∃ s, v = .str s ∧ s ≠ []

/-- A ticket of the shape that the later nodes expect.  Its command is the
    model's, or else the detected one. -/
structure WellFormedTicket (planned : Dict) (detected_command : Option PyStr) (ticket : Dict) :
    Prop where
  id : NonEmptyText (ticket.get "id")
  title : NonEmptyText (ticket.get "title")
  intent : NonEmptyText (ticket.get "intent")
  workspace_dir : NonEmptyText (ticket.get "workspace_dir")
  files_changed : ∃ paths : List PyStr, ticket.get "files_changed" = .list (paths.map PyVal.str)
  verification_command : ∃ command, ticket.get "verification_command" = .str command ∧
    strip command ≠ [] ∧ (planned.get "verification_command" = .str command ∨
      (planned.get "verification_command").truthy = false ∧ detected_command = some command)

/-- What the later nodes make of a ticket: they run commands in a directory,
    and quote paths. -/
structure Usable (ticket : Dict) : Prop where
  cwd : ∃ dir, workspace_dir ticket = .str dir
  command : ∃ command, verification_command ticket = .str command ∧ strip command ≠ []
  paths : ∃ paths, quote_paths (declared_files ticket) = .ok paths

theorem nonEmptyText_iff (v : PyVal) : NonEmptyText v ↔ v.truthy = true ∧ TextOrFalsy v := by
  constructor
  · intro h
    obtain ⟨s, rfl, hne⟩ := h
    exact ⟨by simpa [PyVal.truthy] using hne, fun _ => ⟨s, rfl⟩⟩
  · intro h
    obtain ⟨s, rfl⟩ := h.2 h.1
    exact ⟨s, rfl, by simpa [PyVal.truthy] using h.1⟩

theorem truthy_or (a b : PyVal) : (a.or b).truthy = (a.truthy || b.truthy) := by
  unfold PyVal.or
  cases h : a.truthy <;> simp [h]

/-- A text with a fallback. -/
theorem nonEmptyText_or {default : PyStr} (hdefault : default ≠ []) (v : PyVal) :
    NonEmptyText (v.or (.str default)) ↔ TextOrFalsy v := by
  have htruthy : (PyVal.str default).truthy = true := by simpa [PyVal.truthy] using hdefault
  rw [nonEmptyText_iff, truthy_or, htruthy, Bool.or_true]
  unfold PyVal.or
  by_cases hv : v.truthy = true
  · rw [if_pos hv]
    exact and_iff_right rfl
  · rw [if_neg hv]
    exact iff_of_true ⟨rfl, fun _ => ⟨default, rfl⟩⟩ fun h => absurd h hv

theorem textOrFalsy_or (a b : PyVal) : TextOrFalsy (a.or b) ↔
    TextOrFalsy a ∧ (a.truthy = false → TextOrFalsy b) := by
  unfold PyVal.or TextOrFalsy
  by_cases ha : a.truthy = true
  · simp [ha]
  · simp [ha]

section tickets
variable [Unicode] {issue planned : Dict}

/-- The six entries of a planned ticket. -/
theorem planned_ticket_get (issue planned : Dict) (workspace_dir verification_command : PyVal) :
    let ticket := planned_ticket issue planned workspace_dir verification_command
    NonEmptyText (ticket.get "id") ∧
      ticket.get "title" =
        ((planned.get "title").or (issue.get "title")).or (.str (lit "untitled")) ∧
      ticket.get "intent" =
        ((planned.get "intent").or (planned.get "title")).or (.str (lit "update")) ∧
      ticket.get "files_changed" = (planned.get "files_changed").or (.list []) ∧
      ticket.get "workspace_dir" = workspace_dir ∧
      ticket.get "verification_command" = verification_command ∧
      ticket.get "target_files" = .none := by
  refine ⟨⟨_, rfl, ?_⟩, rfl, rfl, rfl, rfl, rfl, rfl⟩
  simp [lit]

/-- The types of plan and issue decide the shape of the ticket. -/
theorem wellFormed_iff {detected_command : Option PyStr}
    (hdetected : ∀ command, detected_command = some command → strip command ≠ [])
    (htruthy : ((planned.get "verification_command").or
      ((detected_command.map PyVal.str).getD .none)).truthy = true) :
    WellFormedTicket planned detected_command
        (planned_ticket issue planned (workspace_dir issue)
          ((planned.get "verification_command").or
            ((detected_command.map PyVal.str).getD .none))) ↔
      WellTyped issue planned := by
  -- a default of the source is text, so only what replaces it can be wrong
  have hdefaults : lit "untitled" ≠ [] ∧ lit "update" ≠ [] ∧ DEFAULT_WORKSPACE_DIR ≠ [] := by decide
  obtain ⟨hid, htitle, hintent, hfiles, hdir, hcommand, -⟩ := planned_ticket_get
    issue planned (workspace_dir issue)
    ((planned.get "verification_command").or ((detected_command.map PyVal.str).getD .none))
  constructor
  · intro h
    have htitle' := h.title
    have hintent' := h.intent
    have hdir' := h.workspace_dir
    rw [htitle, nonEmptyText_or hdefaults.1, textOrFalsy_or] at htitle'
    rw [hintent, nonEmptyText_or hdefaults.2.1, textOrFalsy_or] at hintent'
    rw [hdir, workspace_dir, nonEmptyText_or hdefaults.2.2] at hdir'
    refine ⟨htitle'.1, htitle'.2, hintent'.1, ?_, hdir', ?_⟩
    · intro hchanged
      obtain ⟨paths, hpaths⟩ := h.files_changed
      rw [hfiles, PyVal.or, if_pos hchanged] at hpaths
      exact ⟨paths, hpaths⟩
    · intro hmodel
      obtain ⟨command, hval, hblank, -⟩ := h.verification_command
      rw [hcommand, PyVal.or, if_pos hmodel] at hval
      exact ⟨command, hval, hblank⟩
  · intro h
    refine ⟨hid, ?_, ?_, ?_, ?_, ?_⟩
    · rw [htitle, nonEmptyText_or hdefaults.1, textOrFalsy_or]
      exact ⟨h.title, h.issue_title⟩
    · rw [hintent, nonEmptyText_or hdefaults.2.1, textOrFalsy_or]
      exact ⟨h.intent, fun _ => h.title⟩
    · rw [hdir, workspace_dir, nonEmptyText_or hdefaults.2.2]
      exact h.workspace_dir
    · rw [hfiles, PyVal.or]
      by_cases hchanged : (planned.get "files_changed").truthy = true
      · rw [if_pos hchanged]
        exact h.files_changed hchanged
      · rw [if_neg hchanged]
        exact ⟨[], rfl⟩
    · rw [hcommand, PyVal.or]
      by_cases hmodel : (planned.get "verification_command").truthy = true
      · rw [if_pos hmodel]
        obtain ⟨command, hval, hblank⟩ := h.verification_command hmodel
        exact ⟨command, hval, hblank, Or.inl hval⟩
      · rw [if_neg hmodel]
        rw [PyVal.or, if_neg hmodel] at htruthy
        -- a ticket without any command is refused before it is built
        cases detected_command with
        | none => cases htruthy
        | some command =>
          exact ⟨command, rfl, hdetected command rfl,
            Or.inr ⟨Bool.eq_false_iff.mpr hmodel, rfl⟩⟩

/-- The later nodes can work with a well-formed ticket of the architect. -/
theorem WellFormedTicket.usable {detected_command : Option PyStr} {dir command : PyVal}
    (h : WellFormedTicket planned detected_command (planned_ticket issue planned dir command)) :
    Usable (planned_ticket issue planned dir command) where
  cwd := by
    obtain ⟨s, hdir, hne⟩ := h.workspace_dir
    refine ⟨s, ?_⟩
    have htruthy : (PyVal.str s).truthy = true := by simpa [PyVal.truthy] using hne
    rw [Syndicate.workspace_dir, hdir, PyVal.or, if_pos htruthy]
  command := by
    obtain ⟨c, hcommand, hblank, -⟩ := h.verification_command
    refine ⟨c, ?_, hblank⟩
    have hne : c ≠ [] := by
      rintro rfl
      exact hblank rfl
    have htruthy : (PyVal.str c).truthy = true := by simpa [PyVal.truthy] using hne
    rw [Syndicate.verification_command, hcommand, PyVal.or, if_pos htruthy]
  paths := by
    obtain ⟨paths, hpaths⟩ := h.files_changed
    have htarget := (planned_ticket_get issue planned dir command).2.2.2.2.2.2
    have hdeclared : declared_files (planned_ticket issue planned dir command) =
        .list (paths.map PyVal.str) := by
      rw [declared_files, hpaths, htarget]
      cases paths with
      | nil => rfl
      | cons path paths => rfl
    have hquote : ∀ ps : List PyStr, (ps.map PyVal.str).mapM quote_value =
        .ok (ps.map shlex_quote) := by
      intro ps
      induction ps with
      | nil => rfl
      | cons p ps ih =>
        rw [List.map_cons, List.mapM_cons, ih]
        rfl
    rw [hdeclared]
    exact ⟨paths.map shlex_quote, hquote paths⟩

end tickets

theorem first_manifest_nonblank {files : PyStr → Option PyStr} [Unicode] {dir : PyVal}
    {command : PyStr} (h : first_manifest files dir TEST_MANIFEST_COMMANDS = some command) :
    strip command ≠ [] := by
  have hall : ∀ m ∈ TEST_MANIFEST_COMMANDS, strip (lit m.2) ≠ [] := by decide
  obtain ⟨m, hm, rfl⟩ := Option.map_eq_some_iff.mp h
  exact hall m (List.mem_of_find?_eq_some hm)

/-! ## Refused or well-formed -/

/-- The node raised a `ValueError`; there is no update then. -/
def Refused (r : Except PyExc AgentState) : Prop :=
  ∃ exc, r = .error exc ∧ exc.kind.isValueError = true

/-- The node handed on a well-formed ticket. -/
def HandedOn (reply : Except PyExc PyVal) (detected_command : Option PyStr)
    (r : Except PyExc AgentState) : Prop :=
  ∃ planned ticket, reply = .ok (.dict planned) ∧ r = .ok { active_ticket := some ticket } ∧
    WellFormedTicket planned detected_command ticket ∧ Usable ticket

/-- What has to be right with the reply, as JSON, and with the issue. -/
def ReplyOk (issue : Dict) (detected_command : Option PyStr) : Except PyExc PyVal → Prop
  | .error exc => exc.kind.isValueError = true
  | .ok (.dict planned) =>
    ((Dict.get planned "verification_command").truthy = false ∧ detected_command = none) ∨
      WellTyped issue planned
  | .ok _ => True

section main
variable {W : Type} [Unicode]

theorem parse_llm_json_dict {env : Env W} {text : PyStr} {planned : Dict} :
    parse_llm_json env text = .ok planned ↔ env.json_loads text = .ok (.dict planned) := by
  unfold parse_llm_json
  constructor
  · intro h
    split at h
    · split at h <;> cases h
    · rename_i hloads
      rw [hloads, Except.ok.inj h]
    · cases h
  · intro h
    rw [h]

theorem parse_llm_json_refused {env : Env W} {text : PyStr} {exc : PyExc} {issue : Dict}
    {detected_command : Option PyStr} (h : parse_llm_json env text = .error exc) :
    exc.kind.isValueError = true ↔ ReplyOk issue detected_command (env.json_loads text) := by
  unfold parse_llm_json at h
  split at h
  · rename_i exc' hloads
    rw [hloads, ReplyOk]
    split at h
    · rename_i hkind
      obtain rfl := Except.error.inj h
      rw [hkind]
      exact iff_of_true rfl rfl
    · obtain rfl := Except.error.inj h
      exact Iff.rfl
  · cases h
  · rename_i v hdict hloads
    obtain rfl := Except.error.inj h
    rw [hloads]
    refine iff_of_true rfl ?_
    unfold ReplyOk
    split
    · trivial
    · rename_i planned heq
      exact absurd (Except.ok.inj heq) (hdict planned)
    · trivial

/-- **The architect yields a well-formed ticket or refuses** if and only if
    the analysis can be written as JSON, and the reply is no object, or has
    no command where none was detected, or has the types asked for. -/
theorem architect_ticket_iff {env : Env W} {s : AgentState} {issue analysis : Dict}
    {client : Client W} {files : W → PyStr → Option PyStr} {text : PyStr}
    (hissue : s.issue = some issue) (hanalysis : s.issue_analysis = some analysis)
    (hclient : env.get_runtime_client = .ok client) (hfiles : ReadsFiles client files)
    (hmodel : RepliesWith env text) (w : W) :
    (Refused (architect_node env s w).val ∨
      HandedOn (env.json_loads text)
        (first_manifest (files w) (workspace_dir issue) TEST_MANIFEST_COMMANDS)
        (architect_node env s w).val) ↔
      (∃ analysis_json, json_dumps none (.dict analysis) = .ok analysis_json) ∧
        ReplyOk issue (first_manifest (files w) (workspace_dir issue) TEST_MANIFEST_COMMANDS)
          (env.json_loads text) := by
  have hdetected : ∀ command,
      first_manifest (files w) (workspace_dir issue) TEST_MANIFEST_COMMANDS = some command →
        strip command ≠ [] := fun command h => first_manifest_nonblank h
  rw [architect_val hissue hanalysis hclient hfiles hmodel w]
  generalize first_manifest (files w) (workspace_dir issue) TEST_MANIFEST_COMMANDS = detected
    at hdetected ⊢
  have hraised : ∀ exc : PyExc, (Refused (.error exc) ∨ HandedOn (env.json_loads text) detected
      (.error exc)) ↔ exc.kind.isValueError = true := by
    intro exc
    constructor
    · intro h
      rcases h with ⟨exc', h, hkind⟩ | ⟨planned, ticket, -, h, -⟩
      · obtain rfl := Except.error.inj h
        exact hkind
      · cases h
    · intro hkind
      exact Or.inl ⟨exc, rfl, hkind⟩
  unfold architect_outcome
  cases hdumps : json_dumps none (.dict analysis) with
  | error exc =>
    have hkind := json_dumps_error _ exc hdumps
    show (Refused (.error exc) ∨ HandedOn _ _ (.error exc)) ↔ _
    rw [hraised, hkind]
    refine iff_of_false Bool.false_ne_true fun h => ?_
    obtain ⟨analysis_json, h⟩ := h.1
    cases h
  | ok analysis_json =>
    have hjson : ∃ analysis_json', Except.ok (ε := PyExc) analysis_json = .ok analysis_json' :=
      ⟨_, rfl⟩
    rw [and_iff_right hjson]
    cases hparse : parse_llm_json env text with
    | error exc =>
      show (Refused (.error exc) ∨ HandedOn _ _ (.error exc)) ↔ _
      rw [hraised]
      exact parse_llm_json_refused hparse
    | ok planned =>
      have hloads := parse_llm_json_dict.mp hparse
      rw [hloads, ReplyOk]
      dsimp only [bind, Except.bind]
      by_cases htruthy : ((planned.get "verification_command").or
          ((detected.map PyVal.str).getD .none)).truthy = true
      · rw [if_pos htruthy]
        have hnot : ¬((planned.get "verification_command").truthy = false ∧ detected = none) := by
          intro h
          rw [truthy_or, h.1, h.2] at htruthy
          cases htruthy
        rw [or_iff_right hnot, ← wellFormed_iff hdetected htruthy]
        constructor
        · intro h
          rcases h with ⟨exc, h, -⟩ | ⟨planned', ticket, hplanned, h, hwell, -⟩
          · cases h
          · obtain rfl := PyVal.dict.inj (Except.ok.inj hplanned)
            obtain rfl := Option.some.inj (congrArg AgentState.active_ticket (Except.ok.inj h))
            exact hwell
        · intro hwell
          exact Or.inr ⟨planned, _, rfl, rfl, hwell, hwell.usable⟩
      · rw [if_neg htruthy]
        rw [truthy_or, Bool.or_eq_true, not_or] at htruthy
        refine iff_of_true (Or.inl ⟨_, rfl, rfl⟩) (Or.inl ⟨Bool.eq_false_iff.mpr htruthy.1, ?_⟩)
        cases detected with
        | none => rfl
        | some command =>
          -- a detected command counts
          have hne : command ≠ [] := by
            rintro rfl
            exact hdetected [] rfl rfl
          exact absurd (show (PyVal.str command).truthy = true by simpa [PyVal.truthy] using hne)
            htruthy.2

end main

/-! ## Two replies -/

/-- A model that gives this reply, which parses to this object. -/
def replying (reply : PyStr) (planned : Dict) : Env Unit where
  get_runtime_client := .ok .MockRuntimeClient
  get_llm_client := fun _ w => (.ok (), w)
  messages_create := fun _ w => (.ok ⟨[.text reply], lit "end_turn"⟩, w)
  json_loads := fun text =>
    if text = reply then .ok (.dict planned) else .error ⟨.JSONDecodeError, lit "Expecting value"⟩
  MAX_ESCALATIONS := 3

def empty_mock : Unit → PyStr → Option PyStr := fun _ _ => none

/-- An analysed issue. -/
def analysed : AgentState :=
  { issue := some [(lit "repo", .str (lit "o/r")), (lit "number", .int 7)],
    issue_analysis := some [] }

def planned_reply : PyStr :=
  lit "\x7b\"files_changed\": [\"a.py\"], \"verification_command\": \"make test\"\x7d"

def planned_object : Dict :=
  [(lit "files_changed", .list [.str (lit "a.py")]),
   (lit "verification_command", .str (lit "make test"))]

/-- A command of blanks, and a path where a list is asked for. -/
def blank_reply : PyStr :=
  lit "\x7b\"files_changed\": \"a.py\", \"verification_command\": \" \"\x7d"

def blank_object : Dict :=
  [(lit "files_changed", .str (lit "a.py")), (lit "verification_command", .str (lit " "))]

section small
attribute [local instance] Unicode.ascii

theorem reads_empty_mock (client : Client Unit) (h : client = .MockRuntimeClient) :
    ReadsFiles client empty_mock := by
  subst h
  refine ⟨?_, fun path w _ => ⟨_, rfl⟩, fun _ _ => rfl⟩
  intro path content w hfile
  cases hfile

theorem replying_replies (reply : PyStr) (planned : Dict) :
    RepliesWith (replying reply planned) reply := by
  refine ⟨fun _ _ => rfl, fun request w => ⟨_, rfl, ?_⟩⟩
  simp [Response.text, join]

/-- A well-typed plan. -/
theorem architect_ticket_iff_planned :
    Refused (architect_node (replying planned_reply planned_object) analysed ()).val ∨
      HandedOn (.ok (.dict planned_object)) none
        (architect_node (replying planned_reply planned_object) analysed ()).val := by
  have hiff := architect_ticket_iff (show analysed.issue = some _ from rfl)
    (show analysed.issue_analysis = some _ from rfl)
    (show (replying planned_reply planned_object).get_runtime_client = .ok .MockRuntimeClient from rfl)
    (reads_empty_mock _ rfl) (replying_replies _ _) ()
  have hloads : (replying planned_reply planned_object).json_loads planned_reply =
      .ok (.dict planned_object) := by simp [replying]
  rw [hloads] at hiff
  refine hiff.mpr ⟨⟨_, rfl⟩, Or.inr ⟨?_, ?_, ?_, ?_, ?_, ?_⟩⟩
  · nofun
  · intro _
    nofun
  · nofun
  · intro _
    exact ⟨[lit "a.py"], rfl⟩
  · nofun
  · intro _
    exact ⟨lit "make test", rfl, by decide⟩

/-- A ticket whose command is blank, and passes whatever the code does. -/
theorem blank_command_handed_on :
    ReadsFiles (.MockRuntimeClient : Client Unit) empty_mock ∧
    RepliesWith (replying blank_reply blank_object) blank_reply ∧
    (∃ text, json_dumps none (.dict []) = .ok text) ∧
    ¬(Refused (architect_node (replying blank_reply blank_object) analysed ()).val ∨
      HandedOn ((replying blank_reply blank_object).json_loads blank_reply) none
        (architect_node (replying blank_reply blank_object) analysed ()).val) := by
  refine ⟨reads_empty_mock _ rfl, replying_replies _ _, ⟨_, rfl⟩, ?_⟩
  have hval : (architect_node (replying blank_reply blank_object) analysed ()).val =
      .ok { active_ticket := some (planned_ticket
        [(lit "repo", .str (lit "o/r")), (lit "number", .int 7)] blank_object
        (.str DEFAULT_WORKSPACE_DIR) (.str (lit " "))) } := by
    rfl
  rw [hval]
  intro h
  rcases h with ⟨exc, h, -⟩ | ⟨planned, ticket, -, h, hwell, -⟩
  · cases h
  · obtain rfl := Option.some.inj (congrArg AgentState.active_ticket (Except.ok.inj h))
    obtain ⟨command, hcommand, hblank, -⟩ := hwell.verification_command
    obtain rfl : lit " " = command := PyVal.str.inj hcommand
    exact hblank (by decide)

end small

end Syndicate
