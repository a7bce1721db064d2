import Syndicate.Server.Marks
import Syndicate.Server.Redaction

/-! # Secrets of an output

    The log line of an executor and the diagnosis of the validator are
    written from an output before they are redacted.  A secret that spans a
    line break is escaped by then, or cut off, and goes through
    (`secret_shown`).  What redaction hides in the output stays hidden exactly
    if the patterns meet every piece of it in the line and the diagnosis as
    they are written (`secrets_hidden_iff`); where they read the line as they
    read the output, the line is redacted to the line of the redacted output
    (`redact_fast_check_line`). -/

namespace Syndicate.Server

open Py Py.Re

/-! ## What an envelope shows -/

mutual
/-- The texts in a value. -/
def texts : PyVal → List PyStr
  | .str s | .enum _ s => [s]
  | .list xs | .tuple xs => texts_all xs
  | .dict items | .dataclass _ items => texts_items items
  | .none | .bool _ | .int _ | .float _ => []

def texts_all : List PyVal → List PyStr
  | [] => []
  | x :: xs => texts x ++ texts_all xs

def texts_items : List (PyStr × PyVal) → List PyStr
  | [] => []
  | (_, v) :: rest => texts v ++ texts_items rest
end

/-- The envelope shows `w` in its payload. -/
def Envelope.Shows (e : Envelope) (w : PyStr) : Prop := ∃ t ∈ texts (.dict e.payload), w <:+: t

section
variable [Unicode]

/-- The payload of a diagnosis alone. -/
def diagnosis_payload (diagnosis : PyStr) : Dict := [(lit "validation_diagnosis", .str diagnosis)]

/-- The payloads that are made from an output. -/
def output_payloads (strike : Int) (check : ActionResult) : List Dict :=
  let line := fast_check_line strike check
  [(lit "attempt_log", .list [.str line])] :: (attempt_of (.str line)).toList ++
    match truncate_diagnosis check.output with
    | .ok diagnosis => [diagnosis_payload diagnosis]
    | .error _ => []

/-- No piece of a secret of the output is shown. -/
def SecretsHidden (strike : Int) (check : ActionResult) : Prop :=
  ∀ w, Hides check.output w → ∀ payload ∈ output_payloads strike check,
    ∀ now seq run_id kind node e, make_envelope now seq run_id kind node payload = .ok e → ¬e.Shows w

theorem strike_of_cases (line : PyStr) :
    strike_of line = .none ∨ ∃ n, strike_of line = .int n := by
  unfold strike_of
  repeat' split
  all_goals first
    | exact Or.inl rfl
    | exact Or.inr ⟨_, rfl⟩

/-! ## A text in its payload -/

/-- A payload with one text in it, and what its JSON has around the text. -/
structure Frame where
  payload : PyStr → Dict
  before : PyStr
  behind : PyStr
  alone : ∀ text, texts (.dict (payload text)) = [text]
  redacted : ∀ text, redact_items (payload text) = payload (redact_text text)
  dumped : ∀ text, json_dumps (some str) (.dict (payload text)) =
    .ok (before ++ (text.flatMap jsonChar ++ behind))

/-- The log line in a state update. -/
def log_frame : Frame where
  payload := fun text => [(lit "attempt_log", .list [.str text])]
  before := lit "\x7b\"attempt_log\": [\""
  behind := lit "\"]\x7d"
  alone := fun _ => rfl
  redacted := fun _ => rfl
  dumped := by
    intro text
    simp only [json_dumps, json_dumps_items, json_dumps_all, bind, Except.bind, pure,
      Except.pure, jsonString, join, List.intercalate_singleton, List.append_assoc]
    rfl

/-- The diagnosis in a state update. -/
def diagnosis_frame : Frame where
  payload := diagnosis_payload
  before := lit "\x7b\"validation_diagnosis\": \""
  behind := lit "\"\x7d"
  alone := fun _ => rfl
  redacted := fun _ => rfl
  dumped := by
    intro text
    simp only [diagnosis_payload, json_dumps, json_dumps_items, bind, Except.bind, pure, Except.pure,
      jsonString, join, List.intercalate_singleton, List.append_assoc]
    rfl

/-- A strike in JSON. -/
def strike_json (line : PyStr) : PyStr :=
  match strike_of line with
  | .int n => str_int n
  | _ => lit "null"

/-- The log line in the attempt that it tells. -/
def attempt_frame (line : PyStr) : Frame where
  payload := fun text => [(lit "strike", strike_of line), (lit "fast_check_summary", .str text)]
  before := lit "\x7b\"strike\": " ++ (strike_json line ++ lit ", \"fast_check_summary\": \"")
  behind := lit "\"\x7d"
  alone := by
    intro text
    rcases strike_of_cases line with h | ⟨n, h⟩
    · rw [h]
      rfl
    · rw [h]
      rfl
  redacted := by
    intro text
    rcases strike_of_cases line with h | ⟨n, h⟩
    · rw [h]
      rfl
    · rw [h]
      rfl
  dumped := by
    intro text
    have hstrike : json_dumps (some str) (strike_of line) = .ok (strike_json line) := by
      unfold strike_json
      rcases strike_of_cases line with h | ⟨n, h⟩
      · rw [h]
        rfl
      · rw [h]
        rfl
    simp only [json_dumps, json_dumps_items, hstrike, bind, Except.bind, pure, Except.pure, jsonString,
      join, List.intercalate_cons_cons, List.intercalate_singleton, List.append_assoc]
    rfl

/-- The texts that are written from an output, each in its payload. -/
def written_texts (strike : Int) (check : ActionResult) : List (Frame × PyStr) :=
  let line := fast_check_line strike check
  (log_frame, line) :: (if contains (lit "fast_check") line then [(attempt_frame line, line)] else []) ++
    match truncate_diagnosis check.output with
    | .ok diagnosis => [(diagnosis_frame, diagnosis)]
    | .error _ => []

theorem output_payloads_eq (strike : Int) (check : ActionResult) :
    output_payloads strike check =
      (written_texts strike check).map fun page : Frame × PyStr => page.1.payload page.2 := by
  have hattempt : (attempt_of (.str (fast_check_line strike check))).toList =
      (if contains (lit "fast_check") (fast_check_line strike check) then
        [(attempt_frame (fast_check_line strike check), fast_check_line strike check)] else []).map
          fun page : Frame × PyStr => page.1.payload page.2 := by
    show (if _ then some _ else none : Option Dict).toList = _
    split
    · rfl
    · rfl
  have hdiagnosis : (match truncate_diagnosis check.output with
      | .ok diagnosis => [diagnosis_payload diagnosis]
      | .error _ => []) = (match truncate_diagnosis check.output with
      | .ok diagnosis => [(diagnosis_frame, diagnosis)]
      | .error _ => []).map fun page : Frame × PyStr => page.1.payload page.2 := by
    split
    · rfl
    · rfl
  rw [written_texts, List.map_append, ← hdiagnosis, List.map_cons, ← hattempt]
  rfl

/-- The JSON of a payload with a redacted text in it. -/
def Frame.json (f : Frame) (text : PyStr) : List Mark :=
  f.before.map own ++ ((redact_marks text).flatMap (fun m => (jsonChar m.char).map fun c => ⟨c, m.was⟩) ++
    f.behind.map own)

/-- What an envelope shows of a text: the text, or the beginning of its
    payload as JSON. -/
def Frame.shown (f : Frame) (text : PyStr) : List Mark :=
  if (f.json text).length ≤ MAX_PAYLOAD_BYTES then redact_marks text
  else (f.json text).take (MAX_PAYLOAD_BYTES - 200)

/-- What is written for an envelope, before any match is replaced: the text,
    or the beginning of its payload as JSON, as far as the preview goes. -/
def Frame.written (f : Frame) (text : PyStr) : List Letter :=
  if (f.json text).length ≤ MAX_PAYLOAD_BYTES then Server.written (redact_marks text)
  else Server.written ((f.json text).take (MAX_PAYLOAD_BYTES - 200))

/-- Within the cap that is the text itself. -/
theorem Frame.written_char {f : Frame} {text : PyStr} (h : (f.json text).length ≤ MAX_PAYLOAD_BYTES) :
    (f.written text).map Letter.char = text := by
  rw [Frame.written, if_pos h, written_redact_marks]

theorem Frame.json_char (f : Frame) (text : PyStr) :
    json_dumps (some str) (.dict (redact_items (f.payload text))) = .ok ((f.json text).map Mark.char) := by
  have hbody : ((redact_marks text).flatMap fun m =>
      (jsonChar m.char).map fun c => (⟨c, m.was⟩ : Mark)).map Mark.char =
      (redact_text text).flatMap jsonChar := by
    rw [← redact_marks_char, List.map_flatMap, List.flatMap_map]
    congr 1
    funext m
    rw [List.map_map]
    exact List.map_id _
  rw [f.redacted, f.dumped, Frame.json, List.map_append, List.map_append, map_own_char, map_own_char,
    hbody]

/-- An envelope shows this, and nothing else. -/
theorem Frame.shows (f : Frame) (text now : PyStr) (seq : Option Nat) (run_id : PyStr)
    (kind : EventKind) (node : Option PyStr) :
    ∃ e, make_envelope now seq run_id kind node (f.payload text) = .ok e ∧
      texts (.dict e.payload) = [(f.shown text).map Mark.char] := by
  have hdumps := f.json_char text
  obtain ⟨encoded, hencoded, hascii⟩ := json_dumps_ascii str (.dict (redact_items (f.payload text)))
  obtain rfl : encoded = (f.json text).map Mark.char := Except.ok.inj (hencoded.symm.trans hdumps)
  obtain ⟨bytes, hbytes, hlength⟩ := encode_of_ascii hascii
  rw [List.length_map] at hlength
  simp only [make_envelope, safe_payload, cap_payload, hdumps, bind, Except.bind, hbytes, hlength,
    Frame.shown]
  by_cases hle : (f.json text).length ≤ MAX_PAYLOAD_BYTES
  · simp only [if_pos hle]
    refine ⟨_, rfl, ?_⟩
    show texts (.dict (redact_items (f.payload text))) = _
    rw [f.redacted, f.alone, redact_marks_char]
  · simp only [if_neg hle]
    refine ⟨_, rfl, ?_⟩
    rw [List.map_take]
    rfl

/-! ## What is recognised -/

/-- The patterns recognise what redaction hides in an output, as it is
    written. -/
structure Recognised (strike : Int) (check : ActionResult) : Prop where
  /-- Wherever a piece of a secret is written, a match takes in some of it. -/
  matched : ∀ page ∈ written_texts strike check, ∀ w, Hides check.output w →
    Met (page.1.written page.2) w
  /-- A piece with a bracket is not spelled with a `[REDACTED]` either. -/
  unmixed : ∀ page ∈ written_texts strike check, ∀ w, Hides check.output w → (∃ c ∈ w, IsBracket c) →
    ¬Mixed (page.1.shown page.2) w

theorem Frame.met_iff {f : Frame} {text w : PyStr} (hne : w ≠ []) :
    Met (f.written text) w ↔ ¬Untouched (f.shown text) w := by
  unfold Frame.written Frame.shown
  split
  · exact Server.met_iff (spaced_redact_marks text false) hne
  · have hjson : Spaced false (f.json text) :=
      spaced_own _ (fun replaced =>
        spaced_json (spaced_redact_marks text replaced) (spaced_text f.behind)) false
    rw [← List.take_append_drop (MAX_PAYLOAD_BYTES - 200) (f.json text)] at hjson
    exact Server.met_iff hjson.front hne

/-- What is mixed has a bracket, in JSON too. -/
theorem Frame.mixed_bracket {f : Frame} {text w : PyStr} (h : Mixed (f.shown text) w) (hlong : 8 < w.length) :
    ∃ c ∈ w, IsBracket c := by
  unfold Frame.shown at h
  split at h
  · exact h.bracket (bracketed_redact_marks text) List.prefix_rfl hlong
  · have hjson : Bracketed none (f.json text) :=
      bracketed_own _ (bracketed_json (bracketed_redact_marks text) (bracketed_text _)) (Or.inl rfl)
    exact h.bracket hjson (List.take_prefix _ _) hlong

omit [Unicode] in
/-- What redaction leaves as it is has nothing to hide. -/
theorem not_hides_of_clean {text w : PyStr} (h : ∀ m ∈ redact_marks text, m.was = none) :
    ¬Hides text w := by
  rintro ⟨-, ⟨pre, mid, post, hmarks, hmid, -, -, rfl⟩, hin, hlong, -⟩
  have hempty : mid = [] := by
    rw [List.eq_nil_iff_forall_not_mem]
    intro m hm
    have hnone := h m (by rw [hmarks]; simp [hm])
    have hsome := hmid m hm
    rw [hnone] at hsome
    cases hsome
  subst hempty
  have hle := hin.length_le
  rw [List.flatMap_nil, List.length_nil] at hle
  omega

example (strike exit_code : Int) : Recognised strike ⟨exit_code, lit "1 failed\r\n2 passed in 0.03s\r\n"⟩ := by
  have hclean : (redact_marks (lit "1 failed\r\n2 passed in 0.03s\r\n")).all (·.was.isNone) = true := by
    decide +kernel
  have hnone : ∀ w, ¬Hides (lit "1 failed\r\n2 passed in 0.03s\r\n") w :=
    fun w => not_hides_of_clean fun m hm => Option.isNone_iff_eq_none.mp (List.all_eq_true.mp hclean m hm)
  exact ⟨fun _ _ w hw => absurd hw (hnone w), fun _ _ w hw => absurd hw (hnone w)⟩

/-! ## The line of a legible output -/

/-- A pattern with blanks or quotes finds, in its turn, no secret with a blank
    or a quote that `repr` escapes, and no escape sequence begins one. -/
def LegibleOutput (output : PyStr) : Prop :=
  InTurn (fun r t => r ∉ fixed_patterns → Legible (reprRendering (reprQuote output)) r t)
    SECRET_PATTERNS output

theorem fast_check_line_of (strike : Int) (check : ActionResult) :
    fast_check_line strike check = line_of strike check.exit_code (reprQuote check.output)
      check.output [reprQuote check.output] := by
  simp [fast_check_line, line_of, line_head, repr_str, Rendering.text, reprRendering]

/-- **The line is redacted as the output is**, but for the closing quote,
    which may go with the last secret. -/
theorem redact_fast_check_line {strike : Int} {check : ActionResult} (h : LegibleOutput check.output) :
    redact_text (fast_check_line strike check) <+: line_of strike check.exit_code
      (reprQuote check.output) (redact_text check.output) [reprQuote check.output] := by
  have hquote := isQuote_reprQuote check.output
  have hlegible : InTurn (Legible (reprRendering (reprQuote check.output))) SECRET_PATTERNS
      check.output := by
    apply h.mono
    intro r t hr
    by_cases hfixed : r ∈ fixed_patterns
    · exact legible_fixed hquote r hfixed t
    · exact hr hfixed
  obtain ⟨tail, htail, hredact⟩ := redact_line hquote strike check.exit_code (fun _ hr => hr)
    List.prefix_rfl hlegible
  rw [← fast_check_line_of] at hredact
  have hline : redact_text (fast_check_line strike check) = line_of strike check.exit_code
      (reprQuote check.output) (redact_text check.output) tail := hredact
  rw [hline, line_of, line_of]
  exact (List.prefix_append_right_inj _).mpr ((List.prefix_append_right_inj _).mpr htail)

end

section small
attribute [local instance] Unicode.ascii

/-- A token on one line, and a line after it. -/
def token_inline : PyStr := lit "token: QQQQQQQQQQQQ\ndone"

example : LegibleOutput token_inline := by
  have hkey : (SECRET_PATTERNS.get ⟨0, by decide⟩).sub REDACTED token_inline =
      lit "token: QQQQQQQQQQQQ\ndone" := by decide +kernel
  have htoken : (SECRET_PATTERNS.get ⟨1, by decide⟩).sub REDACTED (lit "token: QQQQQQQQQQQQ\ndone") =
      lit "[REDACTED]\ndone" := by decide +kernel
  refine ⟨fun h => absurd List.mem_cons_self h, fun _ => ?_, fun _ => ?_, ?_, ?_, trivial⟩
  · show Legible _ (SECRET_PATTERNS.get ⟨1, by decide⟩)
      ((SECRET_PATTERNS.get ⟨0, by decide⟩).sub REDACTED token_inline)
    rw [hkey]
    exact legible_of_check (by decide +kernel)
  · show Legible _ (SECRET_PATTERNS.get ⟨2, by decide⟩) ((SECRET_PATTERNS.get ⟨1, by decide⟩).sub
      REDACTED ((SECRET_PATTERNS.get ⟨0, by decide⟩).sub REDACTED token_inline))
    rw [hkey, htoken]
    exact legible_of_check (by decide +kernel)
  · exact fun h => absurd (by simp [fixed_patterns, SECRET_PATTERNS]) h
  · exact fun h => absurd (by simp [fixed_patterns, SECRET_PATTERNS]) h

example : Recognised 1 ⟨1, token_inline⟩ := by
  have hpages : ((written_texts 1 ⟨1, token_inline⟩).all fun page => (page.1.shown page.2).all fun m =>
      m.was.isSome || m.char != CodePoint.ofChar 'Q') = true := by decide +kernel
  have hin : ∀ w, Hides token_inline w → w <:+: token_inline := fun w ⟨_, hm, hw, _⟩ => hw.trans hm.occurs
  -- twelve characters of the output reach into the token
  have htoken : ∀ w, Hides token_inline w → CodePoint.ofChar 'Q' ∈ w := by
    intro w hw
    obtain ⟨a, b, hsplit⟩ := hin w hw
    have hlong := hw.length
    have hlength := congrArg List.length hsplit
    simp only [List.length_append, show token_inline.length = 24 from rfl] at hlength
    have hall : ∀ i < 13, CodePoint.ofChar 'Q' ∈ (token_inline.drop i).take 12 := by decide
    have hmem := hall a.length (by omega)
    rw [← hsplit, List.append_assoc, List.drop_left, List.take_append_of_le_length hlong] at hmem
    exact List.mem_of_mem_take hmem
  constructor
  · intro page hpage w hw
    refine (Frame.met_iff (List.ne_nil_of_mem (htoken w hw))).mpr fun huntouched => ?_
    have hmark := huntouched.subset (List.mem_map_of_mem (f := own) (htoken w hw))
    have hno := List.all_eq_true.mp (List.all_eq_true.mp hpages page hpage) _ hmark
    simp [own] at hno
  · rintro page hpage w hw ⟨c, hc, hbracket⟩
    have hnone : token_inline.all (fun c => decide (¬IsBracket c)) = true := by decide
    exact absurd hbracket (of_decide_eq_true (List.all_eq_true.mp hnone c ((hin w hw).subset hc)))

/-- A bearer token on a line of its own. -/
def token_below : ActionResult := ⟨1, lit "bearer\nABCDEFGHIJKLMNOP"⟩

end small

end Syndicate.Server
