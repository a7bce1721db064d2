import Syndicate.Py.Render
import Syndicate.Nodes.Executor
import Syndicate.Nodes.Oversight
import Syndicate.Server.Runner

/-! # What redaction sees of an output

    The log line holds an output as `repr` writes it, and the diagnosis is
    cut from it; both are redacted after that. -/

namespace Syndicate.Server

open Py Py.Re

section
variable [Unicode]

/-! ## `repr` as a rendering -/

/-- What `repr` writes between the quotes `q`. -/
def reprRendering (q : CodePoint) : Rendering where
  char := reprChar q
  esc := CodePoint.ofChar '\\'
  spec := by
    intro c
    unfold reprChar
    split
    · exact Or.inr ⟨_, rfl⟩
    · repeat' split
      all_goals first
        | exact Or.inl rfl
        | exact Or.inr ⟨_, rfl⟩

/-- One of the quotes of `repr`. -/
def IsQuote (q : CodePoint) : Prop := q = CodePoint.ofChar '\'' ∨ q = CodePoint.ofChar '"'

omit [Unicode] in
theorem isQuote_reprQuote (s : PyStr) : IsQuote (reprQuote s) := by
  unfold reprQuote
  split
  · exact Or.inr rfl
  · exact Or.inl rfl

/-- The characters of an escape sequence after its backslash. -/
def escape_chars : PyStr := lit "ntrxuU0123456789abcdef"

omit [Unicode] in
theorem hexDigit_mem (n : Nat) : hexDigit n ∈ escape_chars := by
  have hall : ∀ m < 16, hexDigit m ∈ escape_chars := by decide
  have hmod : hexDigit n = hexDigit (n % 16) := by
    simp [hexDigit]
  rw [hmod]
  exact hall (n % 16) (Nat.mod_lt n (by decide))

omit [Unicode] in
theorem hexDigits_mem {k n : Nat} {d : CodePoint} (h : d ∈ hexDigits k n) : d ∈ escape_chars := by
  induction k generalizing n with
  | zero => cases h
  | succ k ih =>
    rcases List.mem_append.mp h with h | h
    · exact ih h
    · rw [List.mem_singleton.mp h]
      exact hexDigit_mem n

/-- What an escape sequence has after its backslash, but where it stands for
    a quote or a backslash. -/
theorem reprChar_tail {q c : CodePoint} (hc : ¬(c = q ∨ c = CodePoint.ofChar '\\')) :
    ∀ d ∈ (reprChar q c).tail, d ∈ escape_chars := by
  have hhex : ∀ (x : CodePoint) (k n : Nat), x ∈ escape_chars →
      ∀ d ∈ x :: hexDigits k n, d ∈ escape_chars := by
    intro x k n hx d hd
    rcases List.mem_cons.mp hd with rfl | hd
    · exact hx
    · exact hexDigits_mem hd
  unfold reprChar
  rw [if_neg hc]
  have hone : ∀ x ∈ escape_chars, ∀ d ∈ [x], d ∈ escape_chars := by
    intro x hx d hd
    rw [List.mem_singleton.mp hd]
    exact hx
  -- in no branch does the condition matter
  have hite : ∀ (p : Prop) [Decidable p] {s t : PyStr}, (∀ d ∈ s.tail, d ∈ escape_chars) →
      (∀ d ∈ t.tail, d ∈ escape_chars) → ∀ d ∈ (if p then s else t).tail, d ∈ escape_chars := by
    intro p _ s t hs ht
    by_cases hp : p
    · rwa [if_pos hp]
    · rwa [if_neg hp]
  refine hite _ ?_ (hite _ ?_ (hite _ ?_ (hite _ ?_ (hite _ ?_ (hite _ ?_ (hite _ ?_ (hite _ ?_ ?_)))))))
  · exact hone (CodePoint.ofChar 't') (by decide)
  · exact hone (CodePoint.ofChar 'n') (by decide)
  · exact hone (CodePoint.ofChar 'r') (by decide)
  · exact hhex (CodePoint.ofChar 'x') 2 c.val (by decide)
  · exact fun d hd => absurd hd List.not_mem_nil
  · exact fun d hd => absurd hd List.not_mem_nil
  · exact hhex (CodePoint.ofChar 'x') 2 c.val (by decide)
  · exact hhex (CodePoint.ofChar 'u') 4 c.val (by decide)
  · exact hhex (CodePoint.ofChar 'U') 8 c.val (by decide)

/-- The end of an escape sequence: the escaped quote or backslash, or plain
    letters and digits. -/
theorem inner_chars {q c : CodePoint} {e : PyStr} (h : (reprRendering q).Inner c e) :
    (e = [c] ∧ (c = q ∨ c = CodePoint.ofChar '\\')) ∨ ∀ d ∈ e, d ∈ escape_chars := by
  obtain ⟨hne, d, hd, hchar⟩ := h
  obtain ⟨x, d, rfl⟩ := List.exists_cons_of_ne_nil hd
  have hsplit : reprChar q c = x :: (d ++ e) := hchar
  by_cases hc : c = q ∨ c = CodePoint.ofChar '\\'
  · left
    refine ⟨?_, hc⟩
    have htwo : reprChar q c = [CodePoint.ofChar '\\', c] := if_pos hc
    have hrest : d ++ e = [c] := by
      rw [htwo] at hsplit
      exact (List.cons.inj hsplit).2.symm
    rcases List.append_eq_singleton_iff.mp hrest with ⟨-, he⟩ | ⟨-, he⟩
    · exact he
    · exact absurd he hne
  · right
    intro y hy
    apply reprChar_tail hc
    rw [hsplit]
    exact List.mem_append_right d hy

/-- Every character an escape sequence can be cut before. -/
def cut_chars : PyStr := lit "'\"\\" ++ escape_chars

theorem inner_head {q c : CodePoint} (hq : IsQuote q) {e : PyStr} (h : (reprRendering q).Inner c e) :
    ∃ d e', e = d :: e' ∧ d ∈ cut_chars := by
  obtain ⟨d, e', rfl⟩ := List.exists_cons_of_ne_nil h.1
  refine ⟨d, e', rfl, ?_⟩
  rcases inner_chars h with ⟨heq, hc⟩ | hchars
  · obtain ⟨rfl, -⟩ := List.cons.inj heq
    apply List.mem_append_left
    rcases hc with rfl | rfl
    · rcases hq with rfl | rfl <;> decide
    · decide
  · exact List.mem_append_right _ (hchars d List.mem_cons_self)

/-- What begins with no such character matches nowhere within an escape. -/
theorem inner_step_none {q c : CodePoint} (hq : IsQuote q) {r : Re}
    (hr : cut_chars.all (fun d => !r.begins [d]) = true) {e : PyStr}
    (h : (reprRendering q).Inner c e) (y : PyStr) (k : PyStr → Option PyStr) :
    r.step k (e ++ y) = none := by
  obtain ⟨d, e', rfl, hd⟩ := inner_head hq h
  have hbegins := List.all_eq_true.mp hr d hd
  exact step_none (by simpa using hbegins) k (e' ++ y)

/-- The characters of an escape sequence are plain themselves. -/
theorem plain_escape_chars {q : CodePoint} (hq : IsQuote q) :
    ∀ d ∈ escape_chars, (reprRendering q).plain d = true := by
  have hplain : escape_chars.all (fun d => (reprRendering q).plain d) = true := by
    rcases hq with rfl | rfl <;> rfl
  exact List.all_eq_true.mp hplain

/-! ## The patterns on a log line -/

/-- The closing quote, or nothing. -/
def Closes (q : CodePoint) (tail : PyStr) : Prop := IsQuote q ∧ tail <+: [q]

section clear
variable {q : CodePoint} {tail : PyStr} (h : Closes q tail)
include h

omit [Unicode] in
theorem Closes.length_le : tail.length ≤ 1 := h.2.length_le

omit [Unicode] in
/-- A class without quotes. -/
theorem Closes.excluded {p : CodePoint → Bool} (hsingle : p (CodePoint.ofChar '\'') = false)
    (hdouble : p (CodePoint.ofChar '"') = false) : ∀ x ∈ tail, p x = false := by
  intro x hx
  rw [List.mem_singleton.mp (h.2.subset hx)]
  rcases h.1 with rfl | rfl
  · exact hsingle
  · exact hdouble

theorem Closes.letters {p : CodePoint → CodePoint → Bool} {cs : PyStr}
    (hcs : cs.all (fun c => !p c (CodePoint.ofChar '\\') && !p c (CodePoint.ofChar '\'') &&
      !p c (CodePoint.ofChar '"')) = true) :
    Clear (reprRendering q) tail (seqs (cs.map fun c => one (p c))) := by
  apply Clear.letters
  intro c hc
  have hall := List.all_eq_true.mp hcs c hc
  simp only [Bool.and_eq_true, Bool.not_eq_true'] at hall
  exact ⟨hall.1.1, h.excluded hall.1.2 hall.2⟩

theorem Closes.text (s : String)
    (hs : (lit s).all (fun c => !(CodePoint.ofChar '\\' == c) && !(CodePoint.ofChar '\'' == c) &&
      !(CodePoint.ofChar '"' == c)) = true) : Clear (reprRendering q) tail (Re.text s) :=
  h.letters (p := fun c d => d == c) hs

theorem Closes.folded (s : String)
    (hs : (lit s).all (fun c => !Re.folded c (CodePoint.ofChar '\\') &&
      !Re.folded c (CodePoint.ofChar '\'') && !Re.folded c (CodePoint.ofChar '"')) = true) :
    Clear (reprRendering q) tail (textFolded s) :=
  h.letters (p := Re.folded) hs

theorem Closes.atLeast {p : CodePoint → Bool} (n : Nat) (hesc : p (CodePoint.ofChar '\\') = false)
    (hsingle : p (CodePoint.ofChar '\'') = false) (hdouble : p (CodePoint.ofChar '"') = false) :
    Clear (reprRendering q) tail (Re.atLeast n p) :=
  .atLeast n hesc (h.excluded hsingle hdouble)

theorem Closes.one {p : CodePoint → Bool} (hesc : p (CodePoint.ofChar '\\') = false)
    (hsingle : p (CodePoint.ofChar '\'') = false) (hdouble : p (CodePoint.ofChar '"') = false) :
    Clear (reprRendering q) tail (Re.one p) :=
  .one hesc (h.excluded hsingle hdouble)

/-- Every pattern is clear of the escapes of `repr`. -/
theorem Closes.patterns : ∀ r ∈ SECRET_PATTERNS, Clear (reprRendering q) tail r := by
  intro r hr
  simp only [SECRET_PATTERNS, List.mem_cons, List.not_mem_nil, or_false] at hr
  rcases hr with rfl | rfl | rfl | rfl | rfl
  · exact .seq (h.text "sk-ant-" rfl) (h.atLeast 10 rfl rfl rfl)
  · have hkey : Clear (reprRendering q) tail
        (.alt (.seqs [.textFolded "api", .opt (.one (oneOf "_-")), .textFolded "key"])
          (.alt (.textFolded "token") (.textFolded "secret"))) :=
      .alt (.seq (h.folded "api" rfl) (.seq (.opt rfl) (h.folded "key" rfl)))
        (.alt (h.folded "token" rfl) (h.folded "secret" rfl))
    exact .seq hkey (.seq (.star rfl) (.seq (h.one rfl rfl rfl) (.seq (.star rfl)
      (.seq (.opt rfl) (.seq (h.atLeast 12 rfl rfl rfl) (.opt rfl))))))
  · exact .seq (h.folded "bearer" rfl) (.seq (h.atLeast 1 rfl rfl rfl) (h.atLeast 12 rfl rfl rfl))
  · exact .seq (h.text "AKIA" rfl) (.exactly 16 (h.one rfl rfl rfl))
  · have hend : Clear (reprRendering q) tail (.seqs [.lazy fun _ => true, .text "-----END ",
        .star upperOrSpace, .text "PRIVATE KEY-----"]) := by
      refine .lazy (.seq (h.text "-----END " rfl) (.seq (.star rfl) (h.text "PRIVATE KEY-----" rfl))) ?_
      intro c e he
      exact inner_step_none h.1 rfl he
    exact .seq (h.text "-----BEGIN " rfl) (.seq (.star rfl) (.seq (h.text "PRIVATE KEY-----" rfl) hend))

end clear

omit [Unicode] in
theorem patterns_nonempty : ∀ r ∈ SECRET_PATTERNS, r.nonempty = true := by
  have hall : SECRET_PATTERNS.all (·.nonempty) = true := rfl
  exact List.all_eq_true.mp hall

/-- Within an escape there are plain characters, or nothing begins. -/
theorem patterns_cut {q : CodePoint} (hq : IsQuote q) : ∀ r ∈ SECRET_PATTERNS, ∀ c e,
    (reprRendering q).Inner c e →
    (∀ d ∈ e, (reprRendering q).plain d = true) ∨ ∀ y, r.matchHere (e ++ y) = none := by
  intro r hr c e he
  rcases inner_chars he with ⟨rfl, hc⟩ | hchars
  · have hall : SECRET_PATTERNS.all (fun r => (lit "'\"\\").all fun d => !r.begins [d]) = true := rfl
    have hmem : c ∈ lit "'\"\\" := by
      rcases hc with rfl | rfl
      · rcases hq with rfl | rfl <;> decide
      · decide
    have hbegins := List.all_eq_true.mp (List.all_eq_true.mp hall r hr) c hmem
    exact Or.inr (step_none (by simpa using hbegins) some)
  · exact Or.inl fun d hd => plain_escape_chars hq d (hchars d hd)

theorem text_REDACTED {q : CodePoint} (hq : IsQuote q) : (reprRendering q).text REDACTED = REDACTED := by
  rcases hq with rfl | rfl <;> rfl

/-- A class of ASCII characters that `repr` leaves as they are. -/
theorem class_plain {q : CodePoint} {p : CodePoint → Bool} (hascii : ∀ c, p c = true → c.val < 0x7f)
    (hall : (List.range 0x7f).all (fun k =>
      !p (Fin.ofNat _ k) || (reprRendering q).plain (Fin.ofNat _ k)) = true) :
    ∀ c, p c = true → (reprRendering q).plain c = true := by
  intro c hc
  have hval : Fin.ofNat 0x110000 c.val = c := by
    apply Fin.ext
    exact Nat.mod_eq_of_lt c.isLt
  have hk := List.all_eq_true.mp hall c.val (List.mem_range.mpr (hascii c hc))
  rw [hval, hc] at hk
  simpa using hk

omit [Unicode] in
theorem between_le {lo hi : Char} {c : CodePoint} (h : between lo hi c = true) : c.val ≤ hi.toNat :=
  of_decide_eq_true (Bool.and_eq_true_iff.mp h).2

omit [Unicode] in
theorem oneOf_ascii {s : String} (hs : (lit s).all (fun c => decide (c.val < 0x7f)) = true)
    {c : CodePoint} (h : oneOf s c = true) : c.val < 0x7f :=
  of_decide_eq_true (List.all_eq_true.mp hs c (List.elem_iff.mp h))

/-- The patterns without blanks and quotes: keys, AWS keys and PEM blocks. -/
def fixed_patterns : List Re := SECRET_PATTERNS.take 1 ++ SECRET_PATTERNS.drop 3

/-- Every output is legible to them. -/
theorem legible_fixed {q : CodePoint} (hq : IsQuote q) :
    ∀ r ∈ fixed_patterns, ∀ t, Legible (reprRendering q) r t := by
  -- no pattern begins with a character that an escape can be cut before
  have hbegins : fixed_patterns.all (fun r => cut_chars.all fun d => !r.begins [d]) = true := rfl
  have hupper : ∀ {c}, between 'A' 'Z' c = true → c.val < 0x7f := by
    intro c hc
    exact Nat.lt_of_le_of_lt (between_le hc) (by decide)
  have hlower : ∀ {c}, between 'a' 'z' c = true → c.val < 0x7f := by
    intro c hc
    exact Nat.lt_of_le_of_lt (between_le hc) (by decide)
  have hdigit : ∀ {c}, between '0' '9' c = true → c.val < 0x7f := by
    intro c hc
    exact Nat.lt_of_le_of_lt (between_le hc) (by decide)
  have hkey : ∀ c, alnumOr "_-" c = true → (reprRendering q).plain c = true := by
    apply class_plain
    · intro c hc
      simp only [alnumOr, Bool.or_eq_true] at hc
      rcases hc with ((hc | hc) | hc) | hc
      · exact hupper hc
      · exact hlower hc
      · exact hdigit hc
      · exact oneOf_ascii rfl hc
    · rcases hq with rfl | rfl <;> rfl
  have haws : ∀ c, (between '0' '9' c || between 'A' 'Z' c) = true →
      (reprRendering q).plain c = true := by
    apply class_plain
    · intro c hc
      rcases Bool.or_eq_true_iff.mp hc with hc | hc
      · exact hdigit hc
      · exact hupper hc
    · rcases hq with rfl | rfl <;> rfl
  have hpem : ∀ c, upperOrSpace c = true → (reprRendering q).plain c = true := by
    apply class_plain
    · intro c hc
      rcases Bool.or_eq_true_iff.mp hc with hc | hc
      · exact hupper hc
      · exact oneOf_ascii rfl hc
    · rcases hq with rfl | rfl <;> rfl
  -- their characters are all printed as they are
  have hwithin : ∀ r ∈ fixed_patterns, Within (reprRendering q).plain r := by
    have htext : ∀ s, (lit s).all (reprRendering q).plain = true →
        Within (reprRendering q).plain (Re.text s) := fun s => Within.text s
    have hlit : ∀ s ∈ ["sk-ant-", "AKIA", "-----BEGIN ", "PRIVATE KEY-----", "-----END "],
        Within (reprRendering q).plain (Re.text s) := by
      intro s hs
      apply htext
      have hall : ["sk-ant-", "AKIA", "-----BEGIN ", "PRIVATE KEY-----", "-----END "].all
          (fun s => (lit s).all (reprRendering q).plain) = true := by
        rcases hq with rfl | rfl <;> rfl
      exact List.all_eq_true.mp hall s hs
    intro r hr
    simp only [fixed_patterns, SECRET_PATTERNS, List.take, List.drop, List.cons_append,
      List.nil_append, List.mem_cons, List.not_mem_nil, or_false] at hr
    rcases hr with rfl | rfl | rfl
    · exact .seq (hlit _ (by decide)) (.seq (.exactly 10 hkey) (.star hkey))
    · exact .seq (hlit _ (by decide)) (.exactly 16 haws)
    · exact .seq (hlit _ (by decide)) (.seq (.star hpem) (.seq (hlit _ (by decide)) (.seq .lazy
        (.seq (hlit _ (by decide)) (.seq (.star hpem) (hlit _ (by decide)))))))
  intro r hr t
  refine (hwithin r hr).legible (fun c e he y => ?_) t
  exact inner_step_none hq (List.all_eq_true.mp hbegins r hr) he y some

/-! ## The frame of the log line -/

/-- The line up to the output's `repr`. -/
def line_head (strike exit_code : Int) : PyStr :=
  lit "strike=" ++ str_int strike ++ lit " fast_check exit_code=" ++ str_int exit_code ++ lit " output="

omit [Unicode] in
theorem quiet_lit (s : String)
    (hs : SECRET_PATTERNS.all (fun r => (lit s).tails.all fun e => e.isEmpty || !r.begins e) = true) :
    ∀ r ∈ SECRET_PATTERNS, Quiet r (lit s) :=
  fun r hr => quiet_of_tails (List.all_eq_true.mp hs r hr)

omit [Unicode] in
/-- No secret begins in a number. -/
theorem quiet_str_int (n : Int) : ∀ r ∈ SECRET_PATTERNS, Quiet r (str_int n) := by
  intro r hr
  have hall : SECRET_PATTERNS.all (fun r => (List.range 10).all fun k =>
      !r.begins [Fin.ofNat _ (48 + k)] &&
      !r.begins [CodePoint.ofChar '-', Fin.ofNat _ (48 + k)]) = true := rfl
  have hdigit : ∀ d : CodePoint, 48 ≤ d.val ∧ d.val ≤ 57 →
      r.begins [d] = false ∧ r.begins [CodePoint.ofChar '-', d] = false := by
    intro d ⟨hge, hle⟩
    have hd : Fin.ofNat 0x110000 (48 + (d.val - 48)) = d := by
      apply Fin.ext
      show (48 + (d.val - 48)) % 0x110000 = d.val
      omega
    have hk := List.all_eq_true.mp (List.all_eq_true.mp hall r hr) (d.val - 48)
      (List.mem_range.mpr (by omega))
    rw [hd] at hk
    simpa using hk
  obtain ⟨ds, hne, hds, hstr⟩ := str_int_digits n
  have hquiet : Quiet r ds := by
    intro y e he hne'
    obtain ⟨d, e, rfl⟩ := List.exists_cons_of_ne_nil hne'
    exact step_none (hdigit d (hds d (he.subset List.mem_cons_self))).1 some (e ++ y)
  rcases hstr with hstr | hstr
  · rw [hstr]
    exact hquiet
  · rw [hstr]
    obtain ⟨d, ds, rfl⟩ := List.exists_cons_of_ne_nil hne
    intro y e he hne'
    rcases List.suffix_cons_iff.mp he with rfl | he
    · exact step_none (hdigit d (hds d List.mem_cons_self)).2 some (ds ++ y)
    · exact hquiet y e he hne'

omit [Unicode] in
/-- No secret begins before the output. -/
theorem quiet_line_head {q : CodePoint} (hq : IsQuote q) (strike exit_code : Int) :
    ∀ r ∈ SECRET_PATTERNS, Quiet r (line_head strike exit_code ++ [q]) := by
  intro r hr
  have hquote : Quiet r [q] := by
    rcases hq with rfl | rfl
    · exact quiet_lit "'" rfl r hr
    · exact quiet_lit "\"" rfl r hr
  have hstrike := quiet_lit "strike=" rfl r hr
  have hmiddle := quiet_lit " fast_check exit_code=" rfl r hr
  have houtput := quiet_lit " output=" rfl r hr
  exact ((((hstrike.append (quiet_str_int strike r hr)).append hmiddle).append
    (quiet_str_int exit_code r hr)).append houtput).append hquote

/-! ## Redaction, pattern by pattern -/

/-- The loop of `redact_text`, over the patterns that are left. -/
def redact (patterns : List Re) (text : PyStr) : PyStr :=
  patterns.foldl (fun text pattern => pattern.sub REDACTED text) text

/-- `Q` holds of each pattern and the text it is applied to. -/
def InTurn (Q : Re → PyStr → Prop) : List Re → PyStr → Prop
  | [], _ => True
  | pattern :: patterns, text => Q pattern text ∧ InTurn Q patterns (pattern.sub REDACTED text)

omit [Unicode] in
theorem InTurn.mono {Q Q' : Re → PyStr → Prop} {patterns : List Re} {text : PyStr}
    (h : InTurn Q patterns text) (himp : ∀ r t, Q r t → Q' r t) : InTurn Q' patterns text := by
  induction patterns generalizing text with
  | nil => trivial
  | cons r patterns ih => exact ⟨himp r text h.1, ih h.2⟩

/-- The line that holds an output of quotes `q`, up to what closes it. -/
def line_of (strike exit_code : Int) (q : CodePoint) (output tail : PyStr) : PyStr :=
  line_head strike exit_code ++ [q] ++ ((reprRendering q).text output ++ tail)

/-- **Redaction of a log line** is the log line of the redacted output,
    where the output is legible to each pattern in its turn; the closing
    quote may go with the last secret. -/
theorem redact_line {q : CodePoint} (hq : IsQuote q) (strike exit_code : Int) {patterns : List Re}
    (hpatterns : ∀ r ∈ patterns, r ∈ SECRET_PATTERNS) {output tail : PyStr} (htail : tail <+: [q])
    (h : InTurn (Legible (reprRendering q)) patterns output) :
    ∃ tail', tail' <+: [q] ∧ redact patterns (line_of strike exit_code q output tail) =
      line_of strike exit_code q (redact patterns output) tail' := by
  induction patterns generalizing output tail with
  | nil => exact ⟨tail, htail, rfl⟩
  | cons r patterns ih =>
    have hr := hpatterns r List.mem_cons_self
    have hcloses : Closes q tail := ⟨hq, htail⟩
    obtain ⟨hhere, hlater⟩ := h
    obtain ⟨tail', htail', hsub⟩ := sub_rendered hcloses.length_le (patterns_nonempty r hr)
      (hcloses.patterns r hr) (text_REDACTED hq) (patterns_cut hq r hr) hhere
    have hline : r.sub REDACTED (line_of strike exit_code q output tail) =
        line_of strike exit_code q (r.sub REDACTED output) tail' := by
      rw [line_of, sub_quiet (quiet_line_head hq strike exit_code r hr _), hsub]
      rfl
    obtain ⟨tail'', htail'', hrest⟩ :=
      ih (fun x hx => hpatterns x (List.mem_cons_of_mem r hx)) (htail'.trans htail) hlater
    refine ⟨tail'', htail'', ?_⟩
    show redact patterns (r.sub REDACTED (line_of strike exit_code q output tail)) = _
    rw [hline]
    exact hrest

end

end Syndicate.Server
