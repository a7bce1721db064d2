import Syndicate.Framework.Woven
import Syndicate.Py.Json
import Syndicate.Server.Residue

/-! # Secrets in a preview

    A preview is the beginning of a JSON text, in which the strings of
    neighbouring fields are next to each other.  A match of the first four
    patterns still lies within one string as it is written, escapes included;
    a PEM block may begin in one string and end in another. -/

namespace Syndicate.Server

open Py Py.Re

/-! ## JSON is woven -/

/-- The character may stand outside of the strings of a JSON text. -/
def isMark (c : CodePoint) : Bool :=
  isDigit c || (lit "\x7b\x7d[],: -.e+nulltruefalseNaNInfinity").contains c

/-- The character may follow a string. -/
def isBehind (c : CodePoint) : Bool := (lit ",:]\x7d").contains c

/-- The strings that fall into the first `n` characters of a text, as they
    are written there. -/
def shown : Nat → List Json.Token → List PyStr
  | _, [] => []
  | n, .string s :: ts =>
    if n = 0 then [] else (s.flatMap jsonChar).take (n - 1) :: shown (n - (jsonString s).length) ts
  | n, t :: ts => shown (n - t.render.length) ts

theorem shown_zero (ts : List Json.Token) : shown 0 ts = [] := by
  induction ts with
  | nil => rfl
  | cons t ts ih => cases t <;> simp [shown, ih]

/-- Outside of strings there are marks. -/
theorem marks_of_token {t : Json.Token} (h : t.Written) (hno : ∀ s, t ≠ .string s) :
    ∀ c ∈ t.render, isMark c = true := by
  cases t with
  | string s => exact absurd rfl (hno s)
  | number text =>
    intro c hc
    rw [isMark, Bool.or_eq_true]
    rcases (Json.number_chars h).2 c hc with hdigit | hmem
    · exact .inl hdigit
    · have hall : (lit "-.e+").all (fun c => (lit "\x7b\x7d[],: -.e+nulltruefalseNaNInfinity").contains c)
          = true := by decide
      exact .inr (List.all_eq_true.mp hall c hmem)
  | word text =>
    have hall : (Json.words ++ special_floats.map jsonFloat).all (fun w => w.all isMark) = true := by
      decide
    exact List.all_eq_true.mp (List.all_eq_true.mp hall text h)
  | open_object | close_object | open_array | close_array | comma | colon =>
    exact List.all_eq_true.mp (by decide)

/-- A quote is written behind a backslash. -/
theorem escaped_jsonChar (c : CodePoint) :
    Escaped (CodePoint.ofChar '"') (CodePoint.ofChar '\\') (jsonChar c) := by
  by_cases hquote : c = CodePoint.ofChar '"'
  · subst hquote
    have hpair : jsonChar (CodePoint.ofChar '"') =
        [CodePoint.ofChar '\\', CodePoint.ofChar '"'] := by decide
    rw [hpair]
    intro x y h
    match x, h with
    | [_], h =>
      obtain ⟨rfl, -⟩ := List.cons.inj h
      rfl
    | [], h =>
      have hne : CodePoint.ofChar '\\' ≠ CodePoint.ofChar '"' := by decide
      exact absurd (List.cons.inj h).1 hne
    | _ :: _ :: x, h =>
      have hlen := congrArg List.length h
      simp at hlen
  · apply escaped_of_not_mem
    -- no digit of an escape is a quote
    have hdigits : ∀ k n, CodePoint.ofChar '"' ∉ hexDigits k n := by
      intro k
      induction k with
      | zero => exact fun n => List.not_mem_nil
      | succ k ih =>
        intro n hmem
        rw [hexDigits, List.mem_append, List.mem_singleton] at hmem
        refine hmem.elim (ih _) fun h => ?_
        have hval := congrArg Fin.val h
        have hq : (CodePoint.ofChar '"').val = 34 := rfl
        unfold hexDigit at hval
        split at hval <;> rw [hq, Fin.val_ofNat] at hval <;> omega
    have hescape : ∀ n, CodePoint.ofChar '"' ∉ jsonEscape n := by
      intro n hmem
      rw [jsonEscape, List.mem_append] at hmem
      exact hmem.elim (by decide) (hdigits 4 n)
    unfold jsonChar
    rw [if_neg hquote]
    repeat' split
    all_goals first
      | decide
      | exact hescape _
      | exact fun h => hquote (List.mem_singleton.mp h).symm
      | exact fun h => (List.mem_append.mp h).elim (hescape _) (hescape _)

theorem escaped_flatMap (s : PyStr) :
    Escaped (CodePoint.ofChar '"') (CodePoint.ofChar '\\') (s.flatMap jsonChar) := by
  induction s with
  | nil => exact escaped_of_not_mem List.not_mem_nil
  | cons c s ih => exact (escaped_jsonChar c).append ih

/-- A JSON text with its strings. -/
abbrev JsonWoven : PyStr → List PyStr → Prop :=
  Woven (CodePoint.ofChar '"') (CodePoint.ofChar '\\') (isMark · = true) (isBehind · = true)

/-- Behind a string comes a colon, a comma or a closing bracket, or nothing. -/
theorem behind_of_separated {s : PyStr} {ts : List Json.Token}
    (hsep : Json.Separated (.string s :: ts)) (n : Nat) :
    ∀ c ∈ ((Json.render ts).take n).head?, isBehind c = true := by
  intro c hc
  cases n with
  | zero => cases hc
  | succ n =>
    cases ts with
    | nil => cases hc
    | cons u ts =>
      have hu := hsep.1 rfl u rfl
      cases u with
      | open_object | open_array | string | number | word => cases hu
      | close_object | close_array | comma | colon =>
        obtain rfl := Option.some.inj hc
        decide

/-- The beginning of a JSON text is woven of the strings it shows. -/
theorem woven_take {ts : List Json.Token} (hsep : Json.Separated ts)
    (hwritten : ∀ t ∈ ts, t.Written) (n : Nat) :
    JsonWoven ((Json.render ts).take n) (shown n ts) := by
  induction ts generalizing n with
  | nil =>
    rw [Json.render_nil, List.take_nil]
    exact .marks (by simp)
  | cons t ts ih =>
    have ih := ih hsep.2 fun t ht => hwritten t (List.mem_cons_of_mem _ ht)
    -- a token that is no string leaves what is shown as it is
    have hmarks : (∀ s, t ≠ .string s) → shown n (t :: ts) = shown (n - t.render.length) ts →
        JsonWoven ((Json.render (t :: ts)).take n) (shown n (t :: ts)) := by
      intro hno hshown
      rw [Json.render_cons, List.take_append, hshown]
      apply (ih (n - t.render.length)).append
      intro c hc
      exact marks_of_token (hwritten t List.mem_cons_self) hno c (List.mem_of_mem_take hc)
    cases t with
    | string s =>
      have hbody := escaped_flatMap s
      have htext : Json.render (.string s :: ts) = CodePoint.ofChar '"' ::
          (s.flatMap jsonChar ++ CodePoint.ofChar '"' :: Json.render ts) := by
        rw [Json.render_cons]
        show jsonString s ++ _ = _
        rw [jsonString, List.append_assoc, List.append_assoc]
        rfl
      have hlen : (jsonString s).length = (s.flatMap jsonChar).length + 2 := by
        rw [jsonString, List.length_append, List.length_append]
        show 1 + _ + 1 = _
        omega
      rw [htext, shown, hlen]
      cases n with
      | zero => exact .marks (g := []) (by simp)
      | succ k =>
        rw [if_neg (Nat.succ_ne_zero k), Nat.add_sub_cancel, List.take_succ_cons, List.take_append]
        by_cases hcut : k ≤ (s.flatMap jsonChar).length
        · -- the preview ends within the string
          rw [Nat.sub_eq_zero_of_le hcut, List.take_zero, List.append_nil,
            Nat.sub_eq_zero_of_le (by omega), shown_zero]
          exact .cut (g := []) (by simp) (hbody.take k)
        · obtain ⟨m, hm⟩ : ∃ m, k - (s.flatMap jsonChar).length = m + 1 :=
            ⟨k - (s.flatMap jsonChar).length - 1, by omega⟩
          have hrest : k + 1 - ((s.flatMap jsonChar).length + 2) = m := by omega
          rw [hm, List.take_succ_cons, hrest, List.take_of_length_le (by omega)]
          exact .string (g := []) (by simp) hbody (behind_of_separated hsep m) (ih m)
    | open_object | close_object | open_array | close_array | comma | colon | number _ | word _ =>
      exact hmarks (by intro s h; cases h) rfl

/-! ## The patterns -/

/-- Does each match of the pattern have a character with `P`? -/
def Needs (P : CodePoint → Prop) : Re → Prop
  | .empty => False
  | .one p => ∀ c, p c = true → P c
  | .seq r t => Needs P r ∨ Needs P t
  | .alt r t => Needs P r ∧ Needs P t
  | .star _ | .lazy _ => False

theorem Needs.exists_mem {P : CodePoint → Prop} {r : Re} (h : Needs P r) {w : PyStr}
    (hw : r.Matches w) : ∃ c ∈ w, P c := by
  induction r generalizing w with
  | empty => exact h.elim
  | one p =>
    obtain ⟨c, rfl, hc⟩ := hw
    exact ⟨c, List.mem_singleton_self c, h c hc⟩
  | seq r t ihr iht =>
    obtain ⟨u, v, rfl, hu, hv⟩ := hw
    rcases h with h | h
    · obtain ⟨c, hc, hP⟩ := ihr h hu
      exact ⟨c, List.mem_append_left v hc, hP⟩
    · obtain ⟨c, hc, hP⟩ := iht h hv
      exact ⟨c, List.mem_append_right u hc, hP⟩
  | alt r t ihr iht => exact hw.elim (ihr h.1) (iht h.2)
  | star p | lazy p => exact h.elim

/-- A character that is no mark. -/
abbrev NoMark (c : CodePoint) : Prop := ¬isMark c = true

theorem noMark_of_eq {d : CodePoint} (hd : isMark d = false) :
    Needs NoMark (.one (· == d)) := by
  intro c hc
  obtain rfl := eq_of_beq hc
  rw [NoMark, hd]
  exact Bool.false_ne_true

/-- Of these letters no case is a mark. -/
theorem noMark_of_folded {lower : CodePoint} (h : lower ∈ lit "bckp") :
    Needs NoMark (.one (folded lower)) := by
  intro c hc
  have hmarks : (lit "\x7b\x7d[],: -.e+nulltruefalseNaNInfinity").all
      (fun d => !([98, 99, 107, 112, 66, 67, 75, 80, 0x212a].contains d.val)) = true := by decide
  have hlower : (lit "bckp").all (fun d => [98, 99, 107, 112].contains d.val) = true := by decide
  have hval := List.contains_iff_mem.mp (List.all_eq_true.mp hlower lower h)
  simp only [List.mem_cons, List.not_mem_nil, or_false] at hval
  have hcase : c.val ∈ [98, 99, 107, 112, 66, 67, 75, 80, 0x212a] := by
    simp only [folded, foldExtra, Bool.or_eq_true, Bool.and_eq_true, beq_iff_eq] at hc
    simp only [List.mem_cons, List.not_mem_nil, or_false]
    rcases hc with (rfl | ⟨-, hc⟩) | hc <;> omega
  intro hmark
  rcases Bool.or_eq_true _ _ ▸ hmark with hdigit | hmark
  · rw [isDigit, Bool.and_eq_true, decide_eq_true_eq, decide_eq_true_eq] at hdigit
    simp only [List.mem_cons, List.not_mem_nil, or_false] at hcase
    omega
  · have hno := List.all_eq_true.mp hmarks c (List.contains_iff_mem.mp hmark)
    rw [List.contains_iff_mem.mpr hcase] at hno
    cases hno

/-- The second pattern: an assignment to a name that tells of a secret. -/
def assigned : Re :=
  .seqs [.alt (.seqs [.textFolded "api", .opt (.one (Re.oneOf "_-")), .textFolded "key"])
      (.alt (.textFolded "token") (.textFolded "secret")),
    .star isspace, .one (Re.oneOf ":="), .star isspace]

def optional_quote : Re := .opt (.one (Re.oneOf "'\""))

def assignment : Re :=
  .seqs [.alt (.seqs [.textFolded "api", .opt (.one (Re.oneOf "_-")), .textFolded "key"])
      (.alt (.textFolded "token") (.textFolded "secret")),
    .star isspace, .one (Re.oneOf ":="), .star isspace, optional_quote, .atLeast 12 tokenChar,
    optional_quote]

/-- The patterns whose matches have no quote. -/
def unquoted : List Re := SECRET_PATTERNS.take 1 ++ (SECRET_PATTERNS.drop 2).take 2

theorem patterns_split : ∀ r ∈ SECRET_PATTERNS, r ∈ unquoted ∨ r = assignment ∨ r = pem_block := by
  have hsplit : SECRET_PATTERNS = SECRET_PATTERNS.take 1 ++ (assignment ::
      ((SECRET_PATTERNS.drop 2).take 2 ++ [pem_block])) := rfl
  rw [hsplit]
  intro r hr
  simp only [List.mem_append, List.mem_cons, List.not_mem_nil, or_false] at hr
  simp only [unquoted, List.mem_append]
  tauto

theorem unquoted_no_quote : ∀ r ∈ unquoted, r.mentions (CodePoint.ofChar '"') = false := by
  have hall : unquoted.all (fun r => !r.mentions (CodePoint.ofChar '"')) = true := rfl
  intro r hr
  simpa using List.all_eq_true.mp hall r hr

theorem unquoted_needs : ∀ r ∈ unquoted, Needs NoMark r := by
  intro r hr
  simp only [unquoted, SECRET_PATTERNS, List.take, List.drop, List.cons_append, List.nil_append,
    List.mem_cons, List.not_mem_nil, or_false] at hr
  obtain rfl | rfl | rfl := hr
  · -- the k of sk-ant-
    exact .inl (.inr (.inl (noMark_of_eq (by decide))))
  · -- the b of bearer
    exact .inl (.inl (noMark_of_folded (by decide)))
  · -- the K of AKIA
    exact .inl (.inr (.inl (noMark_of_eq (by decide))))

theorem pem_needs : Needs NoMark pem_header ∧ Needs NoMark pem_footer :=
  ⟨.inl (.inr (.inr (.inr (.inr (.inr (.inl (noMark_of_eq (by decide)))))))),
    .inl (.inr (.inr (.inr (.inr (.inr (.inr (.inr (.inl (noMark_of_eq (by decide))))))))))⟩

theorem assigned_needs : Needs NoMark assigned :=
  .inl ⟨.inl (.inr (.inl (noMark_of_folded (by decide)))),
    .inr (.inr (.inl (noMark_of_folded (by decide)))),
    .inr (.inr (.inl (noMark_of_folded (by decide))))⟩

theorem matches_optional_quote {w : PyStr} :
    optional_quote.Matches w ↔ w = [] ∨ w = [CodePoint.ofChar '\''] ∨ w = [CodePoint.ofChar '"'] := by
  constructor
  · rintro (⟨c, rfl, hc⟩ | rfl)
    · have hquotes : lit "'\"" = [CodePoint.ofChar '\'', CodePoint.ofChar '"'] := rfl
      have hmem := List.contains_iff_mem.mp hc
      rw [hquotes, List.mem_cons, List.mem_singleton] at hmem
      obtain rfl | rfl := hmem
      · exact .inr (.inl rfl)
      · exact .inr (.inr rfl)
    · exact .inl rfl
  · rintro (rfl | rfl | rfl)
    · exact .inr rfl
    · exact .inl ⟨_, rfl, by decide⟩
    · exact .inl ⟨_, rfl, by decide⟩

/-- An assignment is a name with its colon, a value, and perhaps quotes. -/
theorem matches_assignment {w : PyStr} :
    assignment.Matches w ↔ ∃ a o v o', w = a ++ (o ++ (v ++ o')) ∧ assigned.Matches a ∧
      optional_quote.Matches o ∧ (Re.atLeast 12 tokenChar).Matches v ∧ optional_quote.Matches o' := by
  constructor
  · rintro ⟨k, _, rfl, hk, s, _, rfl, hs, e, _, rfl, he, s', _, rfl, hs', o, _, rfl, ho, v, o', rfl,
      hv, ho'⟩
    exact ⟨k ++ (s ++ (e ++ s')), o, v, o', by simp, ⟨k, _, rfl, hk, s, _, rfl, hs, e, s', rfl, he, hs'⟩,
      ho, hv, ho'⟩
  · intro h
    obtain ⟨_, o, v, o', rfl, ⟨k, _, rfl, hk, s, _, rfl, hs, e, s', rfl, he, hs'⟩, ho, hv, ho'⟩ := h
    exact ⟨k, s ++ (e ++ (s' ++ (o ++ (v ++ o')))), by simp, hk, s, _, rfl, hs, e, _, rfl, he, s', _,
      rfl, hs', o, _, rfl, ho, v, o', rfl, hv, ho'⟩

/-- The value of an assignment begins with a character of a token. -/
theorem value_head {v : PyStr} (hv : (Re.atLeast 12 tokenChar).Matches v) :
    ∃ d v', v = d :: v' ∧ tokenChar d = true := by
  obtain ⟨_, w, rfl, ⟨_, u, rfl, ⟨d, rfl, hd⟩, -⟩, -⟩ := hv
  exact ⟨d, u ++ w, rfl, hd⟩

theorem not_behind_of_tokenChar {d : CodePoint} (hd : tokenChar d = true) : isBehind d = false := by
  have hall : (lit ",:]\x7d").all (fun c => !tokenChar c) = true := by decide
  by_contra h
  have hmem : d ∈ lit ",:]\x7d" := List.contains_iff_mem.mp (Bool.eq_true_of_not_eq_false h)
  have hno := List.all_eq_true.mp hall d hmem
  rw [hd] at hno
  cases hno

/-! ## Secrets in a JSON text -/

/-- A secret in these strings: a match of one of the first four patterns in
    one of them, or a PEM header with a footer behind it. -/
def Leaks (bodies : List PyStr) : Prop :=
  (∃ b ∈ bodies, ∃ r ∈ SECRET_PATTERNS.take 4, ¬Free r b) ∨
    ∃ header footer, pem_header.Matches header ∧ pem_footer.Matches footer ∧
      InOrder header footer bodies

section woven
variable {t : PyStr} {bodies : List PyStr}

/-- A match without a quote lies in a string. -/
theorem unquoted_in_string (h : JsonWoven t bodies) {r : Re} (hr : r ∈ unquoted) {w : PyStr}
    (hw : w <:+: t) (hmatch : r.Matches w) : ∃ b ∈ bodies, ¬Free r b := by
  obtain ⟨b, hb, hin⟩ := h.infix_of_infix (not_mem_of_mentions hmatch (unquoted_no_quote r hr))
    ((unquoted_needs r hr).exists_mem hmatch) hw
  exact ⟨b, hb, fun hfree => hfree w hin hmatch⟩

/-- So does an assignment, but for the quote it may end in. -/
theorem assignment_in_string (h : JsonWoven t bodies) {w : PyStr} (hw : w <:+: t)
    (hmatch : assignment.Matches w) : ∃ b ∈ bodies, ¬Free assignment b := by
  obtain ⟨a, o, v, o', rfl, ha, ho, hv, -⟩ := matches_assignment.mp hmatch
  obtain ⟨x, y, rfl⟩ := hw
  have hqa := not_mem_of_mentions ha (show assigned.mentions (CodePoint.ofChar '"') = false from rfl)
  have hneeds := assigned_needs.exists_mem ha
  have hqv := not_mem_of_mentions hv
    (show (Re.atLeast 12 tokenChar).mentions (CodePoint.ofChar '"') = false from rfl)
  have hquote : CodePoint.ofChar '"' ∉ o := by
    intro hmem
    rcases matches_optional_quote.mp ho with rfl | rfl | rfl
    · cases hmem
    · exact absurd (List.mem_singleton.mp hmem) (by decide)
    · -- the quote would end the string, and no value follows that
      have hlast : a.getLast? ≠ some (CodePoint.ofChar '\\') := by
        intro hlast
        exact not_mem_of_mentions ha
          (show assigned.mentions (CodePoint.ofChar '\\') = false from rfl)
          (List.mem_of_getLast? hlast)
      obtain ⟨d, v', rfl, hd⟩ := value_head hv
      have hbehind := h.behind_of_quote hqa hneeds hlast
        (x := x) (z := d :: v' ++ (o' ++ y)) (by simp) d rfl
      rw [not_behind_of_tokenChar hd] at hbehind
      cases hbehind
  -- without the quote behind it the match lies within one string
  have hpart : a ++ (o ++ v) <:+: x ++ (a ++ (o ++ (v ++ o'))) ++ y := ⟨x, o' ++ y, by simp⟩
  have hq : CodePoint.ofChar '"' ∉ a ++ (o ++ v) := by
    simp only [List.mem_append, not_or]
    exact ⟨hqa, hquote, hqv⟩
  obtain ⟨c, hc, hmark⟩ := hneeds
  obtain ⟨b, hb, hin⟩ := h.infix_of_infix hq ⟨c, List.mem_append_left _ hc, hmark⟩ hpart
  refine ⟨b, hb, fun hfree => hfree _ hin (matches_assignment.mpr ⟨a, o, v, [], ?_, ha, ho, hv, ?_⟩)⟩
  · rw [List.append_nil]
  · exact matches_optional_quote.mpr (.inl rfl)

/-- **A JSON text shows a secret if and only if its strings do**: none comes
    about where two fields meet, but for PEM blocks. -/
theorem free_iff_not_leaks (h : JsonWoven t bodies) :
    (∀ r ∈ SECRET_PATTERNS, Free r t) ↔ ¬Leaks bodies := by
  constructor
  · rintro hfree (⟨b, hb, r, hr, hno⟩ | ⟨header, footer, hheader, hfooter, hin⟩)
    · exact hno fun w hw => hfree r (List.mem_of_mem_take hr) w (hw.trans (h.infix_of_mem hb))
    · obtain ⟨x, m, y, rfl⟩ := h.of_inOrder hin
      refine hfree pem_block (by simp [SECRET_PATTERNS, pem_block]) (header ++ (m ++ footer)) ?_
        (matches_pem.mpr ⟨header, m, footer, rfl, hheader, hfooter⟩)
      exact ⟨x, y, by simp⟩
  · intro hno r hr w hw hmatch
    apply hno
    -- of the five patterns only `pem_block` can reach across strings
    have hfour : SECRET_PATTERNS.take 4 = SECRET_PATTERNS.take 1 ++
        (assignment :: (SECRET_PATTERNS.drop 2).take 2) := rfl
    rcases patterns_split r hr with hr' | rfl | rfl
    · obtain ⟨b, hb, hleak⟩ := unquoted_in_string h hr' hw hmatch
      have hmem : r ∈ SECRET_PATTERNS.take 4 := by
        rw [hfour, List.mem_append, List.mem_cons]
        exact (List.mem_append.mp hr').imp id .inr
      exact .inl ⟨b, hb, r, hmem, hleak⟩
    · obtain ⟨b, hb, hleak⟩ := assignment_in_string h hw hmatch
      have hmem : assignment ∈ SECRET_PATTERNS.take 4 := by
        rw [hfour]
        exact List.mem_append_right _ List.mem_cons_self
      exact .inl ⟨b, hb, assignment, hmem, hleak⟩
    · obtain ⟨header, m, footer, rfl, hheader, hfooter⟩ := matches_pem.mp hmatch
      obtain ⟨x, y, rfl⟩ := hw
      have hno_header := not_mem_of_mentions hheader
        (show pem_header.mentions (CodePoint.ofChar '"') = false from rfl)
      have hno_footer := not_mem_of_mentions hfooter
        (show pem_footer.mentions (CodePoint.ofChar '"') = false from rfl)
      exact .inr ⟨header, footer, hheader, hfooter, h.inOrder hno_header
        (pem_needs.1.exists_mem hheader) hno_footer (pem_needs.2.exists_mem hfooter)
        (x := x) (m := m) (y := y) (by simp)⟩

end woven

end Syndicate.Server
