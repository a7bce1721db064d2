import Syndicate.Server.Events

/-! # What redaction replaces

    `redact_text` on marked characters: each replacement remembers what it
    stands for.  So the text that was matched, and the text that no match
    takes in, can be told apart in what is shown. -/

namespace Syndicate.Server

open Py Py.Re

/-! ## What `redact_text` replaces -/

/-- A character of a text that is being redacted. -/
structure Mark where
  char : CodePoint
  /-- What a replacement stands for, at its first character; none where the
      character is the text's own. -/
  was : Option PyStr

/-- A character of the text's own. -/
def own (c : CodePoint) : Mark := ⟨c, none⟩

/-- The part of the text that a character stands for. -/
def Mark.source (m : Mark) : PyStr := m.was.getD [m.char]

/-- A replacement of `orig`. -/
def stamp (orig : PyStr) : PyStr → List Mark
  | [] => []
  | c :: cs => ⟨c, some orig⟩ :: cs.map fun c => ⟨c, some []⟩

/-- `Re.subLoop` on marked characters. -/
def mark_loop (r : Re) (repl : PyStr) : Nat → List Mark → List Mark
  | _, [] => []
  | skip + 1, _ :: s => mark_loop r repl skip s
  | 0, m :: s =>
    match r.matchHere ((m :: s).map Mark.char) with
    | some rest =>
      if rest.length ≤ s.length then
        stamp (((m :: s).take (s.length - rest.length + 1)).flatMap Mark.source) repl ++
          mark_loop r repl (s.length - rest.length) s
      else m :: mark_loop r repl 0 s
    | none => m :: mark_loop r repl 0 s

/-- `redact_text`, with what each replacement replaced. -/
def redact_marks (text : PyStr) : List Mark :=
  SECRET_PATTERNS.foldl (fun marks pattern => mark_loop pattern REDACTED 0 marks)
    (text.map own)

theorem map_own_char (s : PyStr) : (s.map own).map Mark.char = s := by
  simp [own, Function.comp_def]

theorem stamp_char (orig repl : PyStr) : (stamp orig repl).map Mark.char = repl := by
  cases repl with
  | nil => rfl
  | cons c cs => simp [stamp, Function.comp_def]

theorem stamp_source {orig repl : PyStr} (h : repl ≠ []) :
    (stamp orig repl).flatMap Mark.source = orig := by
  cases repl with
  | nil => exact absurd rfl h
  | cons c cs =>
    have hrest : (cs.map fun c => (⟨c, some []⟩ : Mark)).flatMap Mark.source = [] := by
      rw [List.flatMap_map]
      exact List.flatMap_eq_nil_iff.mpr fun _ _ => rfl
    rw [stamp, List.flatMap_cons, hrest, List.append_nil]
    rfl

/-- The marks are those of the substitution. -/
theorem mark_loop_char (r : Re) (repl : PyStr) (skip : Nat) (ms : List Mark) :
    (mark_loop r repl skip ms).map Mark.char = subLoop r repl skip (ms.map Mark.char) := by
  induction ms generalizing skip with
  | nil => simp [mark_loop, subLoop]
  | cons m s ih =>
    cases skip with
    | succ skip => exact ih skip
    | zero =>
      rw [mark_loop, List.map_cons, subLoop]
      cases r.matchHere (m.char :: s.map Mark.char) with
      | none => simp only [List.map_cons, ih]
      | some rest =>
        simp only [List.length_map]
        by_cases hle : rest.length ≤ s.length
        · simp only [hle, if_true, List.map_append, stamp_char, ih]
        · simp only [hle, if_false, List.map_cons, ih]

/-- No part of the text is lost. -/
theorem mark_loop_source (r : Re) {repl : PyStr} (hrepl : repl ≠ []) (skip : Nat) (ms : List Mark) :
    (mark_loop r repl skip ms).flatMap Mark.source = (ms.drop skip).flatMap Mark.source := by
  induction ms generalizing skip with
  | nil => simp [mark_loop]
  | cons m s ih =>
    cases skip with
    | succ skip => exact ih skip
    | zero =>
      have hkeep : (m :: mark_loop r repl 0 s).flatMap Mark.source = (m :: s).flatMap Mark.source := by
        rw [List.flatMap_cons, ih 0, List.drop_zero, List.flatMap_cons]
      rw [mark_loop, List.drop_zero]
      cases r.matchHere ((m :: s).map Mark.char) with
      | none => exact hkeep
      | some rest =>
        by_cases hle : rest.length ≤ s.length
        · simp only [hle, if_true]
          rw [List.flatMap_append, stamp_source hrepl, ih, ← List.flatMap_append]
          exact congrArg (List.flatMap Mark.source)
            (List.take_append_drop (s.length - rest.length + 1) (m :: s))
        · simp only [hle, if_false]
          exact hkeep

theorem redact_marks_char (text : PyStr) : (redact_marks text).map Mark.char = redact_text text := by
  unfold redact_marks redact_text
  have hstart := map_own_char text
  generalize text.map own = marks at hstart
  induction SECRET_PATTERNS generalizing marks text with
  | nil => exact hstart
  | cons r patterns ih =>
    apply ih
    rw [mark_loop_char, hstart]
    rfl

theorem redact_marks_source (text : PyStr) : (redact_marks text).flatMap Mark.source = text := by
  unfold redact_marks
  have hstart : (text.map own).flatMap Mark.source = text := by
    rw [List.flatMap_map]
    exact List.flatMap_singleton' text
  generalize text.map own = marks at hstart
  induction SECRET_PATTERNS generalizing marks with
  | nil => exact hstart
  | cons r patterns ih =>
    apply ih
    rw [mark_loop_source r (by decide), List.drop_zero, hstart]

/-- `m` is a maximal part of the text that `redact_text` replaces. -/
def Replaced (text m : PyStr) : Prop :=
  ∃ pre mid post, redact_marks text = pre ++ mid ++ post ∧ (∀ x ∈ mid, x.was.isSome = true) ∧
    (∀ x ∈ pre.getLast?, x.was = none) ∧ (∀ x ∈ post.head?, x.was = none) ∧
    m = mid.flatMap Mark.source

theorem Replaced.occurs {text m : PyStr} (h : Replaced text m) : m <:+: text := by
  obtain ⟨pre, mid, post, hmarks, -, -, -, rfl⟩ := h
  refine ⟨pre.flatMap Mark.source, post.flatMap Mark.source, ?_⟩
  rw [← List.flatMap_append, ← List.flatMap_append, ← hmarks]
  exact redact_marks_source text

/-- `w` is a piece of what redaction hides in the text. -/
def Hides (text w : PyStr) : Prop :=
  ∃ m, Replaced text m ∧ w <:+: m ∧ 12 ≤ w.length ∧ ¬w <:+: redact_text text

theorem Hides.length {text w : PyStr} (h : Hides text w) : 12 ≤ w.length := by
  obtain ⟨-, -, -, hlong, -⟩ := h
  exact hlong

/-! ## Pieces of a shown text -/

/-- `w` stands in the text, and no match takes in any of it. -/
def Untouched (marks : List Mark) (w : PyStr) : Prop := w.map own <:+: marks

/-- `w` is read off a replacement, or off a replacement and what is beside
    it. -/
def Mixed (marks : List Mark) (w : PyStr) : Prop :=
  ∃ run, run <:+: marks ∧ run.map Mark.char = w ∧ ∃ m ∈ run, m.was.isSome = true

theorem map_own_of_none {run : List Mark} (h : ∀ m ∈ run, m.was = none) :
    (run.map Mark.char).map own = run := by
  rw [List.map_map]
  conv_rhs => rw [← List.map_id run]
  apply List.map_congr_left
  intro m hm
  show (⟨m.char, none⟩ : Mark) = m
  rw [← h m hm]

/-- What is shown is the text's own, or not only. -/
theorem shown_iff {marks : List Mark} {w : PyStr} :
    w <:+: marks.map Mark.char ↔ Untouched marks w ∨ Mixed marks w := by
  constructor
  · intro ⟨a, b, h⟩
    obtain ⟨front, back, rfl, hfront, -⟩ := List.map_eq_append_iff.mp h.symm
    obtain ⟨start, run, rfl, -, hrun⟩ := List.map_eq_append_iff.mp hfront
    have hpart : run <:+: start ++ run ++ back := ⟨start, back, rfl⟩
    by_cases hnone : ∀ m ∈ run, m.was = none
    · left
      rw [Untouched, ← hrun, map_own_of_none hnone]
      exact hpart
    · right
      push Not at hnone
      obtain ⟨m, hm, hwas⟩ := hnone
      exact ⟨run, hpart, hrun, m, hm, Option.isSome_iff_ne_none.mpr hwas⟩
  · rintro (h | ⟨run, h, rfl, -⟩)
    · have hmap := h.map Mark.char
      rwa [map_own_char] at hmap
    · exact h.map Mark.char

/-! ## The text as it was written -/

/-- A character of a text before it is redacted, and whether a match takes it
    in. -/
structure Letter where
  char : CodePoint
  matched : Bool

def Mark.written (m : Mark) : List Letter := m.source.map fun c => ⟨c, m.was.isSome⟩

/-- What the marks stand for. -/
def written (marks : List Mark) : List Letter := marks.flatMap Mark.written

/-- Some match takes in a part of `w` wherever it stands. -/
def Met (text : List Letter) (w : PyStr) : Prop :=
  ∀ run, run <:+: text → run.map Letter.char = w → ∃ c ∈ run, c.matched = true

theorem written_char (marks : List Mark) :
    (written marks).map Letter.char = marks.flatMap Mark.source := by
  rw [written, List.map_flatMap]
  congr 1
  funext m
  rw [Mark.written, List.map_map]
  exact List.map_id _

/-- The text is all there. -/
theorem written_redact_marks (text : PyStr) :
    (written (redact_marks text)).map Letter.char = text := by
  rw [written_char, redact_marks_source]

theorem written_own (w : PyStr) : written (w.map own) = w.map fun c => ⟨c, false⟩ := by
  rw [written, List.flatMap_map, List.map_eq_flatMap]
  rfl

/-- A mark that stands for nothing is not the first of its replacement.
    `replaced` tells it of the mark before. -/
def Spaced : Bool → List Mark → Prop
  | _, [] => True
  | replaced, m :: ms => (m.source = [] → replaced = true) ∧ Spaced m.was.isSome ms

section spaced
variable {replaced : Bool} {m : Mark} {ms : List Mark}

theorem Mark.was_of_source (h : m.source = []) : m.was = some [] := by
  obtain ⟨c, was⟩ := m
  match was with
  | none => exact absurd h (List.cons_ne_nil c [])
  | some orig => exact congrArg some h

theorem Spaced.mono (h : Spaced replaced ms) : Spaced true ms := by
  match ms with
  | [] => trivial
  | m :: ms => exact ⟨fun _ => rfl, h.2⟩

theorem Spaced.drop (n : Nat) (h : Spaced replaced ms) : Spaced true (ms.drop n) := by
  induction ms generalizing replaced n with
  | nil => simp [Spaced]
  | cons m ms ih =>
    match n with
    | 0 => exact h.mono
    | n + 1 => exact ih n h.2

theorem Spaced.front {front back : List Mark} (h : Spaced replaced (front ++ back)) :
    Spaced replaced front := by
  induction front generalizing replaced with
  | nil => trivial
  | cons m front ih => exact ⟨h.1, ih h.2⟩

theorem spaced_own (s : PyStr) (hms : ∀ replaced, Spaced replaced ms) (replaced : Bool) :
    Spaced replaced (s.map own ++ ms) := by
  induction s generalizing replaced with
  | nil => exact hms replaced
  | cons c s ih => exact ⟨fun h => absurd h (List.cons_ne_nil c []), ih false⟩

theorem spaced_text (s : PyStr) (replaced : Bool) : Spaced replaced (s.map own) := by
  have h := @spaced_own [] s (fun _ => trivial) replaced
  rwa [List.append_nil] at h

/-- Copies of a mark: the first stands for something, or follows one that is
    replaced with it. -/
theorem spaced_copies (c : CodePoint) (chars : PyStr) {was : Option PyStr}
    (hwas : was = some [] → replaced = true) (hms : Spaced was.isSome ms) :
    Spaced replaced ((c :: chars).map (fun c => (⟨c, was⟩ : Mark)) ++ ms) := by
  induction chars generalizing replaced c with
  | nil => exact ⟨fun h => hwas (Mark.was_of_source h), hms⟩
  | cons d chars ih =>
    exact ⟨fun h => hwas (Mark.was_of_source h), ih d fun h => by rw [h]; rfl⟩

theorem spaced_json {rest : List Mark} (h : Spaced replaced ms)
    (hrest : ∀ replaced, Spaced replaced rest) :
    Spaced replaced (ms.flatMap (fun m => (jsonChar m.char).map fun c => ⟨c, m.was⟩) ++ rest) := by
  induction ms generalizing replaced with
  | nil => exact hrest replaced
  | cons m ms ih =>
    rw [List.flatMap_cons, List.append_assoc]
    match hchars : jsonChar m.char with
    | [] => exact absurd hchars (jsonChar_ne_nil m.char)
    | c :: chars => exact spaced_copies c chars (fun hwas => h.1 (by rw [Mark.source, hwas]; rfl)) (ih h.2)

theorem spaced_mark_loop (r : Re) (skip : Nat) (h : Spaced replaced (ms.drop skip)) :
    Spaced replaced (mark_loop r REDACTED skip ms) := by
  induction ms generalizing replaced skip with
  | nil => simp [mark_loop, Spaced]
  | cons m s ih =>
    match skip with
    | skip + 1 => exact ih skip h
    | 0 =>
      have hkeep : Spaced replaced (m :: mark_loop r REDACTED 0 s) := ⟨h.1, ih 0 h.2⟩
      rw [mark_loop]
      split
      · split
        -- a replacement that stands for nothing begins with a mark that does
        · refine ⟨?_, ?_⟩
          · intro hnone
            rw [Mark.source, Option.getD_some, List.take_succ_cons, List.flatMap_cons] at hnone
            exact h.1 (List.append_eq_nil_iff.mp hnone).1
          · exact spaced_copies (CodePoint.ofChar 'R') _ (fun _ => rfl) (ih _ (h.2.drop _))
        · exact hkeep
      · exact hkeep

theorem spaced_redact_marks (text : PyStr) (replaced : Bool) :
    Spaced replaced (redact_marks text) := by
  have hstart := spaced_text text replaced
  unfold redact_marks
  generalize text.map own = marks at hstart
  induction SECRET_PATTERNS generalizing marks with
  | nil => exact hstart
  | cons r patterns ih => exact ih _ (spaced_mark_loop r 0 hstart)

/-- What no match takes in and follows on a character of the text's own are
    the next marks. -/
theorem own_next {run : List Letter} (hms : Spaced false ms) (hfree : ∀ c ∈ run, c.matched = false)
    (h : run <+: written ms) : (run.map Letter.char).map own <+: ms := by
  induction ms generalizing run with
  | nil =>
    rw [List.prefix_nil.mp h]
    exact List.nil_prefix
  | cons m ms ih =>
    match run with
    | [] => exact List.nil_prefix
    | c :: run =>
      have hc := hfree c List.mem_cons_self
      obtain ⟨char, was⟩ := m
      match was with
      | none =>
        obtain ⟨rfl, hrun⟩ := List.cons_prefix_cons.mp (show c :: run <+: ⟨char, false⟩ :: written ms from h)
        exact List.cons_prefix_cons.mpr
          ⟨rfl, ih hms.2 (fun x hx => hfree x (List.mem_cons_of_mem _ hx)) hrun⟩
      | some [] => exact absurd (hms.1 rfl) Bool.false_ne_true
      | some (d :: orig) =>
        obtain ⟨rfl, -⟩ := List.cons_prefix_cons.mp
          (show c :: run <+: ⟨d, true⟩ :: (orig.map (fun e => (⟨e, true⟩ : Letter)) ++ written ms) from h)
        cases hc

/-- A match that takes in none of a run ends before it. -/
theorem infix_behind {run rest : List Letter} (hfree : ∀ c ∈ run, c.matched = false) (hne : run ≠ [])
    (orig : PyStr) (h : run <:+: orig.map (fun c => (⟨c, true⟩ : Letter)) ++ rest) : run <:+: rest := by
  induction orig with
  | nil => exact h
  | cons d orig ih =>
    rcases List.infix_cons_iff.mp h with hnext | h
    · match run with
      | c :: run =>
        obtain ⟨rfl, -⟩ := List.cons_prefix_cons.mp hnext
        exact absurd (hfree _ List.mem_cons_self) Bool.true_eq_false.mp
    · exact ih h

theorem own_run {run : List Letter} (hms : Spaced replaced ms) (hfree : ∀ c ∈ run, c.matched = false)
    (hne : run ≠ []) (h : run <:+: written ms) : (run.map Letter.char).map own <:+: ms := by
  induction ms generalizing replaced with
  | nil => exact absurd (List.infix_nil.mp h) hne
  | cons m ms ih =>
    obtain ⟨char, was⟩ := m
    match was with
    | none =>
      rcases List.infix_cons_iff.mp (show run <:+: ⟨char, false⟩ :: written ms from h) with hnext | h
      · have hown : Spaced false (⟨char, none⟩ :: ms) :=
          ⟨fun h => absurd h (List.cons_ne_nil char []), hms.2⟩
        exact (own_next hown hfree hnext).isInfix
      · exact List.infix_cons (ih hms.2 h)
    | some orig => exact List.infix_cons (ih hms.2 (infix_behind hfree hne orig h))

/-- **A piece is met wherever it stands** exactly if nowhere it is left as it
    is. -/
theorem met_iff (hms : Spaced replaced ms) {w : PyStr} (hne : w ≠ []) :
    Met (written ms) w ↔ ¬Untouched ms w := by
  constructor
  · intro hmet ⟨a, b, h⟩
    have hrun : (w.map fun c => (⟨c, false⟩ : Letter)) <:+: written ms := by
      refine ⟨written a, written b, ?_⟩
      rw [← h, ← written_own]
      simp only [written, List.flatMap_append]
    obtain ⟨c, hc, hmatched⟩ := hmet _ hrun (by rw [List.map_map]; exact List.map_id _)
    obtain ⟨d, -, rfl⟩ := List.mem_map.mp hc
    cases hmatched
  · intro huntouched run hrun hw
    by_contra hfree
    have hfree : ∀ c ∈ run, c.matched = false :=
      fun c hc => Bool.eq_false_of_not_eq_true fun h => hfree ⟨c, hc, h⟩
    refine huntouched ?_
    rw [Untouched, ← hw]
    refine own_run hms hfree ?_ hrun
    rintro rfl
    exact hne hw.symm

end spaced

/-! ## Brackets

    Between two brackets the characters are all the text's own, or they are
    what is left of one `[REDACTED]`, eight at most. -/

def IsBracket (c : CodePoint) : Prop := c = CodePoint.ofChar '[' ∨ c = CodePoint.ofChar ']'

instance (c : CodePoint) : Decidable (IsBracket c) := inferInstanceAs (Decidable (_ ∨ _))

/-- Where a text stands: `none` behind a character of its own, `some k` behind
    `k` characters of a replacement since the last bracket. -/
def bracket_step (place : Option Nat) (m : Mark) : Option (Option Nat) :=
  if IsBracket m.char then some (some 0)
  else match m.was, place with
    | none, none | none, some 0 => some none
    | some _, some k => if k < 8 ∧ jsonChar m.char = [m.char] then some (some (k + 1)) else none
    | _, _ => none

/-- Brackets set replacements apart. -/
def Bracketed : Option Nat → List Mark → Prop
  | place, [] => place = none ∨ place = some 0
  | place, m :: ms => ∃ next, bracket_step place m = some next ∧ Bracketed next ms

section bracketed
variable {place next : Option Nat} {m : Mark} {ms : List Mark}

theorem step_bracket (h : IsBracket m.char) : bracket_step place m = some (some 0) := if_pos h

theorem step_own (h : ¬IsBracket m.char) (hwas : m.was = none) :
    bracket_step place m = some next ↔ (place = none ∨ place = some 0) ∧ next = none := by
  unfold bracket_step
  rw [if_neg h, hwas]
  match place with
  | none => simp [eq_comm]
  | some 0 => simp [eq_comm]
  | some (k + 1) => simp

theorem step_replaced (h : ¬IsBracket m.char) {orig : PyStr} (hwas : m.was = some orig) :
    bracket_step place m = some next ↔
      ∃ k, place = some k ∧ k < 8 ∧ jsonChar m.char = [m.char] ∧ next = some (k + 1) := by
  unfold bracket_step
  rw [if_neg h, hwas]
  match place with
  | none => simp
  | some k =>
    by_cases hk : k < 8 ∧ jsonChar m.char = [m.char]
    · simp [hk, eq_comm]
    · simp only [if_neg hk]
      simpa using fun hlt hchar => absurd ⟨hlt, hchar⟩ hk

theorem bracketed_fewer {j k : Nat} (hle : j ≤ k) (h : Bracketed (some (k + 1)) ms) :
    Bracketed (some (j + 1)) ms := by
  induction ms generalizing j k with
  | nil => simp [Bracketed] at h
  | cons m ms ih =>
    obtain ⟨next, hstep, hrest⟩ := h
    by_cases hb : IsBracket m.char
    · rw [step_bracket hb] at hstep
      exact ⟨next, by rw [step_bracket hb, hstep], hrest⟩
    · match hwas : m.was with
      | none => simpa using (step_own hb hwas).mp hstep
      | some orig =>
        obtain ⟨k', hk, hlt, hchar, rfl⟩ := (step_replaced hb hwas).mp hstep
        obtain rfl := Option.some.inj hk
        exact ⟨_, (step_replaced hb hwas).mpr ⟨j + 1, rfl, by omega, hchar, rfl⟩, ih (by omega) hrest⟩

/-- Behind a bracket, everything may follow that follows elsewhere. -/
theorem bracketed_fresh (h : Bracketed place ms) : Bracketed (some 0) ms := by
  match ms with
  | [] => exact Or.inr rfl
  | m :: ms =>
    obtain ⟨next, hstep, hrest⟩ := h
    by_cases hb : IsBracket m.char
    · rw [step_bracket hb] at hstep
      exact ⟨next, by rw [step_bracket hb, hstep], hrest⟩
    · match hwas : m.was with
      | none =>
        obtain ⟨-, rfl⟩ := (step_own hb hwas).mp hstep
        exact ⟨none, (step_own hb hwas).mpr ⟨Or.inr rfl, rfl⟩, hrest⟩
      | some orig =>
        obtain ⟨k, rfl, hlt, hchar, rfl⟩ := (step_replaced hb hwas).mp hstep
        exact ⟨_, (step_replaced hb hwas).mpr ⟨0, rfl, by omega, hchar, rfl⟩,
          bracketed_fewer (Nat.zero_le k) hrest⟩

theorem bracketed_drop (n : Nat) (h : Bracketed place ms) : Bracketed (some 0) (ms.drop n) := by
  induction ms generalizing place n with
  | nil => simp [Bracketed]
  | cons m ms ih =>
    match n with
    | 0 => exact bracketed_fresh h
    | n + 1 =>
      obtain ⟨next, -, hrest⟩ := h
      exact ih n hrest

/-- Texts of their own hold no replacement, and more may follow. -/
theorem bracketed_own (s : PyStr) (hms : Bracketed none ms) (hplace : place = none ∨ place = some 0) :
    Bracketed place (s.map own ++ ms) := by
  induction s generalizing place with
  | nil =>
    rcases hplace with rfl | rfl
    · exact hms
    · exact bracketed_fresh hms
  | cons c s ih =>
    by_cases hb : IsBracket c
    · exact ⟨some 0, step_bracket hb, ih (Or.inr rfl)⟩
    · exact ⟨none, (step_own hb rfl).mpr ⟨hplace, rfl⟩, ih (Or.inl rfl)⟩

theorem bracketed_text (s : PyStr) : Bracketed none (s.map own) := by
  have h := bracketed_own s (show Bracketed none [] from Or.inl rfl) (Or.inl rfl)
  rwa [List.append_nil] at h

theorem bracketed_stamp (orig : PyStr) (h : Bracketed (some 0) ms) :
    Bracketed place (stamp orig REDACTED ++ ms) := by
  have hletters : ∀ (k : Nat) (s : PyStr), s.length + k ≤ 8 →
      (∀ c ∈ s, ¬IsBracket c ∧ jsonChar c = [c]) →
      Bracketed (some k) (s.map (fun c => (⟨c, some []⟩ : Mark)) ++ ⟨CodePoint.ofChar ']', some []⟩ :: ms) := by
    intro k s
    induction s generalizing k with
    | nil => exact fun _ _ => ⟨some 0, step_bracket (Or.inr rfl), h⟩
    | cons c s ih =>
      intro hlen hs
      obtain ⟨hb, hchar⟩ := hs c List.mem_cons_self
      rw [List.length_cons] at hlen
      exact ⟨some (k + 1), (step_replaced hb rfl).mpr ⟨k, rfl, by omega, hchar, rfl⟩,
        ih (k + 1) (by omega) fun d hd => hs d (List.mem_cons_of_mem c hd)⟩
  have hsplit : stamp orig REDACTED ++ ms = ⟨CodePoint.ofChar '[', some orig⟩ ::
      ((lit "REDACTED").map (fun c => (⟨c, some []⟩ : Mark)) ++ ⟨CodePoint.ofChar ']', some []⟩ :: ms) := rfl
  have hplain : (lit "REDACTED").all (fun c => decide (¬IsBracket c) && jsonChar c == [c]) = true := by
    decide
  rw [hsplit]
  refine ⟨some 0, step_bracket (Or.inl rfl), hletters 0 (lit "REDACTED") (by decide) ?_⟩
  intro c hc
  simpa using List.all_eq_true.mp hplain c hc

theorem bracketed_mark_loop (r : Re) (skip : Nat) (h : Bracketed place (ms.drop skip)) :
    Bracketed place (mark_loop r REDACTED skip ms) := by
  induction ms generalizing place skip with
  | nil => simpa [mark_loop] using h
  | cons m s ih =>
    match skip with
    | skip + 1 => exact ih skip h
    | 0 =>
      have hkeep : Bracketed place (m :: mark_loop r REDACTED 0 s) := by
        obtain ⟨next, hstep, hrest⟩ := h
        exact ⟨next, hstep, ih 0 hrest⟩
      rw [mark_loop]
      split
      · split
        · apply bracketed_stamp
          apply ih
          obtain ⟨next, -, hrest⟩ := h
          exact bracketed_drop _ hrest
        · exact hkeep
      · exact hkeep

theorem bracketed_redact_marks (text : PyStr) : Bracketed none (redact_marks text) := by
  have hstart := bracketed_text text
  unfold redact_marks
  generalize text.map own = marks at hstart
  induction SECRET_PATTERNS generalizing marks with
  | nil => exact hstart
  | cons r patterns ih => exact ih _ (bracketed_mark_loop r 0 hstart)

/-- The brackets of a text are those of its JSON. -/
theorem bracketed_json {rest : List Mark} (h : Bracketed place ms) (hrest : Bracketed none rest) :
    Bracketed place (ms.flatMap (fun m => (jsonChar m.char).map fun c => ⟨c, m.was⟩) ++ rest) := by
  induction ms generalizing place with
  | nil =>
    rcases h with rfl | rfl
    · exact hrest
    · exact bracketed_fresh hrest
  | cons m ms ih =>
    obtain ⟨next, hstep, hlater⟩ := h
    have ih := ih hlater
    rw [List.flatMap_cons, List.append_assoc]
    -- a character that is written as it is
    have hsame : jsonChar m.char = [m.char] → Bracketed place
        ((jsonChar m.char).map (fun c => (⟨c, m.was⟩ : Mark)) ++
          (ms.flatMap (fun m => (jsonChar m.char).map fun c => ⟨c, m.was⟩) ++ rest)) := by
      intro hchar
      rw [hchar]
      exact ⟨next, hstep, ih⟩
    by_cases hb : IsBracket m.char
    · apply hsame
      rcases hb with hb | hb
      · rw [hb]
        decide
      · rw [hb]
        decide
    · match hwas : m.was with
      | none =>
        obtain ⟨hplace, rfl⟩ := (step_own hb hwas).mp hstep
        exact bracketed_own (jsonChar m.char) ih hplace
      | some orig =>
        obtain ⟨-, -, -, hchar, -⟩ := (step_replaced hb hwas).mp hstep
        rw [hwas] at hsame
        exact hsame hchar

/-- A replacement has eight characters between its brackets. -/
theorem bracketed_replaced {k : Nat} (hk : k + 1 ≤ 8) {run rest : List Mark}
    (h : Bracketed (some (k + 1)) (run ++ rest)) (hfree : ∀ m ∈ run, ¬IsBracket m.char) :
    k + 1 + run.length ≤ 8 := by
  induction run generalizing k with
  | nil => exact hk
  | cons m run ih =>
    obtain ⟨next, hstep, hrest⟩ := h
    have hb := hfree m List.mem_cons_self
    match hwas : m.was with
    | none => simpa using (step_own hb hwas).mp hstep
    | some orig =>
      obtain ⟨k', hk', hlt, -, rfl⟩ := (step_replaced hb hwas).mp hstep
      obtain rfl := Option.some.inj hk'
      have hlength := ih (by omega) hrest fun x hx => hfree x (List.mem_cons_of_mem m hx)
      rw [List.length_cons]
      omega

/-- More than eight characters without a bracket are all the text's own. -/
theorem bracketed_run {run rest : List Mark} (h : Bracketed place (run ++ rest))
    (hfree : ∀ m ∈ run, ¬IsBracket m.char) (hlong : 8 < run.length) : ∀ m ∈ run, m.was = none := by
  have hown : ∀ (run : List Mark), Bracketed none (run ++ rest) → (∀ m ∈ run, ¬IsBracket m.char) →
      ∀ m ∈ run, m.was = none := by
    intro run
    induction run with
    | nil => simp
    | cons m run ih =>
      intro h hfree
      obtain ⟨next, hstep, hrest⟩ := h
      have hb := hfree m List.mem_cons_self
      match hwas : m.was with
      | none =>
        obtain ⟨-, rfl⟩ := (step_own hb hwas).mp hstep
        exact List.forall_mem_cons.mpr
          ⟨hwas, ih hrest fun x hx => hfree x (List.mem_cons_of_mem m hx)⟩
      | some orig => simpa using (step_replaced hb hwas).mp hstep
  match place, run with
  | none, run => exact hown run h hfree
  | some k, [] => simp
  | some k, m :: run =>
    obtain ⟨next, hstep, hrest⟩ := h
    have hb := hfree m List.mem_cons_self
    have hrunfree : ∀ x ∈ run, ¬IsBracket x.char := fun x hx => hfree x (List.mem_cons_of_mem m hx)
    match hwas : m.was with
    | none =>
      obtain ⟨-, rfl⟩ := (step_own hb hwas).mp hstep
      exact List.forall_mem_cons.mpr ⟨hwas, hown run hrest hrunfree⟩
    | some orig =>
      -- the replacement would be too long
      obtain ⟨k', hk', hlt, -, rfl⟩ := (step_replaced hb hwas).mp hstep
      have hlength := bracketed_replaced (by omega) hrest hrunfree
      rw [List.length_cons] at hlong
      omega

theorem bracketed_suffix {front : List Mark} (h : Bracketed place (front ++ ms)) :
    ∃ place, Bracketed place ms := by
  induction front generalizing place with
  | nil => exact ⟨place, h⟩
  | cons m front ih =>
    obtain ⟨next, -, hrest⟩ := h
    exact ih hrest

/-- **What is mixed has a bracket**: twelve characters are more than a
    replacement has between its brackets. -/
theorem Mixed.bracket {marks : List Mark} (hmarks : Bracketed place marks) {shown : List Mark}
    (hshown : shown <+: marks) {w : PyStr} (h : Mixed shown w) (hlong : 8 < w.length) :
    ∃ c ∈ w, IsBracket c := by
  obtain ⟨run, hrun, rfl, m, hm, hwas⟩ := h
  by_contra hfree
  have hfree : ∀ m ∈ run, ¬IsBracket m.char :=
    fun m hm hb => hfree ⟨m.char, List.mem_map_of_mem hm, hb⟩
  obtain ⟨front, back, rfl⟩ := hrun
  obtain ⟨rest, rfl⟩ := hshown
  rw [List.append_assoc, List.append_assoc] at hmarks
  obtain ⟨place, hmarks⟩ := bracketed_suffix hmarks
  have hnone := bracketed_run hmarks hfree (by simpa using hlong) m hm
  rw [hnone] at hwas
  cases hwas

end bracketed

end Syndicate.Server
