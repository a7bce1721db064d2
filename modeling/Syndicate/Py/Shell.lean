import Syndicate.Py.Str

/-! # The words of a shell command

    What a POSIX shell makes of a command of plain and quoted words: the
    arguments of one program.  Anything else (an operator, an expansion, a
    pattern, a comment) is not read here.  What `shlex.quote` makes of a
    string is one word, and that string. -/

namespace Syndicate.Py.Shell

/-- How the shell reads the next character. -/
inductive Mode where
  | plain
  | single
  | double
deriving DecidableEq

def isBlank (c : CodePoint) : Bool := c.val == 0x20 || c.val == 9

/-- The words, with the one that has ended before them. -/
def endWord : Option PyStr → Option (List PyStr) → Option (List PyStr)
  | some w, rest => rest.map (w :: ·)
  | none, rest => rest

/-- `word` is what was read of the present word, if any. -/
def lex : Mode → Option PyStr → PyStr → Option (List PyStr)
  | .plain, word, [] => some word.toList
  | .single, _, [] | .double, _, [] => none
  | .plain, word, c :: s =>
    if c = CodePoint.ofChar '\'' then lex .single (some (word.getD [])) s
    else if c = CodePoint.ofChar '"' then lex .double (some (word.getD [])) s
    else if isBlank c then endWord word (lex .plain none s)
    else if isShellSafe c then lex .plain (some (word.getD [] ++ [c])) s
    else none
  | .single, word, c :: s =>
    if c = CodePoint.ofChar '\'' then lex .plain word s
    else lex .single (some (word.getD [] ++ [c])) s
  | .double, word, c :: s =>
    if c = CodePoint.ofChar '"' then lex .plain word s
    -- expansions and escapes within double quotes are not read
    else if (lit "$`\\!").contains c then none
    else lex .double (some (word.getD [] ++ [c])) s

/-- The words of a command. -/
def words (command : PyStr) : Option (List PyStr) := lex .plain none command

/-! ## Quoted words -/

/-- A quote of a quoted word, and any other character. -/
def quoteChar (c : CodePoint) : PyStr :=
  if c = CodePoint.ofChar '\'' then lit "'\"'\"'" else [c]

theorem lex_safe {c : CodePoint} (h : isShellSafe c = true) (word : Option PyStr) (s : PyStr) :
    lex .plain word (c :: s) = lex .plain (some (word.getD [] ++ [c])) s := by
  have hsafe : ∀ d, isShellSafe d = false → c ≠ d := by
    rintro d hd rfl
    rw [h] at hd
    cases hd
  have hblank : isBlank c = false := by
    have hblanks : [0x20, 9].all (fun n => !isShellSafe (Fin.ofNat 0x110000 n)) = true := by decide
    by_contra hb
    simp only [isBlank, Bool.not_eq_false, Bool.or_eq_true, beq_iff_eq] at hb
    have hmem : c.val ∈ [0x20, 9] := by
      rcases hb with hb | hb <;> simp [hb]
    have hno := List.all_eq_true.mp hblanks c.val hmem
    rw [Fin.ofNat_val_eq_self, h] at hno
    cases hno
  rw [lex, if_neg (hsafe _ (by decide)), if_neg (hsafe _ (by decide)), hblank,
    if_neg Bool.false_ne_true, if_pos h]

theorem lex_safe_word {s : PyStr} (h : s.all isShellSafe = true) (hne : s ≠ [])
    (word : Option PyStr) (rest : PyStr) :
    lex .plain word (s ++ rest) = lex .plain (some (word.getD [] ++ s)) rest := by
  induction s generalizing word with
  | nil => exact absurd rfl hne
  | cons c s ih =>
    rw [List.all_cons, Bool.and_eq_true] at h
    rw [List.cons_append, lex_safe h.1]
    cases s with
    | nil => rfl
    | cons d s =>
      rw [ih h.2 (List.cons_ne_nil d s)]
      simp

theorem lex_single (s word rest : PyStr) :
    lex .single (some word) (s.flatMap quoteChar ++ CodePoint.ofChar '\'' :: rest) =
      lex .plain (some (word ++ s)) rest := by
  induction s generalizing word with
  | nil =>
    rw [List.append_nil]
    rfl
  | cons c s ih =>
    rw [List.flatMap_cons, List.append_assoc]
    by_cases hc : c = CodePoint.ofChar '\''
    · -- the quote is left, written in double quotes, and entered again
      subst hc
      have hquote : quoteChar (CodePoint.ofChar '\'') = lit "'\"'\"'" := by decide
      have hstep : ∀ t, lex .single (some word) (lit "'\"'\"'" ++ t) =
          lex .single (some (word ++ [CodePoint.ofChar '\''])) t := fun t => rfl
      rw [hquote, hstep, ih]
      simp
    · rw [quoteChar, if_neg hc, List.singleton_append, lex, if_neg hc]
      show lex .single (some (word ++ [c])) _ = _
      rw [ih]
      simp

/-- A quoted string is read as that string, whatever was read before. -/
theorem lex_quote (s : PyStr) (word : Option PyStr) (rest : PyStr) :
    lex .plain word (shlex_quote s ++ rest) = lex .plain (some (word.getD [] ++ s)) rest := by
  unfold shlex_quote
  by_cases hempty : s.isEmpty = true
  · obtain rfl := List.isEmpty_iff.mp hempty
    rw [if_pos hempty, List.append_nil]
    rfl
  · rw [if_neg hempty]
    by_cases hsafe : s.all isShellSafe = true
    · rw [if_pos hsafe]
      have hne : s ≠ [] := by
        rintro rfl
        exact hempty rfl
      exact lex_safe_word hsafe hne word rest
    · rw [if_neg hsafe]
      show lex .single (some (word.getD [])) (s.flatMap quoteChar ++ lit "'" ++ rest) = _
      rw [List.append_assoc]
      exact lex_single s _ rest

theorem lex_quote_end (s : PyStr) : lex .plain none (shlex_quote s) = some [s] := by
  have h := lex_quote s none []
  rw [List.append_nil] at h
  exact h

theorem lex_quote_blank (s rest : PyStr) :
    lex .plain none (shlex_quote s ++ CodePoint.ofChar ' ' :: rest) =
      (lex .plain none rest).map (s :: ·) := by
  rw [lex_quote]
  rfl

/-- **What `shlex.quote` makes of strings are the words of a command**: no
    string is taken apart, and none is read as anything else. -/
theorem lex_quoted (ss : List PyStr) :
    lex .plain none (join (lit " ") (ss.map shlex_quote)) = some ss := by
  induction ss with
  | nil => rfl
  | cons s ss ih =>
    cases ss with
    | nil =>
      rw [List.map_singleton, join, List.intercalate_singleton]
      exact lex_quote_end s
    | cons s' ss =>
      have hsplit : join (lit " ") ((s :: s' :: ss).map shlex_quote) =
          shlex_quote s ++ CodePoint.ofChar ' ' :: join (lit " ") ((s' :: ss).map shlex_quote) := by
        rw [List.map_cons, List.map_cons, join, List.intercalate_cons_cons, List.append_assoc]
        rfl
      rw [hsplit, lex_quote_blank, ih]
      rfl

end Syndicate.Py.Shell
