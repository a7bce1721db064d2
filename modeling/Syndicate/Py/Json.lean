import Syndicate.Py.Value

/-! # JSON texts

    A text is a sequence of tokens: `Token.render` writes one as
    `json.dumps` does, and `lex` reads the tokens of any text, by RFC 8259.
    `loads` reads a value from them. -/

namespace Syndicate.Py

namespace Json

inductive Token where
  | open_object
  | close_object
  | open_array
  | close_array
  | comma
  | colon
  | string (s : PyStr)
  | number (text : PyStr)
  /-- `null`, `true`, `false`, and what Python writes for a special float. -/
  | word (text : PyStr)
deriving DecidableEq

namespace Token

/-- The text of a token, with the blanks of the default separators. -/
def render : Token → PyStr
  | open_object => lit "\x7b"
  | close_object => lit "\x7d"
  | open_array => lit "["
  | close_array => lit "]"
  | comma => lit ", "
  | colon => lit ": "
  | string s => jsonString s
  | number text => text
  | word text => text

/-- The token of a float. -/
def ofFloat (r : FloatRepr) : Token :=
  if r.text ∈ special_floats then word (jsonFloat r.text) else number r.text

end Token

/-- The text of a sequence of tokens. -/
def render (ts : List Token) : PyStr := ts.flatMap Token.render

@[simp] theorem render_nil : render [] = [] := rfl

@[simp] theorem render_cons (t : Token) (ts : List Token) : render (t :: ts) = t.render ++ render ts := rfl

@[simp] theorem render_append (ts us : List Token) : render (ts ++ us) = render ts ++ render us :=
  List.flatMap_append

/-! ## Reading the tokens of a text -/

/-- The blanks of JSON. -/
def isBlank (c : CodePoint) : Bool := c.val == 0x20 || c.val == 9 || c.val == 10 || c.val == 13

/-- The value of a hexadecimal digit. -/
def hexValue (c : CodePoint) : Option Nat :=
  if 48 ≤ c.val ∧ c.val ≤ 57 then some (c.val - 48)
  else if 97 ≤ c.val ∧ c.val ≤ 102 then some (c.val - 87)
  else if 65 ≤ c.val ∧ c.val ≤ 70 then some (c.val - 55)
  else none

/-- What the four digits of `\uXXXX` stand for. -/
def unicodeEscape (a b c d : CodePoint) : Option CodePoint := do
  let a ← hexValue a
  let b ← hexValue b
  let c ← hexValue c
  let d ← hexValue d
  pure (Fin.ofNat _ (((a * 16 + b) * 16 + c) * 16 + d))

/-- What a character behind a backslash stands for. -/
def simpleEscape (c : CodePoint) : Option CodePoint :=
  if c = CodePoint.ofChar '"' ∨ c = CodePoint.ofChar '\\' ∨ c = CodePoint.ofChar '/' then some c
  else if c = CodePoint.ofChar 'n' then some 10
  else if c = CodePoint.ofChar 'r' then some 13
  else if c = CodePoint.ofChar 't' then some 9
  else if c = CodePoint.ofChar 'f' then some 12
  else if c = CodePoint.ofChar 'b' then some 8
  else none

/-- The characters of a string up to its closing quote, and what follows. -/
def lexString : PyStr → Option (PyStr × PyStr)
  | [] => none
  | c :: s =>
    if c = CodePoint.ofChar '"' then some ([], s)
    else if c = CodePoint.ofChar '\\' then
      match s with
      | [] => none
      | e :: s =>
        if e = CodePoint.ofChar 'u' then
          match s with
          | a :: b :: x :: y :: s => do
            let d ← unicodeEscape a b x y
            let (body, rest) ← lexString s
            pure (d :: body, rest)
          | _ => none
        else do
          let d ← simpleEscape e
          let (body, rest) ← lexString s
          pure (d :: body, rest)
    else if c.val < 0x20 then none
    else do
      let (body, rest) ← lexString s
      pure (c :: body, rest)

def isHigh (c : CodePoint) : Bool := 0xd800 ≤ c.val && c.val < 0xdc00
def isLow (c : CodePoint) : Bool := 0xdc00 ≤ c.val && c.val < 0xe000

/-- A high surrogate and a low one behind it are one character. -/
def joinPairs : PyStr → PyStr
  | [] => []
  | [c] => [c]
  | c :: d :: s =>
    if isHigh c ∧ isLow d then
      Fin.ofNat _ (0x10000 + (c.val - 0xd800) * 0x400 + (d.val - 0xdc00)) :: joinPairs s
    else c :: joinPairs (d :: s)

/-- The characters of a number. -/
def isNumberChar (c : CodePoint) : Bool := isDigit c || (lit "+-.eE").contains c

/-- A capital `E` in the exponent is as good. -/
def smallE (s : PyStr) : PyStr :=
  s.map fun c => if c = CodePoint.ofChar 'E' then CodePoint.ofChar 'e' else c

/-- The words of JSON. -/
def words : List PyStr := [lit "null", lit "true", lit "false"]

/-- The tokens of a text; the number bounds the steps. -/
def lexLoop : Nat → PyStr → Option (List Token)
  | 0, _ => none
  | _ + 1, [] => some []
  | n + 1, c :: s =>
    if isBlank c then lexLoop n s
    else if c = CodePoint.ofChar '\x7b' then (lexLoop n s).map (.open_object :: ·)
    else if c = CodePoint.ofChar '\x7d' then (lexLoop n s).map (.close_object :: ·)
    else if c = CodePoint.ofChar '[' then (lexLoop n s).map (.open_array :: ·)
    else if c = CodePoint.ofChar ']' then (lexLoop n s).map (.close_array :: ·)
    else if c = CodePoint.ofChar ',' then (lexLoop n s).map (.comma :: ·)
    else if c = CodePoint.ofChar ':' then (lexLoop n s).map (.colon :: ·)
    else if c = CodePoint.ofChar '"' then do
      let (body, rest) ← lexString s
      let ts ← lexLoop n rest
      pure (.string (joinPairs body) :: ts)
    else if isNumberChar c then
      if isNumber (smallE ((c :: s).takeWhile isNumberChar)) then do
        let ts ← lexLoop n ((c :: s).dropWhile isNumberChar)
        pure (.number ((c :: s).takeWhile isNumberChar) :: ts)
      else none
    else
      match words.find? (·.isPrefixOf (c :: s)) with
      | none => none
      | some w => do
        let ts ← lexLoop n ((c :: s).drop w.length)
        pure (.word w :: ts)

def lex (s : PyStr) : Option (List Token) := lexLoop (s.length + 1) s

/-! ## Strings are read back -/

/-- The UTF-16 code units of a character. -/
def utf16 (c : CodePoint) : PyStr :=
  if c.val ≤ 0xffff then [c]
  else [Fin.ofNat _ (0xd800 + (c.val - 0x10000) / 0x400), Fin.ofNat _ (0xdc00 + (c.val - 0x10000) % 0x400)]

theorem hexValue_hexDigit (n : Nat) : hexValue (hexDigit n) = some (n % 16) := by
  unfold hexDigit hexValue
  by_cases h : n % 16 < 10
  · rw [if_pos h, Fin.val_ofNat, if_pos (by omega)]
    congr 1
    omega
  · rw [if_neg h, Fin.val_ofNat, if_neg (by omega), if_pos (by omega)]
    congr 1
    omega

theorem hexDigits_four (n : Nat) : hexDigits 4 n =
    [hexDigit (n / 4096), hexDigit (n / 256), hexDigit (n / 16), hexDigit n] := by
  simp [hexDigits, Nat.div_div_eq_div_mul]

theorem lexString_escape {n : Nat} (h : n ≤ 0xffff) (t : PyStr) :
    lexString (jsonEscape n ++ t) =
      (lexString t).map fun (body, rest) => (Fin.ofNat _ n :: body, rest) := by
  have hcode : unicodeEscape (hexDigit (n / 4096)) (hexDigit (n / 256)) (hexDigit (n / 16)) (hexDigit n) =
      some (Fin.ofNat _ n) := by
    simp only [unicodeEscape, hexValue_hexDigit, Option.bind_eq_bind, Option.bind_some, Option.pure_def]
    congr 2
    omega
  have htext : jsonEscape n ++ t = CodePoint.ofChar '\\' :: CodePoint.ofChar 'u' ::
      hexDigit (n / 4096) :: hexDigit (n / 256) :: hexDigit (n / 16) :: hexDigit n :: t := by
    rw [jsonEscape, hexDigits_four]
    rfl
  have hslash : CodePoint.ofChar '\\' ≠ CodePoint.ofChar '"' := by decide
  rw [htext, lexString.eq_def]
  simp only [hslash, if_false, if_true, hcode]
  cases lexString t <;> rfl

theorem lexString_simple {e d : CodePoint} (he : e ≠ CodePoint.ofChar 'u')
    (h : simpleEscape e = some d) (t : PyStr) :
    lexString (CodePoint.ofChar '\\' :: e :: t) =
      (lexString t).map fun (body, rest) => (d :: body, rest) := by
  have hslash : CodePoint.ofChar '\\' ≠ CodePoint.ofChar '"' := by decide
  rw [lexString.eq_def]
  simp only [hslash, if_false, if_true, he, h]
  cases lexString t <;> rfl

/-- A character is read back from its escape, whatever follows. -/
theorem lexString_char (c : CodePoint) (t : PyStr) :
    lexString (jsonChar c ++ t) =
      (lexString t).map fun (body, rest) => (utf16 c ++ body, rest) := by
  have hsmall : c.val ≤ 0xffff → utf16 c = [c] := fun h => if_pos h
  unfold jsonChar
  by_cases hquote : c = CodePoint.ofChar '"'
  · subst hquote
    rw [if_pos rfl, hsmall (by decide)]
    exact lexString_simple (by decide) (by decide) t
  rw [if_neg hquote]
  by_cases hslash : c = CodePoint.ofChar '\\'
  · subst hslash
    rw [if_pos rfl, hsmall (by decide)]
    exact lexString_simple (by decide) (by decide) t
  rw [if_neg hslash]
  -- the five control characters that have an escape of one letter
  have hctl : ∀ (k : Nat) (e : CodePoint) (d : CodePoint), d.val = k → e ≠ CodePoint.ofChar 'u' →
      simpleEscape e = some d → c.val = k → k ≤ 0xffff →
      lexString (CodePoint.ofChar '\\' :: e :: t) =
        (lexString t).map fun (body, rest) => (utf16 c ++ body, rest) := by
    intro k e d hd he hsimple hc hk
    have hcd : c = d := Fin.ext (hc.trans hd.symm)
    rw [hsmall (by omega), hcd]
    exact lexString_simple he hsimple t
  by_cases h10 : c.val = 10
  · rw [if_pos h10]
    exact hctl 10 (CodePoint.ofChar 'n') 10 rfl (by decide) (by decide) h10 (by decide)
  rw [if_neg h10]
  by_cases h13 : c.val = 13
  · rw [if_pos h13]
    exact hctl 13 (CodePoint.ofChar 'r') 13 rfl (by decide) (by decide) h13 (by decide)
  rw [if_neg h13]
  by_cases h9 : c.val = 9
  · rw [if_pos h9]
    exact hctl 9 (CodePoint.ofChar 't') 9 rfl (by decide) (by decide) h9 (by decide)
  rw [if_neg h9]
  by_cases h12 : c.val = 12
  · rw [if_pos h12]
    exact hctl 12 (CodePoint.ofChar 'f') 12 rfl (by decide) (by decide) h12 (by decide)
  rw [if_neg h12]
  by_cases h8 : c.val = 8
  · rw [if_pos h8]
    exact hctl 8 (CodePoint.ofChar 'b') 8 rfl (by decide) (by decide) h8 (by decide)
  rw [if_neg h8]
  by_cases hprint : 0x20 ≤ c.val ∧ c.val ≤ 0x7e
  · rw [if_pos hprint, hsmall (by omega), List.singleton_append, lexString.eq_def]
    simp only [hquote, hslash, if_false, if_neg (show ¬c.val < 0x20 by omega)]
    cases lexString t <;> rfl
  rw [if_neg hprint]
  by_cases hbasic : c.val ≤ 0xffff
  · rw [if_pos hbasic, hsmall hbasic, lexString_escape hbasic]
    -- `\uXXXX` for what fits in sixteen bits
    have hval : Fin.ofNat 0x110000 c.val = c := Fin.ext (Nat.mod_eq_of_lt c.isLt)
    rw [hval]
    rfl
  · -- two escapes, one for each half of the surrogate pair
    have hc := c.isLt
    rw [if_neg hbasic, List.append_assoc, lexString_escape (by omega), lexString_escape (by omega)]
    rw [utf16, if_neg hbasic]
    cases lexString t <;> rfl

theorem lexString_body (s rest : PyStr) :
    lexString (s.flatMap jsonChar ++ CodePoint.ofChar '"' :: rest) = some (s.flatMap utf16, rest) := by
  induction s with
  | nil =>
    rw [List.flatMap_nil, List.nil_append, lexString.eq_def]
    rfl
  | cons c s ih =>
    rw [List.flatMap_cons, List.append_assoc, lexString_char, ih, List.flatMap_cons]
    rfl

theorem joinPairs_cons {c : CodePoint} {s : PyStr} (h : ¬(isHigh c ∧ ∃ d ∈ s.head?, isLow d)) :
    joinPairs (c :: s) = c :: joinPairs s := by
  cases s with
  | nil => rfl
  | cons d s =>
    have hpair : ¬(isHigh c = true ∧ isLow d = true) := fun hp => h ⟨hp.1, d, rfl, hp.2⟩
    rw [joinPairs, if_neg hpair]

theorem utf16_basic {c : CodePoint} (h : c.val ≤ 0xffff) : utf16 c = [c] := if_pos h

/-- The pair of a character beyond the basic plane. -/
theorem joinPairs_astral {c : CodePoint} (h : ¬c.val ≤ 0xffff) (t : PyStr) :
    joinPairs (utf16 c ++ t) = c :: joinPairs t := by
  have hc := c.isLt
  have hjoin : ∀ hi lo : CodePoint, hi.val = 0xd800 + (c.val - 0x10000) / 0x400 →
      lo.val = 0xdc00 + (c.val - 0x10000) % 0x400 → joinPairs ([hi, lo] ++ t) = c :: joinPairs t := by
    intro hi lo hhi hlo
    have hpair : isHigh hi = true ∧ isLow lo = true := by
      simp only [isHigh, isLow, Bool.and_eq_true, decide_eq_true_eq]
      omega
    have hvalue : Fin.ofNat 0x110000 (0x10000 + (hi.val - 0xd800) * 0x400 + (lo.val - 0xdc00)) = c := by
      apply Fin.ext
      rw [Fin.val_ofNat, hhi, hlo]
      omega
    rw [List.cons_append, List.cons_append, List.nil_append, joinPairs, if_pos hpair, hvalue]
  rw [utf16, if_neg h]
  apply hjoin <;> rw [Fin.val_ofNat] <;> omega

theorem not_isHigh {c : CodePoint} (h : ¬c.val ≤ 0xffff) : isHigh c = false := by
  simp only [isHigh, Bool.and_eq_false_iff, decide_eq_false_iff_not]
  omega

/-- The first code unit is a low surrogate only if the character is one. -/
theorem isLow_head_utf16 (s : PyStr) :
    (∃ d ∈ (s.flatMap utf16).head?, isLow d) ↔ ∃ d ∈ s.head?, isLow d := by
  cases s with
  | nil => rfl
  | cons c s =>
    rw [List.flatMap_cons, List.head?_cons]
    by_cases h : c.val ≤ 0xffff
    · rw [utf16_basic h]
      rfl
    · have hc := c.isLt
      rw [utf16, if_neg h]
      simp only [List.cons_append, List.head?_cons, Option.mem_some_iff, exists_eq_left', isLow,
        Fin.val_ofNat, Bool.and_eq_true, decide_eq_true_eq]
      omega

/-- The pairs that `json.dumps` makes of a character are joined again. -/
theorem joinPairs_utf16 (s : PyStr) : joinPairs (s.flatMap utf16) = joinPairs s := by
  have hcons : ∀ (c : CodePoint) (s : PyStr), ¬(isHigh c ∧ ∃ d ∈ s.head?, isLow d) →
      joinPairs (s.flatMap utf16) = joinPairs s →
      joinPairs ((c :: s).flatMap utf16) = joinPairs (c :: s) := by
    intro c s hpair ih
    rw [List.flatMap_cons, joinPairs_cons hpair, ← ih]
    by_cases h : c.val ≤ 0xffff
    · rw [utf16_basic h, List.singleton_append, joinPairs_cons]
      rwa [isLow_head_utf16]
    · exact joinPairs_astral h _
  induction s using joinPairs.induct with
  | case1 => rfl
  | case2 c => exact hcons c [] (by simp) rfl
  | case3 c d s h ih =>
    -- a pair in the text itself
    have hc : c.val ≤ 0xffff := by
      by_contra hc
      rw [not_isHigh hc] at h
      exact absurd h.1 (by decide)
    have hd : d.val ≤ 0xffff := by
      have hlow := h.2
      simp only [isLow, Bool.and_eq_true, decide_eq_true_eq] at hlow
      omega
    rw [List.flatMap_cons, List.flatMap_cons, utf16_basic hc, utf16_basic hd]
    show joinPairs (c :: d :: s.flatMap utf16) = _
    rw [joinPairs, if_pos h, joinPairs, if_pos h, ih]
  | case4 c d s h ih =>
    apply hcons c (d :: s) _ ih
    intro hparts
    obtain ⟨hc, e, he, hlow⟩ := hparts
    obtain rfl : d = e := Option.some.inj he
    exact h ⟨hc, hlow⟩

/-- Does a low surrogate stand behind a high one? -/
def hasPair : PyStr → Bool
  | c :: d :: s => (isHigh c && isLow d) || hasPair (d :: s)
  | _ => false

theorem length_joinPairs_le (s : PyStr) : (joinPairs s).length ≤ s.length := by
  fun_induction joinPairs s with
  | case1 => exact Nat.le_refl _
  | case2 c => exact Nat.le_refl _
  | case3 c d s hpair ih =>
    rw [List.length_cons, List.length_cons, List.length_cons]
    omega
  | case4 c d s hpair ih =>
    rw [List.length_cons, List.length_cons]
    omega

/-- A string keeps its characters if and only if it has no such pair. -/
theorem joinPairs_eq_iff (s : PyStr) : joinPairs s = s ↔ hasPair s = false := by
  constructor
  · intro hsame
    -- each pair makes the string shorter
    have hshort : ∀ s, hasPair s = true → (joinPairs s).length < s.length := by
      intro s
      fun_induction joinPairs s with
      | case1 | case2 => intro h; cases h
      | case3 c d s hpair ih =>
        intro _
        have hle := length_joinPairs_le s
        rw [List.length_cons, List.length_cons, List.length_cons]
        omega
      | case4 c d s hpair ih =>
        intro h
        rw [hasPair, Bool.or_eq_true, Bool.and_eq_true] at h
        have hlt := ih (h.resolve_left hpair)
        rw [List.length_cons, List.length_cons]
        omega
    by_contra h
    have hlt := hshort s (Bool.of_not_eq_false h)
    rw [hsame] at hlt
    exact Nat.lt_irrefl _ hlt
  · fun_induction joinPairs s with
    | case1 | case2 => intro _; rfl
    | case3 c d s hpair ih =>
      intro h
      rw [hasPair, hpair.1, hpair.2] at h
      cases h
    | case4 c d s hpair ih =>
      intro h
      rw [hasPair, Bool.or_eq_false_iff] at h
      rw [ih h.2]

/-! ## The tokens are read back -/

/-- A string, a number or a word. -/
def Token.isAtom : Token → Bool
  | .string _ | .number _ | .word _ => true
  | _ => false

/-- What may follow an atom. -/
def Token.ends : Token → Bool
  | .close_object | .close_array | .comma | .colon => true
  | _ => false

/-- Behind an atom stands the end or a punctuation mark. -/
def Separated : List Token → Prop
  | [] => True
  | t :: ts => (t.isAtom = true → ∀ u ∈ ts.head?, u.ends = true) ∧ Separated ts

/-- What is written of a value: numbers, and words of Python. -/
def Token.Written : Token → Prop
  | .number text => isNumber text = true
  | .word text => text ∈ words ++ special_floats.map jsonFloat
  | _ => True

/-- Words that JSON knows. -/
def Token.strict : Token → Bool
  | .word text => words.contains text
  | _ => true

/-- What a reader makes of a token. -/
def Token.read : Token → Token
  | .string s => .string (joinPairs s)
  | t => t

/-- The characters of a number that is written with a small `e`. -/
theorem number_chars {s : PyStr} (h : isNumber s = true) :
    s ≠ [] ∧ ∀ c ∈ s, isDigit c = true ∨ c ∈ lit "-.e+" := by
  unfold isNumber at h
  simp only [Bool.and_eq_true] at h
  obtain ⟨⟨hwhole, hfraction⟩, hexponent⟩ := h
  have hdigits : ∀ {u : PyStr}, isDigits u = true → ∀ c ∈ u, isDigit c = true := by
    intro u hu
    rw [isDigits, Bool.and_eq_true] at hu
    exact List.all_eq_true.mp hu.2
  -- the sign is the first character or there is none
  have hsign : ∀ (signs : String) {u : PyStr} {c : CodePoint}, c ∈ u →
      c ∈ lit signs ∨ c ∈ unsigned signs u := by
    intro signs u c hc
    cases u with
    | nil => cases hc
    | cons d u =>
      rw [unsigned]
      by_cases hd : (lit signs).contains d = true
      · rw [if_pos hd]
        rcases List.mem_cons.mp hc with rfl | hc
        · exact Or.inl (List.contains_iff_mem.mp hd)
        · exact Or.inr hc
      · rw [if_neg hd]
        exact Or.inr hc
  have hw : isDigits (cut (CodePoint.ofChar '.') (cut (CodePoint.ofChar 'e') (unsigned "-" s)).1).1 =
      true := by
    rw [isWhole, Bool.and_eq_true] at hwhole
    exact hwhole.1
  constructor
  · rintro rfl
    exact absurd hw (by decide)
  · intro c hc
    rcases hsign "-" hc with hc | hc
    · obtain rfl : c = CodePoint.ofChar '-' := by simpa [lit] using hc
      exact Or.inr (by decide)
    -- before the exponent, the `e` itself, or in the exponent
    rcases mem_cut (CodePoint.ofChar 'e') hc with hc | rfl | hc
    · rcases mem_cut (CodePoint.ofChar '.') hc with hc | rfl | hc
      · exact Or.inl (hdigits hw c hc)
      · exact Or.inr (by decide)
      · cases hf : (cut (CodePoint.ofChar '.') (cut (CodePoint.ofChar 'e') (unsigned "-" s)).1).2 with
        | none =>
          rw [hf] at hc
          cases hc
        | some f =>
          rw [hf] at hc hfraction
          exact Or.inl (hdigits hfraction c hc)
    · exact Or.inr (by decide)
    · cases he : (cut (CodePoint.ofChar 'e') (unsigned "-" s)).2 with
      | none =>
        rw [he] at hc
        cases hc
      | some e =>
        rw [he] at hc hexponent
        rcases hsign "+-" hc with hc | hc
        · rcases (by simpa [lit] using hc : c = CodePoint.ofChar '+' ∨ c = CodePoint.ofChar '-') with
            rfl | rfl
          · exact Or.inr (by decide)
          · exact Or.inr (by decide)
        · exact Or.inl (hdigits hexponent c hc)

/-- No leading zero in an integer. -/
theorem isWhole_repr (n : Nat) : isWhole (lit n.repr) = true := by
  have hdigits : isDigits (lit n.repr) = true := by
    rw [isDigits, Bool.and_eq_true, Bool.not_eq_true', List.isEmpty_eq_false_iff, List.all_eq_true]
    refine ⟨(repr_digits n).1, ?_⟩
    intro c hc
    have hdigit := (repr_digits n).2 c hc
    rw [isDigit, Bool.and_eq_true, decide_eq_true_eq, decide_eq_true_eq]
    exact hdigit
  -- the digits of `m` begin as those of `m / 10` do
  have hhead : ∀ m, 0 < m → ((Nat.toDigits 10 m).map CodePoint.ofChar).head? ≠
      some (CodePoint.ofChar '0') := by
    intro m
    induction m using Nat.strong_induction_on with
    | _ m ih =>
      intro hm
      by_cases hlt : m < 10
      · rw [Nat.toDigits_of_lt_base hlt]
        have hall : ∀ k, k < 10 → 0 < k → CodePoint.ofChar k.digitChar ≠ CodePoint.ofChar '0' := by
          decide
        simpa using hall m hlt hm
      · have hrest := ih (m / 10) (by omega) (by omega)
        rw [Nat.toDigits_of_base_le (by decide) (by omega), List.map_append]
        cases hfront : (Nat.toDigits 10 (m / 10)).map CodePoint.ofChar with
        | nil => exact absurd (List.map_eq_nil_iff.mp hfront) Nat.toDigits_ne_nil
        | cons c cs =>
          rw [hfront] at hrest
          exact hrest
  rw [isWhole, hdigits, Bool.true_and, Bool.or_eq_true]
  by_cases hn : n = 0
  · left
    rw [hn]
    decide
  · right
    rw [bne_iff_ne, lit, Nat.toList_repr]
    exact hhead n (by omega)

/-- An integer is a number of JSON. -/
theorem isNumber_str_int (n : Int) : isNumber (str_int n) = true := by
  -- digits hold no `.` and no `e`, so the number is its whole part
  have hplain : ∀ s : PyStr, isWhole s = true → isNumber s = true ∧
      isNumber (CodePoint.ofChar '-' :: s) = true := by
    intro s hs
    have hdigits : ∀ c ∈ s, isDigit c = true := by
      rw [isWhole, Bool.and_eq_true, isDigits, Bool.and_eq_true] at hs
      exact List.all_eq_true.mp hs.1.2
    have hno : ∀ d : CodePoint, isDigit d = false → d ∉ s := by
      intro d hd hmem
      rw [hdigits d hmem] at hd
      cases hd
    have hunsigned : unsigned "-" s = s := by
      cases s with
      | nil => rfl
      | cons c s =>
        rw [unsigned, if_neg]
        intro hc
        obtain rfl : c = CodePoint.ofChar '-' := by simpa [lit] using hc
        exact hno _ (by decide) List.mem_cons_self
    have hsigned : unsigned "-" (CodePoint.ofChar '-' :: s) = s := by
      rw [unsigned, if_pos (by decide)]
    unfold isNumber
    rw [hunsigned, hsigned, cut_of_not_mem (hno _ (by decide))]
    simp only [cut_of_not_mem (hno (CodePoint.ofChar '.') (by decide)), hs]
    exact ⟨rfl, rfl⟩
  rcases n with m | m
  · exact (hplain _ (isWhole_repr m)).1
  · have htext : str_int (Int.negSucc m) = CodePoint.ofChar '-' :: lit (m + 1).repr := by
      show lit ("-" ++ (m + 1).repr) = _
      simp [lit]
    rw [htext]
    exact (hplain _ (isWhole_repr (m + 1))).2

/-- A character that begins a number begins no other token. -/
theorem lexLoop_run {c : CodePoint} (hc : isDigit c = true ∨ c ∈ lit "-.e+") (n : Nat) (s : PyStr) :
    lexLoop (n + 1) (c :: s) =
      if isNumber (smallE ((c :: s).takeWhile isNumberChar)) then
        (lexLoop n ((c :: s).dropWhile isNumberChar)).map
          (.number ((c :: s).takeWhile isNumberChar) :: ·)
      else none := by
  have hval : (48 ≤ c.val ∧ c.val ≤ 57) ∨ c.val = 45 ∨ c.val = 46 ∨ c.val = 101 ∨ c.val = 43 := by
    rcases hc with hc | hc
    · rw [isDigit, Bool.and_eq_true, decide_eq_true_eq, decide_eq_true_eq] at hc
      exact Or.inl hc
    · have hcases : c = CodePoint.ofChar '-' ∨ c = CodePoint.ofChar '.' ∨ c = CodePoint.ofChar 'e' ∨
          c = CodePoint.ofChar '+' := by simpa [lit] using hc
      rcases hcases with rfl | rfl | rfl | rfl <;> decide
  have hnumber : isNumberChar c = true := by
    rw [isNumberChar, Bool.or_eq_true]
    rcases hc with hc | hc
    · exact Or.inl hc
    · right
      rw [List.contains_iff_mem]
      have hcases : c = CodePoint.ofChar '-' ∨ c = CodePoint.ofChar '.' ∨ c = CodePoint.ofChar 'e' ∨
          c = CodePoint.ofChar '+' := by simpa [lit] using hc
      rcases hcases with rfl | rfl | rfl | rfl <;> decide
  -- it is none of the punctuation, the quote or a blank
  have hne : ∀ d : CodePoint, d.val = 123 ∨ d.val = 125 ∨ d.val = 91 ∨ d.val = 93 ∨ d.val = 44 ∨
      d.val = 58 ∨ d.val = 34 → c ≠ d := by
    rintro d hd rfl
    omega
  have hblank : isBlank c = false := by
    simp only [isBlank, Bool.or_eq_false_iff, beq_eq_false_iff_ne]
    omega
  rw [lexLoop, hblank, if_neg (by decide), if_neg (hne _ (by decide)), if_neg (hne _ (by decide)),
    if_neg (hne _ (by decide)), if_neg (hne _ (by decide)), if_neg (hne _ (by decide)),
    if_neg (hne _ (by decide)), if_neg (hne _ (by decide)), if_pos hnumber]
  cases lexLoop n ((c :: s).dropWhile isNumberChar) <;> rfl

/-- Behind an atom no number goes on. -/
theorem head_of_separated {t : Token} {ts : List Token} (h : Separated (t :: ts))
    (ht : t.isAtom = true) : ∀ c ∈ (render ts).head?, isNumberChar c = false := by
  cases ts with
  | nil => simp
  | cons u ts =>
    have hu := h.1 ht u rfl
    intro c hc
    cases u with
    | open_object | open_array | string | number | word => cases hu
    | close_object | close_array | comma | colon =>
      obtain rfl := Option.some.inj hc
      decide

theorem takeWhile_run {p : CodePoint → Bool} {run rest : PyStr} (hrun : ∀ c ∈ run, p c = true)
    (hrest : ∀ c ∈ rest.head?, p c = false) :
    (run ++ rest).takeWhile p = run ∧ (run ++ rest).dropWhile p = rest := by
  rw [List.takeWhile_append_of_pos hrun, List.dropWhile_append_of_pos hrun]
  cases rest with
  | nil => simp
  | cons c rest => simp [hrest c rfl]

/-- A number is read back. -/
theorem lexLoop_number {text rest : PyStr} (h : isNumber text = true)
    (hrest : ∀ c ∈ rest.head?, isNumberChar c = false) (n : Nat) :
    lexLoop (n + 1) (text ++ rest) = (lexLoop n rest).map (.number text :: ·) := by
  obtain ⟨hne, hchars⟩ := number_chars h
  have hall : ∀ c ∈ text, isNumberChar c = true ∧ c ≠ CodePoint.ofChar 'E' := by
    intro c hc
    rw [isNumberChar, Bool.or_eq_true, List.contains_iff_mem]
    rcases hchars c hc with hdigit | hmem
    · refine ⟨Or.inl hdigit, ?_⟩
      rintro rfl
      exact absurd hdigit (by decide)
    · have hcases : c = CodePoint.ofChar '-' ∨ c = CodePoint.ofChar '.' ∨ c = CodePoint.ofChar 'e' ∨
          c = CodePoint.ofChar '+' := by simpa [lit] using hmem
      rcases hcases with rfl | rfl | rfl | rfl <;> decide
  have hsmall : smallE text = text := by
    have hid : ∀ c ∈ text, (if c = CodePoint.ofChar 'E' then CodePoint.ofChar 'e' else c) = id c :=
      fun c hc => if_neg (hall c hc).2
    rw [smallE, List.map_congr_left hid, List.map_id]
  obtain ⟨htake, hdrop⟩ := takeWhile_run (fun c hc => (hall c hc).1) hrest
  obtain ⟨c, s, rfl⟩ := List.exists_cons_of_ne_nil hne
  rw [List.cons_append] at htake hdrop ⊢
  rw [lexLoop_run (hchars c List.mem_cons_self), htake, hdrop, hsmall, if_pos h]

/-- A word is read back, or nothing is. -/
theorem lexLoop_word {text rest : PyStr} (h : (Token.word text).Written) (n : Nat) :
    lexLoop (n + 1) (text ++ rest) =
      if words.contains text then (lexLoop n rest).map (.word text :: ·) else none := by
  have hcases : text = lit "null" ∨ text = lit "true" ∨ text = lit "false" ∨ text = lit "NaN" ∨
      text = lit "Infinity" ∨ text = lit "-Infinity" := by
    have hlist : words ++ special_floats.map jsonFloat = [lit "null", lit "true", lit "false",
      lit "NaN", lit "Infinity", lit "-Infinity"] := by decide
    have hmem : text ∈ words ++ special_floats.map jsonFloat := h
    rw [hlist] at hmem
    simpa using hmem
  rcases hcases with rfl | rfl | rfl | rfl | rfl | rfl
  · show (lexLoop n rest).bind (fun ts => some (.word (lit "null") :: ts)) = _
    exact Option.map_eq_bind.symm
  · show (lexLoop n rest).bind (fun ts => some (.word (lit "true") :: ts)) = _
    exact Option.map_eq_bind.symm
  · show (lexLoop n rest).bind (fun ts => some (.word (lit "false") :: ts)) = _
    exact Option.map_eq_bind.symm
  · rfl
  · rfl
  · show lexLoop (n + 1) (CodePoint.ofChar '-' :: (lit "Infinity" ++ rest)) = none
    rw [lexLoop_run (Or.inr (by decide))]
    have htake : (CodePoint.ofChar '-' :: (lit "Infinity" ++ rest)).takeWhile isNumberChar =
        [CodePoint.ofChar '-'] := rfl
    rw [htake, if_neg (by decide)]

/-- One token off the front of a text, and the steps that takes. -/
theorem lexLoop_token {t : Token} {ts : List Token} (hsep : Separated (t :: ts)) (ht : t.Written)
    {n : Nat} (hn : (render (t :: ts)).length < n) : ∃ m, (render ts).length < m ∧
      lexLoop n (render (t :: ts)) =
        if t.strict then (lexLoop m (render ts)).map (t.read :: ·) else none := by
  rw [render_cons] at hn ⊢
  have hlen : 0 < t.render.length := by
    cases t with
    | number text => exact List.length_pos_iff.mpr (number_chars ht).1
    | word text =>
      have hall : ∀ w ∈ words ++ special_floats.map jsonFloat, 0 < w.length := by decide
      exact hall text ht
    | string s =>
      show 0 < (jsonString s).length
      rw [jsonString, List.length_append, List.length_append]
      exact Nat.lt_of_lt_of_le Nat.zero_lt_one (Nat.le_add_left 1 _)
    | open_object | close_object | open_array | close_array | comma | colon => decide
  rw [List.length_append] at hn
  obtain ⟨n, rfl⟩ : ∃ k, n = k + 1 := ⟨n - 1, by omega⟩
  cases t with
  | open_object | close_object | open_array | close_array => exact ⟨n, by omega, rfl⟩
  | comma =>
    -- the blank takes a step of its own
    have hblank : (lit ", ").length = 2 := rfl
    rw [show Token.comma.render = lit ", " from rfl, hblank] at hn
    obtain ⟨n, rfl⟩ : ∃ k, n = k + 1 := ⟨n - 1, by omega⟩
    exact ⟨n, by omega, rfl⟩
  | colon =>
    have hblank : (lit ": ").length = 2 := rfl
    rw [show Token.colon.render = lit ": " from rfl, hblank] at hn
    obtain ⟨n, rfl⟩ : ∃ k, n = k + 1 := ⟨n - 1, by omega⟩
    exact ⟨n, by omega, rfl⟩
  | string s =>
    refine ⟨n, by omega, ?_⟩
    have htext : (Token.string s).render ++ render ts = CodePoint.ofChar '"' ::
        (s.flatMap jsonChar ++ CodePoint.ofChar '"' :: render ts) := by
      show jsonString s ++ render ts = _
      rw [jsonString]
      simp [lit]
    have hstep : lexLoop (n + 1) (CodePoint.ofChar '"' ::
        (s.flatMap jsonChar ++ CodePoint.ofChar '"' :: render ts)) =
        (lexString (s.flatMap jsonChar ++ CodePoint.ofChar '"' :: render ts)).bind fun (body, rest) =>
          (lexLoop n rest).bind fun ts => some (.string (joinPairs body) :: ts) := rfl
    rw [htext, hstep, lexString_body, Option.bind_some]
    show (lexLoop n (render ts)).bind
      (fun ts => some (.string (joinPairs (s.flatMap utf16)) :: ts)) = _
    rw [joinPairs_utf16]
    exact Option.map_eq_bind.symm
  | number text =>
    refine ⟨n, by omega, ?_⟩
    exact lexLoop_number ht (head_of_separated hsep rfl) n
  | word text =>
    refine ⟨n, by omega, ?_⟩
    exact lexLoop_word ht n

/-- **What is written is read back**, if JSON knows its words. -/
theorem lex_render {ts : List Token} (hsep : Separated ts) (ht : ∀ t ∈ ts, t.Written) :
    lex (render ts) = if ts.all Token.strict then some (ts.map Token.read) else none := by
  have key : ∀ n, (render ts).length < n →
      lexLoop n (render ts) = if ts.all Token.strict then some (ts.map Token.read) else none := by
    induction ts with
    | nil =>
      intro n hn
      obtain ⟨n, rfl⟩ : ∃ k, n = k + 1 := ⟨n - 1, by omega⟩
      rfl
    | cons t ts ih =>
      intro n hn
      obtain ⟨m, hm, hstep⟩ := lexLoop_token hsep (ht t List.mem_cons_self) hn
      rw [hstep, ih hsep.2 (fun u hu => ht u (List.mem_cons_of_mem t hu)) m hm, List.all_cons]
      cases t.strict <;> cases ts.all Token.strict <;> rfl
  exact key _ (Nat.lt_succ_self _)

/-! ## Values -/

/-- A value; a number is kept as its text. -/
inductive Value where
  | null
  | bool (b : Bool)
  | number (text : PyStr)
  | string (s : PyStr)
  | array (xs : List Value)
  | object (fields : List (PyStr × Value))

/-- The value of a word. -/
def wordValue (text : PyStr) : Option Value :=
  if text = lit "null" then some .null
  else if text = lit "true" then some (.bool true)
  else if text = lit "false" then some (.bool false)
  else none

mutual
/-- A value off the front of a sequence of tokens; the number bounds the
    steps. -/
def parse_value : Nat → List Token → Option (Value × List Token)
  | 0, _ => none
  | _ + 1, .string s :: ts => some (.string s, ts)
  | _ + 1, .number text :: ts => some (.number text, ts)
  | _ + 1, .word text :: ts => (wordValue text).map fun v => (v, ts)
  | _ + 1, .open_array :: .close_array :: ts => some (.array [], ts)
  | n + 1, .open_array :: ts => (parse_elements n ts).map fun (xs, ts) => (.array xs, ts)
  | _ + 1, .open_object :: .close_object :: ts => some (.object [], ts)
  | n + 1, .open_object :: ts => (parse_members n ts).map fun (fields, ts) => (.object fields, ts)
  | _, _ => none

/-- The elements of an array, from the first one on. -/
def parse_elements : Nat → List Token → Option (List Value × List Token)
  | 0, _ => none
  | n + 1, ts =>
    match parse_value n ts with
    | some (x, .comma :: ts) => (parse_elements n ts).map fun (xs, ts) => (x :: xs, ts)
    | some (x, .close_array :: ts) => some ([x], ts)
    | _ => none

/-- The members of an object, from the first one on. -/
def parse_members : Nat → List Token → Option (List (PyStr × Value) × List Token)
  | 0, _ => none
  | n + 1, .string name :: .colon :: ts =>
    match parse_value n ts with
    | some (v, .comma :: ts) => (parse_members n ts).map fun (fields, ts) => ((name, v) :: fields, ts)
    | some (v, .close_object :: ts) => some ([(name, v)], ts)
    | _ => none
  | _, _ => none
end

/-- `JSON.parse` of the browser (`json.loads` takes `NaN` too): a value and nothing
    behind it. -/
def loads (s : PyStr) : Option Value := do
  let ts ← lex s
  match parse_value (2 * ts.length) ts with
  | some (v, []) => some v
  | _ => none

/-! ## The tokens of a value -/

/-- Parts with commas between them. -/
def separate : List (List Token) → List Token
  | [] => []
  | [part] => part
  | part :: parts => part ++ .comma :: separate parts

/-- The tokens of an array, and of an object. -/
def arrayTokens (parts : List (List Token)) : List Token :=
  .open_array :: separate parts ++ [.close_array]

def objectTokens (parts : List (List Token)) : List Token :=
  .open_object :: separate parts ++ [.close_object]

/-- The tokens of a member. -/
def memberTokens (name : PyStr) (value : List Token) : List Token := .string name :: .colon :: value

theorem render_separate (parts : List (List Token)) :
    render (separate parts) = join (lit ", ") (parts.map render) := by
  induction parts with
  | nil => rfl
  | cons part parts ih =>
    cases parts with
    | nil =>
      show render part = List.intercalate _ [render part]
      simp [List.intercalate]
    | cons part' parts =>
      show render (part ++ .comma :: separate (part' :: parts)) =
        List.intercalate (lit ", ") (render part :: render part' :: parts.map render)
      rw [render_append, render_cons, ih, List.intercalate_cons_cons, List.append_assoc]
      rfl

theorem render_array (parts : List (List Token)) : render (arrayTokens parts) =
    lit "[" ++ join (lit ", ") (parts.map render) ++ lit "]" := by
  rw [arrayTokens, render_append, render_cons, render_separate]
  rfl

theorem render_object (parts : List (List Token)) : render (objectTokens parts) =
    lit "\x7b" ++ join (lit ", ") (parts.map render) ++ lit "\x7d" := by
  rw [objectTokens, render_append, render_cons, render_separate]
  rfl

theorem render_singleton (t : Token) : render [t] = t.render := List.append_nil _

/-- Tokens that are read as a value, whatever follows. -/
def Reads (ts : List Token) (v : Value) : Prop :=
  ts ≠ [] ∧ ∀ n, 2 * ts.length ≤ n → ∀ rest, parse_value n (ts ++ rest) = some (v, rest)

theorem reads_string (s : PyStr) : Reads [.string s] (.string s) := by
  refine ⟨List.cons_ne_nil _ _, fun n hn rest => ?_⟩
  obtain ⟨n, rfl⟩ : ∃ k, n = k + 1 := ⟨n - 1, by simp at hn; omega⟩
  rfl

theorem reads_number (text : PyStr) : Reads [.number text] (.number text) := by
  refine ⟨List.cons_ne_nil _ _, fun n hn rest => ?_⟩
  obtain ⟨n, rfl⟩ : ∃ k, n = k + 1 := ⟨n - 1, by simp at hn; omega⟩
  rfl

theorem reads_word {text : PyStr} {v : Value} (h : wordValue text = some v) : Reads [.word text] v := by
  refine ⟨List.cons_ne_nil _ _, fun n hn rest => ?_⟩
  obtain ⟨n, rfl⟩ : ∃ k, n = k + 1 := ⟨n - 1, by simp at hn; omega⟩
  show (wordValue text).map _ = _
  rw [h]
  rfl

/-- No value begins with a closing bracket. -/
theorem Reads.head {ts : List Token} {v : Value} (h : Reads ts v) :
    ts.head? ≠ some .close_array ∧ ts.head? ≠ some .close_object := by
  obtain ⟨-, hread⟩ := h
  have hread := hread (2 * ts.length + 1) (Nat.le_succ _) []
  cases ts with
  | nil => simp
  | cons t ts =>
    constructor
    · intro ht
      obtain rfl : t = .close_array := by simpa using ht
      cases hread
    · intro ht
      obtain rfl : t = .close_object := by simpa using ht
      cases hread

theorem parse_elements_reads {item : List Token × Value} {items : List (List Token × Value)}
    (h : ∀ i ∈ item :: items, Reads i.1 i.2) {n : Nat}
    (hn : 2 * (separate ((item :: items).map Prod.fst)).length < n) (rest : List Token) :
    parse_elements n (separate ((item :: items).map Prod.fst) ++ .close_array :: rest) =
      some ((item :: items).map Prod.snd, rest) := by
  induction items generalizing item n with
  | nil =>
    obtain ⟨n, rfl⟩ : ∃ k, n = k + 1 := ⟨n - 1, by omega⟩
    have hn' : 2 * item.1.length < n + 1 := hn
    have hfirst := (h item List.mem_cons_self).2 n (by omega) (.close_array :: rest)
    show parse_elements (n + 1) (item.1 ++ .close_array :: rest) = _
    rw [parse_elements, hfirst]
    rfl
  | cons item' items ih =>
    obtain ⟨n, rfl⟩ : ∃ k, n = k + 1 := ⟨n - 1, by omega⟩
    have hsplit : separate ((item :: item' :: items).map Prod.fst) =
        item.1 ++ .comma :: separate ((item' :: items).map Prod.fst) := rfl
    rw [hsplit, List.length_append, List.length_cons] at hn
    have hfirst := (h item List.mem_cons_self).2 n (by omega)
      (.comma :: (separate ((item' :: items).map Prod.fst) ++ .close_array :: rest))
    have hrest := ih (fun i hi => h i (List.mem_cons_of_mem item hi)) (n := n) (by omega)
    rw [hsplit, List.append_assoc, List.cons_append, parse_elements, hfirst]
    show (parse_elements n _).map _ = _
    rw [hrest]
    rfl

theorem parse_array_step {n : Nat} {ts : List Token} (h : ts.head? ≠ some .close_array) :
    parse_value (n + 1) (.open_array :: ts) =
      (parse_elements n ts).map fun (xs, ts) => (.array xs, ts) := by
  cases ts with
  | nil => rfl
  | cons t ts => cases t <;> first | rfl | exact absurd rfl h

theorem parse_object_step {n : Nat} {ts : List Token} (h : ts.head? ≠ some .close_object) :
    parse_value (n + 1) (.open_object :: ts) =
      (parse_members n ts).map fun (fields, ts) => (.object fields, ts) := by
  cases ts with
  | nil => rfl
  | cons t ts => cases t <;> first | rfl | exact absurd rfl h

/-- The first part comes first. -/
theorem head_separate {part : List Token} {parts : List (List Token)} (h : part ≠ [])
    (rest : List Token) : (separate (part :: parts) ++ rest).head? = part.head? := by
  obtain ⟨t, ts, rfl⟩ := List.exists_cons_of_ne_nil h
  cases parts <;> rfl

theorem reads_array {items : List (List Token × Value)} (h : ∀ i ∈ items, Reads i.1 i.2) :
    Reads (arrayTokens (items.map Prod.fst)) (.array (items.map Prod.snd)) := by
  refine ⟨List.cons_ne_nil _ _, fun n hn rest => ?_⟩
  rw [arrayTokens, List.length_append, List.length_cons, List.length_singleton] at hn
  obtain ⟨n, rfl⟩ : ∃ k, n = k + 1 := ⟨n - 1, by omega⟩
  cases items with
  | nil => rfl
  | cons item items =>
    have htext : arrayTokens ((item :: items).map Prod.fst) ++ rest =
        .open_array :: (separate ((item :: items).map Prod.fst) ++ .close_array :: rest) := by
      simp [arrayTokens]
    have hitem := h item List.mem_cons_self
    have hhead : (separate ((item :: items).map Prod.fst) ++ .close_array :: rest).head? ≠
        some .close_array := by
      rw [List.map_cons, head_separate hitem.1]
      exact hitem.head.1
    rw [htext, parse_array_step hhead, parse_elements_reads h (by omega)]
    rfl

/-- The tokens of the members `(name, tokens, value)`. -/
def members (items : List (PyStr × List Token × Value)) : List (List Token) :=
  items.map fun i => memberTokens i.1 i.2.1

theorem parse_members_reads {item : PyStr × List Token × Value}
    {items : List (PyStr × List Token × Value)} (h : ∀ i ∈ item :: items, Reads i.2.1 i.2.2) {n : Nat}
    (hn : 2 * (separate (members (item :: items))).length < n) (rest : List Token) :
    parse_members n (separate (members (item :: items)) ++ .close_object :: rest) =
      some ((item :: items).map fun i => (i.1, i.2.2), rest) := by
  induction items generalizing item n with
  | nil =>
    obtain ⟨n, rfl⟩ : ∃ k, n = k + 1 := ⟨n - 1, by omega⟩
    have hlen : (separate (members [item])).length = item.2.1.length + 2 := rfl
    have hfirst := (h item List.mem_cons_self).2 n (by omega) (.close_object :: rest)
    show parse_members (n + 1) (.string item.1 :: .colon :: (item.2.1 ++ .close_object :: rest)) = _
    rw [parse_members, hfirst]
    rfl
  | cons item' items ih =>
    obtain ⟨n, rfl⟩ : ∃ k, n = k + 1 := ⟨n - 1, by omega⟩
    have hsplit : separate (members (item :: item' :: items)) =
        .string item.1 :: .colon :: (item.2.1 ++ .comma :: separate (members (item' :: items))) := rfl
    rw [hsplit, List.length_cons, List.length_cons, List.length_append, List.length_cons] at hn
    have hfirst := (h item List.mem_cons_self).2 n (by omega)
      (.comma :: (separate (members (item' :: items)) ++ .close_object :: rest))
    have hrest := ih (fun i hi => h i (List.mem_cons_of_mem item hi)) (n := n) (by omega)
    rw [hsplit]
    show parse_members (n + 1) (.string item.1 :: .colon ::
      (item.2.1 ++ .comma :: separate (members (item' :: items)) ++ .close_object :: rest)) = _
    rw [List.append_assoc, List.cons_append, parse_members, hfirst]
    show (parse_members n _).map _ = _
    rw [hrest]
    rfl

theorem reads_object {items : List (PyStr × List Token × Value)}
    (h : ∀ i ∈ items, Reads i.2.1 i.2.2) :
    Reads (objectTokens (members items)) (.object (items.map fun i => (i.1, i.2.2))) := by
  refine ⟨List.cons_ne_nil _ _, fun n hn rest => ?_⟩
  rw [objectTokens, List.length_append, List.length_cons, List.length_singleton] at hn
  obtain ⟨n, rfl⟩ : ∃ k, n = k + 1 := ⟨n - 1, by omega⟩
  cases items with
  | nil => rfl
  | cons item items =>
    have htext : objectTokens (members (item :: items)) ++ rest =
        .open_object :: (separate (members (item :: items)) ++ .close_object :: rest) := by
      simp [objectTokens]
    have hhead : (separate (members (item :: items)) ++ .close_object :: rest).head? ≠
        some .close_object := by
      show (separate (memberTokens item.1 item.2.1 :: members items) ++ _).head? ≠ _
      have hne : memberTokens item.1 item.2.1 ≠ [] := List.cons_ne_nil _ _
      rw [head_separate hne]
      simp [memberTokens]
    rw [htext, parse_object_step hhead, parse_members_reads h (by omega)]
    rfl

/-! ## Reading back what was written -/

theorem separated_append {ts us : List Token} (hts : Separated ts) (hus : Separated us)
    (h : ∀ u ∈ us.head?, u.ends = true) : Separated (ts ++ us) := by
  induction ts with
  | nil => exact hus
  | cons t ts ih =>
    refine ⟨fun ht u hu => ?_, ih hts.2⟩
    cases ts with
    | nil => exact h u hu
    | cons t' ts => exact hts.1 ht u hu

/-- Tokens as `json.dumps` leaves them. -/
structure WellWritten (ts : List Token) : Prop where
  separated : Separated ts
  written : ∀ t ∈ ts, t.Written

theorem wellWritten_singleton {t : Token} (h : t.Written) : WellWritten [t] :=
  ⟨⟨by simp, trivial⟩, by simpa using h⟩

/-- Punctuation in front changes nothing. -/
theorem WellWritten.cons {t : Token} {ts : List Token} (h : WellWritten ts)
    (ht : t.isAtom = false) : WellWritten (t :: ts) := by
  refine ⟨⟨fun hatom => ?_, h.separated⟩, ?_⟩
  · rw [ht] at hatom
    cases hatom
  · intro u hu
    rcases List.mem_cons.mp hu with rfl | hu
    · cases u <;> trivial
    · exact h.written u hu

theorem WellWritten.append {ts us : List Token} (hts : WellWritten ts) (hus : WellWritten us)
    (h : ∀ u ∈ us.head?, u.ends = true) : WellWritten (ts ++ us) := by
  refine ⟨separated_append hts.separated hus.separated h, ?_⟩
  intro t ht
  rcases List.mem_append.mp ht with ht | ht
  · exact hts.written t ht
  · exact hus.written t ht

theorem wellWritten_separate {parts : List (List Token)} (h : ∀ part ∈ parts, WellWritten part) :
    WellWritten (separate parts) := by
  induction parts with
  | nil => exact ⟨trivial, by simp [separate]⟩
  | cons part parts ih =>
    have hpart := h part List.mem_cons_self
    have ih := ih fun p hp => h p (List.mem_cons_of_mem part hp)
    cases parts with
    | nil => exact hpart
    | cons part' parts =>
      refine hpart.append (ih.cons (t := .comma) rfl) ?_
      intro u hu
      obtain rfl : Token.comma = u := Option.some.inj hu
      rfl

theorem wellWritten_array {parts : List (List Token)} (h : ∀ part ∈ parts, WellWritten part) :
    WellWritten (arrayTokens parts) := by
  refine (WellWritten.cons (t := .open_array) (wellWritten_separate h) rfl).append
    (wellWritten_singleton trivial) ?_
  intro u hu
  obtain rfl : Token.close_array = u := Option.some.inj hu
  rfl

theorem wellWritten_object {parts : List (List Token)} (h : ∀ part ∈ parts, WellWritten part) :
    WellWritten (objectTokens parts) := by
  refine (WellWritten.cons (t := .open_object) (wellWritten_separate h) rfl).append
    (wellWritten_singleton trivial) ?_
  intro u hu
  obtain rfl : Token.close_object = u := Option.some.inj hu
  rfl

theorem wellWritten_member {name : PyStr} {ts : List Token} (h : WellWritten ts) :
    WellWritten (memberTokens name ts) := by
  refine (wellWritten_singleton (t := .string name) trivial).append (h.cons (t := .colon) rfl) ?_
  intro u hu
  obtain rfl : Token.colon = u := Option.some.inj hu
  rfl

theorem map_read_separate (parts : List (List Token)) :
    (separate parts).map Token.read = separate (parts.map (List.map Token.read)) := by
  induction parts with
  | nil => rfl
  | cons part parts ih =>
    cases parts with
    | nil => rfl
    | cons part' parts =>
      show (part ++ .comma :: separate (part' :: parts)).map Token.read = _
      rw [List.map_append, List.map_cons, ih]
      rfl

theorem map_read_array (parts : List (List Token)) :
    (arrayTokens parts).map Token.read = arrayTokens (parts.map (List.map Token.read)) := by
  rw [arrayTokens, List.map_append, List.map_cons, map_read_separate]
  rfl

theorem map_read_object (parts : List (List Token)) :
    (objectTokens parts).map Token.read = objectTokens (parts.map (List.map Token.read)) := by
  rw [objectTokens, List.map_append, List.map_cons, map_read_separate]
  rfl

/-- The words in the parts are the words in the whole. -/
theorem strict_separate (parts : List (List Token)) :
    (separate parts).all Token.strict = parts.all fun part => part.all Token.strict := by
  induction parts with
  | nil => rfl
  | cons part parts ih =>
    cases parts with
    | nil =>
      show part.all Token.strict = (part.all Token.strict && true)
      rw [Bool.and_true]
    | cons part' parts =>
      show (part ++ .comma :: separate (part' :: parts)).all Token.strict = _
      rw [List.all_append, List.all_cons, ih, List.all_cons]
      rfl

theorem strict_array (parts : List (List Token)) :
    (arrayTokens parts).all Token.strict = parts.all fun part => part.all Token.strict := by
  rw [arrayTokens, List.all_append, List.all_cons, strict_separate]
  exact Bool.and_true _

theorem strict_object (parts : List (List Token)) :
    (objectTokens parts).all Token.strict = parts.all fun part => part.all Token.strict := by
  rw [objectTokens, List.all_append, List.all_cons, strict_separate]
  exact Bool.and_true _

/-- **A written text is read as its value**; or as none, where a word is not
    JSON's. -/
theorem loads_render {ts : List Token} (h : WellWritten ts) :
    (ts.all Token.strict = false → loads (render ts) = none) ∧
      ∀ v, ts.all Token.strict = true → Reads (ts.map Token.read) v → loads (render ts) = some v := by
  unfold loads
  rw [lex_render h.separated h.written]
  constructor
  · intro hstrict
    rw [hstrict]
    rfl
  · intro v hstrict hreads
    have hparse := hreads.2 _ (Nat.le_refl _) []
    rw [List.append_nil] at hparse
    rw [hstrict, if_pos rfl]
    show (match parse_value (2 * (ts.map Token.read).length) (ts.map Token.read) with
      | some (v, []) => some v
      | _ => none) = _
    rw [hparse]

/-! ## What is written is printable -/

/-- A character from the blank to the tilde. -/
def isPrintable (c : CodePoint) : Bool := 0x20 ≤ c.val && c.val ≤ 0x7e

theorem printable_hexDigits (k n : Nat) : (hexDigits k n).all isPrintable = true := by
  induction k generalizing n with
  | zero => rfl
  | succ k ih =>
    rw [hexDigits, List.all_append, ih, Bool.true_and, List.all_cons, List.all_nil, Bool.and_true]
    unfold hexDigit isPrintable
    split <;> simp only [Fin.val_ofNat, Bool.and_eq_true, decide_eq_true_eq] <;> omega

theorem printable_jsonChar (c : CodePoint) : (jsonChar c).all isPrintable = true := by
  have hescape : ∀ n, (jsonEscape n).all isPrintable = true := by
    intro n
    rw [jsonEscape, List.all_append, printable_hexDigits]
    decide
  unfold jsonChar
  by_cases hprint : 0x20 ≤ c.val ∧ c.val ≤ 0x7e
  · have hc : [c].all isPrintable = true := by
      simp [isPrintable, hprint]
    rw [if_pos hprint]
    repeat' split
    all_goals first
      | decide
      | exact hc
  · rw [if_neg hprint]
    repeat' split
    all_goals first
      | decide
      | exact hescape _
      | (rw [List.all_append, hescape, hescape]; rfl)

theorem printable_token {t : Token} (h : t.Written) : t.render.all isPrintable = true := by
  cases t with
  | string s =>
    show (jsonString s).all isPrintable = true
    rw [jsonString, List.all_append, List.all_append, List.all_flatMap]
    have hchars : s.all (fun c => (jsonChar c).all isPrintable) = true :=
      List.all_eq_true.mpr fun c _ => printable_jsonChar c
    rw [hchars]
    decide
  | number text =>
    rw [List.all_eq_true]
    intro c hc
    rcases (number_chars h).2 c hc with hdigit | hmem
    · rw [isDigit, Bool.and_eq_true, decide_eq_true_eq, decide_eq_true_eq] at hdigit
      rw [isPrintable, Bool.and_eq_true, decide_eq_true_eq, decide_eq_true_eq]
      omega
    · have hall : (lit "-.e+").all isPrintable = true := by decide
      exact List.all_eq_true.mp hall c hmem
  | word text =>
    have hall : (words ++ special_floats.map jsonFloat).all (fun w => w.all isPrintable) = true := by
      decide
    exact List.all_eq_true.mp hall text h
  | open_object | close_object | open_array | close_array | comma | colon => decide

/-- A text of `json.dumps` is printable ASCII: no control character, no line
    break. -/
theorem printable_render {ts : List Token} (h : WellWritten ts) : (render ts).all isPrintable = true := by
  rw [render, List.all_flatMap, List.all_eq_true]
  exact fun t ht => printable_token (h.written t ht)

end Json

/-- Encoded, a printable text keeps its length. -/
theorem encode_printable {s : PyStr} (h : s.all Json.isPrintable = true) :
    ∃ bytes, encode s = some bytes ∧ bytes.length = s.length := by
  apply encode_of_ascii
  intro c hc
  have hprint := List.all_eq_true.mp h c hc
  rw [Json.isPrintable, Bool.and_eq_true, decide_eq_true_eq, decide_eq_true_eq] at hprint
  omega

end Syndicate.Py
