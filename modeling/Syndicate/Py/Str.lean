import Mathlib.Algebra.GroupWithZero.Nat
import Mathlib.Algebra.Order.BigOperators.Group.List
import Mathlib.Algebra.Order.Group.Nat

/-! # Python strings

    A Python `str` is a sequence of code points, surrogates included (a JSON
    text can carry a lone `\ud800`), so it is modelled as a list of code
    points and not as a Lean `String`.

    The functions below are the built-ins and the library functions the
    modelled code calls on strings, under their Python names. -/

namespace Syndicate.Py

/-- A Unicode code point, surrogates included. -/
abbrev CodePoint := Fin 0x110000

/-- A Python `str`. -/
abbrev PyStr := List CodePoint

instance (priority := 2000) CodePoint.neZero : NeZero 0x110000 := ⟨by decide⟩

instance (priority := 2000) PyStr.lawfulBEq : LawfulBEq PyStr := inferInstance

/-- The code point of a character. -/
def CodePoint.ofChar (c : Char) : CodePoint :=
  if h : c.toNat < 0x110000 then ⟨c.toNat, h⟩ else 0

/-- A string literal of the source. -/
def lit (s : String) : PyStr := s.toList.map CodePoint.ofChar

theorem CodePoint.ofChar_val (c : Char) : (ofChar c).val = c.toNat := by
  have hlt : c.toNat < 0x110000 := by
    have := c.valid
    simp only [UInt32.isValidChar, Nat.isValidChar] at this
    show c.val.toNat < 0x110000
    omega
  rw [ofChar, dif_pos hlt]

theorem CodePoint.ofChar_inj {c d : Char} : ofChar c = ofChar d ↔ c = d := by
  constructor
  · intro h
    apply Char.ext
    apply UInt32.toNat_inj.mp
    show c.toNat = d.toNat
    rw [← ofChar_val c, ← ofChar_val d, h]
  · intro h
    rw [h]

/-- Different literals are different strings. -/
theorem lit_inj {a b : String} : lit a = lit b ↔ a = b := by
  have hmap : Function.Injective (List.map CodePoint.ofChar) :=
    List.map_injective_iff.mpr fun _ _ h => CodePoint.ofChar_inj.mp h
  rw [lit, lit, hmap.eq_iff, String.toList_inj]

/-- The Unicode database: `repr` reads `str.isprintable`, and `int` the
    value of a decimal digit beyond ASCII. -/
class Unicode where
  isprintable : CodePoint → Bool
  decimal : CodePoint → Option Nat

/-- The tables up to ASCII, for concrete runs. -/
@[reducible] def Unicode.ascii : Unicode where
  isprintable := fun c => 0x20 ≤ c.val && c.val < 0x7f
  decimal := fun _ => none

/-! ## `str` methods -/

/-- `sep.join(parts)`. -/
def join (sep : PyStr) (parts : List PyStr) : PyStr := List.intercalate sep parts

/-- `str.isspace` of one character: what `str.strip` removes. -/
def isspace (c : CodePoint) : Bool :=
  (9 ≤ c.val && c.val ≤ 13) || (0x1c ≤ c.val && c.val ≤ 0x20) || c.val == 0x85 || c.val == 0xa0 ||
  c.val == 0x1680 || (0x2000 ≤ c.val && c.val ≤ 0x200a) || c.val == 0x2028 || c.val == 0x2029 ||
  c.val == 0x202f || c.val == 0x205f || c.val == 0x3000

/-- `s.strip()`. -/
def strip (s : PyStr) : PyStr := ((s.dropWhile isspace).reverse.dropWhile isspace).reverse

/-- The line boundaries of `str.splitlines`. -/
def isLineBreak (c : CodePoint) : Bool :=
  (10 ≤ c.val && c.val ≤ 13) || (0x1c ≤ c.val && c.val ≤ 0x1e) || c.val == 0x85 ||
  c.val == 0x2028 || c.val == 0x2029

/-- The loop of `splitlines`: `acc` is the current line, reversed, and
    `afterCR` says that the last line was closed by a carriage return, so
    that a line feed here belongs to the same break. -/
def splitlinesLoop : PyStr → Bool → PyStr → List PyStr
  | acc, _, [] => if acc.isEmpty then [] else [acc.reverse]
  | acc, afterCR, c :: cs =>
    if afterCR && c.val == 10 then splitlinesLoop [] false cs
    else if isLineBreak c then acc.reverse :: splitlinesLoop [] (c.val == 13) cs
    else splitlinesLoop (c :: acc) false cs

/-- `s.splitlines()`. -/
def splitlines (s : PyStr) : List PyStr := splitlinesLoop [] false s

/-- The loop of `split`: `acc` is the current word, reversed. -/
def splitLoop : PyStr → PyStr → List PyStr
  | acc, [] => if acc.isEmpty then [] else [acc.reverse]
  | acc, c :: cs =>
    if isspace c then
      if acc.isEmpty then splitLoop [] cs else acc.reverse :: splitLoop [] cs
    else splitLoop (c :: acc) cs

/-- `s.split()`. -/
def split (s : PyStr) : List PyStr := splitLoop [] s

/-- `s.split(sep, 1)` for one character `sep`. -/
def splitOnce (sep : CodePoint) (s : PyStr) : List PyStr :=
  if sep ∈ s then [s.takeWhile (· ≠ sep), (s.dropWhile (· ≠ sep)).tail] else [s]

/-- `needle in s`. -/
def contains (needle s : PyStr) : Bool := s.tails.any needle.isPrefixOf

/-- The text before the first `sep`, and the text after it where there is
    one. -/
def cut (sep : CodePoint) : PyStr → PyStr × Option PyStr
  | [] => ([], none)
  | c :: s => if c = sep then ([], some s) else (c :: (cut sep s).1, (cut sep s).2)

theorem mem_cut (sep : CodePoint) {c : CodePoint} {s : PyStr} (h : c ∈ s) :
    c ∈ (cut sep s).1 ∨ c = sep ∨ c ∈ (cut sep s).2.getD [] := by
  induction s with
  | nil => cases h
  | cons d s ih =>
    rw [cut]
    by_cases hd : d = sep
    · rw [if_pos hd]
      rcases List.mem_cons.mp h with rfl | h
      · exact Or.inr (Or.inl hd)
      · exact Or.inr (Or.inr h)
    · rw [if_neg hd]
      rcases List.mem_cons.mp h with rfl | h
      · exact Or.inl List.mem_cons_self
      · exact (ih h).imp_left (List.mem_cons_of_mem d)

theorem cut_of_not_mem {sep : CodePoint} {s : PyStr} (h : sep ∉ s) : cut sep s = (s, none) := by
  induction s with
  | nil => rfl
  | cons c s ih =>
    rw [List.mem_cons, not_or] at h
    rw [cut, if_neg (Ne.symm h.1), ih h.2]

/-- `xs[-n:]` for a positive `n`. -/
def lastN {α : Type} (n : Nat) (xs : List α) : List α := xs.drop (xs.length - n)

/-! ## Integers -/

/-- The digits `0` to `9`. -/
def isDigit (c : CodePoint) : Bool := 48 ≤ c.val && c.val ≤ 57

/-- `str(n)` of an integer. -/
def str_int (n : Int) : PyStr := lit (toString n)

/-- The value of a decimal digit. -/
def digitValue [Unicode] (c : CodePoint) : Option Nat :=
  if 48 ≤ c.val ∧ c.val ≤ 57 then some (c.val - 48)
  else if c.val < 0x80 then none
  else Unicode.decimal c

/-- The digits `int` reads: one underscore may stand between two. -/
def intDigits [Unicode] : PyStr → Option (List Nat)
  | [] => none
  | c :: s =>
    match digitValue c with
    | none => none
    | some d =>
      match s with
      | [] => some [d]
      | u :: s' =>
        if u = CodePoint.ofChar '_' then (intDigits s').map (d :: ·)
        else (intDigits (u :: s')).map (d :: ·)

/-- The digits `int` accepts by default (`sys.get_int_max_str_digits`). -/
def maxStrDigits : Nat := 4300

/-- `int` of the digits without their sign. -/
def parseNat [Unicode] (s : PyStr) : Option Nat :=
  match intDigits s with
  | none => none
  | some ds => if maxStrDigits < ds.length then none else some (ds.foldl (fun n d => 10 * n + d) 0)

/-- `int(s)`; `none` where it raises `ValueError`. -/
def parseInt [Unicode] (s : PyStr) : Option Int :=
  match strip s with
  | [] => none
  | c :: cs =>
    if c = CodePoint.ofChar '-' then (parseNat cs).map (fun n => -(n : Int))
    else if c = CodePoint.ofChar '+' then (parseNat cs).map Int.ofNat
    else (parseNat (c :: cs)).map Int.ofNat

/-! ## The text of a number -/

/-- One digit or more. -/
def isDigits (s : PyStr) : Bool := !s.isEmpty && s.all isDigit

/-- Digits without a leading zero. -/
def isWhole (s : PyStr) : Bool := isDigits s && (s == lit "0" || s.head? != some (CodePoint.ofChar '0'))

/-- Without a leading sign out of `signs`. -/
def unsigned (signs : String) : PyStr → PyStr
  | [] => []
  | c :: s => if (lit signs).contains c then s else c :: s

/-- `-12`, `0.5`, `1.5e-07`: a number in decimal notation, as JSON knows it;
    the exponent's letter is the small one. -/
def isNumber (s : PyStr) : Bool :=
  let mantissa := (cut (CodePoint.ofChar 'e') (unsigned "-" s)).1
  let exponent := (cut (CodePoint.ofChar 'e') (unsigned "-" s)).2
  let fraction := (cut (CodePoint.ofChar '.') mantissa).2
  isWhole (cut (CodePoint.ofChar '.') mantissa).1 && fraction.all isDigits &&
    exponent.all fun e => isDigits (unsigned "+-" e)

/-! ## `repr` of a string -/

/-- A lower-case hexadecimal digit. -/
def hexDigit (n : Nat) : CodePoint :=
  if n % 16 < 10 then Fin.ofNat _ (48 + n % 16) else Fin.ofNat _ (87 + n % 16)

/-- The last `k` hexadecimal digits of `n`. -/
def hexDigits : Nat → Nat → PyStr
  | 0, _ => []
  | k + 1, n => hexDigits k (n / 16) ++ [hexDigit n]

/-- One character of a `repr` between the quotes `q`. -/
def reprChar [Unicode] (q c : CodePoint) : PyStr :=
  if c = q ∨ c = CodePoint.ofChar '\\' then [CodePoint.ofChar '\\', c]
  else if c.val = 9 then lit "\\t"
  else if c.val = 10 then lit "\\n"
  else if c.val = 13 then lit "\\r"
  else if c.val < 0x20 ∨ c.val = 0x7f then lit "\\x" ++ hexDigits 2 c.val
  else if c.val < 0x7f then [c]
  else if Unicode.isprintable c then [c]
  else if c.val ≤ 0xff then lit "\\x" ++ hexDigits 2 c.val
  else if c.val ≤ 0xffff then lit "\\u" ++ hexDigits 4 c.val
  else lit "\\U" ++ hexDigits 8 c.val

/-- The quote `repr` puts around `s`: double quotes only when `s` has a
    single quote and no double one. -/
def reprQuote (s : PyStr) : CodePoint :=
  if CodePoint.ofChar '\'' ∈ s ∧ CodePoint.ofChar '"' ∉ s then CodePoint.ofChar '"'
  else CodePoint.ofChar '\''

/-- `repr(s)` of a string. -/
def repr_str [Unicode] (s : PyStr) : PyStr :=
  reprQuote s :: s.flatMap (reprChar (reprQuote s)) ++ [reprQuote s]

/-! ## `shlex.quote` -/

/-- The characters `shlex.quote` leaves bare: ASCII letters, digits and
    `_@%+=:,.-` with the slash. -/
def isShellSafe (c : CodePoint) : Bool :=
  (48 ≤ c.val && c.val ≤ 57) || (65 ≤ c.val && c.val ≤ 90) || (97 ≤ c.val && c.val ≤ 122) ||
  (lit "-_@%+=:,./").contains c

/-- `shlex.quote(s)` of a string. -/
def shlex_quote (s : PyStr) : PyStr :=
  if s.isEmpty then lit "''"
  else if s.all isShellSafe then s
  else lit "'" ++ s.flatMap (fun c => if c = CodePoint.ofChar '\'' then lit "'\"'\"'" else [c]) ++ lit "'"

/-! ## UTF-8 -/

abbrev Byte := Fin 256

instance (priority := 2000) Byte.neZero : NeZero 256 := ⟨by decide⟩

/-- The UTF-8 bytes of one code point; `none` for a surrogate, where
    `str.encode` raises `UnicodeEncodeError`. -/
def encodeChar (c : CodePoint) : Option (List Byte) :=
  let n := c.val
  if n < 0x80 then some [Fin.ofNat _ n]
  else if n < 0x800 then some [Fin.ofNat _ (0xc0 + n / 0x40), Fin.ofNat _ (0x80 + n % 0x40)]
  else if 0xd800 ≤ n ∧ n < 0xe000 then none
  else if n < 0x10000 then
    some [Fin.ofNat _ (0xe0 + n / 0x1000), Fin.ofNat _ (0x80 + n / 0x40 % 0x40),
      Fin.ofNat _ (0x80 + n % 0x40)]
  else
    some [Fin.ofNat _ (0xf0 + n / 0x40000), Fin.ofNat _ (0x80 + n / 0x1000 % 0x40),
      Fin.ofNat _ (0x80 + n / 0x40 % 0x40), Fin.ofNat _ (0x80 + n % 0x40)]

/-- `s.encode()`. -/
def encode (s : PyStr) : Option (List Byte) := (s.mapM encodeChar).map List.flatten

/-- Is `b` in `[lo, hi]`? -/
def Byte.within (b : Byte) (lo hi : Nat) : Bool := lo ≤ b.val && b.val ≤ hi

/-- The range of the second byte after the lead byte `b` of a sequence of
    three or four. -/
def secondRange (b : Byte) : Nat × Nat :=
  if b.val = 0xe0 then (0xa0, 0xbf) else if b.val = 0xed then (0x80, 0x9f)
  else if b.val = 0xf0 then (0x90, 0xbf) else if b.val = 0xf4 then (0x80, 0x8f)
  else (0x80, 0xbf)

/-- `U+FFFD`. -/
def replacement : CodePoint := 0xfffd

/-- `bytes.decode(errors='replace')`: one `U+FFFD` for each maximal
    ill-formed part. -/
def decode_replace : List Byte → PyStr
  | [] => []
  | b :: bs =>
    if b.val < 0x80 then Fin.ofNat _ b.val :: decode_replace bs
    else if b.within 0xc2 0xdf then
      match bs with
      | [] => [replacement]
      | b₁ :: bs₁ =>
        if b₁.within 0x80 0xbf then
          Fin.ofNat _ ((b.val - 0xc0) * 0x40 + (b₁.val - 0x80)) :: decode_replace bs₁
        else replacement :: decode_replace (b₁ :: bs₁)
    else if b.within 0xe0 0xef then
      match bs with
      | [] => [replacement]
      | b₁ :: bs₁ =>
        if b₁.within (secondRange b).1 (secondRange b).2 then
          match bs₁ with
          | [] => [replacement]
          | b₂ :: bs₂ =>
            if b₂.within 0x80 0xbf then
              Fin.ofNat _ ((b.val - 0xe0) * 0x1000 + (b₁.val - 0x80) * 0x40 + (b₂.val - 0x80)) ::
                decode_replace bs₂
            else replacement :: decode_replace (b₂ :: bs₂)
        else replacement :: decode_replace (b₁ :: bs₁)
    else if b.within 0xf0 0xf4 then
      match bs with
      | [] => [replacement]
      | b₁ :: bs₁ =>
        if b₁.within (secondRange b).1 (secondRange b).2 then
          match bs₁ with
          | [] => [replacement]
          | b₂ :: bs₂ =>
            if b₂.within 0x80 0xbf then
              match bs₂ with
              | [] => [replacement]
              | b₃ :: bs₃ =>
                if b₃.within 0x80 0xbf then
                  Fin.ofNat _ ((b.val - 0xf0) * 0x40000 + (b₁.val - 0x80) * 0x1000 +
                    (b₂.val - 0x80) * 0x40 + (b₃.val - 0x80)) :: decode_replace bs₃
                else replacement :: decode_replace (b₃ :: bs₃)
            else replacement :: decode_replace (b₂ :: bs₂)
        else replacement :: decode_replace (b₁ :: bs₁)
    else replacement :: decode_replace bs

/-! ## ASCII texts -/

/-- A text `str.encode` maps byte by byte. -/
def IsAscii (s : PyStr) : Prop := ∀ c ∈ s, c.val < 0x80

instance (s : PyStr) : Decidable (IsAscii s) :=
  decidable_of_iff (s.all (fun c => decide (c.val < 0x80)) = true) (by simp [IsAscii])

theorem IsAscii.append {s t : PyStr} (hs : IsAscii s) (ht : IsAscii t) : IsAscii (s ++ t) := by
  intro c hc
  rcases List.mem_append.mp hc with h | h
  · exact hs c h
  · exact ht c h

theorem IsAscii.join {sep : PyStr} {parts : List PyStr} (hsep : IsAscii sep)
    (hparts : ∀ s ∈ parts, IsAscii s) : IsAscii (join sep parts) := by
  unfold Py.join
  induction parts with
  | nil =>
    intro c hc
    simp [List.intercalate] at hc
  | cons s parts ih =>
    rcases parts with _ | ⟨t, parts⟩
    · simpa [List.intercalate] using hparts s
    · have hrest := ih (fun r hr => hparts r (List.mem_cons_of_mem s hr))
      rw [List.intercalate_cons_cons]
      exact ((hparts s List.mem_cons_self).append hsep).append hrest

/-- A natural number is written in digits. -/
theorem repr_digits (m : Nat) : lit m.repr ≠ [] ∧ ∀ d ∈ lit m.repr, 48 ≤ d.val ∧ d.val ≤ 57 := by
  refine ⟨?_, ?_⟩
  · simp [lit, Nat.toList_repr]
  · intro d hd
    obtain ⟨ch, hch, rfl⟩ := List.mem_map.mp hd
    rw [Nat.toList_repr] at hch
    have hdigit := Nat.isDigit_of_mem_toDigits (by decide) (by decide) hch
    simp only [Char.isDigit, Bool.and_eq_true, decide_eq_true_eq, ge_iff_le] at hdigit
    have hge : '0'.toNat ≤ ch.toNat := hdigit.1
    have hle : ch.toNat ≤ '9'.toNat := hdigit.2
    have h0 : '0'.toNat = 48 := rfl
    have h9 : '9'.toNat = 57 := rfl
    rw [CodePoint.ofChar_val]
    omega

/-- What `str` writes of an integer: digits, perhaps after a sign. -/
theorem str_int_digits (n : Int) : ∃ ds, ds ≠ [] ∧ (∀ d ∈ ds, 48 ≤ d.val ∧ d.val ≤ 57) ∧
    (str_int n = ds ∨ str_int n = CodePoint.ofChar '-' :: ds) := by
  rcases n with m | m
  · exact ⟨lit m.repr, (repr_digits m).1, (repr_digits m).2, Or.inl rfl⟩
  · refine ⟨lit (m + 1).repr, (repr_digits (m + 1)).1, (repr_digits (m + 1)).2, Or.inr ?_⟩
    show lit ("-" ++ (m + 1).repr) = _
    simp [lit]

theorem mem_str_int {n : Int} {c : CodePoint} (h : c ∈ str_int n) :
    c = CodePoint.ofChar '-' ∨ (48 ≤ c.val ∧ c.val ≤ 57) := by
  obtain ⟨ds, -, hdigits, hstr | hstr⟩ := str_int_digits n
  · rw [hstr] at h
    exact Or.inr (hdigits c h)
  · rw [hstr] at h
    rcases List.mem_cons.mp h with rfl | h
    · exact Or.inl rfl
    · exact Or.inr (hdigits c h)

theorem isAscii_str_int (n : Int) : IsAscii (str_int n) := by
  intro c hc
  rcases mem_str_int hc with rfl | ⟨-, hle⟩
  · decide
  · omega

/-- No blank in a number. -/
theorem str_int_no_space {n : Int} {c : CodePoint} (h : c ∈ str_int n) : ¬isspace c = true := by
  rcases mem_str_int h with rfl | ⟨hge, hle⟩
  · decide
  · simp only [isspace]
    have hvals : ∀ k, k < 48 ∨ 57 < k → (c.val == k) = false := by
      intro k hk
      simp only [beq_eq_false_iff_ne]
      omega
    simp [hvals]
    omega

theorem strip_of_no_space {s : PyStr} (h : ∀ c ∈ s, ¬isspace c = true) : strip s = s := by
  have hdrop : ∀ t : PyStr, (∀ c ∈ t, ¬isspace c = true) → t.dropWhile isspace = t := by
    intro t ht
    cases t with
    | nil => rfl
    | cons c t => exact List.dropWhile_cons_of_neg (ht c List.mem_cons_self)
  rw [strip, hdrop s h, hdrop s.reverse (by simpa using h), List.reverse_reverse]

/-- `int` reads the digits of a number. -/
theorem intDigits_of_digits [Unicode] {s : PyStr} (hne : s ≠ [])
    (h : ∀ c ∈ s, 48 ≤ c.val ∧ c.val ≤ 57) : intDigits s = some (s.map fun c => c.val - 48) := by
  induction s with
  | nil => exact absurd rfl hne
  | cons c s ih =>
    rw [List.forall_mem_cons] at h
    rw [intDigits, digitValue, if_pos h.1]
    dsimp only
    cases s with
    | nil => rfl
    | cons u s =>
      have hu : u ≠ CodePoint.ofChar '_' := by
        rintro rfl
        exact absurd (h.2 _ List.mem_cons_self).2 (by decide)
      dsimp only
      rw [if_neg hu, ih (List.cons_ne_nil u s) h.2]
      rfl

/-- **Round trip**: `int(str(n))` is `n`, if it has no more digits than `int`
    accepts. -/
theorem parseInt_str_int [Unicode] {n : Nat} (h : n < 10 ^ maxStrDigits) :
    parseInt (str_int n) = some (n : Int) := by
  have hdigits := repr_digits n
  have hlit : str_int n = lit n.repr := rfl
  have hread : (lit n.repr).map (fun c => c.val - 48) =
      (Nat.toDigits 10 n).map fun c => c.toNat - '0'.toNat := by
    rw [lit, List.map_map, Nat.toList_repr]
    apply List.map_congr_left
    intro c _
    exact congrArg (· - 48) (CodePoint.ofChar_val c)
  have hlen : ((lit n.repr).map fun c => c.val - 48).length ≤ maxStrDigits := by
    rw [hread, List.length_map]
    exact (Nat.length_toDigits_le_iff (by decide) (by decide)).mpr h
  have hvalue : ((lit n.repr).map fun c => c.val - 48).foldl (fun n d => 10 * n + d) 0 = n := by
    rw [hread, List.foldl_map]
    exact Nat.ofDigitChars_ten_toDigits
  have hnat : parseNat (lit n.repr) = some n := by
    rw [parseNat, intDigits_of_digits hdigits.1 hdigits.2]
    dsimp only
    rw [if_neg (Nat.not_lt.mpr hlen), hvalue]
  rw [parseInt, strip_of_no_space (fun c hc => str_int_no_space hc), hlit]
  generalize lit n.repr = s at hdigits hnat
  cases s with
  | nil => exact absurd rfl hdigits.1
  | cons c cs =>
    have hc := hdigits.2 c List.mem_cons_self
    have hminus : c ≠ CodePoint.ofChar '-' := by
      rintro rfl
      exact absurd hc.1 (by decide)
    have hplus : c ≠ CodePoint.ofChar '+' := by
      rintro rfl
      exact absurd hc.1 (by decide)
    dsimp only
    rw [if_neg hminus, if_neg hplus, hnat]
    rfl

theorem isAscii_hexDigits (k n : Nat) : IsAscii (hexDigits k n) := by
  induction k generalizing n with
  | zero =>
    intro c hc
    simp [hexDigits] at hc
  | succ k ih =>
    apply (ih (n / 16)).append
    intro c hc
    rw [List.mem_singleton.mp hc, hexDigit]
    by_cases h : n % 16 < 10
    · rw [if_pos h, Fin.val_ofNat]
      omega
    · rw [if_neg h, Fin.val_ofNat]
      omega

/-- Encoding an ASCII text never raises, and a character is a byte. -/
theorem encode_of_ascii {s : PyStr} (h : IsAscii s) :
    ∃ bytes, encode s = some bytes ∧ bytes.length = s.length := by
  have hchars : ∃ parts, s.mapM encodeChar = some parts ∧ parts.flatten.length = s.length := by
    induction s with
    | nil => exact ⟨[], rfl, rfl⟩
    | cons c s ih =>
      obtain ⟨parts, hparts, hlen⟩ := ih (fun d hd => h d (List.mem_cons_of_mem c hd))
      have hc : c.val < 0x80 := h c List.mem_cons_self
      refine ⟨[Fin.ofNat _ c.val] :: parts, by simp [encodeChar, hc, hparts], ?_⟩
      simp [hlen]
  obtain ⟨parts, hparts, hlen⟩ := hchars
  exact ⟨parts.flatten, by rw [encode, hparts]; rfl, hlen⟩

/-! ## How long a text gets -/

/-- The characters of the parts, and two for each separator. -/
def joined_size (parts : List PyStr) : Nat := (parts.map fun part => part.length + 2).sum

@[simp] theorem joined_size_append (parts parts' : List PyStr) :
    joined_size (parts ++ parts') = joined_size parts + joined_size parts' := by
  simp [joined_size]

theorem length_join_le {sep : PyStr} (hsep : sep.length ≤ 2) (parts : List PyStr) :
    (join sep parts).length ≤ joined_size parts := by
  unfold join
  induction parts with
  | nil => exact Nat.le_refl 0
  | cons part rest ih =>
    cases rest with
    | nil => simp [List.intercalate, joined_size]
    | cons part' rest =>
      rw [List.intercalate_cons_cons]
      simp only [joined_size, List.map_cons, List.sum_cons, List.length_append] at ih ⊢
      omega

/-- Lines of bounded length have a bounded join. -/
theorem joined_size_le {k : Nat} {parts : List PyStr} (h : ∀ part ∈ parts, part.length + 2 ≤ k) :
    joined_size parts ≤ parts.length * k := by
  have hall : ∀ n ∈ parts.map fun part => part.length + 2, n ≤ k := by
    intro n hn
    obtain ⟨part, hpart, rfl⟩ := List.mem_map.mp hn
    exact h part hpart
  have hsum := List.sum_le_card_nsmul _ _ hall
  rwa [List.length_map] at hsum

/-- A part is no longer than the join. -/
theorem length_le_join {part : PyStr} {parts : List PyStr} (h : part ∈ parts) (sep : PyStr) :
    part.length ≤ (join sep parts).length := by
  unfold join
  induction parts with
  | nil => cases h
  | cons first rest ih =>
    cases rest with
    | nil => simp [List.intercalate, List.mem_singleton.mp h]
    | cons part' rest =>
      rw [List.intercalate_cons_cons, List.length_append, List.length_append]
      rcases List.mem_cons.mp h with rfl | hrest
      · omega
      · have := ih hrest
        omega

/-- A character that becomes at most `k` characters. -/
theorem length_flatMap_le {f : CodePoint → PyStr} {k : Nat} (hf : ∀ c, (f c).length ≤ k) (s : PyStr) :
    (s.flatMap f).length ≤ k * s.length := by
  induction s with
  | nil => exact Nat.zero_le _
  | cons c s ih =>
    have hc := hf c
    rw [List.flatMap_cons, List.length_append, List.length_cons, Nat.mul_add, Nat.mul_one]
    omega

theorem length_hexDigits (k n : Nat) : (hexDigits k n).length = k := by
  induction k generalizing n with
  | zero => rfl
  | succ k ih => rw [hexDigits, List.length_append, ih, List.length_singleton]

theorem length_reprChar_le [Unicode] (q c : CodePoint) : (reprChar q c).length ≤ 10 := by
  unfold reprChar
  repeat' split
  all_goals simp [lit, length_hexDigits]

theorem length_repr_str_le [Unicode] (s : PyStr) : (repr_str s).length ≤ 10 * s.length + 2 := by
  have hs := length_flatMap_le (length_reprChar_le (reprQuote s)) s
  rw [repr_str, List.length_append, List.length_cons, List.length_singleton]
  omega

theorem length_shlex_quote_le (s : PyStr) : (shlex_quote s).length ≤ 5 * s.length + 2 := by
  unfold shlex_quote
  split
  · exact Nat.le_add_left 2 _
  split
  · omega
  · have hquoted : ∀ c : CodePoint,
        (if c = CodePoint.ofChar '\'' then lit "'\"'\"'" else [c]).length ≤ 5 := by
      intro c
      split
      · decide
      · simp
    have hs := length_flatMap_le hquoted s
    have hq : (lit "'").length = 1 := rfl
    rw [List.length_append, List.length_append, hq]
    omega

theorem length_strip_le (s : PyStr) : (strip s).length ≤ s.length := by
  have hinner := (List.dropWhile_sublist (p := isspace) (l := s)).length_le
  have houter := (List.dropWhile_sublist (p := isspace) (l := (s.dropWhile isspace).reverse)).length_le
  rw [List.length_reverse] at houter
  rw [strip, List.length_reverse]
  omega

end Syndicate.Py
