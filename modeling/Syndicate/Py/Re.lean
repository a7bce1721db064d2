import Syndicate.Py.Str

/-! # Regular expressions

    The fragment of Python's `re` in which every repetition is of one
    character class.  `Re.step` is the backtracking matcher, in the order
    `re` tries its alternatives, and `Re.sub` is `Pattern.sub` of a pattern
    that matches no empty text. -/

namespace Syndicate.Py

/-- A pattern over character classes. -/
inductive Re where
  | empty
  | one (p : CodePoint → Bool)
  | seq (r s : Re)
  | alt (r s : Re)
  /-- `[..]*`: as many as possible first. -/
  | star (p : CodePoint → Bool)
  /-- `[..]*?`: as few as possible first. -/
  | lazy (p : CodePoint → Bool)

namespace Re

/-! ## Building patterns -/

/-- The characters of a literal, one after the other. -/
def seqs : List Re → Re
  | [] => empty
  | [r] => r
  | r :: rs => seq r (seqs rs)

/-- A literal. -/
def text (s : String) : Re := seqs ((lit s).map fun c => one (· == c))

/-- `r?`. -/
def opt (r : Re) : Re := alt r empty

/-- `[..]{n}`. -/
def exactly (n : Nat) (p : CodePoint → Bool) : Re := seqs (List.replicate n (one p))

/-- `[..]{n,}`. -/
def atLeast (n : Nat) (p : CodePoint → Bool) : Re := seq (exactly n p) (star p)

/-- One of the characters of `s`. -/
def oneOf (s : String) : CodePoint → Bool := (lit s).contains

/-- The character `c` lies between two characters of the basic alphabet. -/
def between (lo hi : Char) (c : CodePoint) : Bool := lo.toNat ≤ c.val && c.val ≤ hi.toNat

/-- The characters that `(?i)` equates with a lower-case ASCII letter
    besides its upper case: the dotted and the dotless i, the long s and the
    Kelvin sign. -/
def foldExtra (lower c : CodePoint) : Bool :=
  (lower.val == 0x69 && (c.val == 0x130 || c.val == 0x131)) ||
  (lower.val == 0x73 && c.val == 0x17f) || (lower.val == 0x6b && c.val == 0x212a)

/-- A lower-case ASCII letter under `(?i)`. -/
def folded (lower c : CodePoint) : Bool :=
  c == lower || (between 'a' 'z' lower && c.val + 32 == lower.val) || foldExtra lower c

/-- A literal in lower case under `(?i)`. -/
def textFolded (s : String) : Re := seqs ((lit s).map fun c => one (folded c))

/-! ## Matching -/

/-- A greedy repetition of one class, then `k`. -/
def starStep (p : CodePoint → Bool) (k : PyStr → Option PyStr) : PyStr → Option PyStr
  | [] => k []
  | c :: s => if p c then (starStep p k s).or (k (c :: s)) else k (c :: s)

/-- A lazy repetition of one class, then `k`. -/
def lazyStep (p : CodePoint → Bool) (k : PyStr → Option PyStr) : PyStr → Option PyStr
  | [] => k []
  | c :: s => (k (c :: s)).or (if p c then lazyStep p k s else none)

/-- Match `r` at the start of a text and go on with `k`; what is left of the
    text after the first match the search finds. -/
def step : Re → (PyStr → Option PyStr) → PyStr → Option PyStr
  | empty, k, s => k s
  | one p, k, c :: s => if p c then k s else none
  | one _, _, [] => none
  | seq r t, k, s => r.step (t.step k) s
  | alt r t, k, s => (r.step k s).or (t.step k s)
  | star p, k, s => starStep p k s
  | lazy p, k, s => lazyStep p k s

/-- What is left of `s` after a match at its start. -/
def matchHere (r : Re) (s : PyStr) : Option PyStr := r.step some s

/-! ## Substitution -/

/-- The loop of `sub`: `skip` characters still belong to the last match. -/
def subLoop (r : Re) (repl : PyStr) : Nat → PyStr → PyStr
  | _, [] => []
  | skip + 1, _ :: s => subLoop r repl skip s
  | 0, c :: s =>
    match r.matchHere (c :: s) with
    | some rest =>
      if rest.length ≤ s.length then repl ++ subLoop r repl (s.length - rest.length) s
      else c :: subLoop r repl 0 s
    | none => c :: subLoop r repl 0 s

/-- `pattern.sub(repl, s)`. -/
def sub (r : Re) (repl s : PyStr) : PyStr := subLoop r repl 0 s

/-- A substitution leaves the text as it was, or writes the replacement. -/
theorem sub_eq_or_mem (r : Re) {repl : PyStr} {x : CodePoint} (hx : x ∈ repl) (s : PyStr) :
    r.sub repl s = s ∨ x ∈ r.sub repl s := by
  unfold sub
  induction s with
  | nil => exact Or.inl rfl
  | cons c s ih =>
    -- Without a match here the first character is kept and the rest decides.
    have hkeep : c :: subLoop r repl 0 s = c :: s ∨ x ∈ c :: subLoop r repl 0 s := by
      rcases ih with h | h
      · exact Or.inl (by rw [h])
      · exact Or.inr (List.mem_cons_of_mem c h)
    rw [subLoop]
    rcases r.matchHere (c :: s) with _ | rest
    · exact hkeep
    · by_cases hlen : rest.length ≤ s.length
      · simp only [hlen, if_true]
        exact Or.inr (List.mem_append_left _ hx)
      · simpa only [hlen, if_false] using hkeep

end Re

end Syndicate.Py
