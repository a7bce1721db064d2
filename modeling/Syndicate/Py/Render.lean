import Mathlib.Data.List.Infix
import Mathlib.Data.Option.Basic
import Syndicate.Py.Re

/-! # Patterns over rendered texts

    A rendering writes a text character by character, each as it is or as an
    escape sequence.  What a pattern finds in the text it need not find in
    what is written of it.

    * `Re.may`: what a text begins with rules a match out.
    * `sub_quiet`: a substitution goes past what matches nothing.
    * `Rendering`, `Re.restrict`: a pattern finds in a rendered text what it
      finds in the text with the characters alone that stand as they are.
    * `sub_rendered`: where that is all it finds in the text, a substitution
      and a rendering can change places. -/

namespace Syndicate.Py

namespace Re

/-! ## How much a match takes -/

/-- The pattern matches no empty text. -/
def nonempty : Re → Bool
  | empty | star _ | lazy _ => false
  | one _ => true
  | seq r t => r.nonempty || t.nonempty
  | alt r t => r.nonempty && t.nonempty

theorem starStep_split {p : CodePoint → Bool} {k : PyStr → Option PyStr} {s rest : PyStr}
    (h : starStep p k s = some rest) : ∃ s', s' <:+ s ∧ k s' = some rest := by
  induction s with
  | nil => exact ⟨[], List.suffix_rfl, h⟩
  | cons c s ih =>
    rw [starStep] at h
    by_cases hc : p c
    · rw [if_pos hc] at h
      rcases Option.or_eq_some_iff.mp h with h | ⟨-, h⟩
      · obtain ⟨s', hs', hk⟩ := ih h
        exact ⟨s', hs'.trans (List.suffix_cons c s), hk⟩
      · exact ⟨c :: s, List.suffix_rfl, h⟩
    · rw [if_neg hc] at h
      exact ⟨c :: s, List.suffix_rfl, h⟩

theorem lazyStep_split {p : CodePoint → Bool} {k : PyStr → Option PyStr} {s rest : PyStr}
    (h : lazyStep p k s = some rest) : ∃ s', s' <:+ s ∧ k s' = some rest := by
  induction s with
  | nil => exact ⟨[], List.suffix_rfl, h⟩
  | cons c s ih =>
    rw [lazyStep] at h
    rcases Option.or_eq_some_iff.mp h with h | ⟨-, h⟩
    · exact ⟨c :: s, List.suffix_rfl, h⟩
    · by_cases hc : p c
      · rw [if_pos hc] at h
        obtain ⟨s', hs', hk⟩ := ih h
        exact ⟨s', hs'.trans (List.suffix_cons c s), hk⟩
      · rw [if_neg hc] at h
        cases h

/-- A match takes a part off the front, and goes on with the rest. -/
theorem step_split {r : Re} {k : PyStr → Option PyStr} {s rest : PyStr} (h : r.step k s = some rest) :
    ∃ s', s' <:+ s ∧ k s' = some rest ∧ (r.nonempty = true → s'.length < s.length) := by
  induction r generalizing k s with
  | empty => exact ⟨s, List.suffix_rfl, h, fun hne => by cases hne⟩
  | one p =>
    cases s with
    | nil => cases h
    | cons c s =>
      rw [step] at h
      by_cases hc : p c
      · rw [if_pos hc] at h
        exact ⟨s, List.suffix_cons c s, h, fun _ => Nat.lt_succ_self _⟩
      · rw [if_neg hc] at h
        cases h
  | seq r t ihr iht =>
    obtain ⟨s₁, hs₁, h₁, hr⟩ := ihr h
    obtain ⟨s₂, hs₂, h₂, ht⟩ := iht h₁
    refine ⟨s₂, hs₂.trans hs₁, h₂, ?_⟩
    intro hne
    -- one of the two parts takes something
    have hle₁ := hs₁.length_le
    have hle₂ := hs₂.length_le
    rcases Bool.or_eq_true_iff.mp hne with hne | hne
    · have := hr hne
      omega
    · have := ht hne
      omega
  | alt r t ihr iht =>
    rw [step] at h
    rcases Option.or_eq_some_iff.mp h with h | ⟨-, h⟩
    · obtain ⟨s', hs', hk, hlt⟩ := ihr h
      exact ⟨s', hs', hk, fun hne => hlt (Bool.and_eq_true_iff.mp hne).1⟩
    · obtain ⟨s', hs', hk, hlt⟩ := iht h
      exact ⟨s', hs', hk, fun hne => hlt (Bool.and_eq_true_iff.mp hne).2⟩
  | star p =>
    obtain ⟨s', hs', hk⟩ := starStep_split h
    exact ⟨s', hs', hk, fun hne => by cases hne⟩
  | lazy p =>
    obtain ⟨s', hs', hk⟩ := lazyStep_split h
    exact ⟨s', hs', hk, fun hne => by cases hne⟩

theorem matchHere_suffix {r : Re} {s rest : PyStr} (h : r.matchHere s = some rest) :
    rest <:+ s ∧ (r.nonempty = true → rest.length < s.length) := by
  obtain ⟨s', hs', hk, hlt⟩ := step_split h
  obtain rfl : s' = rest := Option.some.inj hk
  exact ⟨hs', hlt⟩

theorem matchHere_nil {r : Re} (hr : r.nonempty = true) : r.matchHere [] = none := by
  cases h : r.matchHere [] with
  | none => rfl
  | some rest =>
    have hlt := (matchHere_suffix h).2 hr
    simp at hlt

/-! ## What a beginning rules out -/

/-- A repetition on a text that begins with `u`. -/
def mayStar (p : CodePoint → Bool) (K : PyStr → Bool) : PyStr → Bool
  | [] => true
  | c :: u => K (c :: u) || (p c && mayStar p K u)

/-- Can the pattern match a text that begins with `u`, where `K` says it of
    what comes after the pattern? -/
def may : Re → (PyStr → Bool) → PyStr → Bool
  | empty, K, u => K u
  | one _, _, [] => true
  | one p, K, c :: u => p c && K u
  | seq r t, K, u => r.may (t.may K) u
  | alt r t, K, u => r.may K u || t.may K u
  | star p, K, u | lazy p, K, u => mayStar p K u

/-- `K` holds where `k` matches. -/
def Bounds (k : PyStr → Option PyStr) (K : PyStr → Bool) : Prop :=
  ∀ u y rest, k (u ++ y) = some rest → K u = true

theorem bounds_starStep {p : CodePoint → Bool} {k : PyStr → Option PyStr} {K : PyStr → Bool}
    (hk : Bounds k K) : Bounds (starStep p k) (mayStar p K) := by
  intro u
  induction u with
  | nil =>
    intro _ _ _
    rfl
  | cons c u ih =>
    intro y rest h
    rw [List.cons_append, starStep] at h
    rw [mayStar, Bool.or_eq_true]
    by_cases hc : p c
    · rw [if_pos hc] at h
      rcases Option.or_eq_some_iff.mp h with h | ⟨-, h⟩
      · exact Or.inr (by rw [hc, ih y rest h, Bool.and_true])
      · exact Or.inl (hk (c :: u) y rest h)
    · rw [if_neg hc] at h
      exact Or.inl (hk (c :: u) y rest h)

theorem bounds_lazyStep {p : CodePoint → Bool} {k : PyStr → Option PyStr} {K : PyStr → Bool}
    (hk : Bounds k K) : Bounds (lazyStep p k) (mayStar p K) := by
  intro u
  induction u with
  | nil =>
    intro _ _ _
    rfl
  | cons c u ih =>
    intro y rest h
    rw [List.cons_append, lazyStep] at h
    rw [mayStar, Bool.or_eq_true]
    rcases Option.or_eq_some_iff.mp h with h | ⟨-, h⟩
    · exact Or.inl (hk (c :: u) y rest h)
    · by_cases hc : p c
      · rw [if_pos hc] at h
        exact Or.inr (by rw [hc, ih y rest h, Bool.and_true])
      · rw [if_neg hc] at h
        cases h

theorem bounds_step (r : Re) {k : PyStr → Option PyStr} {K : PyStr → Bool} (hk : Bounds k K) :
    Bounds (r.step k) (r.may K) := by
  induction r generalizing k K with
  | empty => exact hk
  | one p =>
    intro u y rest h
    cases u with
    | nil => rfl
    | cons c u =>
      rw [List.cons_append, step] at h
      by_cases hc : p c
      · rw [if_pos hc] at h
        rw [may, hc, hk u y rest h, Bool.and_true]
      · rw [if_neg hc] at h
        cases h
  | seq r t ihr iht => exact ihr (iht hk)
  | alt r t ihr iht =>
    intro u y rest h
    rw [step] at h
    rw [may, Bool.or_eq_true]
    rcases Option.or_eq_some_iff.mp h with h | ⟨-, h⟩
    · exact Or.inl (ihr hk u y rest h)
    · exact Or.inr (iht hk u y rest h)
  | star p => exact bounds_starStep hk
  | lazy p => exact bounds_lazyStep hk

/-- Can the pattern match a text that begins with `u`? -/
def begins (r : Re) (u : PyStr) : Bool := r.may (fun _ => true) u

theorem step_none {r : Re} {u : PyStr} (h : r.begins u = false) (k : PyStr → Option PyStr) (y : PyStr) :
    r.step k (u ++ y) = none := by
  cases hm : r.step k (u ++ y) with
  | none => rfl
  | some rest =>
    have hbegins : r.begins u = true := bounds_step r (fun _ _ _ _ => rfl) u y rest hm
    rw [h] at hbegins
    cases hbegins

/-- Nothing matches within `p`, whatever comes after it. -/
def Quiet (r : Re) (p : PyStr) : Prop := ∀ y e, e <:+ p → e ≠ [] → r.matchHere (e ++ y) = none

theorem Quiet.nil {r : Re} : Quiet r [] := by
  intro y e he hne
  exact absurd (List.suffix_nil.mp he) hne

theorem Quiet.cons {r : Re} {c : CodePoint} {p : PyStr} (h : r.begins (c :: p) = false)
    (hp : Quiet r p) : Quiet r (c :: p) := by
  intro y e he hne
  rcases List.suffix_cons_iff.mp he with rfl | he
  · exact step_none h some y
  · exact hp y e he hne

theorem Quiet.append {r : Re} {p p' : PyStr} (hp : Quiet r p) (hp' : Quiet r p') :
    Quiet r (p ++ p') := by
  induction p with
  | nil => exact hp'
  | cons c p ih =>
    intro y e he hne
    rcases List.suffix_cons_iff.mp he with rfl | he
    · have hwhole := hp (p' ++ y) (c :: p) List.suffix_rfl (List.cons_ne_nil c p)
      rw [← List.append_assoc] at hwhole
      exact hwhole
    · exact ih (fun y d hd => hp y d (hd.trans (List.suffix_cons c p))) y e he hne

/-- A check for it. -/
theorem quiet_of_tails {r : Re} {p : PyStr} (h : p.tails.all (fun e => e.isEmpty || !r.begins e) = true) :
    Quiet r p := by
  intro y e he hne
  have hbegins := List.all_eq_true.mp h e ((List.mem_tails e p).mpr he)
  apply step_none
  simpa [hne] using hbegins

/-! ## Substitution by parts -/

section sub
variable {r : Re} {repl : PyStr}

theorem subLoop_skip (n : Nat) (s : PyStr) : subLoop r repl n s = subLoop r repl 0 (s.drop n) := by
  induction s generalizing n with
  | nil => simp [subLoop]
  | cons c s ih =>
    cases n with
    | zero => rfl
    | succ n => exact ih n

theorem sub_none {c : CodePoint} {s : PyStr} (h : r.matchHere (c :: s) = none) :
    r.sub repl (c :: s) = c :: r.sub repl s := by
  rw [sub, subLoop, h]
  rfl

theorem sub_some (hr : r.nonempty = true) {s rest : PyStr} (h : r.matchHere s = some rest) :
    r.sub repl s = repl ++ r.sub repl rest := by
  obtain ⟨hsuffix, hlt⟩ := matchHere_suffix h
  cases s with
  | nil =>
    rw [matchHere_nil hr] at h
    cases h
  | cons c s =>
    have hle : rest.length ≤ s.length := Nat.lt_succ_iff.mp (hlt hr)
    have htail : rest <:+ s := by
      rcases List.suffix_cons_iff.mp hsuffix with rfl | htail
      · exact absurd (hlt hr) (Nat.lt_irrefl _)
      · exact htail
    rw [sub, subLoop, h]
    simp only [hle, if_true]
    rw [subLoop_skip, ← List.suffix_iff_eq_drop.mp htail]
    rfl

/-- Nothing is replaced where nothing matches. -/
theorem sub_quiet {p y : PyStr} (h : ∀ e, e <:+ p → e ≠ [] → r.matchHere (e ++ y) = none) :
    r.sub repl (p ++ y) = p ++ r.sub repl y := by
  induction p with
  | nil => rfl
  | cons c p ih =>
    have hhere : r.matchHere (c :: (p ++ y)) = none := h (c :: p) List.suffix_rfl (List.cons_ne_nil c p)
    have hrest := ih fun e he hne => h e (he.trans (List.suffix_cons c p)) hne
    rw [List.cons_append, sub_none hhere, hrest]
    rfl

end sub

end Re

/-! ## Renderings -/

/-- A way to write a text: each character as it is, or as a sequence that
    begins with `esc`. -/
structure Rendering where
  char : CodePoint → PyStr
  esc : CodePoint
  spec : ∀ c, char c = [c] ∨ ∃ e, char c = esc :: e

namespace Rendering

variable (f : Rendering)

/-- What is written of a text. -/
def text (s : PyStr) : PyStr := s.flatMap f.char

/-- The character is written as it is. -/
def plain (c : CodePoint) : Bool := f.char c == [c]

@[simp] theorem text_nil : f.text [] = [] := rfl

@[simp] theorem text_cons (c : CodePoint) (s : PyStr) : f.text (c :: s) = f.char c ++ f.text s :=
  List.flatMap_cons

@[simp] theorem text_append (s t : PyStr) : f.text (s ++ t) = f.text s ++ f.text t :=
  List.flatMap_append

theorem char_of_plain {c : CodePoint} (h : f.plain c = true) : f.char c = [c] := eq_of_beq h

theorem char_of_not_plain {c : CodePoint} (h : f.plain c = false) : ∃ e, f.char c = f.esc :: e := by
  rcases f.spec c with hc | he
  · rw [plain, hc, beq_self_eq_true] at h
    cases h
  · exact he

/-- What is written of plain characters is these. -/
theorem text_of_plain {s : PyStr} (h : ∀ c ∈ s, f.plain c = true) : f.text s = s := by
  induction s with
  | nil => rfl
  | cons c s ih =>
    rw [text_cons, f.char_of_plain (h c List.mem_cons_self),
      ih fun d hd => h d (List.mem_cons_of_mem c hd)]
    rfl

/-- `e` is the end of an escape sequence, cut within it. -/
def Inner (c : CodePoint) (e : PyStr) : Prop := e ≠ [] ∧ ∃ d, d ≠ [] ∧ f.char c = d ++ e

/-- `x` is what is written of `s`, closed with `tail`, or both are over. -/
def Reads (tail x s : PyStr) : Prop := x = f.text s ++ tail ∨ (x = [] ∧ s = [])

/-- Two searches come out alike. -/
def Alike (tail : PyStr) : Option PyStr → Option PyStr → Prop := Option.Rel (f.Reads tail)

end Rendering

section reads
variable {f : Rendering} {tail : PyStr}

theorem Rendering.Alike.or {o o' p p' : Option PyStr} (h : f.Alike tail o p)
    (h' : f.Alike tail o' p') : f.Alike tail (o.or o') (p.or p') := by
  cases h with
  | some h => exact .some h
  | none => exact h'

/-- Two ways on that agree with one. -/
theorem Rendering.Alike.both {o o' p : Option PyStr} (h : f.Alike tail o p) (h' : f.Alike tail o' p) :
    f.Alike tail (o.or o') p := by
  cases h with
  | some h => exact .some h
  | none => exact h'

/-- The end of a text reads as nothing or as the closing character. -/
theorem Rendering.Reads.nil {x : PyStr} (htail : tail.length ≤ 1) (h : f.Reads tail x []) :
    x = [] ∨ ∃ q, tail = [q] ∧ x = [q] := by
  rcases h with hx | ⟨hx, -⟩
  · rw [f.text_nil, List.nil_append] at hx
    rcases tail with _ | ⟨q, _ | ⟨q', rest⟩⟩
    · exact Or.inl hx
    · exact Or.inr ⟨q, rfl, hx⟩
    · simp at htail
  · exact Or.inl hx

theorem Rendering.reads_text (s : PyStr) : f.Reads tail (f.text s ++ tail) s := Or.inl rfl

/-- The front of a text reads as what is written of its first character. -/
theorem Rendering.Reads.cons {x s : PyStr} {c : CodePoint} (h : f.Reads tail x (c :: s)) :
    x = f.char c ++ (f.text s ++ tail) := by
  rcases h with rfl | ⟨-, hs⟩
  · rw [f.text_cons, List.append_assoc]
  · cases hs

end reads

namespace Re

/-! ## What a pattern finds in a rendered text -/

/-- The pattern with the plain characters of its classes alone.  A lazy
    repetition keeps all of its own. -/
def restrict (plain : CodePoint → Bool) : Re → Re
  | empty => empty
  | one p => one fun c => p c && plain c
  | seq r t => seq (r.restrict plain) (t.restrict plain)
  | alt r t => alt (r.restrict plain) (t.restrict plain)
  | star p => star fun c => p c && plain c
  | lazy p => lazy p

/-- Every class is of plain characters. -/
inductive Within (plain : CodePoint → Bool) : Re → Prop
  | empty : Within plain empty
  | one {p : CodePoint → Bool} (hp : ∀ c, p c = true → plain c = true) : Within plain (one p)
  | seq {r t : Re} (hr : Within plain r) (ht : Within plain t) : Within plain (seq r t)
  | alt {r t : Re} (hr : Within plain r) (ht : Within plain t) : Within plain (alt r t)
  | star {p : CodePoint → Bool} (hp : ∀ c, p c = true → plain c = true) : Within plain (star p)
  | lazy {p : CodePoint → Bool} : Within plain (lazy p)

theorem Within.restrict_eq {plain : CodePoint → Bool} {r : Re} (h : Within plain r) :
    r.restrict plain = r := by
  have hclass : ∀ {p : CodePoint → Bool}, (∀ c, p c = true → plain c = true) →
      (fun c => p c && plain c) = p := by
    intro p hp
    funext c
    cases hc : p c with
    | true => rw [hp c hc]; rfl
    | false => rfl
  induction h with
  | empty => rfl
  | one hp => rw [restrict, hclass hp]
  | seq _ _ ihr iht => rw [restrict, ihr, iht]
  | alt _ _ ihr iht => rw [restrict, ihr, iht]
  | star hp => rw [restrict, hclass hp]
  | lazy => rfl

theorem Within.seqs {plain : CodePoint → Bool} {rs : List Re} (h : ∀ r ∈ rs, Within plain r) :
    Within plain (Re.seqs rs) := by
  induction rs with
  | nil => exact .empty
  | cons r rs ih =>
    cases rs with
    | nil => exact h r List.mem_cons_self
    | cons r' rs =>
      exact .seq (h r List.mem_cons_self) (ih fun x hx => h x (List.mem_cons_of_mem r hx))

theorem Within.exactly {plain p : CodePoint → Bool} (n : Nat)
    (hp : ∀ c, p c = true → plain c = true) : Within plain (Re.exactly n p) := by
  apply Within.seqs
  intro r hr
  rw [List.eq_of_mem_replicate hr]
  exact .one hp

/-- A literal of plain characters. -/
theorem Within.text {plain : CodePoint → Bool} (s : String) (hs : (lit s).all plain = true) :
    Within plain (Re.text s) := by
  apply Within.seqs
  intro r hr
  obtain ⟨c, hc, rfl⟩ := List.mem_map.mp hr
  refine .one fun d hd => ?_
  rw [eq_of_beq hd]
  exact List.all_eq_true.mp hs c hc

/-- No class takes in the character that begins an escape, and none that
    has to match takes in the closing `tail`; a lazy repetition is of any
    character, and what comes after it begins with a character (of `p`)
    that stands in no escape sequence. -/
inductive Clear (f : Rendering) (tail : PyStr) : Re → Prop
  | empty : Clear f tail empty
  | one {p : CodePoint → Bool} (hesc : p f.esc = false) (htail : ∀ q ∈ tail, p q = false) :
      Clear f tail (one p)
  | seq {r t : Re} (hr : Clear f tail r) (ht : Clear f tail t) : Clear f tail (seq r t)
  | alt {r t : Re} (hr : Clear f tail r) (ht : Clear f tail t) : Clear f tail (alt r t)
  | opt {p : CodePoint → Bool} (hesc : p f.esc = false) : Clear f tail (opt (one p))
  | star {p : CodePoint → Bool} (hesc : p f.esc = false) : Clear f tail (star p)
  | lazy {t : Re} (ht : Clear f tail t)
      (hinner : ∀ c e, f.Inner c e → ∀ y, ∀ k, t.step k (e ++ y) = none) :
      Clear f tail (seq (lazy fun _ => true) t)

section clear
variable {f : Rendering} {tail : PyStr}

/-- The searches that go on after a pattern agree. -/
def Follows (f : Rendering) (tail : PyStr) (k' k : PyStr → Option PyStr) : Prop :=
  ∀ x s, f.Reads tail x s → f.Alike tail (k' x) (k s)

theorem follows_starStep {p : CodePoint → Bool} (htail : tail.length ≤ 1) (hesc : p f.esc = false)
    {k' k : PyStr → Option PyStr} (hk : Follows f tail k' k) :
    Follows f tail (starStep p k') (starStep (fun c => p c && f.plain c) k) := by
  intro x s h
  induction s generalizing x with
  | nil =>
    rcases h.nil htail with rfl | ⟨q, hq, rfl⟩
    · exact hk [] [] h
    · show f.Alike tail (if p q then (k' []).or (k' [q]) else k' [q]) (k [])
      -- the closing character may still be taken
      by_cases hpq : p q
      · rw [if_pos hpq]
        exact (hk [] [] (Or.inr ⟨rfl, rfl⟩)).both (hk [q] [] h)
      · rw [if_neg hpq]
        exact hk [q] [] h
  | cons c s ih =>
    have hhere := hk x (c :: s) h
    have hx := h.cons
    cases hc : f.plain c with
    | true =>
      rw [f.char_of_plain hc] at hx
      subst hx
      show f.Alike tail (starStep p k' (c :: (f.text s ++ tail))) _
      rw [starStep, starStep, hc, Bool.and_true]
      by_cases hp : p c
      · rw [if_pos hp, if_pos hp]
        exact (ih _ (Rendering.reads_text s)).or hhere
      · rw [if_neg hp, if_neg hp]
        exact hhere
    | false =>
      -- an escape starts with a character the class does not have
      obtain ⟨e, he⟩ := f.char_of_not_plain hc
      rw [he] at hx
      subst hx
      show f.Alike tail (starStep p k' (f.esc :: (e ++ (f.text s ++ tail)))) _
      rw [starStep, starStep, hesc, hc, Bool.and_false]
      exact hhere

theorem follows_one {p : CodePoint → Bool} (hesc : p f.esc = false)
    {k' k : PyStr → Option PyStr} (hk : Follows f tail k' k) {x s : PyStr} {c : CodePoint}
    (h : f.Reads tail x (c :: s)) :
    f.Alike tail ((one p).step k' x) ((one fun c => p c && f.plain c).step k (c :: s)) := by
  have hx := h.cons
  cases hc : f.plain c with
  | true =>
    rw [f.char_of_plain hc] at hx
    subst hx
    show f.Alike tail ((one p).step k' (c :: (f.text s ++ tail))) _
    rw [step, step, hc, Bool.and_true]
    by_cases hp : p c
    · rw [if_pos hp, if_pos hp]
      exact hk _ s (Rendering.reads_text s)
    · rw [if_neg hp, if_neg hp]
      exact .none
  | false =>
    obtain ⟨e, he⟩ := f.char_of_not_plain hc
    rw [he] at hx
    subst hx
    show f.Alike tail ((one p).step k' (f.esc :: (e ++ (f.text s ++ tail)))) _
    rw [step, step, hesc, hc, Bool.and_false]
    exact .none

theorem lazyStep_skip {k : PyStr → Option PyStr} {e y : PyStr}
    (h : ∀ e', e' <:+ e → e' ≠ [] → k (e' ++ y) = none) :
    lazyStep (fun _ => true) k (e ++ y) = lazyStep (fun _ => true) k y := by
  induction e with
  | nil => rfl
  | cons c e ih =>
    have hhere : k (c :: (e ++ y)) = none := h (c :: e) List.suffix_rfl (List.cons_ne_nil c e)
    rw [List.cons_append, lazyStep, hhere, Option.none_or, if_pos rfl]
    exact ih fun e' he' hne => h e' (he'.trans (List.suffix_cons c e)) hne

theorem follows_lazyStep (htail : tail.length ≤ 1) {k' k : PyStr → Option PyStr}
    (hk : Follows f tail k' k) (hinner : ∀ c e, f.Inner c e → ∀ y, k' (e ++ y) = none) :
    Follows f tail (lazyStep (fun _ => true) k') (lazyStep (fun _ => true) k) := by
  intro x s h
  induction s generalizing x with
  | nil =>
    rcases h.nil htail with rfl | ⟨q, hq, rfl⟩
    · exact hk [] [] h
    · exact (hk [q] [] h).both (hk [] [] (Or.inr ⟨rfl, rfl⟩))
  | cons c s ih =>
    have hhere := hk x (c :: s) h
    have hx := h.cons
    obtain ⟨d, e, hde⟩ : ∃ d e, f.char c = d :: e := by
      rcases f.spec c with hc | ⟨e, he⟩
      · exact ⟨c, [], hc⟩
      · exact ⟨f.esc, e, he⟩
    -- within an escape nothing that comes after the repetition begins
    have hskip : lazyStep (fun _ => true) k' (e ++ (f.text s ++ tail)) =
        lazyStep (fun _ => true) k' (f.text s ++ tail) := by
      apply lazyStep_skip
      intro e' he' hne
      obtain ⟨d', rfl⟩ := he'
      exact hinner c e' ⟨hne, d :: d', List.cons_ne_nil d d', hde⟩ _
    rw [hde] at hx
    subst hx
    show f.Alike tail ((k' (d :: e ++ (f.text s ++ tail))).or
      (lazyStep (fun _ => true) k' (e ++ (f.text s ++ tail)))) _
    rw [hskip]
    exact hhere.or (ih _ (Rendering.reads_text s))

/-- **Patterns read renderings**: in a rendered text a clear pattern finds
    what it finds in the text with the plain characters alone. -/
theorem Clear.follows (htail : tail.length ≤ 1) {r : Re} (hr : Clear f tail r)
    {k' k : PyStr → Option PyStr} (hk : Follows f tail k' k) :
    Follows f tail (r.step k') ((r.restrict f.plain).step k) := by
  induction hr generalizing k' k with
  | empty => exact hk
  | @one p hesc hout =>
    intro x s h
    cases s with
    | nil =>
      rcases h.nil htail with rfl | ⟨q, hq, rfl⟩
      · exact .none
      · have hnot : p q = false := hout q (by rw [hq]; exact List.mem_singleton_self q)
        show f.Alike tail (if p q then k' [] else none) none
        rw [hnot]
        exact .none
    | cons c s => exact follows_one hesc hk h
  | seq _ _ ihr iht => exact ihr (iht hk)
  | alt _ _ ihr iht =>
    intro x s h
    exact (ihr hk x s h).or (iht hk x s h)
  | @opt p hesc =>
    intro x s h
    cases s with
    | nil =>
      rcases h.nil htail with rfl | ⟨q, hq, rfl⟩
      · exact hk [] [] h
      · show f.Alike tail ((if p q then k' [] else none).or (k' [q])) (k [])
        by_cases hpq : p q
        · rw [if_pos hpq]
          exact (hk [] [] (Or.inr ⟨rfl, rfl⟩)).both (hk [q] [] h)
        · rw [if_neg hpq]
          exact hk [q] [] h
    | cons c s => exact (follows_one hesc hk h).or (hk x (c :: s) h)
  | star hesc => exact follows_starStep htail hesc hk
  | lazy _ hinner iht =>
    exact follows_lazyStep htail (iht hk) fun c e he y => hinner c e he y k'

theorem Clear.seqs {rs : List Re} (h : ∀ r ∈ rs, Clear f tail r) : Clear f tail (seqs rs) := by
  induction rs with
  | nil => exact .empty
  | cons r rs ih =>
    cases rs with
    | nil => exact h r List.mem_cons_self
    | cons r' rs =>
      exact .seq (h r List.mem_cons_self) (ih fun x hx => h x (List.mem_cons_of_mem r hx))

theorem Clear.exactly {p : CodePoint → Bool} (n : Nat) (h : Clear f tail (Re.one p)) :
    Clear f tail (Re.exactly n p) := by
  apply Clear.seqs
  intro r hr
  rw [List.eq_of_mem_replicate hr]
  exact h

theorem Clear.atLeast {p : CodePoint → Bool} (n : Nat) (hesc : p f.esc = false)
    (hout : ∀ q ∈ tail, p q = false) : Clear f tail (Re.atLeast n p) :=
  .seq (.exactly n (.one hesc hout)) (.star hesc)

/-- One class after the other. -/
theorem Clear.letters {p : CodePoint → CodePoint → Bool} {cs : PyStr}
    (h : ∀ c ∈ cs, p c f.esc = false ∧ ∀ q ∈ tail, p c q = false) :
    Clear f tail (Re.seqs (cs.map fun c => Re.one (p c))) := by
  apply Clear.seqs
  intro r hr
  obtain ⟨c, hc, rfl⟩ := List.mem_map.mp hr
  exact .one (h c hc).1 (h c hc).2

/-- What a pattern finds in a rendered text. -/
theorem Clear.matchHere (htail : tail.length ≤ 1) {r : Re} (hr : Clear f tail r) (s : PyStr) :
    f.Alike tail (r.matchHere (f.text s ++ tail)) ((r.restrict f.plain).matchHere s) :=
  hr.follows htail (fun _ _ h => .some h) _ s (Rendering.reads_text s)

/-! ## Substitution and rendering -/

/-- What is written of a text is no obstacle to the pattern: what it finds
    in the text, it finds with plain characters alone, and nothing begins
    within an escape. -/
def Legible (f : Rendering) (r : Re) (t : PyStr) : Prop :=
  (∀ s, s <:+ t → r.matchHere s = (r.restrict f.plain).matchHere s) ∧
  ∀ c s e, c :: s <:+ t → f.Inner c e → (r.restrict f.plain).matchHere (e ++ s) = none

/-- A check of it, from one end of the text to the other. -/
def legible_check (f : Rendering) (r : Re) : PyStr → Bool
  | [] => r.matchHere [] == (r.restrict f.plain).matchHere []
  | c :: s =>
    r.matchHere (c :: s) == (r.restrict f.plain).matchHere (c :: s) &&
      (f.char c).tail.tails.all (fun e =>
        e.isEmpty || ((r.restrict f.plain).matchHere (e ++ s)).isNone) &&
      legible_check f r s

theorem legible_of_check {r : Re} {t : PyStr} (h : legible_check f r t = true) : Legible f r t := by
  induction t with
  | nil =>
    refine ⟨?_, ?_⟩
    · intro s hs
      rw [List.suffix_nil.mp hs]
      exact eq_of_beq h
    · intro c s e hs _
      exact absurd (List.suffix_nil.mp hs) (List.cons_ne_nil c s)
  | cons c t ih =>
    simp only [legible_check, Bool.and_eq_true, beq_iff_eq] at h
    obtain ⟨⟨hsame, hnone⟩, hrest⟩ := h
    obtain ⟨hall, hinner⟩ := ih hrest
    refine ⟨?_, ?_⟩
    · intro s hs
      rcases List.suffix_cons_iff.mp hs with rfl | hs
      · exact hsame
      · exact hall s hs
    · intro d s e hs he
      rcases List.suffix_cons_iff.mp hs with heq | hs
      · obtain ⟨rfl, rfl⟩ := List.cons.inj heq
        obtain ⟨hne, a, ha, hchar⟩ := he
        obtain ⟨x, a, rfl⟩ := List.exists_cons_of_ne_nil ha
        have htail : e ∈ (f.char d).tail.tails := by
          rw [hchar]
          exact (List.mem_tails _ _).mpr (List.suffix_append a e)
        simpa [hne] using List.all_eq_true.mp hnone e htail
      · exact hinner d s e hs he

theorem Legible.suffix {r : Re} {s t : PyStr} (h : Legible f r t) (hs : s <:+ t) : Legible f r s :=
  ⟨fun x hx => h.1 x (hx.trans hs), fun c x e hx => h.2 c x e (hx.trans hs)⟩

/-- To a pattern of plain characters that nothing begins within an escape,
    every text is legible. -/
theorem Within.legible {r : Re} (hr : Within f.plain r)
    (hinner : ∀ c e, f.Inner c e → ∀ y, r.matchHere (e ++ y) = none) (t : PyStr) : Legible f r t := by
  unfold Legible
  rw [hr.restrict_eq]
  exact ⟨fun _ _ => rfl, fun c s e _ he => hinner c e he s⟩

/-- Nothing is found within an escape of a legible text. -/
theorem Legible.inner (htail : tail.length ≤ 1) {r : Re} (hr : Clear f tail r) {t s : PyStr}
    {c : CodePoint} (ht : Legible f r t) (hs : c :: s <:+ t) {e : PyStr} (he : f.Inner c e)
    (hplain : ∀ d ∈ e, f.plain d = true) : r.matchHere (e ++ (f.text s ++ tail)) = none := by
  have hfound := hr.matchHere htail (e ++ s)
  rw [ht.2 c s e hs he, f.text_append, f.text_of_plain hplain, List.append_assoc] at hfound
  cases hm : r.matchHere (e ++ (f.text s ++ tail)) with
  | none => rfl
  | some rest =>
    rw [hm] at hfound
    cases hfound

/-- **Substitution of a rendered text** is the rendering of the substituted
    one, where the text is legible; the closing character may go with the
    last match. -/
theorem sub_rendered (htail : tail.length ≤ 1) {r : Re} (hne : r.nonempty = true)
    (hr : Clear f tail r) {repl : PyStr} (hrepl : f.text repl = repl)
    (hcut : ∀ c e, f.Inner c e → (∀ d ∈ e, f.plain d = true) ∨ ∀ y, r.matchHere (e ++ y) = none)
    {t : PyStr} (ht : Legible f r t) :
    ∃ tail', tail' <+: tail ∧ r.sub repl (f.text t ++ tail) = f.text (r.sub repl t) ++ tail' := by
  induction hn : t.length using Nat.strong_induction_on generalizing t with
  | _ n ih =>
    have hfound := hr.matchHere htail t
    rw [← ht.1 t List.suffix_rfl] at hfound
    -- the patterns match at the same places of a text and of its rendering
    cases hm : r.matchHere t with
    | none =>
      rw [hm] at hfound
      have hnone : r.matchHere (f.text t ++ tail) = none := by
        cases hx : r.matchHere (f.text t ++ tail) with
        | none => rfl
        | some x =>
          rw [hx] at hfound
          cases hfound
      cases t with
      | nil =>
        refine ⟨tail, List.prefix_rfl, ?_⟩
        rw [f.text_nil, List.nil_append] at hnone ⊢
        rcases tail with _ | ⟨q, _ | ⟨q', rest⟩⟩
        · rfl
        · rw [sub_none hnone]
          rfl
        · simp at htail
      | cons c s =>
        obtain ⟨tail', htail', hsub⟩ := ih s.length (by rw [← hn]; exact Nat.lt_succ_self _)
          (ht.suffix (List.suffix_cons c s)) rfl
        refine ⟨tail', htail', ?_⟩
        rw [f.text_cons, List.append_assoc] at hnone ⊢
        -- nothing is found from within the rendering of one character
        have hquiet : r.sub repl (f.char c ++ (f.text s ++ tail)) =
            f.char c ++ r.sub repl (f.text s ++ tail) := by
          apply sub_quiet
          intro e he hne'
          obtain ⟨d, hd⟩ := he
          by_cases hwhole : d = []
          · rw [hwhole, List.nil_append] at hd
            rw [hd]
            exact hnone
          · have hinner : f.Inner c e := ⟨hne', d, hwhole, hd.symm⟩
            rcases hcut c e hinner with hplain | hout
            · exact ht.inner htail hr List.suffix_rfl hinner hplain
            · exact hout _
        rw [hquiet, hsub, sub_none hm, f.text_cons, List.append_assoc]
    | some rest =>
      rw [hm] at hfound
      obtain ⟨hsuffix, hlt⟩ := matchHere_suffix hm
      -- the match on the rendering leaves the rendering of `rest`, or of nothing
      obtain ⟨x, hx, hreads⟩ : ∃ x, r.matchHere (f.text t ++ tail) = some x ∧ f.Reads tail x rest := by
        cases hx : r.matchHere (f.text t ++ tail) with
        | none =>
          rw [hx] at hfound
          cases hfound
        | some x =>
          rw [hx] at hfound
          cases hfound with
          | some hreads => exact ⟨x, rfl, hreads⟩
      rw [sub_some hne hm, sub_some hne hx, f.text_append, hrepl]
      rcases hreads with rfl | ⟨rfl, rfl⟩
      · obtain ⟨tail', htail', hsub⟩ := ih rest.length (by rw [← hn]; exact hlt hne)
          (ht.suffix hsuffix) rfl
        exact ⟨tail', htail', by rw [hsub, List.append_assoc]⟩
      · exact ⟨[], List.nil_prefix, by simp [sub, subLoop]⟩

end clear

end Re

end Syndicate.Py
