import Mathlib.Data.List.Infix

/-! # Woven texts

    A text in which quoted strings stand between marks, such as JSON.  A word
    without a quote that is not of marks alone lies in one of the strings;
    so do two words, one behind the other, and in the same order. -/

namespace Syndicate

variable {α : Type} {q : α}

/-- A word without a quote lies before a quote or behind it. -/
theorem split_at_quote {x w z a c : List α} (heq : x ++ (w ++ z) = a ++ q :: c) (hq : q ∉ w) :
    (∃ z', a = x ++ (w ++ z') ∧ z = z' ++ q :: c) ∨ ∃ x', c = x' ++ (w ++ z) := by
  rcases List.append_eq_append_iff.mp heq with ⟨d, rfl, hd⟩ | ⟨d, rfl, hd⟩
  · -- the word begins before the quote
    rcases List.append_eq_append_iff.mp hd with ⟨e, rfl, hz⟩ | ⟨e, rfl, hc⟩
    · exact .inl ⟨e, rfl, hz⟩
    · cases e with
      | nil => exact .inl ⟨[], by simp, hc.symm⟩
      | cons y e =>
        obtain ⟨rfl, -⟩ := List.cons.inj hc
        exact absurd (List.mem_append_right d List.mem_cons_self) hq
  · cases d with
    | nil =>
      rw [List.nil_append] at hd
      cases w with
      | nil => exact .inl ⟨[], by simp, hd.symm⟩
      | cons y w =>
        obtain ⟨rfl, -⟩ := List.cons.inj hd
        exact absurd List.mem_cons_self hq
    | cons y d =>
      obtain ⟨-, rfl⟩ := List.cons.inj hd
      exact .inr ⟨d, rfl⟩

/-- Inside a string a quote stands behind an escape. -/
def Escaped (q escape : α) (body : List α) : Prop :=
  ∀ x y, body = x ++ q :: y → x.getLast? = some escape

section escaped
variable {escape : α} {a b : List α}

theorem escaped_of_not_mem (h : q ∉ b) : Escaped q escape b := by
  rintro x y rfl
  exact absurd (by simp) h

theorem Escaped.append (ha : Escaped q escape a) (hb : Escaped q escape b) :
    Escaped q escape (a ++ b) := by
  intro x y h
  rcases List.append_eq_append_iff.mp h with ⟨x', rfl, hrest⟩ | ⟨y', ha', hrest⟩
  · have hlast := hb x' y hrest
    have hne : x' ≠ [] := by
      rintro rfl
      cases hlast
    rw [List.getLast?_append_of_ne_nil a hne]
    exact hlast
  · cases y' with
    | nil =>
      -- the quote is the first one behind `a`
      have hlast := hb [] y hrest.symm
      cases hlast
    | cons d y' =>
      obtain ⟨rfl, -⟩ := List.cons.inj hrest
      exact ha x y' ha'

/-- A string that is cut off is still one. -/
theorem Escaped.take (h : Escaped q escape b) (n : Nat) : Escaped q escape (b.take n) := by
  intro x y hsplit
  apply h x (y ++ b.drop n)
  have hwhole := List.take_append_drop n b
  rw [hsplit, List.append_assoc] at hwhole
  exact hwhole.symm

end escaped

/-- A text and the strings in it, the last of which may be cut off.  Behind a
    string stands a character of `behind`. -/
inductive Woven (q escape : α) (mark behind : α → Prop) : List α → List (List α) → Prop where
  | marks {g : List α} (hg : ∀ c ∈ g, mark c) : Woven q escape mark behind g []
  | cut {g b : List α} (hg : ∀ c ∈ g, mark c) (hb : Escaped q escape b) :
      Woven q escape mark behind (g ++ q :: b) [b]
  | string {g b t : List α} {bs : List (List α)} (hg : ∀ c ∈ g, mark c) (hb : Escaped q escape b)
      (ht : ∀ c ∈ t.head?, behind c) (h : Woven q escape mark behind t bs) :
      Woven q escape mark behind (g ++ q :: (b ++ q :: t)) (b :: bs)

/-- Two words of the strings, the second one behind the first. -/
def InOrder (w v : List α) : List (List α) → Prop
  | [] => False
  | b :: bs => (∃ x m y, b = x ++ (w ++ (m ++ (v ++ y)))) ∨ (w <:+: b ∧ ∃ b' ∈ bs, v <:+: b') ∨
      InOrder w v bs

namespace Woven

variable {escape : α} {mark behind : α → Prop} {t : List α} {bs : List (List α)}

/-- Marks in front change nothing. -/
theorem append {g : List α} (hg : ∀ c ∈ g, mark c) (h : Woven q escape mark behind t bs) :
    Woven q escape mark behind (g ++ t) bs := by
  have hboth : ∀ {g'}, (∀ c ∈ g', mark c) → ∀ c ∈ g ++ g', mark c := by
    intro g' hg' c hc
    exact (List.mem_append.mp hc).elim (hg c) (hg' c)
  cases h with
  | marks hg' => exact .marks (hboth hg')
  | cut hg' hb =>
    rw [← List.append_assoc]
    exact .cut (hboth hg') hb
  | string hg' hb ht h =>
    rw [← List.append_assoc]
    exact .string (hboth hg') hb ht h

/-- A string lies in the text. -/
theorem infix_of_mem (h : Woven q escape mark behind t bs) {b : List α} (hb : b ∈ bs) : b <:+: t := by
  induction h with
  | marks => cases hb
  | @cut g b' =>
    rw [List.mem_singleton.mp hb]
    exact ⟨g ++ [q], [], by simp⟩
  | @string g b' t bs _ _ _ _ ih =>
    rcases List.mem_cons.mp hb with rfl | hb
    · exact ⟨g ++ [q], q :: t, by simp⟩
    · obtain ⟨x, y, hxy⟩ := ih hb
      exact ⟨g ++ q :: (b' ++ q :: x), y, by rw [← hxy]; simp⟩

section word
variable {w : List α}

/-- A word that is not of marks alone does not lie among marks. -/
theorem not_among_marks (hw : ∃ c ∈ w, ¬mark c) {g x z : List α} (hg : ∀ c ∈ g, mark c) :
    g ≠ x ++ (w ++ z) := by
  rintro rfl
  obtain ⟨c, hc, hno⟩ := hw
  exact hno (hg c (List.mem_append_right x (List.mem_append_left z hc)))

/-- The word lies in one of the strings. -/
theorem infix_of_infix (hq : q ∉ w) (hw : ∃ c ∈ w, ¬mark c) (h : Woven q escape mark behind t bs)
    (hin : w <:+: t) : ∃ b ∈ bs, w <:+: b := by
  obtain ⟨x, z, hxz⟩ := hin
  rw [List.append_assoc] at hxz
  induction h generalizing x with
  | marks hg => exact absurd hxz.symm (not_among_marks hw hg)
  | @cut g b hg hb =>
    rcases split_at_quote hxz hq with ⟨z', hsplit, -⟩ | ⟨x', rfl⟩
    · exact absurd hsplit (not_among_marks hw hg)
    · exact ⟨_, List.mem_singleton_self _, x', z, by simp⟩
  | @string g b t bs hg hb ht h ih =>
    rcases split_at_quote hxz hq with ⟨z', hsplit, -⟩ | ⟨x', hxz⟩
    · exact absurd hsplit (not_among_marks hw hg)
    · rcases split_at_quote hxz.symm hq with ⟨z', rfl, -⟩ | ⟨x'', rfl⟩
      · exact ⟨_, List.mem_cons_self, x', z', by simp⟩
      · obtain ⟨b', hb', hin⟩ := ih x'' rfl
        exact ⟨b', List.mem_cons_of_mem b hb', hin⟩

/-- A quote right behind the word ends its string, unless the word ends in
    an escape. -/
theorem behind_of_quote (hq : q ∉ w) (hw : ∃ c ∈ w, ¬mark c) (hlast : w.getLast? ≠ some escape)
    {x z : List α} (h : Woven q escape mark behind t bs) (ht : t = x ++ (w ++ q :: z)) :
    ∀ c ∈ z.head?, behind c := by
  have hne : w ≠ [] := by
    rintro rfl
    obtain ⟨c, hc, -⟩ := hw
    cases hc
  -- within a string there is an escape in front of the quote
  have hinside : ∀ {b x y : List α}, Escaped q escape b → b ≠ x ++ (w ++ q :: y) := by
    intro b x y hb hsplit
    have hescape := hb (x ++ w) y (by rw [hsplit, List.append_assoc])
    rw [List.getLast?_append_of_ne_nil x hne] at hescape
    exact hlast hescape
  induction h generalizing x with
  | marks hg => exact absurd ht (not_among_marks hw hg)
  | @cut g b hg hb =>
    rcases split_at_quote ht.symm hq with ⟨z', hsplit, -⟩ | ⟨x', hsplit⟩
    · exact absurd hsplit (not_among_marks hw hg)
    · exact absurd hsplit (hinside hb)
  | @string g b t bs hg hb hbehind h ih =>
    rcases split_at_quote ht.symm hq with ⟨z', hsplit, -⟩ | ⟨x', hsplit⟩
    · exact absurd hsplit (not_among_marks hw hg)
    · rcases split_at_quote hsplit.symm hq with ⟨z', hbody, hrest⟩ | ⟨x'', rfl⟩
      · cases z' with
        | nil =>
          obtain ⟨-, rfl⟩ := List.cons.inj hrest
          exact hbehind
        | cons y z' =>
          obtain ⟨rfl, -⟩ := List.cons.inj hrest
          exact absurd hbody (hinside hb)
      · exact ih rfl

end word

/-- Two words in order lie in the strings in that order. -/
theorem inOrder {w v : List α} (hqw : q ∉ w) (hw : ∃ c ∈ w, ¬mark c) (hqv : q ∉ v)
    (hv : ∃ c ∈ v, ¬mark c) (h : Woven q escape mark behind t bs) {x m y : List α}
    (ht : t = x ++ (w ++ (m ++ (v ++ y)))) : InOrder w v bs := by
  induction h generalizing x with
  | marks hg => exact absurd ht (not_among_marks hw hg)
  | @cut g b hg hb =>
    rcases split_at_quote ht.symm hqw with ⟨z', hsplit, -⟩ | ⟨x', hsplit⟩
    · exact absurd hsplit (not_among_marks hw hg)
    · exact .inl ⟨x', m, y, hsplit⟩
  | @string g b t bs hg hb hbehind h ih =>
    rcases split_at_quote ht.symm hqw with ⟨z', hsplit, -⟩ | ⟨x', hsplit⟩
    · exact absurd hsplit (not_among_marks hw hg)
    · rcases split_at_quote hsplit.symm hqw with ⟨z', hbody, hrest⟩ | ⟨x'', rfl⟩
      · -- the first word is in this string; where is the second?
        rcases split_at_quote hrest hqv with ⟨y', rfl, -⟩ | ⟨m', rfl⟩
        · exact .inl ⟨x', m, y', hbody⟩
        · have hlater := infix_of_infix hqv hv h ⟨m', y, by rw [List.append_assoc]⟩
          exact .inr (.inl ⟨⟨x', z', by rw [hbody, List.append_assoc]⟩, hlater⟩)
      · exact .inr (.inr (ih rfl))

/-- Words of the strings lie in the text in their order. -/
theorem of_inOrder {w v : List α} (h : Woven q escape mark behind t bs) (hin : InOrder w v bs) :
    ∃ x m y, t = x ++ (w ++ (m ++ (v ++ y))) := by
  induction h with
  | marks => cases hin
  | @cut g b =>
    rcases hin with ⟨x, m, y, rfl⟩ | ⟨-, b', hb', -⟩ | hin
    · exact ⟨g ++ q :: x, m, y, by simp⟩
    · cases hb'
    · cases hin
  | @string g b t bs _ _ _ h ih =>
    rcases hin with ⟨x, m, y, rfl⟩ | ⟨⟨x, y, rfl⟩, b', hb', hin⟩ | hin
    · exact ⟨g ++ q :: x, m, y ++ q :: t, by simp⟩
    · obtain ⟨m, y', hlater⟩ := hin.trans (infix_of_mem h hb')
      exact ⟨g ++ q :: x, y ++ q :: m, y', by rw [← hlater]; simp⟩
    · obtain ⟨x, m, y, rfl⟩ := ih hin
      exact ⟨g ++ q :: (b ++ q :: x), m, y, by simp⟩

end Woven

end Syndicate
