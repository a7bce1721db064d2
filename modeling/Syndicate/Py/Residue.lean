import Syndicate.Py.Render

/-! # What a substitution leaves behind

    * `Re.Matches`: the texts a pattern matches, apart from how a search goes
      about it; `step_sound` and `step_complete` tie the search to it.
    * `Re.Free`: no part of a text matches.
    * `Swept`: a text and what a substitution makes of it.  What a match may
      not contain keeps it from reaching across a replacement. -/

namespace Syndicate.Py

namespace Re

/-! ## The language of a pattern -/

/-- The texts a pattern matches. -/
def Matches : Re → PyStr → Prop
  | empty, w => w = []
  | one p, w => ∃ c, w = [c] ∧ p c = true
  | seq r t, w => ∃ u v, w = u ++ v ∧ r.Matches u ∧ t.Matches v
  | alt r t, w => r.Matches w ∨ t.Matches w
  | star p, w | lazy p, w => ∀ c ∈ w, p c = true

theorem starStep_sound {p : CodePoint → Bool} {k : PyStr → Option PyStr} {s rest : PyStr}
    (h : starStep p k s = some rest) :
    ∃ w s', s = w ++ s' ∧ (∀ c ∈ w, p c = true) ∧ k s' = some rest := by
  induction s with
  | nil => exact ⟨[], [], rfl, by simp, h⟩
  | cons c s ih =>
    rw [starStep] at h
    by_cases hc : p c = true
    · rw [if_pos hc] at h
      rcases Option.or_eq_some_iff.mp h with h | ⟨-, h⟩
      · obtain ⟨w, s', hsplit, hw, hk⟩ := ih h
        exact ⟨c :: w, s', by rw [hsplit]; rfl, List.forall_mem_cons.mpr ⟨hc, hw⟩, hk⟩
      · exact ⟨[], c :: s, rfl, by simp, h⟩
    · rw [if_neg hc] at h
      exact ⟨[], c :: s, rfl, by simp, h⟩

theorem lazyStep_sound {p : CodePoint → Bool} {k : PyStr → Option PyStr} {s rest : PyStr}
    (h : lazyStep p k s = some rest) :
    ∃ w s', s = w ++ s' ∧ (∀ c ∈ w, p c = true) ∧ k s' = some rest := by
  induction s with
  | nil => exact ⟨[], [], rfl, by simp, h⟩
  | cons c s ih =>
    rw [lazyStep] at h
    rcases Option.or_eq_some_iff.mp h with h | ⟨-, h⟩
    · exact ⟨[], c :: s, rfl, by simp, h⟩
    · by_cases hc : p c = true
      · rw [if_pos hc] at h
        obtain ⟨w, s', hsplit, hw, hk⟩ := ih h
        exact ⟨c :: w, s', by rw [hsplit]; rfl, List.forall_mem_cons.mpr ⟨hc, hw⟩, hk⟩
      · rw [if_neg hc] at h
        cases h

/-- What the search takes off the front is a match. -/
theorem step_sound {r : Re} {k : PyStr → Option PyStr} {s rest : PyStr} (h : r.step k s = some rest) :
    ∃ w s', s = w ++ s' ∧ r.Matches w ∧ k s' = some rest := by
  induction r generalizing k s with
  | empty => exact ⟨[], s, rfl, rfl, h⟩
  | one p =>
    cases s with
    | nil => cases h
    | cons c s =>
      rw [step] at h
      by_cases hc : p c = true
      · rw [if_pos hc] at h
        exact ⟨[c], s, rfl, ⟨c, rfl, hc⟩, h⟩
      · rw [if_neg hc] at h
        cases h
  | seq r t ihr iht =>
    obtain ⟨u, s₁, rfl, hu, h₁⟩ := ihr h
    obtain ⟨v, s₂, rfl, hv, h₂⟩ := iht h₁
    exact ⟨u ++ v, s₂, by rw [List.append_assoc], ⟨u, v, rfl, hu, hv⟩, h₂⟩
  | alt r t ihr iht =>
    rw [step] at h
    rcases Option.or_eq_some_iff.mp h with h | ⟨-, h⟩
    · obtain ⟨w, s', hsplit, hw, hk⟩ := ihr h
      exact ⟨w, s', hsplit, Or.inl hw, hk⟩
    · obtain ⟨w, s', hsplit, hw, hk⟩ := iht h
      exact ⟨w, s', hsplit, Or.inr hw, hk⟩
  | star p => exact starStep_sound h
  | lazy p => exact lazyStep_sound h

theorem starStep_complete {p : CodePoint → Bool} {k : PyStr → Option PyStr} {w s : PyStr}
    (hw : ∀ c ∈ w, p c = true) (hk : (k s).isSome) : (starStep p k (w ++ s)).isSome := by
  induction w with
  | nil =>
    cases s with
    | nil => exact hk
    | cons c s =>
      rw [List.nil_append, starStep]
      split
      · rw [Option.isSome_or, hk, Bool.or_true]
      · exact hk
  | cons c w ih =>
    have hc := hw c List.mem_cons_self
    have hrest := ih fun d hd => hw d (List.mem_cons_of_mem c hd)
    rw [List.cons_append, starStep, if_pos hc, Option.isSome_or, hrest, Bool.true_or]

theorem lazyStep_complete {p : CodePoint → Bool} {k : PyStr → Option PyStr} {w s : PyStr}
    (hw : ∀ c ∈ w, p c = true) (hk : (k s).isSome) : (lazyStep p k (w ++ s)).isSome := by
  induction w with
  | nil =>
    cases s with
    | nil => exact hk
    | cons c s => rw [List.nil_append, lazyStep, Option.isSome_or, hk, Bool.true_or]
  | cons c w ih =>
    have hc := hw c List.mem_cons_self
    have hrest := ih fun d hd => hw d (List.mem_cons_of_mem c hd)
    rw [List.cons_append, lazyStep, if_pos hc, Option.isSome_or, hrest, Bool.or_true]

/-- Where there is a match, the search finds one. -/
theorem step_complete {r : Re} {k : PyStr → Option PyStr} {w s : PyStr} (hw : r.Matches w)
    (hk : (k s).isSome) : (r.step k (w ++ s)).isSome := by
  induction r generalizing k w s with
  | empty =>
    obtain rfl : w = [] := hw
    exact hk
  | one p =>
    obtain ⟨c, rfl, hc⟩ := hw
    rw [List.cons_append, step, if_pos hc]
    exact hk
  | seq r t ihr iht =>
    obtain ⟨u, v, rfl, hu, hv⟩ := hw
    rw [List.append_assoc]
    exact ihr hu (iht hv hk)
  | alt r t ihr iht =>
    rw [step, Option.isSome_or]
    rcases hw with hw | hw
    · rw [ihr hw hk, Bool.true_or]
    · rw [iht hw hk, Bool.or_true]
  | star p => exact starStep_complete hw hk
  | lazy p => exact lazyStep_complete hw hk

theorem matchHere_of_matches {r : Re} {w s : PyStr} (hw : r.Matches w) :
    r.matchHere (w ++ s) ≠ none := by
  have hsome := step_complete (k := some) (s := s) hw rfl
  exact Option.isSome_iff_ne_none.mp hsome

theorem ne_nil_of_matches {r : Re} (hr : r.nonempty = true) {w : PyStr} (hw : r.Matches w) :
    w ≠ [] := by
  rintro rfl
  exact matchHere_of_matches (s := []) hw (matchHere_nil hr)

/-! ## What a match may contain -/

/-- May a match contain the character? -/
def mentions : Re → CodePoint → Bool
  | empty, _ => false
  | one p, x | star p, x | lazy p, x => p x
  | seq r t, x | alt r t, x => r.mentions x || t.mentions x

theorem mentions_of_mem {r : Re} {w : PyStr} (hw : r.Matches w) {x : CodePoint} (hx : x ∈ w) :
    r.mentions x = true := by
  induction r generalizing w with
  | empty =>
    obtain rfl : w = [] := hw
    cases hx
  | one p =>
    obtain ⟨c, rfl, hc⟩ := hw
    rw [List.mem_singleton.mp hx]
    exact hc
  | seq r t ihr iht =>
    obtain ⟨u, v, rfl, hu, hv⟩ := hw
    rw [mentions, Bool.or_eq_true]
    rcases List.mem_append.mp hx with hx | hx
    · exact Or.inl (ihr hu hx)
    · exact Or.inr (iht hv hx)
  | alt r t ihr iht =>
    rw [mentions, Bool.or_eq_true]
    rcases hw with hw | hw
    · exact Or.inl (ihr hw hx)
    · exact Or.inr (iht hw hx)
  | star p => exact hw x hx
  | lazy p => exact hw x hx

/-! ## Texts without a match -/

/-- No part of the text matches. -/
def Free (r : Re) (s : PyStr) : Prop := ∀ w, w <:+: s → ¬r.Matches w

/-- A text without a match is left as it is. -/
theorem sub_of_free {r : Re} {repl s : PyStr} (h : Free r s) : r.sub repl s = s := by
  have hquiet := @sub_quiet r repl s [] (by
    intro e he _
    rw [List.append_nil]
    cases hm : r.matchHere e with
    | none => rfl
    | some rest =>
      obtain ⟨w, s', rfl, hw, -⟩ := step_sound hm
      exact absurd hw (h w ((List.prefix_append w s').isInfix.trans he.isInfix)))
  simpa [sub, subLoop] using hquiet

/-- A check for it: no beginning of a suffix can begin a match. -/
theorem free_of_tails {r : Re} {s : PyStr}
    (h : s.tails.all (fun e => (r.matchHere e).isNone) = true) : Free r s := by
  rintro w ⟨a, b, rfl⟩ hw
  have hnone := List.all_eq_true.mp h (w ++ b) (by
    rw [List.mem_tails, List.append_assoc]
    exact List.suffix_append a (w ++ b))
  exact matchHere_of_matches hw (Option.isNone_iff_eq_none.mp hnone)

end Re

/-! ## A text and what a substitution makes of it -/

/-- `t` is `s` with some parts replaced by `repl`; what is kept satisfies
    `keep` with what comes after it. -/
inductive Swept (keep : PyStr → Prop) (repl : PyStr) : PyStr → PyStr → Prop where
  | nil : Swept keep repl [] []
  | kept {c : CodePoint} {s t : PyStr} (hkeep : keep (c :: s)) (h : Swept keep repl s t) :
      Swept keep repl (c :: s) (c :: t)
  | replaced {u s t : PyStr} (h : Swept keep repl s t) : Swept keep repl (u ++ s) (repl ++ t)

/-- What is kept begins no match. -/
theorem swept_sub {r : Re} (hr : r.nonempty = true) (repl s : PyStr) :
    Swept (fun e => r.matchHere e = none) repl s (r.sub repl s) := by
  induction hn : s.length using Nat.strong_induction_on generalizing s with
  | _ n ih =>
    cases s with
    | nil => exact .nil
    | cons c s =>
      cases hm : r.matchHere (c :: s) with
      | none =>
        rw [Re.sub_none hm]
        exact .kept hm (ih s.length (by rw [← hn]; exact Nat.lt_succ_self _) s rfl)
      | some rest =>
        obtain ⟨hsuffix, hlt⟩ := Re.matchHere_suffix hm
        obtain ⟨u, hu⟩ := hsuffix
        rw [Re.sub_some hr hm, ← hu]
        exact .replaced (ih rest.length (by rw [← hn]; exact hlt hr) rest rfl)

/-- A part of a text that avoids a character lies on one side of it. -/
theorem infix_of_not_mem {w a b : PyStr} {x : CodePoint} (h : w <:+: a ++ x :: b) (hx : x ∉ w) :
    w <:+: a ∨ w <:+: b := by
  obtain ⟨l, m, heq⟩ := h
  rw [List.append_assoc] at heq
  rcases List.append_eq_append_iff.mp heq with ⟨d, ha, hd⟩ | ⟨d, rfl, hd⟩
  · -- the part begins within `a`
    rcases List.append_eq_append_iff.mp hd with ⟨e, he, hm⟩ | ⟨e, he, hm⟩
    · left
      exact ⟨l, e, by rw [ha, he, List.append_assoc]⟩
    · cases e with
      | nil =>
        left
        exact ⟨l, [], by rw [ha, he]; simp⟩
      | cons y e =>
        obtain ⟨rfl, -⟩ := List.cons.inj hm
        exact absurd (by rw [he]; simp) hx
  · cases d with
    | nil =>
      cases w with
      | nil => exact Or.inl (List.nil_infix)
      | cons y w =>
        obtain ⟨rfl, -⟩ := List.cons.inj hd
        exact absurd List.mem_cons_self hx
    | cons y d =>
      obtain ⟨-, rfl⟩ := List.cons.inj hd
      exact Or.inr ⟨d, m, by simp⟩

section swept
variable {keep : PyStr → Prop} {opening closing : CodePoint} {inner s t : PyStr}

/-- A part at the front that avoids the opening bracket was there before,
    and the rest was swept. -/
theorem Swept.front (h : Swept keep (opening :: inner) s t) {w y : PyStr} (ht : t = w ++ y)
    (hw : opening ∉ w) : ∃ x, s = w ++ x ∧ Swept keep (opening :: inner) x y := by
  induction h generalizing w y with
  | nil =>
    obtain ⟨rfl, rfl⟩ := List.append_eq_nil_iff.mp ht.symm
    exact ⟨[], rfl, .nil⟩
  | @kept c s t hkeep h ih =>
    cases w with
    | nil =>
      obtain rfl : c :: t = y := ht
      exact ⟨c :: s, rfl, .kept hkeep h⟩
    | cons d w =>
      obtain ⟨rfl, ht'⟩ := List.cons.inj ht
      obtain ⟨x, rfl, hx⟩ := ih ht' fun hmem => hw (List.mem_cons_of_mem c hmem)
      exact ⟨x, rfl, hx⟩
  | @replaced u s t h ih =>
    cases w with
    | nil =>
      rw [List.nil_append] at ht
      rw [← ht]
      exact ⟨u ++ s, rfl, .replaced h⟩
    | cons d w =>
      obtain ⟨rfl, -⟩ := List.cons.inj ht
      exact absurd List.mem_cons_self hw

/-- A part that avoids both brackets was there before, or is within the
    replacement. -/
theorem Swept.part (h : Swept keep (opening :: (inner ++ [closing])) s t) {w : PyStr} (hw : w <:+: t)
    (hopening : opening ∉ w) (hclosing : closing ∉ w) : w <:+: s ∨ w <:+: inner := by
  induction h with
  | nil => exact Or.inl hw
  | @kept c s t hkeep h ih =>
    rcases List.infix_cons_iff.mp hw with hfront | hw
    · obtain ⟨y, hy⟩ := hfront
      obtain ⟨x, hx, -⟩ := (Swept.kept hkeep h).front hy.symm hopening
      exact Or.inl ⟨[], x, by rw [hx]; rfl⟩
    · rcases ih hw with hw | hw
      · exact Or.inl (hw.trans (List.suffix_cons c s).isInfix)
      · exact Or.inr hw
  | @replaced u s t h ih =>
    have hsplit : (opening :: (inner ++ [closing])) ++ t = (opening :: inner) ++ closing :: t := by
      simp
    rw [hsplit] at hw
    rcases infix_of_not_mem hw hclosing with hw | hw
    · rcases infix_of_not_mem (a := []) hw hopening with hw | hw
      · rw [List.infix_nil.mp hw]
        exact Or.inl List.nil_infix
      · exact Or.inr hw
    · rcases ih hw with hw | hw
      · exact Or.inl (hw.trans (List.suffix_append u s).isInfix)
      · exact Or.inr hw

variable {r : Re} (hinner : Re.Free r inner)
include hinner

/-- Another pattern's substitution brings no match of a pattern that avoids
    the brackets. -/
theorem Swept.free (h : Swept keep (opening :: (inner ++ [closing])) s t)
    (hopening : r.mentions opening = false) (hclosing : r.mentions closing = false)
    (hs : Re.Free r s) : Re.Free r t := by
  intro w hw hmatch
  have hno : ∀ x, r.mentions x = false → x ∉ w := by
    intro x hx hmem
    rw [Re.mentions_of_mem hmatch hmem] at hx
    cases hx
  rcases h.part hw (hno opening hopening) (hno closing hclosing) with hw | hw
  · exact hs w hw hmatch
  · exact hinner w hw hmatch

/-- A substitution leaves no match of its own pattern, where the pattern
    avoids the brackets. -/
theorem free_sub (hr : r.nonempty = true) (hopening : r.mentions opening = false)
    (hclosing : r.mentions closing = false) (s : PyStr) :
    Re.Free r (r.sub (opening :: (inner ++ [closing])) s) := by
  intro w hw hmatch
  have hno : ∀ x, r.mentions x = false → x ∉ w := by
    intro x hx hmem
    rw [Re.mentions_of_mem hmatch hmem] at hx
    cases hx
  -- follow the scan to where the match would begin
  have hswept := swept_sub hr (opening :: (inner ++ [closing])) s
  generalize r.sub (opening :: (inner ++ [closing])) s = t at hswept hw
  induction hswept with
  | nil => exact Re.ne_nil_of_matches hr hmatch (List.infix_nil.mp hw)
  | @kept c s t hkeep h ih =>
    rcases List.infix_cons_iff.mp hw with hfront | hw
    · obtain ⟨y, hy⟩ := hfront
      have hfront : Swept (fun e => r.matchHere e = none) _ (c :: s) (c :: t) := .kept hkeep h
      obtain ⟨x, hx, -⟩ := hfront.front hy.symm (hno opening hopening)
      rw [hx] at hkeep
      exact Re.matchHere_of_matches hmatch hkeep
    · exact ih hw
  | @replaced u s t h ih =>
    have hsplit : (opening :: (inner ++ [closing])) ++ t = (opening :: inner) ++ closing :: t := by
      simp
    rw [hsplit] at hw
    rcases infix_of_not_mem hw (hno closing hclosing) with hw | hw
    · rcases infix_of_not_mem (a := []) hw (hno opening hopening) with hw | hw
      · exact Re.ne_nil_of_matches hr hmatch (List.infix_nil.mp hw)
      · exact hinner w hw hmatch
    · exact ih hw

end swept

end Syndicate.Py
