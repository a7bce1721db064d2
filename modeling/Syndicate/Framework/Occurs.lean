import Mathlib.Data.List.Infix

/-! # Occurrences of one list in another

    An occurrence is a position; occurrences may overlap.

    * `OccursAt`: the list `w` stands in `s` from position `i` on.
    * `First`: no occurrence comes earlier.
    * `Apart`: two occurrences that do not overlap; the first one decides
      whether there are such. -/

namespace Framework

variable {α : Type} {w s : List α} {i j : Nat}

/-- `w` stands in `s` at position `i`. -/
def OccursAt (w s : List α) (i : Nat) : Prop := i ≤ s.length ∧ w <+: s.drop i

theorem occursAt_iff : OccursAt w s i ↔ ∃ pre post, s = pre ++ (w ++ post) ∧ pre.length = i := by
  constructor
  · intro h
    obtain ⟨hle, post, hpost⟩ := h
    refine ⟨s.take i, post, ?_, List.length_take_of_le hle⟩
    rw [hpost, List.take_append_drop]
  · intro h
    obtain ⟨pre, post, rfl, rfl⟩ := h
    refine ⟨by simp, ?_⟩
    rw [List.drop_left]
    exact List.prefix_append w post

theorem occursAt_zero : OccursAt w s 0 ↔ w <+: s := by simp [OccursAt]

theorem occursAt_cons {a : α} : OccursAt w (a :: s) (i + 1) ↔ OccursAt w s i := by
  simp [OccursAt]

/-- Later occurrences are those of the rest. -/
theorem occursAt_drop {n : Nat} (h : n ≤ s.length) :
    OccursAt w (s.drop n) i ↔ OccursAt w s (n + i) := by
  unfold OccursAt
  rw [List.drop_drop, List.length_drop]
  constructor
  · intro hocc
    have hle := hocc.1
    exact ⟨by omega, hocc.2⟩
  · intro hocc
    have hle := hocc.1
    exact ⟨by omega, hocc.2⟩

/-- The end of an occurrence is inside the list. -/
theorem OccursAt.end_le (h : OccursAt w s i) : i + w.length ≤ s.length := by
  obtain ⟨pre, post, rfl, rfl⟩ := occursAt_iff.mp h
  simp

/-- The list around an occurrence. -/
theorem OccursAt.split (h : OccursAt w s i) : s = s.take i ++ (w ++ s.drop (i + w.length)) := by
  obtain ⟨pre, post, rfl, rfl⟩ := occursAt_iff.mp h
  rw [List.take_left, ← List.drop_drop, List.drop_left, List.drop_left]

/-- The first occurrence. -/
def First (w s : List α) (i : Nat) : Prop := OccursAt w s i ∧ ∀ j, OccursAt w s j → i ≤ j

theorem First.cons {a : α} (hnot : ¬w <+: a :: s) (h : First w s i) : First w (a :: s) (i + 1) := by
  refine ⟨occursAt_cons.mpr h.1, ?_⟩
  intro j hj
  cases j with
  | zero => exact absurd (occursAt_zero.mp hj) hnot
  | succ j => exact Nat.succ_le_succ (h.2 j (occursAt_cons.mp hj))

theorem first_zero (h : w <+: s) : First w s 0 :=
  ⟨occursAt_zero.mpr h, fun j _ => Nat.zero_le j⟩

/-- Two occurrences, the second not before the first has ended. -/
def Apart (w s : List α) : Prop :=
  ∃ i j, OccursAt w s i ∧ OccursAt w s j ∧ i < j ∧ i + w.length ≤ j

/-- The first occurrence decides whether there are two that are apart. -/
theorem First.apart_iff (h : First w s i) :
    Apart w s ↔ ∃ j, OccursAt w s j ∧ i < j ∧ i + w.length ≤ j := by
  constructor
  · intro hapart
    obtain ⟨i', j, hi', hj, hlt, hle⟩ := hapart
    have hfirst := h.2 i' hi'
    exact ⟨j, hj, by omega, by omega⟩
  · intro hlater
    obtain ⟨j, hj, hlt, hle⟩ := hlater
    exact ⟨i, j, h.1, hj, hlt, hle⟩

/-- No occurrence comes after another. -/
def AtMostOne (w s : List α) : Prop := ∀ i j, OccursAt w s i → OccursAt w s j → i = j

theorem Apart.not_atMostOne (h : Apart w s) : ¬AtMostOne w s := by
  obtain ⟨i, j, hi, hj, hlt, -⟩ := h
  intro hone
  have heq := hone i j hi hj
  omega

end Framework
