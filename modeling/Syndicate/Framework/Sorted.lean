import Mathlib.Data.List.Sort
import Mathlib.Order.Basic

/-! # Sorting by a key

    A list sorted by one key, greatest first, is in the order of something
    else exactly if the key never contradicts that order. -/

namespace Framework

section sorted
variable {α κ : Type} [LinearOrder κ] (key : α → κ) {le : α → α → Bool}

theorem sorted_descending (hle : ∀ a b, le a b = true ↔ key b ≤ key a) (l : List α) :
    (l.mergeSort le).Pairwise fun a b => key b ≤ key a := by
  have hsorted : (l.mergeSort le).Pairwise fun a b => le a b = true := List.pairwise_mergeSort
    (by
      intro a b c hab hbc
      rw [hle] at hab hbc ⊢
      exact hbc.trans hab)
    (by
      intro a b
      rw [Bool.or_eq_true, hle, hle]
      exact le_total _ _) l
  exact hsorted.imp fun {a b} h => (hle a b).mp h

/-- **Sorted by one thing, in the order of another**: `not_later b a` says
    that `b` may stand behind `a`. -/
theorem sorted_in_order_iff (not_later : α → α → Prop)
    (hle : ∀ a b, le a b = true ↔ key b ≤ key a) {l : List α}
    (hties : ∀ a ∈ l, ∀ b ∈ l, key a = key b → not_later a b) :
    (l.mergeSort le).Pairwise (fun a b => not_later b a) ↔
      ∀ a ∈ l, ∀ b ∈ l, key a < key b → not_later a b := by
  have hsorted := sorted_descending key hle l
  have hmem : ∀ a, a ∈ l.mergeSort le ↔ a ∈ l := fun a => (List.mergeSort_perm l le).mem_iff
  constructor
  · intro horder a ha b hb hlt
    -- of two elements the one with the greater key stands in front
    have hpair := List.Pairwise.forall_of_forall_of_flip
      (R := fun a b => key a < key b → not_later a b) (l := l.mergeSort le)
      (fun c _ h => absurd h (lt_irrefl _))
      (hsorted.imp fun {a b} h hab => absurd hab (not_lt_of_ge h))
      (horder.imp fun {a b} h => show key b < key a → not_later b a from fun _ => h)
    exact hpair ((hmem a).mpr ha) ((hmem b).mpr hb) hlt
  · intro h
    refine hsorted.imp_of_mem ?_
    intro a b ha hb hkey
    rcases hkey.lt_or_eq with hlt | heq
    · exact h b ((hmem b).mp hb) a ((hmem a).mp ha) hlt
    · exact hties b ((hmem b).mp hb) a ((hmem a).mp ha) heq

end sorted

end Framework
