import Mathlib.Data.List.Basic
import Mathlib.Data.List.Induction
import Mathlib.Data.List.Count
import Mathlib.Data.List.Nodup

/-! # Rule chains

    A chain is a list of rules of which the first that a packet hits decides.
    A script edits a chain by putting a rule on top where it is absent and by
    deleting the first copy of a rule where it is present; it can be stopped
    between any two of its commands. -/

namespace Framework

/-! ## The deciding rule -/

section deciding
variable {ρ π : Type} (hits : ρ → π → Bool)

/-- The first rule that `p` hits. -/
def decider (chain : List ρ) (p : π) : Option ρ := chain.find? fun r => hits r p

variable {hits} {p : π}

theorem decider_cons (r : ρ) (chain : List ρ) :
    decider hits (r :: chain) p = if hits r p then some r else decider hits chain p := by
  rw [decider, List.find?_cons]
  cases hits r p <;> rfl

theorem decider_append (chain chain' : List ρ) :
    decider hits (chain ++ chain') p = (decider hits chain p).or (decider hits chain' p) :=
  List.find?_append

/-- A part of the chain that `p` does not hit decides nothing. -/
theorem decider_eq_none {chain : List ρ} :
    decider hits chain p = none ↔ ∀ r ∈ chain, hits r p = false := by
  simp [decider]

theorem decider_some {chain : List ρ} {r : ρ} (h : decider hits chain p = some r) :
    r ∈ chain ∧ hits r p = true :=
  ⟨List.mem_of_find?_eq_some h, by simpa using List.find?_some h⟩

/-- A rule that `p` does not hit can go. -/
theorem decider_erase [DecidableEq ρ] {r : ρ} (hr : hits r p = false) (chain : List ρ) :
    decider hits (chain.erase r) p = decider hits chain p := by
  induction chain with
  | nil => rfl
  | cons x chain ih =>
    by_cases hx : x = r
    · subst hx
      rw [List.erase_cons_head, decider_cons, hr]
      rfl
    · rw [List.erase_cons_tail (by simpa using hx), decider_cons, decider_cons, ih]

end deciding

/-! ## Editing a chain -/

section editing
variable {ρ : Type} [DecidableEq ρ]

/-- A step of a script, guarded by a check. -/
inductive Edit (ρ : Type) where
  /-- Insert the rule at the position, unless the chain has it. -/
  | insert_if_absent (position : Nat) (r : ρ)
  /-- Delete the first copy of the rule, if the chain has one. -/
  | delete_if_present (r : ρ)

/-- The check lets the step change the chain. -/
def Edit.due : Edit ρ → List ρ → Bool
  | insert_if_absent _ r, chain => !decide (r ∈ chain)
  | delete_if_present r, chain => decide (r ∈ chain)

/-- What the step does when it is due; positions count from 1. -/
def Edit.change : Edit ρ → List ρ → List ρ
  | insert_if_absent position r, chain => chain.insertIdx (position - 1) r
  | delete_if_present r, chain => chain.erase r

/-- Both commands of a step. -/
def Edit.apply (e : Edit ρ) (chain : List ρ) : List ρ := if e.due chain then e.change chain else chain

/-- A script run to its end. -/
def complete (script : List (Edit ρ)) (chain : List ρ) : List ρ :=
  script.foldl (fun chain e => e.apply chain) chain

/-- A script stopped after `budget` commands: a check is one, and so is the
    change after it. -/
def interrupted : List (Edit ρ) → Nat → List ρ → List ρ
  | [], _, chain => chain
  | e :: script, budget, chain =>
    if budget = 0 then chain
    else if e.due chain = false then interrupted script (budget - 1) chain
    else if budget = 1 then chain
    else interrupted script (budget - 2) (e.change chain)

/-- What every step keeps, an interrupted script keeps. -/
theorem interrupted_invariant {P : List ρ → Prop} {script : List (Edit ρ)}
    (hstep : ∀ e ∈ script, ∀ chain, P chain → e.due chain = true → P (e.change chain))
    (budget : Nat) {chain : List ρ} (h : P chain) : P (interrupted script budget chain) := by
  induction script generalizing budget chain with
  | nil => exact h
  | cons e script ih =>
    have hrest : ∀ e' ∈ script, ∀ chain, P chain → e'.due chain = true → P (e'.change chain) :=
      fun e' he' => hstep e' (List.mem_cons_of_mem e he')
    rw [interrupted]
    by_cases h0 : budget = 0
    · rw [if_pos h0]
      exact h
    · rw [if_neg h0]
      by_cases hdue : e.due chain = false
      · rw [if_pos hdue]
        exact ih hrest _ h
      · rw [if_neg hdue]
        by_cases h1 : budget = 1
        · -- stopped between the check and the change
          rw [if_pos h1]
          exact h
        · rw [if_neg h1]
          exact ih hrest _ (hstep e List.mem_cons_self chain h (by simpa using hdue))

/-- A run that gets all the commands it needs is complete. -/
theorem interrupted_complete (script : List (Edit ρ)) {budget : Nat}
    (h : 2 * script.length ≤ budget) (chain : List ρ) :
    interrupted script budget chain = complete script chain := by
  induction script generalizing budget chain with
  | nil => rfl
  | cons e script ih =>
    rw [List.length_cons] at h
    show _ = complete script (e.apply chain)
    rw [interrupted, if_neg (by omega), Edit.apply]
    by_cases hdue : e.due chain = true
    · rw [if_neg (by simp [hdue]), if_neg (by omega), if_pos hdue]
      exact ih (by omega) (e.change chain)
    · rw [if_pos (by simpa using hdue), if_neg hdue]
      exact ih (by omega) chain

@[simp] theorem apply_insert_top (r : ρ) (chain : List ρ) :
    (Edit.insert_if_absent 1 r).apply chain = if r ∈ chain then chain else r :: chain := by
  by_cases h : r ∈ chain <;> simp [Edit.apply, Edit.due, Edit.change, h]

@[simp] theorem apply_delete (r : ρ) (chain : List ρ) :
    (Edit.delete_if_present r).apply chain = chain.erase r := by
  by_cases h : r ∈ chain
  · simp [Edit.apply, Edit.due, Edit.change, h]
  · simp [Edit.apply, Edit.due, h, List.erase_of_not_mem h]

/-- Rules put on top one after the other, each only where it is absent: the
    absent ones stand on top, the last one first. -/
theorem complete_insert (rules : List ρ) (hnodup : rules.Nodup) (chain : List ρ) :
    complete (rules.map fun r => Edit.insert_if_absent 1 r) chain =
      (rules.reverse.filter fun r => decide (r ∉ chain)) ++ chain := by
  induction rules using List.reverseRecOn with
  | nil => rfl
  | append_singleton rules r ih =>
    rw [List.nodup_append] at hnodup
    have hr : r ∉ rules := fun hmem => hnodup.2.2 r hmem r (List.mem_singleton_self r) rfl
    have ih := ih hnodup.1
    unfold complete at ih ⊢
    rw [List.map_append, List.foldl_append, ih]
    simp only [List.map_cons, List.map_nil, List.foldl_cons, List.foldl_nil, apply_insert_top,
      List.reverse_append, List.reverse_cons, List.reverse_nil, List.nil_append,
      List.cons_append, List.filter_cons]
    by_cases hmem : r ∈ chain <;> simp [hmem, hr]

end editing

/-! ## Which of two rules stands above -/

/-- In a chain without duplicates only one of two rules stands above the
    other. -/
theorem sublist_asymm {ρ : Type} {a b : ρ} {chain : List ρ} (hnodup : chain.Nodup)
    (hab : [a, b].Sublist chain) : ¬[b, a].Sublist chain := by
  induction chain with
  | nil => cases hab
  | cons x chain ih =>
    rw [List.nodup_cons] at hnodup
    intro hba
    rcases List.sublist_cons_iff.mp hab with hab' | ⟨_, heq, hb⟩
    · rcases List.sublist_cons_iff.mp hba with hba' | ⟨_, heq', ha⟩
      · exact ih hnodup.2 hab' hba'
      · -- `b` is the first rule, and stands again below `a`
        obtain ⟨rfl, rfl⟩ := List.cons.inj heq'
        exact hnodup.1 (hab'.subset (List.mem_cons_of_mem _ List.mem_cons_self))
    · obtain ⟨rfl, rfl⟩ := List.cons.inj heq
      rcases List.sublist_cons_iff.mp hba with hba' | ⟨_, heq', ha⟩
      · exact hnodup.1 (hba'.subset (List.mem_cons_of_mem _ List.mem_cons_self))
      · obtain ⟨rfl, rfl⟩ := List.cons.inj heq'
        exact hnodup.1 (ha.subset List.mem_cons_self)

end Framework
