import Mathlib.Data.Set.Function
import Mathlib.Logic.Function.Basic

/-! # Services and stores

    * `answers`: what a service says to requests made one after the other,
      and the simulation rule for two services that say the same.
    * `Mirror`: a store that keeps what another one holds, under other names
      and in another representation. -/

namespace Framework

/-! ## Services -/

section services
variable {σ τ ρ α : Type}

/-- The answers of a service to requests made one after the other. -/
def answers (serve : ρ → σ → α × σ) : σ → List ρ → List α
  | _, [] => []
  | s, r :: rs => (serve r s).1 :: answers serve (serve r s).2 rs

/-- **The simulation rule.**  Services that answer every request alike, from
    related states into related states, answer any sequence of them alike. -/
theorem answers_eq {serve : ρ → σ → α × σ} {serve' : ρ → τ → α × τ} {R : σ → τ → Prop}
    {P : ρ → Prop}
    (hstep : ∀ r s t, P r → R s t →
      (serve r s).1 = (serve' r t).1 ∧ R (serve r s).2 (serve' r t).2)
    {s : σ} {t : τ} (hR : R s t) {rs : List ρ} (hP : ∀ r ∈ rs, P r) :
    answers serve s rs = answers serve' t rs := by
  induction rs generalizing s t with
  | nil => rfl
  | cons r rs ih =>
    obtain ⟨hans, hnext⟩ := hstep r s t (hP r List.mem_cons_self) hR
    have hrest := ih hnext fun x hx => hP x (List.mem_cons_of_mem r hx)
    rw [answers, answers, hans, hrest]

end services

/-! ## Stores -/

section stores
variable {κ κ' β β' : Type}

/-- Of each key in `keys`, `t` holds under `name` what `s` holds, written in
    `code`; what `s` holds there can be written so. -/
def Mirror (keys : Set κ) (name : κ → κ') (code : β → Option β') (s : κ → Option β)
    (t : κ' → Option β') : Prop :=
  ∀ k ∈ keys, match s k with
    | none => t (name k) = none
    | some b => ∃ b', code b = some b' ∧ t (name k) = some b'

variable {keys : Set κ} {name : κ → κ'} {code : β → Option β'} {s : κ → Option β}
  {t : κ' → Option β'}

theorem mirror_empty : Mirror keys name code (fun _ => none) (fun _ => none) :=
  fun _ _ => rfl

theorem Mirror.none (h : Mirror keys name code s t) {k : κ} (hk : k ∈ keys) (hs : s k = Option.none) :
    t (name k) = Option.none := by
  have := h k hk
  rwa [hs] at this

theorem Mirror.some (h : Mirror keys name code s t) {k : κ} (hk : k ∈ keys) {b : β}
    (hs : s k = Option.some b) :
    ∃ b', code b = Option.some b' ∧ t (name k) = Option.some b' := by
  have := h k hk
  rwa [hs] at this

/-- A write keeps the mirror if no other key goes by the same name. -/
theorem Mirror.update [DecidableEq κ] [DecidableEq κ'] (h : Mirror keys name code s t)
    (hname : Set.InjOn name keys) {k : κ} (hk : k ∈ keys) {b : β} {b' : β'}
    (hcode : code b = Option.some b') :
    Mirror keys name code (Function.update s k (Option.some b))
      (Function.update t (name k) (Option.some b')) := by
  intro k' hk'
  by_cases heq : k' = k
  · subst heq
    rw [Function.update_self, Function.update_self]
    exact ⟨b', hcode, rfl⟩
  · have hne : name k' ≠ name k := fun h => heq (hname hk' hk h)
    rw [Function.update_of_ne heq, Function.update_of_ne hne]
    exact h k' hk'

end stores

end Framework
