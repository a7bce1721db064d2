import Mathlib.Data.List.Induction

/-! # Schedules, histories and deterministic machines

    * `play`: the state a schedule of acts leads to; `play_invariant`, the
      rule for what every schedule keeps.
    * `AtEach`, `Past`: a property of each entry of a history and of what
      came after it, before it.
    * `Machine`: a step function; `Machine.run` executes it with fuel, and
      `Machine.run_halts` turns a bound on the steps into termination.
-/

namespace Framework

variable {σ ℓ : Type}

/-! ## Schedules -/

/-- The state a schedule of acts leads to from `s`. -/
def play (step : σ → ℓ → σ) (s : σ) (acts : List ℓ) : σ := acts.foldl step s

section schedules
variable {step : σ → ℓ → σ} {s : σ} {acts : List ℓ}

@[simp] theorem play_snoc {a : ℓ} : play step s (acts ++ [a]) = step (play step s acts) a := by
  simp [play]

theorem play_cons {a : ℓ} : play step s (a :: acts) = play step (step s a) acts := rfl

theorem play_append {acts' : List ℓ} :
    play step s (acts ++ acts') = play step (play step s acts) acts' :=
  List.foldl_append

/-- **Invariance over a schedule**: what holds at the start and is kept by
    each act where the schedule takes it holds at the end. -/
theorem play_invariant {P : σ → Prop} (hinit : P s)
    (hstep : ∀ pre a, pre ++ [a] <+: acts → P (play step s pre) → P (step (play step s pre) a)) :
    P (play step s acts) := by
  suffices h : ∀ pre, pre <+: acts → P (play step s pre) from h acts List.prefix_rfl
  intro pre
  induction pre using List.reverseRecOn with
  | nil =>
    intro _
    exact hinit
  | append_singleton pre a ih =>
    intro hpre
    rw [play_snoc]
    exact hstep pre a hpre (ih ((List.prefix_append pre [a]).trans hpre))

/-- What every act keeps, every schedule keeps. -/
theorem play_keeps {P : σ → Prop} (hinit : P s) (hstep : ∀ s a, P s → P (step s a)) :
    P (play step s acts) :=
  play_invariant hinit (fun pre a _ => hstep (play step s pre) a)

end schedules

/-! ## Histories -/

/-- An entry of a history that grew at its end is the new one, or an old one
    with the new one after it. -/
theorem snoc_eq_append_cons {h pre post : List ℓ} {l k : ℓ} (heq : h ++ [l] = pre ++ k :: post) :
    (post = [] ∧ h = pre ∧ l = k) ∨ ∃ post', post = post' ++ [l] ∧ h = pre ++ k :: post' := by
  rcases List.eq_nil_or_concat post with rfl | ⟨post', l', rfl⟩
  · obtain ⟨hpre, hkl⟩ := List.append_inj' heq rfl
    exact Or.inl ⟨rfl, hpre, List.singleton_inj.mp hkl⟩
  · have hsplit : h ++ [l] = (pre ++ k :: post') ++ [l'] := by simpa using heq
    obtain ⟨hpre, hll⟩ := List.append_inj' hsplit rfl
    rw [← List.singleton_inj.mp hll, List.concat_eq_append]
    exact Or.inr ⟨post', rfl, hpre⟩

/-- `Q` holds of each entry of `h` and the entries after it. -/
def AtEach (Q : ℓ → List ℓ → Prop) (h : List ℓ) : Prop :=
  ∀ pre l post, h = pre ++ l :: post → Q l post

theorem atEach_nil {Q : ℓ → List ℓ → Prop} : AtEach Q [] := by
  intro pre l post h
  simp at h

/-- A history grows at its end: every entry sees one more after it, and the
    new one sees none. -/
theorem atEach_snoc {Q : ℓ → List ℓ → Prop} {h : List ℓ} {l : ℓ} :
    AtEach Q (h ++ [l]) ↔ AtEach (fun k post => Q k (post ++ [l])) h ∧ Q l [] := by
  constructor
  · intro hQ
    constructor
    · intro pre k post hh
      apply hQ pre k (post ++ [l])
      rw [hh, List.append_assoc, List.cons_append]
    · exact hQ h l [] rfl
  · intro ⟨hQ, hl⟩ pre k post heq
    rcases snoc_eq_append_cons heq with ⟨rfl, -, rfl⟩ | ⟨post', rfl, hh⟩
    · exact hl
    · exact hQ pre k post' hh

theorem AtEach.mono {Q Q' : ℓ → List ℓ → Prop} {h : List ℓ} (hQ : AtEach Q h)
    (himp : ∀ l post, l ∈ h → Q l post → Q' l post) : AtEach Q' h := by
  intro pre l post hh
  apply himp l post _ (hQ pre l post hh)
  rw [hh]
  simp

/-- `Q` holds of each entry of `h` and the entries before it. -/
def Past (Q : List ℓ → ℓ → Prop) (h : List ℓ) : Prop :=
  ∀ pre l post, h = pre ++ l :: post → Q pre l

theorem past_nil {Q : List ℓ → ℓ → Prop} : Past Q [] := by
  intro pre l post h
  simp at h

/-- Growing a history changes nothing before an old entry. -/
theorem Past.snoc {Q : List ℓ → ℓ → Prop} {h : List ℓ} {l : ℓ} (hQ : Past Q h) (hl : Q h l) :
    Past Q (h ++ [l]) := by
  intro pre k post heq
  rcases snoc_eq_append_cons heq with ⟨-, rfl, rfl⟩ | ⟨post', -, hh⟩
  · exact hl
  · exact hQ pre k post' hh

theorem Past.of_snoc {Q : List ℓ → ℓ → Prop} {h : List ℓ} {l : ℓ} (hQ : Past Q (h ++ [l])) :
    Past Q h ∧ Q h l := by
  constructor
  · intro pre k post heq
    exact hQ pre k (post ++ [l]) (by rw [heq, List.append_assoc, List.cons_append])
  · exact hQ h l [] rfl

instance {Q : List ℓ → ℓ → Prop} [∀ pre l, Decidable (Q pre l)] (h : List ℓ) :
    Decidable (Past Q h) :=
  decidable_of_iff (∀ i : Fin h.length, Q (h.take i) (h.get i)) <| by
    constructor
    · intro hall pre l post heq
      subst heq
      have hlt : pre.length < (pre ++ l :: post).length := by simp
      simpa using hall ⟨pre.length, hlt⟩
    · intro hpast i
      refine hpast (h.take i) (h.get i) (h.drop (i + 1)) ?_
      simp

/-- What two entries know of their pasts relates them. -/
theorem Past.pairwise {Q : List ℓ → ℓ → Prop} {R : ℓ → ℓ → Prop} {h : List ℓ} (hQ : Past Q h)
    (hR : ∀ pre l mid k, Q pre l → Q (pre ++ l :: mid) k → R l k) : h.Pairwise R := by
  induction h using List.reverseRecOn with
  | nil => exact List.Pairwise.nil
  | append_singleton h k ih =>
    obtain ⟨hold, hk⟩ := hQ.of_snoc
    refine List.pairwise_append.mpr ⟨ih hold, List.pairwise_singleton R k, ?_⟩
    intro l hl k' hk'
    obtain ⟨pre, mid, rfl⟩ := List.append_of_mem hl
    rw [List.mem_singleton.mp hk']
    exact hR pre l mid k (hold pre l mid rfl) hk

/-! ## Deterministic machines -/

/-- A deterministic machine: `none` when it has halted. -/
structure Machine (σ ℓ : Type) where
  step : σ → Option (ℓ × σ)

namespace Machine

variable (m : Machine σ ℓ)

/-- Execute at most `n` steps; the labels taken, oldest first, and the state
    reached. -/
def run (m : Machine σ ℓ) : Nat → σ → List ℓ × σ
  | 0, s => ([], s)
  | n + 1, s =>
    match m.step s with
    | none => ([], s)
    | some (l, s') => (l :: (m.run n s').1, (m.run n s').2)

def Halted (s : σ) : Prop := m.step s = none

theorem run_halted {s : σ} (h : m.Halted s) (n : Nat) : m.run n s = ([], s) := by
  have hs : m.step s = none := h
  cases n with
  | zero => rfl
  | succ n => simp [run, hs]

/-- **Invariance for machines**: a property of the history and the state
    that holds at the start and over one step holds after any number of
    steps. -/
theorem run_invariant {P : List ℓ → σ → Prop} {s : σ}
    (hinit : P [] s)
    (hstep : ∀ ls s l s', P ls s → m.step s = some (l, s') → P (ls ++ [l]) s')
    (n : Nat) : P (m.run n s).1 (m.run n s).2 := by
  suffices h : ∀ n ls s, P ls s → P (ls ++ (m.run n s).1) (m.run n s).2 by
    simpa using h n [] s hinit
  intro n
  induction n with
  | zero =>
    intro ls s hP
    simpa [run] using hP
  | succ n ih =>
    intro ls s hP
    rcases hs : m.step s with _ | ⟨l, s'⟩
    · simpa [run, hs] using hP
    · have hP' := ih (ls ++ [l]) s' (hstep ls s l s' hP hs)
      simpa [run, hs] using hP'

/-- **Termination**: a machine that, however much fuel it gets, takes at
    most `b` steps has halted after `b`. -/
theorem run_halts {s : σ} {b : Nat} (hb : ∀ n, (m.run n s).1.length ≤ b) :
    m.Halted (m.run b s).2 := by
  suffices h : ∀ n s, (m.run (n + 1) s).1.length ≤ n → m.Halted (m.run n s).2 by
    exact h _ _ (hb _)
  intro n
  induction n with
  | zero =>
    intro s h
    rcases hs : m.step s with _ | ⟨l, s'⟩
    · exact hs
    · simp [run, hs] at h
  | succ n ih =>
    intro s h
    rcases hs : m.step s with _ | ⟨l, s'⟩
    · simp [run, hs, Halted]
    · rw [run] at h ⊢
      simp only [hs, List.length_cons] at h ⊢
      exact ih s' (by omega)

/-- Fuel beyond the halting point changes nothing. -/
theorem run_of_halted {s : σ} {n k : Nat} (h : m.Halted (m.run n s).2) (hk : n ≤ k) :
    m.run k s = m.run n s := by
  induction n generalizing s k with
  | zero => exact m.run_halted h k
  | succ n ih =>
    obtain ⟨k, rfl⟩ : ∃ k', k = k' + 1 := ⟨k - 1, by omega⟩
    rcases hs : m.step s with _ | ⟨l, s'⟩
    · simp [run, hs]
    · simp only [run, hs] at h ⊢
      rw [ih h (by omega)]

/-- **Two machines in lockstep**: where related states halt together or take
    related steps to related states, so do whole runs. -/
theorem run_lockstep {σ' ℓ' : Type} {m' : Machine σ' ℓ'} {R : σ → σ' → Prop} {Q : ℓ → ℓ' → Prop}
    (hstep : ∀ s s', R s s' → (m.step s = none ∧ m'.step s' = none) ∨
      ∃ l t l' t', m.step s = some (l, t) ∧ m'.step s' = some (l', t') ∧ Q l l' ∧ R t t')
    (n : Nat) {s : σ} {s' : σ'} (h : R s s') :
    List.Forall₂ Q (m.run n s).1 (m'.run n s').1 ∧ R (m.run n s).2 (m'.run n s').2 := by
  induction n generalizing s s' with
  | zero => exact ⟨.nil, h⟩
  | succ n ih =>
    rcases hstep s s' h with ⟨hs, hs'⟩ | ⟨l, t, l', t', hs, hs', hl, ht⟩
    · simp only [run, hs, hs']
      exact ⟨.nil, h⟩
    · simp only [run, hs, hs']
      exact ⟨.cons hl (ih ht).1, (ih ht).2⟩

end Machine

end Framework
