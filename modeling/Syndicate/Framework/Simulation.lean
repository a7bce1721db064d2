import Syndicate.Framework.Runs

/-! # Simulation and progress of schedules

    * `translated`: the acts of a second system that a schedule of a first
      one stands for; `play_simulates`, the simulation rule.
    * `turns`: how often a schedule gives the turn to somebody;
      `play_progress`, the rule for what enough turns bring about, whatever
      the others do in between. -/

namespace Framework

variable {σ τ ℓ κ : Type}

/-! ## Simulation -/

/-- What the schedule stands for in the second system, where an act `a` taken
    in state `s` stands for `tr s a`. -/
def translated (step : σ → ℓ → σ) (tr : σ → ℓ → List κ) (s : σ) : List ℓ → List κ
  | [] => []
  | a :: acts => tr s a ++ translated step tr (step s a) acts

section simulation
variable {step : σ → ℓ → σ} {step' : τ → κ → τ} {tr : σ → ℓ → List κ} {R : σ → τ → Prop}

theorem translated_append (s : σ) (acts acts' : List ℓ) :
    translated step tr s (acts ++ acts') =
      translated step tr s acts ++ translated step tr (play step s acts) acts' := by
  induction acts generalizing s with
  | nil => rfl
  | cons a acts ih =>
    show tr s a ++ translated step tr (step s a) (acts ++ acts') = _
    rw [ih, ← List.append_assoc]
    rfl

/-- **Simulation**: where each act leads related states to related states, so
    does the schedule. -/
theorem play_simulates {s : σ} {t : τ} {acts : List ℓ}
    (hstep : ∀ s t, ∀ a ∈ acts, R s t → R (step s a) (play step' t (tr s a))) (h : R s t) :
    R (play step s acts) (play step' t (translated step tr s acts)) := by
  induction acts generalizing s t with
  | nil => exact h
  | cons a acts ih =>
    rw [translated, play_append]
    apply ih
    · intro s t b hb
      exact hstep s t b (List.mem_cons_of_mem a hb)
    · exact hstep s t a List.mem_cons_self h

theorem mem_translated {s : σ} {acts : List ℓ} {b : κ} (h : b ∈ translated step tr s acts) :
    ∃ s', ∃ a ∈ acts, b ∈ tr s' a := by
  induction acts generalizing s with
  | nil => exact absurd h List.not_mem_nil
  | cons a acts ih =>
    rcases List.mem_append.mp h with hb | hb
    · exact ⟨s, a, List.mem_cons_self, hb⟩
    · obtain ⟨s', a', ha', hb⟩ := ih hb
      exact ⟨s', a', List.mem_cons_of_mem a ha', hb⟩

end simulation

/-! ## Progress -/

/-- How many acts of the schedule are a turn where they are taken. -/
def turns (step : σ → ℓ → σ) (turn : σ → ℓ → Bool) (s : σ) : List ℓ → Nat
  | [] => 0
  | a :: acts => (if turn s a then 1 else 0) + turns step turn (step s a) acts

theorem turns_append {step : σ → ℓ → σ} {turn : σ → ℓ → Bool} (s : σ) (acts acts' : List ℓ) :
    turns step turn s (acts ++ acts') =
      turns step turn s acts + turns step turn (play step s acts) acts' := by
  induction acts generalizing s with
  | nil =>
    rw [List.nil_append, turns, Nat.zero_add]
    rfl
  | cons a acts ih =>
    rw [List.cons_append, turns, turns, ih, Nat.add_assoc]
    rfl

/-- A simulation that stands for a turn by a turn loses none. -/
theorem turns_translated {step : σ → ℓ → σ} {step' : τ → κ → τ} {tr : σ → ℓ → List κ}
    {R : σ → τ → Prop} {turn : σ → ℓ → Bool} {turn' : τ → κ → Bool} {s : σ} {t : τ} {acts : List ℓ}
    (hstep : ∀ s t, ∀ a ∈ acts, R s t → R (step s a) (play step' t (tr s a)))
    (hturn : ∀ s t a, R s t → turn s a = true → 1 ≤ turns step' turn' t (tr s a)) (h : R s t) :
    turns step turn s acts ≤ turns step' turn' t (translated step tr s acts) := by
  induction acts generalizing s t with
  | nil => exact Nat.zero_le _
  | cons a acts ih =>
    have hrest := ih (fun s t b hb => hstep s t b (List.mem_cons_of_mem a hb))
      (hstep s t a List.mem_cons_self h)
    rw [turns, translated, turns_append]
    by_cases ha : turn s a = true
    · rw [if_pos ha]
      have hone := hturn s t a h ha
      omega
    · rw [if_neg ha]
      omega

section progress
variable {step : σ → ℓ → σ} {turn : σ → ℓ → Bool} {P goal : σ → Prop} {μ : σ → Nat}
  {acts : List ℓ}

/-- What the acts of a schedule must do for it to reach the goal: nobody
    takes it away or moves off from it, and each turn moves towards it. -/
structure Approaches (step : σ → ℓ → σ) (turn : σ → ℓ → Bool) (P goal : σ → Prop) (μ : σ → Nat)
    (acts : List ℓ) : Prop where
  invariant : ∀ s, ∀ a ∈ acts, P s → P (step s a)
  stable : ∀ s, ∀ a ∈ acts, P s → goal s → goal (step s a)
  others : ∀ s, ∀ a ∈ acts, P s → goal (step s a) ∨ μ (step s a) ≤ μ s
  turn : ∀ s, ∀ a ∈ acts, P s → turn s a = true → goal (step s a) ∨ μ (step s a) < μ s

theorem Approaches.rest {a : ℓ} (h : Approaches step turn P goal μ (a :: acts)) :
    Approaches step turn P goal μ acts where
  invariant s b hb := h.invariant s b (List.mem_cons_of_mem a hb)
  stable s b hb := h.stable s b (List.mem_cons_of_mem a hb)
  others s b hb := h.others s b (List.mem_cons_of_mem a hb)
  turn s b hb := h.turn s b (List.mem_cons_of_mem a hb)

/-- A goal once reached stays. -/
theorem Approaches.stays (h : Approaches step turn P goal μ acts) {s : σ} (hP : P s) (hgoal : goal s) :
    goal (play step s acts) := by
  induction acts generalizing s with
  | nil => exact hgoal
  | cons a acts ih =>
    apply ih h.rest
    · exact h.invariant s a List.mem_cons_self hP
    · exact h.stable s a List.mem_cons_self hP hgoal

/-- **Progress**: more turns than the distance to the goal reach it. -/
theorem Approaches.play_progress (h : Approaches step turn P goal μ acts) {s : σ} (hP : P s)
    (hturns : μ s < turns step turn s acts) : goal (play step s acts) := by
  induction acts generalizing s with
  | nil => exact absurd hturns (Nat.not_lt_zero _)
  | cons a acts ih =>
    have hP' := h.invariant s a List.mem_cons_self hP
    by_cases hturn : turn s a = true
    · rcases h.turn s a List.mem_cons_self hP hturn with hgoal | hless
      · exact h.rest.stays hP' hgoal
      · rw [turns, if_pos hturn] at hturns
        exact ih h.rest hP' (by omega)
    · rcases h.others s a List.mem_cons_self hP with hgoal | hle
      · exact h.rest.stays hP' hgoal
      · rw [turns, if_neg hturn] at hturns
        exact ih h.rest hP' (by omega)

end progress

end Framework
