import Mathlib.Data.List.Basic

/-! # Programs over an external world

    A program is run against a world it cannot see: it calls out, the world
    answers and moves on, and the calls leave a trace of events.  A program
    may also raise.

    * `Outcome`: what one execution leaves behind (result, world, events).
    * `Prog`: programs, with sequencing, raising and catching.
    * `Prog.wp`: weakest preconditions over result, final world and events,
      with one rule for each way a program is built.
    * `Prog.Emits`: every event an execution can leave satisfies a predicate.
    * `Prog.Follows`: two programs over different worlds do the same.
    * `Prog.Sourced`: what `view` shows of the world is a fold of the events.
-/

namespace Framework

/-- What one execution of a program leaves behind. -/
structure Outcome (W E ε α : Type) where
  /-- The value returned, or the exception that ended the execution. -/
  val : Except ε α
  /-- The world after the execution. -/
  world : W
  /-- The events of the execution, oldest first. -/
  events : List E

/-- A program over worlds `W` with events `E` and exceptions `ε`. -/
def Prog (W E ε α : Type) : Type := W → Outcome W E ε α

namespace Prog

variable {W E ε α β : Type}

/-! ## Building programs -/

protected def pure (a : α) : Prog W E ε α := fun w => ⟨.ok a, w, []⟩

protected def bind (m : Prog W E ε α) (f : α → Prog W E ε β) : Prog W E ε β := fun w =>
  match m w with
  | ⟨.ok a, w', es⟩ => ⟨(f a w').val, (f a w').world, es ++ (f a w').events⟩
  | ⟨.error e, w', es⟩ => ⟨.error e, w', es⟩

instance : Monad (Prog W E ε) where
  pure := Prog.pure
  bind := Prog.bind

/-- End the execution with an exception. -/
def raise (e : ε) : Prog W E ε α := fun w => ⟨.error e, w, []⟩

/-- Return the value of a result, or raise its exception. -/
def ofExcept (r : Except ε α) : Prog W E ε α := fun w => ⟨r, w, []⟩

/-- Leave one event. -/
def note (e : E) : Prog W E ε Unit := fun w => ⟨.ok (), w, [e]⟩

/-- Let the world answer, and leave the event `ev` makes of the world
    before, the answer and the world after. -/
def call (f : W → Except ε α × W) (ev : W → Except ε α → W → E) : Prog W E ε α := fun w =>
  ⟨(f w).1, (f w).2, [ev w (f w).1 (f w).2]⟩

/-- Change the world and return a value, leaving no event. -/
def update (f : W → α × W) : Prog W E ε α := fun w => ⟨.ok (f w).1, (f w).2, []⟩

/-- Run `m` and return how it ended. -/
def attempt (m : Prog W E ε α) : Prog W E ε (Except ε α) := fun w =>
  ⟨.ok (m w).val, (m w).world, (m w).events⟩

/-- Run `m`; an exception the handler knows becomes a normal return. -/
def catching (m : Prog W E ε α) (handler : ε → Option α) : Prog W E ε α := fun w =>
  match m w with
  | ⟨.error e, w', es⟩ =>
    match handler e with
    | some a => ⟨.ok a, w', es⟩
    | none => ⟨.error e, w', es⟩
  | r => r

/-- What the handler makes of a result. -/
def recover (handler : ε → Option α) : Except ε α → Except ε α
  | .ok a => .ok a
  | .error e =>
    match handler e with
    | some a => .ok a
    | none => .error e

/-! ## Weakest preconditions -/

/-- `m`, run from `w`, ends so that `Q` holds of the result, the final
    world and the events. -/
def wp (m : Prog W E ε α) (Q : Except ε α → W → List E → Prop) (w : W) : Prop :=
  Q (m w).val (m w).world (m w).events

/-- The postcondition of the first half of `m >>= f`: a returned value runs
    `f`, an exception skips it. -/
def andThen (f : α → Prog W E ε β) (Q : Except ε β → W → List E → Prop) :
    Except ε α → W → List E → Prop
  | .ok a, w, es => wp (f a) (fun r w' es' => Q r w' (es ++ es')) w
  | .error e, w, es => Q (.error e) w es

@[simp] theorem andThen_ok (f : α → Prog W E ε β) (Q : Except ε β → W → List E → Prop)
    (a : α) (w : W) (es : List E) :
    andThen f Q (.ok a) w es = wp (f a) (fun r w' es' => Q r w' (es ++ es')) w := rfl

@[simp] theorem andThen_error (f : α → Prog W E ε β) (Q : Except ε β → W → List E → Prop)
    (e : ε) (w : W) (es : List E) :
    andThen f Q (.error e) w es = Q (.error e) w es := rfl

section rules
variable {Q : Except ε α → W → List E → Prop} {w : W}

@[simp] theorem wp_pure (a : α) : wp (pure a : Prog W E ε α) Q w ↔ Q (.ok a) w [] := Iff.rfl

@[simp] theorem wp_raise (e : ε) : wp (raise e : Prog W E ε α) Q w ↔ Q (.error e) w [] := Iff.rfl

@[simp] theorem wp_ofExcept (r : Except ε α) : wp (ofExcept r) Q w ↔ Q r w [] := Iff.rfl

@[simp] theorem wp_note {Q : Except ε Unit → W → List E → Prop} (e : E) :
    wp (note e) Q w ↔ Q (.ok ()) w [e] := Iff.rfl

@[simp] theorem wp_call (f : W → Except ε α × W) (ev : W → Except ε α → W → E) :
    wp (call f ev) Q w ↔ Q (f w).1 (f w).2 [ev w (f w).1 (f w).2] := Iff.rfl

@[simp] theorem wp_update (f : W → α × W) : wp (update f) Q w ↔ Q (.ok (f w).1) (f w).2 [] := Iff.rfl

@[simp] theorem wp_attempt {Q : Except ε (Except ε α) → W → List E → Prop} (m : Prog W E ε α) :
    wp (attempt m) Q w ↔ wp m (fun r => Q (.ok r)) w := Iff.rfl

/-- The sequencing rule. -/
@[simp] theorem wp_bind (m : Prog W E ε β) (f : β → Prog W E ε α) :
    wp (m >>= f) Q w ↔ wp m (andThen f Q) w := by
  show Q (Prog.bind m f w).val (Prog.bind m f w).world (Prog.bind m f w).events ↔ _
  unfold Prog.bind wp
  rcases m w with ⟨_ | a, w', es⟩ <;> rfl

/-- The rule of consequence. -/
theorem wp_mono {m : Prog W E ε α} {Q' : Except ε α → W → List E → Prop}
    (h : wp m Q w) (hQ : ∀ r w' es, Q r w' es → Q' r w' es) : wp m Q' w :=
  hQ _ _ _ h

/-- After a first half that returns, the second half goes on in its world. -/
theorem world_bind {m : Prog W E ε β} {f : β → Prog W E ε α} {b : β} (h : (m w).val = .ok b) :
    ((m >>= f) w).world = (f b (m w).world).world := by
  show (Prog.bind m f w).world = _
  unfold Prog.bind
  rcases hm : m w with ⟨_ | a, w', es⟩
  · rw [hm] at h
    cases h
  · rw [hm] at h
    obtain rfl : a = b := Except.ok.inj h
    rfl

theorem events_bind {m : Prog W E ε β} {f : β → Prog W E ε α} {b : β} (h : (m w).val = .ok b) :
    ((m >>= f) w).events = (m w).events ++ (f b (m w).world).events := by
  show (Prog.bind m f w).events = _
  unfold Prog.bind
  rcases hm : m w with ⟨_ | a, w', es⟩
  · rw [hm] at h
    cases h
  · rw [hm] at h
    obtain rfl : a = b := Except.ok.inj h
    rfl

/-- A program that is known to return. -/
theorem wp_of_val {m : Prog W E ε α} {a : α} (h : (m w).val = .ok a) :
    wp m Q w ↔ Q (.ok a) (m w).world (m w).events := by
  rw [wp, h]

/-- Sequencing with a chosen midcondition `R`. -/
theorem wp_seq {m : Prog W E ε β} {f : β → Prog W E ε α} {R : Except ε β → W → List E → Prop}
    (hm : wp m R w)
    (hok : ∀ b w' es, R (.ok b) w' es → wp (f b) (fun r w'' es' => Q r w'' (es ++ es')) w')
    (herr : ∀ e w' es, R (.error e) w' es → Q (.error e) w' es) :
    wp (m >>= f) Q w := by
  rw [wp_bind]
  apply wp_mono hm
  intro r w' es hR
  cases r with
  | ok b => exact hok b w' es hR
  | error e => exact herr e w' es hR

@[simp] theorem wp_catching (m : Prog W E ε α) (handler : ε → Option α) :
    wp (catching m handler) Q w ↔ wp m (fun r => Q (recover handler r)) w := by
  unfold wp catching
  rcases m w with ⟨e | a, w', es⟩
  · cases h : handler e <;> simp [recover, h]
  · rfl

theorem wp_ite {c : Prop} [Decidable c] {m m' : Prog W E ε α} :
    wp (if c then m else m') Q w ↔ (c → wp m Q w) ∧ (¬c → wp m' Q w) := by
  by_cases hc : c <;> simp [hc]

end rules

/-! ## Events an execution can leave -/

/-- Every event that `m` can leave satisfies `P`. -/
def Emits (P : E → Prop) (m : Prog W E ε α) : Prop := ∀ w, ∀ e ∈ (m w).events, P e

section emits
variable {P : E → Prop}

theorem Emits.wp {m : Prog W E ε α} (h : Emits P m) (w : W) :
    Prog.wp m (fun _ _ es => ∀ e ∈ es, P e) w := h w

theorem emits_pure (a : α) : Emits P (pure a : Prog W E ε α) := by
  intro w e he
  exact absurd he (List.not_mem_nil)

theorem emits_ofExcept (r : Except ε α) : Emits P (ofExcept r : Prog W E ε α) := by
  intro w e he
  exact absurd he (List.not_mem_nil)

theorem emits_note {e : E} (h : P e) : Emits P (note e : Prog W E ε Unit) := by
  intro w e' he
  rw [List.mem_singleton.mp he]
  exact h

theorem emits_call {f : W → Except ε α × W} {ev : W → Except ε α → W → E}
    (h : ∀ w r w', P (ev w r w')) : Emits P (call f ev) := by
  intro w e he
  rw [List.mem_singleton.mp he]
  exact h _ _ _

theorem emits_ofExcept_bind {r : Except ε α} {f : α → Prog W E ε β}
    (h : ∀ a, r = .ok a → Emits P (f a)) : Emits P (ofExcept r >>= f) := by
  intro w e he
  rcases r with x | a
  · exact absurd he (List.not_mem_nil)
  · exact h a rfl w e he

theorem emits_update_bind {f : W → α × W} {g : α → Prog W E ε β}
    (h : ∀ w, Emits P (g (f w).1)) : Emits P (update f >>= g) := by
  intro w e he
  exact h w (f w).2 e he

theorem emits_raise (e : ε) : Emits P (raise e : Prog W E ε α) := by
  intro w e' he
  exact absurd he (List.not_mem_nil)

theorem emits_bind {m : Prog W E ε α} {f : α → Prog W E ε β}
    (hm : Emits P m) (hf : ∀ a, Emits P (f a)) : Emits P (m >>= f) := by
  intro w e he
  change e ∈ (Prog.bind m f w).events at he
  have hmw := hm w
  unfold Prog.bind at he
  rcases h : m w with ⟨x | a, w', es⟩
  · rw [h] at he hmw
    exact hmw e he
  · rw [h] at he hmw
    rcases List.mem_append.mp he with he | he
    · exact hmw e he
    · exact hf a w' e he

theorem emits_ite {c : Prop} [Decidable c] {m m' : Prog W E ε α}
    (hm : Emits P m) (hm' : Emits P m') : Emits P (if c then m else m') := by
  split
  · exact hm
  · exact hm'

theorem emits_catching {m : Prog W E ε α} {handler : ε → Option α}
    (hm : Emits P m) : Emits P (catching m handler) := by
  intro w e he
  have hmw := hm w
  unfold catching at he
  rcases h : m w with ⟨x | a, w', es⟩
  · rw [h] at he hmw
    cases hh : handler x with
    | none => simp only [hh] at he; exact hmw e he
    | some a => simp only [hh] at he; exact hmw e he
  · rw [h] at he hmw
    exact hmw e he

end emits

/-! ## Programs that do the same

    `Follows`: the two run over different worlds, related by `R` before and
    after, and `φ` makes the events of the second of those of the first. -/

section follows
variable {W' E' : Type} {R : W' → W → Prop} {φ : E' → E}

/-- From related worlds `m'` ends as `m` does, in related worlds. -/
def Follows (R : W' → W → Prop) (φ : E' → E) (m' : Prog W' E' ε α) (m : Prog W E ε α) : Prop :=
  ∀ w' w, R w' w → (m' w').val = (m w).val ∧ R (m' w').world (m w).world ∧
    (m' w').events.map φ = (m w).events

theorem follows_pure (a : α) : Follows R φ (pure a : Prog W' E' ε α) (pure a) := by
  intro w' w hR
  exact ⟨rfl, hR, rfl⟩

theorem follows_ofExcept (r : Except ε α) : Follows R φ (ofExcept r) (ofExcept r) := by
  intro w' w hR
  exact ⟨rfl, hR, rfl⟩

theorem follows_note {e' : E'} {e : E} (h : φ e' = e) :
    Follows R φ (note e' : Prog W' E' ε Unit) (note e) := by
  intro w' w hR
  exact ⟨rfl, hR, congrArg (fun e => [e]) h⟩

theorem follows_update {f' : W' → α × W'} {f : W → α × W}
    (hf : ∀ w' w, R w' w → (f' w').1 = (f w).1 ∧ R (f' w').2 (f w).2) :
    Follows R φ (update f' : Prog W' E' ε α) (update f) := by
  intro w' w hR
  obtain ⟨hval, hworld⟩ := hf w' w hR
  exact ⟨congrArg Except.ok hval, hworld, rfl⟩

theorem follows_call {f' : W' → Except ε α × W'} {f : W → Except ε α × W}
    {ev' : W' → Except ε α → W' → E'} {ev : W → Except ε α → W → E}
    (hf : ∀ w' w, R w' w → (f' w').1 = (f w).1 ∧ R (f' w').2 (f w).2)
    (hev : ∀ w' w r x' x, R w' w → R x' x → φ (ev' w' r x') = ev w r x) :
    Follows R φ (call f' ev') (call f ev) := by
  intro w' w hR
  obtain ⟨hval, hworld⟩ := hf w' w hR
  refine ⟨hval, hworld, ?_⟩
  show [φ (ev' w' (f' w').1 (f' w').2)] = [ev w (f w).1 (f w).2]
  rw [hev w' w _ _ _ hR hworld, hval]

/-- Two programs that follow each other, run side by side. -/
theorem Follows.outcome {m' : Prog W' E' ε α} {m : Prog W E ε α} (h : Follows R φ m' m) {w' : W'}
    {w : W} (hR : R w' w) : ∃ r x' x es, m' w' = ⟨r, x', es⟩ ∧ m w = ⟨r, x, es.map φ⟩ ∧ R x' x := by
  obtain ⟨hval, hworld, hevents⟩ := h w' w hR
  refine ⟨(m' w').val, (m' w').world, (m w).world, (m' w').events, rfl, ?_, hworld⟩
  rw [hval, hevents]

theorem follows_bind {m' : Prog W' E' ε α} {m : Prog W E ε α} {f' : α → Prog W' E' ε β}
    {f : α → Prog W E ε β} (hm : Follows R φ m' m) (hf : ∀ a, Follows R φ (f' a) (f a)) :
    Follows R φ (m' >>= f') (m >>= f) := by
  intro w' w hR
  show (Prog.bind m' f' w').val = (Prog.bind m f w).val ∧
    R (Prog.bind m' f' w').world (Prog.bind m f w).world ∧
    (Prog.bind m' f' w').events.map φ = (Prog.bind m f w).events
  obtain ⟨r, x', x, es, hm', hm, hworld⟩ := hm.outcome hR
  unfold Prog.bind
  rw [hm', hm]
  cases r with
  | error e => exact ⟨rfl, hworld, rfl⟩
  | ok a =>
    obtain ⟨hval, hworld, hevents⟩ := hf a x' x hworld
    refine ⟨hval, hworld, ?_⟩
    rw [List.map_append, hevents]

theorem follows_ite {c : Prop} [Decidable c] {m₁' m₂' : Prog W' E' ε α} {m₁ m₂ : Prog W E ε α}
    (h₁ : Follows R φ m₁' m₁) (h₂ : Follows R φ m₂' m₂) :
    Follows R φ (if c then m₁' else m₂') (if c then m₁ else m₂) := by
  split
  · exact h₁
  · exact h₂

theorem follows_catching {m' : Prog W' E' ε α} {m : Prog W E ε α} {handler : ε → Option α}
    (hm : Follows R φ m' m) : Follows R φ (catching m' handler) (catching m handler) := by
  intro w' w hR
  obtain ⟨r, x', x, es, hm', hm, hworld⟩ := hm.outcome hR
  unfold catching
  rw [hm', hm]
  cases r with
  | ok a => exact ⟨rfl, hworld, rfl⟩
  | error e =>
    dsimp only
    cases handler e with
    | none => exact ⟨rfl, hworld, rfl⟩
    | some a => exact ⟨rfl, hworld, rfl⟩

end follows

/-! ## Worlds that are what their events say -/

section sourced
variable {V : Type} {view : W → V} {apply : V → E → V}

/-- What `view` shows after `m` is what it showed before, with the events of
    `m` applied in order. -/
def Sourced (view : W → V) (apply : V → E → V) (m : Prog W E ε α) : Prop :=
  ∀ w, view (m w).world = (m w).events.foldl apply (view w)

theorem sourced_pure (a : α) : Sourced view apply (pure a : Prog W E ε α) := by
  intro w
  rfl

/-- A change that `view` does not show. -/
theorem sourced_update {f : W → α × W} (h : ∀ w, view (f w).2 = view w) :
    Sourced view apply (update f : Prog W E ε α) := by
  intro w
  exact h w

theorem sourced_bind {m : Prog W E ε α} {f : α → Prog W E ε β} (hm : Sourced view apply m)
    (hf : ∀ a, Sourced view apply (f a)) : Sourced view apply (m >>= f) := by
  intro w
  show view (Prog.bind m f w).world = (Prog.bind m f w).events.foldl apply (view w)
  have hmw := hm w
  unfold Prog.bind
  rcases hm' : m w with ⟨_ | a, w', es⟩
  · rw [hm'] at hmw
    exact hmw
  · rw [hm'] at hmw
    dsimp only at hmw ⊢
    rw [hf a w', hmw, List.foldl_append]

end sourced

end Prog

end Framework
