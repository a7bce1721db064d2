import Mathlib.Data.List.Forall2
import Mathlib.Data.Option.Basic
import Syndicate.Framework.Prog
import Syndicate.Framework.Runs

/-! # Matching programs and machines

    Relational rules for two programs over different worlds.

    * `Coupling`: which worlds and which events of the two belong together.
    * `Prog.Matches`: from related worlds the two return the same value, which
      `V` holds of, or raise the same exception; worlds and events are related
      again.
    * `Machine.run_matches`: machines whose steps match.

    `Prog.Follows` is the case of events that one program's determine. -/

namespace Framework

/-- Which worlds, and which events, of two programs belong together. -/
structure Coupling (W' E' W E : Type) where
  worlds : W' → W → Prop
  events : E' → E → Prop

namespace Coupling

variable {W' E' W E α : Type}

/-- From related worlds the two answer alike, in related worlds. -/
def Alike (C : Coupling W' E' W E) (f' : W' → α × W') (f : W → α × W) : Prop :=
  ∀ w' w, C.worlds w' w → (f' w').1 = (f w).1 ∧ C.worlds (f' w').2 (f w).2

end Coupling

namespace Prog

variable {W' E' W E ε α β : Type} {C : Coupling W' E' W E}

/-! ## Programs -/

/-- Two executions that ended alike. -/
structure Matched (C : Coupling W' E' W E) (V : α → Prop) (o' : Outcome W' E' ε α)
    (o : Outcome W E ε α) : Prop where
  val : o'.val = o.val
  kept : ∀ a, o.val = .ok a → V a
  world : C.worlds o'.world o.world
  events : List.Forall₂ C.events o'.events o.events

/-- From related worlds the two end alike, and what they return satisfies
    `V`. -/
def Matches (C : Coupling W' E' W E) (V : α → Prop) (m' : Prog W' E' ε α) (m : Prog W E ε α) : Prop :=
  ∀ w' w, C.worlds w' w → Matched C V (m' w') (m w)

variable {V : α → Prop}

theorem matches_ofExcept {r : Except ε α} (h : ∀ a, r = .ok a → V a) :
    Matches C V (ofExcept r) (ofExcept r) := by
  intro w' w hR
  exact ⟨rfl, h, hR, .nil⟩

theorem matches_pure {a : α} (h : V a) :
    Matches C V (pure a : Prog W' E' ε α) (pure a : Prog W E ε α) := by
  apply matches_ofExcept (r := .ok a)
  intro b hb
  obtain rfl := Except.ok.inj hb
  exact h

theorem matches_raise (e : ε) : Matches C V (raise e) (raise e) := by
  apply matches_ofExcept (r := .error e)
  intro a ha
  cases ha

theorem matches_note {e' : E'} {e : E} (h : C.events e' e) :
    Matches C (fun _ => True) (note e' : Prog W' E' ε Unit) (note e) := by
  intro w' w hR
  exact ⟨rfl, fun _ _ => trivial, hR, .cons h .nil⟩

theorem matches_call {f' : W' → Except ε α × W'} {f : W → Except ε α × W}
    {ev' : W' → Except ε α → W' → E'} {ev : W → Except ε α → W → E} (hf : C.Alike f' f)
    (hev : ∀ w' w r x' x, C.worlds w' w → C.worlds x' x → C.events (ev' w' r x') (ev w r x))
    (hV : ∀ w a, (f w).1 = .ok a → V a) : Matches C V (call f' ev') (call f ev) := by
  intro w' w hR
  obtain ⟨hval, hworld⟩ := hf w' w hR
  refine ⟨hval, hV w, hworld, .cons ?_ .nil⟩
  rw [hval]
  exact hev w' w _ _ _ hR hworld

/-- A call that leaves no event. -/
theorem matches_quiet {f' : W' → Except ε α × W'} {f : W → Except ε α × W} (hf : C.Alike f' f) :
    Matches C (fun _ => True) (fun w' => ⟨(f' w').1, (f' w').2, []⟩)
      (fun w => ⟨(f w).1, (f w).2, []⟩) := by
  intro w' w hR
  obtain ⟨hval, hworld⟩ := hf w' w hR
  exact ⟨hval, fun _ _ => trivial, hworld, .nil⟩

/-- Two programs that match, run side by side. -/
theorem Matches.outcome {m' : Prog W' E' ε α} {m : Prog W E ε α} (h : Matches C V m' m) {w' : W'} {w : W}
    (hR : C.worlds w' w) : ∃ r x' x es' es, m' w' = ⟨r, x', es'⟩ ∧ m w = ⟨r, x, es⟩ ∧
      (∀ a, r = .ok a → V a) ∧ C.worlds x' x ∧ List.Forall₂ C.events es' es := by
  obtain ⟨hval, hkept, hworld, hevents⟩ := h w' w hR
  refine ⟨(m w).val, (m' w').world, (m w).world, (m' w').events, (m w).events, ?_, rfl, hkept, hworld,
    hevents⟩
  rw [← hval]

/-- The rule for `do`: what comes next matches for the values there are. -/
theorem matches_bind {V' : β → Prop} {m' : Prog W' E' ε β} {m : Prog W E ε β}
    {f' : β → Prog W' E' ε α} {f : β → Prog W E ε α} (hm : Matches C V' m' m)
    (hf : ∀ b, V' b → Matches C V (f' b) (f b)) : Matches C V (m' >>= f') (m >>= f) := by
  intro w' w hR
  show Matched C V (Prog.bind m' f' w') (Prog.bind m f w)
  obtain ⟨r, x', x, es', es, hm', hm, hkept, hworld, hevents⟩ := hm.outcome hR
  unfold Prog.bind
  rw [hm', hm]
  cases r with
  | error e => exact ⟨rfl, nofun, hworld, hevents⟩
  | ok b =>
    obtain ⟨hval, hkept', hworld', hevents'⟩ := hf b (hkept b rfl) x' x hworld
    exact ⟨hval, hkept', hworld', List.rel_append hevents hevents'⟩

theorem matches_ite {c : Prop} [Decidable c] {m₁' m₂' : Prog W' E' ε α} {m₁ m₂ : Prog W E ε α}
    (h₁ : Matches C V m₁' m₁) (h₂ : Matches C V m₂' m₂) :
    Matches C V (if c then m₁' else m₂') (if c then m₁ else m₂) := by
  split
  · exact h₁
  · exact h₂

theorem matches_catching {m' : Prog W' E' ε α} {m : Prog W E ε α} {handler : ε → Option α}
    (hm : Matches C V m' m) (hhandler : ∀ e a, handler e = some a → V a) :
    Matches C V (catching m' handler) (catching m handler) := by
  intro w' w hR
  obtain ⟨r, x', x, es', es, hm', hm, hkept, hworld, hevents⟩ := hm.outcome hR
  unfold catching
  rw [hm', hm]
  cases r with
  | ok a => exact ⟨rfl, hkept, hworld, hevents⟩
  | error e =>
    dsimp only
    cases hhandles : handler e with
    | none => exact ⟨rfl, nofun, hworld, hevents⟩
    | some b =>
      refine ⟨rfl, ?_, hworld, hevents⟩
      intro a ha
      obtain rfl := Except.ok.inj ha
      exact hhandler e _ hhandles

end Prog

/-! ## Machines -/

namespace Machine

variable {σ' ℓ' σ ℓ : Type} {m' : Machine σ' ℓ'} {m : Machine σ ℓ} {R : σ' → σ → Prop}
  {S : ℓ' → ℓ → Prop}

/-- **Machines whose steps match** have matching runs: they halt together,
    and take related labels through related states. -/
theorem run_matches
    (hstep : ∀ s' s, R s' s → Option.Rel (fun x' x => S x'.1 x.1 ∧ R x'.2 x.2) (m'.step s') (m.step s))
    (n : Nat) {s' : σ'} {s : σ} (hR : R s' s) :
    List.Forall₂ S (m'.run n s').1 (m.run n s).1 ∧ R (m'.run n s').2 (m.run n s).2 := by
  induction n generalizing s' s with
  | zero => exact ⟨.nil, hR⟩
  | succ n ih =>
    have hone := hstep s' s hR
    unfold run
    generalize m'.step s' = next' at hone
    generalize m.step s = next at hone
    cases hone with
    | none => exact ⟨.nil, hR⟩
    | some hnext =>
      obtain ⟨hlabel, hstate⟩ := hnext
      obtain ⟨hlabels, hend⟩ := ih hstate
      exact ⟨.cons hlabel hlabels, hend⟩

end Machine

end Framework
