import Syndicate.Server.Stream

/-! # The stream of a finished run

    Nothing more is emitted, so a connection is a deterministic machine over
    a fixed backlog.  It ends by sending the terminal envelope, and by
    nothing else: opened after it, as the client does when its stream ends,
    it sends heartbeats for ever. -/

namespace Syndicate.Server

open Py Framework

/-- The backlog of a finished run: the terminal envelope, numbered `t`, is
    the only one and the last, and the others have smaller seqs. -/
structure Finished (backlog : List Envelope) (t : Nat) : Prop where
  terminal_last : ∃ before terminal, backlog = before ++ [terminal] ∧
    terminal.kind.terminal = true ∧ terminal.seq = some t ∧
    ∀ e ∈ before, e.kind.terminal = false ∧ ∃ n, e.seq = some n ∧ n < t

theorem Finished.seq_le {backlog : List Envelope} {t : Nat} (h : Finished backlog t) {e : Envelope}
    (he : e ∈ backlog) {n : Nat} (hn : e.seq = some n) : n ≤ t := by
  obtain ⟨before, terminal, rfl, -, hseq, hbefore⟩ := h.terminal_last
  rcases List.mem_append.mp he with he | he
  · obtain ⟨-, m, hm, hlt⟩ := hbefore e he
    have hmn : m = n := Option.some.inj (hm.symm.trans hn)
    omega
  · rw [List.mem_singleton.mp he, hseq] at hn
    exact Nat.le_of_eq (Option.some.inj hn).symm

/-- `event_source` over a backlog that no longer changes: a connection that
    waits is woken by the timeout only. -/
def event_source (backlog : List Envelope) : Machine Conn Unit where
  step c :=
    match c.pc with
    | .returned | .raised | .cut => none
    | .waiting false => some ((), c.timeout)
    | _ => some ((), c.resume backlog)

/-- `event_source` returns after finitely many steps. -/
def Returns (backlog : List Envelope) (c : Conn) : Prop :=
  ∃ n, ((event_source backlog).run n c).2.pc = .returned

/-- `format_sse` does not raise. -/
def Formats (e : Envelope) : Prop := ∃ text, format_sse e = .ok text

section
variable {backlog : List Envelope} {c c' : Conn}

theorem returns_step (h : (event_source backlog).step c = some ((), c')) :
    Returns backlog c ↔ Returns backlog c' := by
  constructor
  · intro ⟨n, hn⟩
    cases n with
    | zero =>
      have hpc : c.pc = .returned := hn
      simp [event_source, hpc] at h
    | succ n =>
      refine ⟨n, ?_⟩
      simpa [Machine.run, h] using hn
  · intro ⟨n, hn⟩
    refine ⟨n + 1, ?_⟩
    simpa [Machine.run, h] using hn

theorem not_returns_raised (h : c.pc = .raised) : ¬Returns backlog c := by
  intro ⟨n, hn⟩
  have hhalted : (event_source backlog).Halted c := by
    simp [Machine.Halted, event_source, h]
  rw [Machine.run_halted _ hhalted, h] at hn
  cases hn

theorem not_formats {e : Envelope} {x : PyExc} (h : format_sse e = .error x) : ¬Formats e := by
  intro ⟨text, htext⟩
  rw [h] at htext
  cases htext

theorem not_returns_deliver {e : Envelope} {rest : List Envelope} {x : PyExc}
    (h : format_sse e = .error x) : ¬Returns backlog (c.deliver (e :: rest)) := by
  apply not_returns_raised
  simp [Conn.deliver, h]

/-- A batch whose last envelope, and no other, is terminal. -/
def Closed : Envelope → List Envelope → Prop
  | cur, [] => cur.kind.terminal = true
  | cur, e :: rest => cur.kind.terminal = false ∧ Closed e rest

theorem closed_of_append {before rest : List Envelope} {terminal cur : Envelope}
    (h : before ++ [terminal] = cur :: rest) (hterm : terminal.kind.terminal = true)
    (hbefore : ∀ e ∈ before, e.kind.terminal = false) : Closed cur rest := by
  induction before generalizing cur rest with
  | nil =>
    obtain ⟨rfl, rfl⟩ : terminal = cur ∧ [] = rest := by simpa using h
    exact hterm
  | cons e before ih =>
    obtain ⟨rfl, rfl⟩ : e = cur ∧ before ++ [terminal] = rest := by simpa using h
    have he := hbefore e List.mem_cons_self
    rcases hrest : before ++ [terminal] with _ | ⟨e', rest'⟩
    · simp at hrest
    · exact ⟨he, ih hrest (fun x hx => hbefore x (List.mem_cons_of_mem e hx))⟩

/-- A closed batch: the connection returns when all of it can be written. -/
theorem returns_deliver {e : Envelope} {rest : List Envelope}
    (hseqs : ∀ x ∈ e :: rest, x.seq ≠ none) (hclosed : Closed e rest) :
    Returns backlog (c.deliver (e :: rest)) ↔ ∀ x ∈ e :: rest, Formats x := by
  induction rest generalizing c e with
  | nil =>
    obtain ⟨n, hn⟩ := Option.ne_none_iff_exists'.mp (hseqs e List.mem_cons_self)
    have hterm : e.kind.terminal = true := hclosed
    rcases hsse : format_sse e with x | text
    · exact iff_of_false (not_returns_deliver hsse) (fun h => not_formats hsse (h e List.mem_cons_self))
    · have hreturns : Returns backlog (c.deliver [e]) := by
        refine ⟨1, ?_⟩
        simp [Machine.run, event_source, Conn.deliver, hsse, Conn.resume, hn, hterm]
      have hformats : ∀ x ∈ [e], Formats x := by
        intro x hx
        rw [List.mem_singleton.mp hx]
        exact ⟨text, hsse⟩
      exact iff_of_true hreturns hformats
  | cons e' rest ih =>
    obtain ⟨hterm, hclosed⟩ := hclosed
    obtain ⟨n, hn⟩ := Option.ne_none_iff_exists'.mp (hseqs e List.mem_cons_self)
    rcases hsse : format_sse e with x | text
    · exact iff_of_false (not_returns_deliver hsse) (fun h => not_formats hsse (h e List.mem_cons_self))
    · -- The step after the `yield` of `e` goes on with the rest.
      have hstep : (event_source backlog).step (c.deliver (e :: e' :: rest)) = some ((),
          Conn.deliver { c with last_sent := n, yielded := c.yielded ++ [e] } (e' :: rest)) := by
        simp only [event_source, Conn.deliver, hsse, Conn.resume, hn, hterm, Bool.false_eq_true, if_false]
      rw [returns_step hstep, ih (fun x hx => hseqs x (List.mem_cons_of_mem e hx)) hclosed,
        List.forall_mem_cons (a := e)]
      exact (and_iff_right ⟨text, hsse⟩).symm

/-- With nothing to send, a connection goes from heartbeat to heartbeat. -/
theorem not_returns_drained (hpending : c.pending backlog = []) (hc : c.between = true) :
    ¬Returns backlog c := by
  intro ⟨n, hn⟩
  -- every step leads back to a wait with nothing pending
  have hidle : ((event_source backlog).run n c).2.last_sent = c.last_sent ∧
      ((event_source backlog).run n c).2.between = true := by
    apply (event_source backlog).run_invariant
      (P := fun _ s => s.last_sent = c.last_sent ∧ s.between = true)
    · exact ⟨rfl, hc⟩
    · intro _ s _ s' ⟨hsent, hbetween⟩ hstep
      have hnil : s.pending backlog = [] := by
        rw [← hpending]
        unfold Conn.pending Conn.unsent
        rw [hsent]
      have hdeliver : s.deliver (s.pending backlog) = { s with pc := .waiting false } := by
        rw [hnil]
        rfl
      obtain ⟨last_sent, pc, yielded⟩ := s
      cases pc with
      | start | heartbeat =>
        simp only [event_source, Conn.resume, hdeliver, Option.some.injEq, Prod.mk.injEq] at hstep
        rw [← hstep.2]
        exact ⟨hsent, rfl⟩
      | waiting woken =>
        cases woken with
        | true =>
          simp only [event_source, Conn.resume, hdeliver, Option.some.injEq, Prod.mk.injEq] at hstep
          rw [← hstep.2]
          exact ⟨hsent, rfl⟩
        | false =>
          simp only [event_source, Conn.timeout, Option.some.injEq, Prod.mk.injEq] at hstep
          rw [← hstep.2]
          exact ⟨hsent, rfl⟩
      | yielding _ _ | returned | raised | cut => cases hbetween
  rw [Conn.between, hn] at hidle
  exact absurd hidle.2 (by simp)

end

/-- **The stream of a finished run ends** exactly for a client that has not
    been sent the terminal envelope, provided that what it has not been sent
    can be written. -/
theorem finished_stream_returns_iff {backlog : List Envelope} {t : Nat} (h : Finished backlog t)
    (after : Int) :
    Returns backlog { last_sent := after } ↔
      after < t ∧ ∀ e ∈ backlog, (∃ n, e.seq = some n ∧ after < n) → Formats e := by
  obtain ⟨before, terminal, hbacklog, hterm, hseq, hbefore⟩ := h.terminal_last
  let c : Conn := { last_sent := after }
  have hfirst : (event_source backlog).step c = some ((), c.deliver (c.pending backlog)) := rfl
  have hpending : c.pending backlog = c.pending before ++ c.pending [terminal] := by
    rw [hbacklog]
    exact List.filter_append ..
  by_cases hlt : after < t
  · have hunsent : c.unsent terminal = true := Conn.unsent_iff.mpr ⟨t, hseq, hlt⟩
    have hterminal : c.pending [terminal] = [terminal] := by simp [Conn.pending, hunsent]
    rw [hterminal] at hpending
    -- The batch is not empty, and it ends with the terminal envelope.
    rcases hp : c.pending backlog with _ | ⟨e, rest⟩
    · simp [hp] at hpending
    · have hclosed : Closed e rest := by
        apply closed_of_append (hpending.symm.trans hp) hterm
        intro x hx
        exact (hbefore x (List.mem_filter.mp hx).1).1
      have hseqs : ∀ x ∈ e :: rest, x.seq ≠ none := by
        intro x hx hnone
        have hx' := (List.mem_filter.mp (hp ▸ hx)).2
        obtain ⟨n, hn, -⟩ := Conn.unsent_iff.mp hx'
        rw [hnone] at hn
        cases hn
      rw [returns_step hfirst, hp, returns_deliver hseqs hclosed, ← hp]
      constructor
      · intro hall
        exact ⟨hlt, fun x hx hn => hall x (List.mem_filter.mpr ⟨hx, Conn.unsent_iff.mpr hn⟩)⟩
      · intro ⟨_, hall⟩ x hx
        obtain ⟨hx, hn⟩ := List.mem_filter.mp hx
        exact hall x hx (Conn.unsent_iff.mp hn)
  · have hdrained : c.pending backlog = [] := by
      apply List.filter_eq_nil_iff.mpr
      intro e he hunsent
      obtain ⟨n, hn, hsent⟩ := Conn.unsent_iff.mp hunsent
      have hsent : after < n := hsent
      have hle : n ≤ t := h.seq_le he hn
      omega
    exact iff_of_false (not_returns_drained hdrained rfl) (fun h => hlt h.1)

/-! ## The client that has been sent everything -/

/-- The record of a run that failed at once. -/
def failed_backlog : List Envelope :=
  [{ small_envelope .run_started none with seq := some 1 },
   { small_envelope .run_failed none with seq := some 2 }]

theorem failed_backlog_finished : Finished failed_backlog 2 :=
  ⟨[{ small_envelope .run_started none with seq := some 1 }],
    { small_envelope .run_failed none with seq := some 2 }, rfl, rfl, rfl, by
      intro e he
      rw [List.mem_singleton.mp he]
      exact ⟨rfl, 1, rfl, by decide⟩⟩

/-- The client has received the terminal envelope and comes back after it. -/
theorem resumed_stream_never_returns :
    ¬∀ (backlog : List Envelope) (t : Nat) (after : Int), Finished backlog t →
      Returns backlog { last_sent := after } := by
  intro h
  have hpending : Conn.pending { last_sent := 2 } failed_backlog = [] := rfl
  exact not_returns_drained hpending rfl (h failed_backlog 2 2 failed_backlog_finished)

theorem finished_stream_returns_iff_failed : Returns failed_backlog { last_sent := 0 } := by
  apply (finished_stream_returns_iff failed_backlog_finished 0).mpr
  constructor
  · decide
  · intro e he _
    rcases List.mem_cons.mp he with rfl | he
    · exact ⟨_, rfl⟩
    · rw [List.mem_singleton.mp he]
      exact ⟨_, rfl⟩

end Syndicate.Server
