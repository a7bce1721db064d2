import Syndicate.Server.Registry
import Syndicate.Framework.Runs

/-! # `server/app.py`: `stream_run`

    Any number of connections follow one record.  Control moves only where
    `event_source` is suspended: in a `yield`, or in `new_event.wait()`.

    * `Conn.resume`: `event_source` from one suspension to the next.
    * `Act`, `step`: the emitter and the connections, in any order.
    * `ConnStep`: what one act can do to one connection. -/

namespace Syndicate.Server

open Py Framework

/-! ## One connection -/

/-- Where an `event_source` stands. -/
inductive Pc where
  /-- Not yet run. -/
  | start
  /-- Suspended in `yield format_sse(cur)`; `rest` is left of `pending`. -/
  | yielding (cur : Envelope) (rest : List Envelope)
  /-- Suspended in `new_event.wait()`; `woken`: its wake-up is scheduled. -/
  | waiting (woken : Bool)
  /-- Suspended in the `yield` of a heartbeat. -/
  | heartbeat
  | returned
  /-- Ended by an exception. -/
  | raised
  /-- Closed from outside: the client is gone. -/
  | cut

structure Conn where
  last_sent : Int
  pc : Pc := .start
  /-- The envelopes yielded so far. -/
  yielded : List Envelope := []

namespace Conn

/-- `e['seq'] is not None and e['seq'] > last_sent`. -/
def unsent (c : Conn) (e : Envelope) : Bool := e.seq.any fun n => decide (c.last_sent < n)

theorem unsent_iff {c : Conn} {e : Envelope} :
    c.unsent e = true ↔ ∃ n, e.seq = some n ∧ c.last_sent < n := by
  unfold unsent
  rcases e.seq with _ | n <;> simp

/-- `pending`. -/
def pending (c : Conn) (backlog : List Envelope) : List Envelope := backlog.filter c.unsent

/-- The head of `for envelope in pending`; when nothing is left,
    `new_event.clear()` and `new_event.wait()`. -/
def deliver (c : Conn) : List Envelope → Conn
  | [] => { c with pc := .waiting false }
  | e :: rest =>
    match format_sse e with
    | .ok _ => { c with pc := .yielding e rest, yielded := c.yielded ++ [e] }
    | .error _ => { c with pc := .raised }

/-- Run to the next suspension. -/
def resume (c : Conn) (backlog : List Envelope) : Conn :=
  match c.pc with
  | .start | .waiting true | .heartbeat => c.deliver (c.pending backlog)
  | .yielding cur rest =>
    match cur.seq with
    | none => { c with pc := .raised }
    | some n =>
      if cur.kind.terminal then { c with last_sent := n, pc := .returned }
      else { c with last_sent := n }.deliver rest
  | _ => c

/-- About to scan the backlog when it runs next. -/
def scans (c : Conn) : Bool :=
  match c.pc with
  | .start | .waiting true | .heartbeat => true
  | _ => false

/-- Between two batches: started, waiting, or at a heartbeat. -/
def between (c : Conn) : Bool :=
  match c.pc with
  | .start | .waiting _ | .heartbeat => true
  | _ => false

theorem between_of_scans {c : Conn} (h : c.scans = true) : c.between = true := by
  obtain ⟨last_sent, pc, yielded⟩ := c
  cases pc with
  | start | waiting _ | heartbeat => rfl
  | yielding _ _ | returned | raised | cut => cases h

/-- `TimeoutError` out of `wait_for`. -/
def timeout (c : Conn) : Conn :=
  match c.pc with
  | .waiting _ => { c with pc := .heartbeat }
  | _ => c

/-- The server closes the generator. -/
def close (c : Conn) : Conn :=
  match c.pc with
  | .returned | .raised => c
  | _ => { c with pc := .cut }

/-- A waiter of `new_event` when it is set. -/
def wake (c : Conn) : Conn :=
  match c.pc with
  | .waiting _ => { c with pc := .waiting true }
  | _ => c

/-- Suspended in `wait()` with no wake-up scheduled. -/
def asleep (c : Conn) : Bool :=
  match c.pc with
  | .waiting false => true
  | _ => false

theorem asleep_iff {c : Conn} : c.asleep = true ↔ c.pc = .waiting false := by
  unfold asleep
  split <;> simp_all

end Conn

namespace Conn

/-- What `deliver` makes of a connection, by what is left to send. -/
inductive Delivered (c : Conn) : List Envelope → Conn → Prop where
  | waits : Delivered c [] { c with pc := .waiting false }
  | yields (e : Envelope) (rest : List Envelope) :
      Delivered c (e :: rest) { c with pc := .yielding e rest, yielded := c.yielded ++ [e] }
  | raises (e : Envelope) (rest : List Envelope) : Delivered c (e :: rest) { c with pc := .raised }

theorem deliver_delivered (c : Conn) (es : List Envelope) : Delivered c es (c.deliver es) := by
  cases es with
  | nil => exact .waits
  | cons e rest =>
    rcases hsse : format_sse e with _ | _
    · simp only [deliver, hsse]
      exact .raises e rest
    · simp only [deliver, hsse]
      exact .yields e rest

/-- What `resume` makes of a connection, by where it stood. -/
inductive Resumed (c : Conn) (backlog : List Envelope) : Conn → Prop where
  | scanned : c.scans = true → Resumed c backlog (c.deliver (c.pending backlog))
  | unnumbered (cur : Envelope) (rest : List Envelope) :
      c.pc = .yielding cur rest → cur.seq = none → Resumed c backlog { c with pc := .raised }
  | ended (cur : Envelope) (rest : List Envelope) (n : Nat) :
      c.pc = .yielding cur rest → cur.seq = some n → cur.kind.terminal = true →
      Resumed c backlog { c with last_sent := n, pc := .returned }
  | sent (cur : Envelope) (rest : List Envelope) (n : Nat) :
      c.pc = .yielding cur rest → cur.seq = some n → cur.kind.terminal = false →
      Resumed c backlog ({ c with last_sent := n }.deliver rest)
  | idle : c.pc = .waiting false ∨ c.pc = .returned ∨ c.pc = .raised ∨ c.pc = .cut →
      Resumed c backlog c

theorem resume_resumed (c : Conn) (backlog : List Envelope) :
    Resumed c backlog (c.resume backlog) := by
  obtain ⟨last_sent, pc, yielded⟩ := c
  cases pc with
  | start => exact .scanned rfl
  | heartbeat => exact .scanned rfl
  | waiting woken =>
    cases woken with
    | true => exact .scanned rfl
    | false => exact .idle (Or.inl rfl)
  | yielding cur rest =>
    rcases hseq : cur.seq with _ | n
    · simp only [resume, hseq]
      exact .unnumbered cur rest rfl hseq
    · by_cases hterm : cur.kind.terminal = true
      · simp only [resume, hseq, hterm, if_true]
        exact .ended cur rest n rfl hseq hterm
      · have hfalse : cur.kind.terminal = false := by simpa using hterm
        simp only [resume, hseq, hfalse, Bool.false_eq_true, if_false]
        exact .sent cur rest n rfl hseq hfalse
  | returned => exact .idle (Or.inr (Or.inl rfl))
  | raised => exact .idle (Or.inr (Or.inr (Or.inl rfl)))
  | cut => exact .idle (Or.inr (Or.inr (Or.inr rfl)))

theorem timeout_pc_ne {c : Conn} : c.timeout.pc ≠ .waiting false := by
  unfold timeout
  cases hpc : c.pc <;> simp [hpc]

theorem close_pc_ne {c : Conn} : c.close.pc ≠ .waiting false := by
  unfold close
  cases hpc : c.pc <;> simp [hpc]

theorem wake_pc_ne {c : Conn} : c.wake.pc ≠ .waiting false := by
  unfold wake
  cases hpc : c.pc <;> simp [hpc]

/-! A connection's `yielded` only grows, and only by its own steps. -/

@[simp] theorem timeout_yielded (c : Conn) : c.timeout.yielded = c.yielded := by
  unfold timeout
  cases c.pc <;> rfl

@[simp] theorem close_yielded (c : Conn) : c.close.yielded = c.yielded := by
  unfold close
  cases c.pc <;> rfl

@[simp] theorem wake_yielded (c : Conn) : c.wake.yielded = c.yielded := by
  unfold wake
  cases c.pc <;> rfl

theorem deliver_yielded (c : Conn) (es : List Envelope) : c.yielded <+: (c.deliver es).yielded := by
  have hd := c.deliver_delivered es
  generalize c.deliver es = c' at hd
  cases hd with
  | waits | raises _ _ => exact List.prefix_rfl
  | yields e rest => exact List.prefix_append _ _

theorem resume_yielded (c : Conn) (backlog : List Envelope) :
    c.yielded <+: (c.resume backlog).yielded := by
  have hr := c.resume_resumed backlog
  generalize c.resume backlog = c' at hr
  cases hr with
  | scanned _ => exact c.deliver_yielded _
  | sent cur rest n _ _ _ => exact deliver_yielded { c with last_sent := n } rest
  | unnumbered _ _ _ _ | ended _ _ _ _ _ _ | idle _ => exact List.prefix_rfl

end Conn

/-! ## The record and its connections -/

structure Stream where
  record : RunRecord
  conns : List Conn := []
  /-- Everything emitted so far, also what the backlog has dropped. -/
  emitted : List Envelope := []

/-- A record as `try_start` makes it, with no connection. -/
def Stream.new (run_id raw_request : PyStr) : Stream where
  record := .new run_id raw_request

inductive Act where
  /-- The driver emits its next envelope, numbered by `next_seq`. -/
  | emit (e : Envelope)
  /-- `GET /runs/{run_id}/stream?after=..`. -/
  | connect (after : Int)
  | resume (i : Nat)
  | timeout (i : Nat)
  | close (i : Nat)

/-- The envelope the driver's next emission appends. -/
def Stream.next (s : Stream) (e : Envelope) : Envelope :=
  { e with seq := some (s.record.seq_counter + 1) }

/-- Does connection `i`, run to its next suspension, clear the event on the
    way there? -/
def Stream.clears (s : Stream) (i : Nat) : Bool :=
  s.conns[i]?.any fun c => !c.asleep && (c.resume s.record.backlog.items).asleep

/-- One act; a connection that is not there, or cannot move so, stays. -/
def step (s : Stream) : Act → Stream
  | .emit e =>
    { record := s.record.emit_next e
      -- `Event.set` on an event already set wakes nobody.
      conns := if s.record.new_event then s.conns else s.conns.map Conn.wake
      emitted := s.emitted ++ [s.next e] }
  | .connect after => { s with conns := s.conns ++ [{ last_sent := after }] }
  | .resume i =>
    { s with
      record := if s.clears i then { s.record with new_event := false } else s.record
      conns := s.conns.modify i fun c => c.resume s.record.backlog.items }
  | .timeout i => { s with conns := s.conns.modify i Conn.timeout }
  | .close i => { s with conns := s.conns.modify i Conn.close }

/-- The state a schedule leads to from a new record. -/
def serve (run_id raw_request : PyStr) (acts : List Act) : Stream :=
  play step (Stream.new run_id raw_request) acts

/-! ## What one act does to one connection -/

/-- `ConnStep s i a c'`: after `a` in state `s`, connection `i` is `c'`. -/
inductive ConnStep (s : Stream) (i : Nat) : Act → Conn → Prop where
  | emitted (e : Envelope) (c : Conn) : s.conns[i]? = some c →
      ConnStep s i (.emit e) (if s.record.new_event then c else c.wake)
  | connected (after : Int) : i = s.conns.length → ConnStep s i (.connect after) { last_sent := after }
  | resumed (c : Conn) : s.conns[i]? = some c →
      ConnStep s i (.resume i) (c.resume s.record.backlog.items)
  | timed_out (c : Conn) : s.conns[i]? = some c → ConnStep s i (.timeout i) c.timeout
  | closed (c : Conn) : s.conns[i]? = some c → ConnStep s i (.close i) c.close
  | kept (a : Act) (c : Conn) : s.conns[i]? = some c → (∀ e, a ≠ .emit e) → ConnStep s i a c

theorem modify_cases {cs : List Conn} {i j : Nat} {f : Conn → Conn} {c' : Conn}
    (h : (cs.modify j f)[i]? = some c') :
    (j = i ∧ ∃ c, cs[i]? = some c ∧ f c = c') ∨ cs[i]? = some c' := by
  by_cases hj : j = i
  · subst hj
    rw [List.getElem?_modify_eq] at h
    obtain ⟨c, hc, hf⟩ := Option.map_eq_some_iff.mp h
    exact Or.inl ⟨rfl, c, hc, hf⟩
  · rw [List.getElem?_modify_ne _ _ hj] at h
    exact Or.inr h

theorem conn_step {s : Stream} {i : Nat} {a : Act} {c' : Conn} (h : (step s a).conns[i]? = some c') :
    ConnStep s i a c' := by
  cases a with
  | emit e =>
    -- with `new_event` already set, nobody is woken
    by_cases hset : s.record.new_event = true
    · have hc : s.conns[i]? = some c' := by simpa only [step, hset, if_true] using h
      have hstep := ConnStep.emitted e c' hc
      rwa [if_pos hset] at hstep
    · simp only [step, hset, Bool.false_eq_true, if_false, List.getElem?_map] at h
      obtain ⟨c, hc, rfl⟩ := Option.map_eq_some_iff.mp h
      have hstep := ConnStep.emitted e c hc
      rwa [if_neg hset] at hstep
  | connect after =>
    change (s.conns ++ [{ last_sent := after }])[i]? = some c' at h
    by_cases hi : i < s.conns.length
    · rw [List.getElem?_append_left hi] at h
      exact .kept _ c' h (by simp)
    · rw [List.getElem?_append_right (by omega)] at h
      obtain ⟨hlt, rfl⟩ := List.getElem?_eq_some_iff.mp h
      have hlen : i = s.conns.length := by
        have := List.length_singleton ▸ hlt
        omega
      simpa using ConnStep.connected after hlen
  | resume j =>
    rcases modify_cases h with ⟨rfl, c, hc, rfl⟩ | hc
    · exact .resumed c hc
    · exact .kept _ c' hc (by simp)
  | timeout j =>
    rcases modify_cases h with ⟨rfl, c, hc, rfl⟩ | hc
    · exact .timed_out c hc
    · exact .kept _ c' hc (by simp)
  | close j =>
    rcases modify_cases h with ⟨rfl, c, hc, rfl⟩ | hc
    · exact .closed c hc
    · exact .kept _ c' hc (by simp)

/-- No act takes back what a connection has yielded. -/
theorem ConnStep.yielded {s : Stream} {i : Nat} {a : Act} {c c' : Conn} (hc : s.conns[i]? = some c)
    (h : ConnStep s i a c') : c.yielded <+: c'.yielded := by
  have hsame : ∀ {c₀ : Conn}, s.conns[i]? = some c₀ → c.yielded <+: c₀.yielded := by
    intro c₀ hc₀
    obtain rfl : c = c₀ := Option.some.inj (hc.symm.trans hc₀)
    exact List.prefix_rfl
  cases h with
  | emitted e c₀ hc₀ =>
    by_cases hset : s.record.new_event = true
    · simpa [hset] using hsame hc₀
    · simpa [hset] using hsame hc₀
  | connected after hi =>
    have hlt := (List.getElem?_eq_some_iff.mp hc).1
    omega
  | resumed c₀ hc₀ => exact (hsame hc₀).trans (c₀.resume_yielded _)
  | timed_out c₀ hc₀ => simpa using hsame hc₀
  | closed c₀ hc₀ => simpa using hsame hc₀
  | kept _ _ hc₀ _ => exact hsame hc₀

/-- Only an emission changes what has been emitted. -/
theorem step_quiet {s : Stream} {a : Act} (h : ∀ e, a ≠ .emit e) :
    (step s a).record.backlog = s.record.backlog ∧
    (step s a).record.seq_counter = s.record.seq_counter ∧
    (step s a).emitted = s.emitted ∧
    (s.record.new_event = false → (step s a).record.new_event = false) := by
  cases a with
  | emit e => exact absurd rfl (h e)
  | connect after => exact ⟨rfl, rfl, rfl, id⟩
  | timeout i => exact ⟨rfl, rfl, rfl, id⟩
  | close i => exact ⟨rfl, rfl, rfl, id⟩
  | resume i =>
    by_cases hclears : s.clears i = true
    · simp [step, hclears]
    · simp [step, hclears]

/-! ## The log -/

/-- The record numbers its envelopes in order, and its backlog holds the
    last of them. -/
structure Logged (s : Stream) : Prop where
  numbered : Numbered s.emitted
  counter : s.record.seq_counter = s.emitted.length
  backlog : s.record.backlog.items = lastN BACKLOG_MAXLEN s.emitted

theorem logged_step {s : Stream} (h : Logged s) (a : Act) : Logged (step s a) := by
  by_cases ha : ∃ e, a = .emit e
  · obtain ⟨e, rfl⟩ := ha
    constructor
    · exact numbered_snoc.mpr ⟨h.numbered, by simp [Stream.next, h.counter]⟩
    · show s.record.seq_counter + 1 = (s.emitted ++ [s.next e]).length
      rw [h.counter, List.length_append, List.length_singleton]
    · exact s.record.backlog.append_lastN (s.next e) h.backlog
  · obtain ⟨hbacklog, hcounter, hemitted, -⟩ := step_quiet (s := s) (by simpa using ha)
    constructor
    · rw [hemitted]
      exact h.numbered
    · rw [hcounter, hemitted]
      exact h.counter
    · rw [hbacklog, hemitted]
      exact h.backlog

theorem serve_logged (run_id raw_request : PyStr) (acts : List Act) :
    Logged (serve run_id raw_request acts) := by
  apply play_keeps
  · exact ⟨rfl, rfl, by simp [Stream.new, RunRecord.new, Deque.empty, lastN]⟩
  · intro s a h
    exact logged_step h a

/-! ## For concrete schedules -/

/-- An envelope as the driver hands it over; `emit_next` numbers it. -/
def small_envelope (kind : EventKind) (node : Option PyStr) : Envelope where
  seq := none
  ts := lit "2026-01-01T00:00:00+00:00"
  run_id := lit "r"
  kind := kind
  node := node
  payload := []

end Syndicate.Server
