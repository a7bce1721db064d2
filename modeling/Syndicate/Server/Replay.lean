import Syndicate.Server.Stream

/-! # Replay across reconnects

    The client of `static/app.js` keeps the seq it received last and, when
    its stream breaks, opens another one after it.  What it receives over all
    its streams is what the driver emitted, in order, each envelope once.

    * `Tracks`: a connection opened after the envelopes `base` yields what
      was emitted after them.
    * `World`, `world_step`: the server and one client; other viewers are
      connections of the server that this client does not read. -/

namespace Syndicate.Server

open Py Framework

/-! ## What a connection yields -/

/-- After `base`, the connection yields what was emitted next. -/
structure Tracks (emitted base : List Envelope) (c : Conn) : Prop where
  sent : base ++ c.yielded <+: emitted
  batch : ∀ cur rest, c.pc = .yielding cur rest →
    base ++ c.yielded ++ rest <+: emitted ∧ ∃ ys, c.yielded = ys ++ [cur]
  cursor : c.between = true → c.last_sent = (base ++ c.yielded).length

/-- What the backlog has dropped. -/
def Stream.evicted (s : Stream) : List Envelope :=
  s.emitted.take (s.emitted.length - BACKLOG_MAXLEN)

/-- A scan by connection `i` comes too late for an envelope. -/
def Stream.Missed (s : Stream) (i : Nat) : Prop :=
  ∃ c, s.conns[i]? = some c ∧ c.scans = true ∧ ∃ e ∈ s.evicted, c.unsent e = true

theorem Logged.split {s : Stream} (h : Logged s) :
    s.emitted = s.evicted ++ s.record.backlog.items := by
  rw [h.backlog]
  exact (List.take_append_drop _ _).symm

/-- A scan that misses nothing finds all that was emitted after the last
    envelope sent. -/
theorem pending_eq {s : Stream} {c : Conn} {k : Nat} (hlog : Logged s)
    (hcursor : c.last_sent = k) (hkept : ∀ e ∈ s.evicted, ¬c.unsent e = true) :
    c.pending s.record.backlog.items = s.emitted.drop k := by
  have hunsent : c.unsent = fun e => e.seq.any fun n => decide ((k : Int) < n) := by
    funext e
    rw [Conn.unsent, hcursor]
  have hall : s.emitted.filter c.unsent = s.emitted.drop k := by
    rw [hunsent]
    exact hlog.numbered.filter_lt k
  have hnone : s.evicted.filter c.unsent = [] := List.filter_eq_nil_iff.mpr hkept
  rw [← hall]
  conv_rhs => rw [hlog.split]
  rw [List.filter_append, hnone, List.nil_append]
  rfl

section tracks
variable {emitted base : List Envelope} {c : Conn}

/-- Going on with a batch, or going to wait after it. -/
theorem Tracks.deliver {es : List Envelope} (hsent : base ++ c.yielded <+: emitted)
    (hes : base ++ c.yielded ++ es <+: emitted)
    (hcursor : c.last_sent = (base ++ c.yielded).length) : Tracks emitted base (c.deliver es) := by
  have hd := c.deliver_delivered es
  generalize c.deliver es = c' at hd
  cases hd with
  | waits => exact ⟨hsent, by simp, fun _ => hcursor⟩
  | yields e rest =>
    have hassoc : base ++ (c.yielded ++ [e]) ++ rest = base ++ c.yielded ++ e :: rest := by simp
    constructor
    · apply List.IsPrefix.trans _ hes
      exact ⟨rest, hassoc⟩
    · intro cur rest' hpc
      obtain ⟨rfl, rfl⟩ : e = cur ∧ rest = rest' := by simpa using hpc
      exact ⟨by rw [hassoc]; exact hes, c.yielded, rfl⟩
    · intro hbetween
      simp [Conn.between] at hbetween
  | raises e rest => exact ⟨hsent, by simp, by simp [Conn.between]⟩

/-- An emission, and the wake-up it may be. -/
theorem Tracks.grow (h : Tracks emitted base c) (e : Envelope) :
    Tracks (emitted ++ [e]) base c := by
  have hgrow : emitted <+: emitted ++ [e] := List.prefix_append _ _
  constructor
  · exact h.sent.trans hgrow
  · intro cur rest hpc
    exact ⟨(h.batch cur rest hpc).1.trans hgrow, (h.batch cur rest hpc).2⟩
  · exact h.cursor

theorem Tracks.wake (h : Tracks emitted base c) : Tracks emitted base c.wake := by
  obtain ⟨last_sent, pc, yielded⟩ := c
  cases pc with
  | waiting woken => exact ⟨h.sent, by simp [Conn.wake], fun _ => h.cursor rfl⟩
  | start | yielding _ _ | heartbeat | returned | raised | cut => exact h

theorem Tracks.timeout (h : Tracks emitted base c) : Tracks emitted base c.timeout := by
  obtain ⟨last_sent, pc, yielded⟩ := c
  cases pc with
  | waiting woken => exact ⟨h.sent, by simp [Conn.timeout], fun _ => h.cursor rfl⟩
  | start | yielding _ _ | heartbeat | returned | raised | cut => exact h

theorem Tracks.close (h : Tracks emitted base c) : Tracks emitted base c.close := by
  have hcut : Tracks emitted base { c with pc := .cut } :=
    ⟨h.sent, by simp, by simp [Conn.between]⟩
  obtain ⟨last_sent, pc, yielded⟩ := c
  cases pc with
  | returned | raised => exact h
  | start | yielding _ _ | waiting _ | heartbeat | cut => exact hcut

end tracks

/-- The connection's own step. -/
theorem Tracks.resume {s : Stream} {base : List Envelope} {c : Conn} (hlog : Logged s)
    (h : Tracks s.emitted base c)
    (hkept : c.scans = true → ∀ e ∈ s.evicted, ¬c.unsent e = true) :
    Tracks s.emitted base (c.resume s.record.backlog.items) := by
  have hr := c.resume_resumed s.record.backlog.items
  generalize c.resume s.record.backlog.items = c' at hr
  cases hr with
  | scanned hscans =>
    have hcursor := h.cursor (Conn.between_of_scans hscans)
    rw [pending_eq hlog hcursor (hkept hscans)]
    apply Tracks.deliver h.sent _ hcursor
    -- What was sent and what comes after it is all there is.
    obtain ⟨rest, hrest⟩ := h.sent
    have hall : base ++ c.yielded ++ s.emitted.drop (base ++ c.yielded).length = s.emitted := by
      rw [← hrest, List.drop_left]
    exact ⟨[], by rw [List.append_nil, hall]⟩
  | unnumbered cur rest _ _ => exact ⟨h.sent, by simp, by simp [Conn.between]⟩
  | ended cur rest n _ _ _ => exact ⟨h.sent, by simp, by simp [Conn.between]⟩
  | sent cur rest n hpc hseq _ =>
    obtain ⟨hcoming, ys, hys⟩ := h.batch cur rest hpc
    apply Tracks.deliver (c := { c with last_sent := n }) h.sent hcoming
    -- The seq of the envelope just sent counts the envelopes up to it.
    have hnext : cur.seq = some ((base ++ ys).length + 1) := by
      apply hlog.numbered.next
      simpa [hys] using h.sent
    have hn : n = (base ++ ys).length + 1 := by
      rw [hseq] at hnext
      exact Option.some.inj hnext
    show (n : Int) = _
    rw [hn, hys]
    simp
    omega
  | idle _ => exact h

/-! ## The client -/

/-- The client's `lastSeq`, the envelopes it has received, and its
    `eventSource`: the connection, and how many of its messages were read. -/
structure Client where
  lastSeq : Int := 0
  received : List Envelope := []
  eventSource : Option (Nat × Nat) := none

structure World where
  stream : Stream
  client : Client := {}

inductive Event where
  /-- A step of the driver, of another viewer, or of a connection. -/
  | act (a : Act)
  | attachStream
  | onmessage
  | onerror

/-- `attachStream(runId, lastSeq)`: an open stream is closed, and what it
    still had in flight is lost. -/
def attachStream (w : World) : World where
  stream := step w.stream (.connect w.client.lastSeq)
  client := { w.client with eventSource := some (w.stream.conns.length, 0) }

/-- The next message of the client's stream, if the server has yielded it. -/
def World.message (w : World) : Option Envelope :=
  w.client.eventSource.bind fun (i, got) => (w.stream.conns[i]?).bind fun c => c.yielded[got]?

/-- `onmessage`. -/
def onmessage (w : World) : World :=
  match w.message with
  | none => w
  | some envelope =>
    { w with client := {
        lastSeq := envelope.seq.elim w.client.lastSeq Nat.cast
        received := w.client.received ++ [envelope]
        eventSource := w.client.eventSource.map fun (i, got) => (i, got + 1) } }

def world_step (w : World) : Event → World
  | .act a => { w with stream := step w.stream a }
  | .attachStream => attachStream w
  | .onmessage => onmessage w
  | .onerror => { w with client := { w.client with eventSource := none } }

/-- The state a schedule leads to from a new record and a client that has
    received nothing. -/
def watch (run_id raw_request : PyStr) (evs : List Event) : World :=
  play world_step { stream := Stream.new run_id raw_request } evs

/-- Nothing is dropped from the backlog before the client's connection
    scans it. -/
def NoneMissed (run_id raw_request : PyStr) (evs : List Event) : Prop :=
  ∀ pre i got, pre ++ [.act (.resume i)] <+: evs →
    (watch run_id raw_request pre).client.eventSource = some (i, got) →
    ¬(watch run_id raw_request pre).stream.Missed i

/-! ## What the client receives -/

theorem conn_persists {s : Stream} {i : Nat} {c : Conn} (hc : s.conns[i]? = some c) (a : Act) :
    ∃ c', (step s a).conns[i]? = some c' := by
  have hlt := (List.getElem?_eq_some_iff.mp hc).1
  have hlen : s.conns.length ≤ (step s a).conns.length := by
    cases a with
    | emit e =>
      by_cases hset : s.record.new_event = true
      · simp [step, hset]
      · simp [step, hset]
    | connect after => simp [step]
    | resume j => simp [step]
    | timeout j => simp [step]
    | close j => simp [step]
  exact ⟨_, List.getElem?_eq_getElem (by omega)⟩

theorem emitted_grows (s : Stream) (a : Act) : s.emitted <+: (step s a).emitted := by
  cases a with
  | emit e => exact List.prefix_append _ _
  | connect _ | resume _ | timeout _ | close _ => exact List.prefix_rfl

theorem Tracks.step {s : Stream} {i : Nat} {a : Act} {base : List Envelope} {c c' : Conn}
    (hlog : Logged s) (h : Tracks s.emitted base c) (hc : s.conns[i]? = some c)
    (hmiss : a = .resume i → ¬s.Missed i) (hcs : ConnStep s i a c') :
    Tracks (step s a).emitted base c' := by
  cases hcs with
  | emitted e c₀ hc₀ =>
    obtain rfl : c₀ = c := Option.some.inj (hc₀ ▸ hc)
    by_cases hset : s.record.new_event = true
    · rw [if_pos hset]
      exact h.grow (s.next e)
    · rw [if_neg hset]
      exact (h.grow (s.next e)).wake
  | connected after hi =>
    have hlt := (List.getElem?_eq_some_iff.mp hc).1
    omega
  | resumed c₀ hc₀ =>
    obtain rfl : c₀ = c := Option.some.inj (hc₀ ▸ hc)
    apply Tracks.resume hlog h
    intro hscans e he hunsent
    exact hmiss rfl ⟨c₀, hc, hscans, e, he, hunsent⟩
  | timed_out c₀ hc₀ =>
    obtain rfl : c₀ = c := Option.some.inj (hc₀ ▸ hc)
    exact h.timeout
  | closed c₀ hc₀ =>
    obtain rfl : c₀ = c := Option.some.inj (hc₀ ▸ hc)
    exact h.close
  | kept _ c₀ hc₀ ha =>
    obtain rfl : c' = c := Option.some.inj (hc₀ ▸ hc)
    rw [(step_quiet ha).2.2.1]
    exact h

/-- **Invariant**: the client has received a prefix of what was emitted, its
    cursor is the length of it, and its connection carries on from there. -/
structure Watched (w : World) : Prop where
  logged : Logged w.stream
  received : w.client.received <+: w.stream.emitted
  cursor : w.client.lastSeq = w.client.received.length
  source : ∀ i got, w.client.eventSource = some (i, got) →
    ∃ c base, w.stream.conns[i]? = some c ∧ Tracks w.stream.emitted base c ∧
      got ≤ c.yielded.length ∧ w.client.received = base ++ c.yielded.take got

theorem watched_act {w : World} {a : Act} (h : Watched w)
    (hmiss : ∀ i got, a = .resume i → w.client.eventSource = some (i, got) → ¬w.stream.Missed i) :
    Watched (world_step w (.act a)) := by
  constructor
  · exact logged_step h.logged a
  · exact h.received.trans (emitted_grows w.stream a)
  · exact h.cursor
  · intro i got hsource
    obtain ⟨c, base, hc, htracks, hgot, hreceived⟩ := h.source i got hsource
    obtain ⟨c', hc'⟩ := conn_persists hc a
    have hcs := conn_step hc'
    obtain ⟨more, hmore⟩ := hcs.yielded hc
    refine ⟨c', base, hc', htracks.step h.logged hc (fun ha => hmiss i got ha hsource) hcs, ?_, ?_⟩
    · rw [← hmore, List.length_append]
      omega
    · rw [← hmore, List.take_append_of_le_length hgot]
      exact hreceived

theorem watched_attach {w : World} (h : Watched w) : Watched (attachStream w) := by
  constructor
  · show Logged (step w.stream (.connect w.client.lastSeq))
    exact logged_step h.logged _
  · exact h.received
  · exact h.cursor
  · intro i got hsource
    obtain ⟨rfl, rfl⟩ : w.stream.conns.length = i ∧ 0 = got := by
      simpa [attachStream] using hsource
    refine ⟨{ last_sent := w.client.lastSeq }, w.client.received, List.getElem?_concat_length, ?_,
      Nat.zero_le _, by simp [attachStream]⟩
    · constructor
      · show w.client.received ++ [] <+: w.stream.emitted
        simpa using h.received
      · intro cur rest hpc
        cases hpc
      · intro _
        simpa using h.cursor

theorem watched_message {w : World} (h : Watched w) : Watched (onmessage w) := by
  rcases hm : w.message with _ | envelope
  · simpa [onmessage, hm] using h
  · obtain ⟨⟨i, got⟩, hsource, hm'⟩ := Option.bind_eq_some_iff.mp hm
    obtain ⟨c₀, hc₀, hread⟩ := Option.bind_eq_some_iff.mp hm'
    obtain ⟨c, base, hc, htracks, hgot, hreceived⟩ := h.source i got hsource
    obtain rfl : c₀ = c := Option.some.inj (hc₀ ▸ hc)
    have hlt := (List.getElem?_eq_some_iff.mp hread).1
    -- the page reads one envelope more of what the connection yielded
    have htake : c₀.yielded.take (got + 1) = c₀.yielded.take got ++ [envelope] := by
      rw [List.take_add_one, hread]
      rfl
    have hnow : w.client.received ++ [envelope] = base ++ c₀.yielded.take (got + 1) := by
      rw [hreceived, htake, List.append_assoc]
    have hpre : w.client.received ++ [envelope] <+: w.stream.emitted := by
      rw [hnow]
      apply List.IsPrefix.trans _ htracks.sent
      exact (List.prefix_append_right_inj base).mpr (List.take_prefix _ _)
    have hseq : envelope.seq = some (w.client.received.length + 1) :=
      h.logged.numbered.next hpre
    have hstep : onmessage w = { w with client := {
        lastSeq := w.client.received.length + 1
        received := w.client.received ++ [envelope]
        eventSource := some (i, got + 1) } } := by
      simp [onmessage, hm, hseq, hsource]
    rw [hstep]
    constructor
    · exact h.logged
    · exact hpre
    · simp
    · intro j k hjk
      obtain ⟨rfl, rfl⟩ : i = j ∧ got + 1 = k := by simpa using hjk
      exact ⟨c₀, base, hc₀, htracks, hlt, hnow⟩

theorem watched_step {w : World} {ev : Event} (h : Watched w)
    (hmiss : ∀ i got, ev = .act (.resume i) → w.client.eventSource = some (i, got) →
      ¬w.stream.Missed i) : Watched (world_step w ev) := by
  cases ev with
  | act a => exact watched_act h (fun i got ha => hmiss i got (congrArg Event.act ha))
  | attachStream => exact watched_attach h
  | onmessage => exact watched_message h
  | onerror => exact ⟨h.logged, h.received, h.cursor, by simp [world_step]⟩

theorem watch_watched {run_id raw_request : PyStr} {evs : List Event}
    (h : NoneMissed run_id raw_request evs) : Watched (watch run_id raw_request evs) := by
  apply play_invariant
  · refine ⟨?_, List.prefix_rfl, rfl, by simp⟩
    exact serve_logged run_id raw_request []
  · intro pre ev hpre hP
    apply watched_step hP
    rintro i got rfl hsource
    exact h pre i got hpre hsource

/-! ## The end of a stream -/

def NoTerminal (es : List Envelope) : Prop := ∀ e ∈ es, e.kind.terminal = false

/-- **Invariant**: a terminal envelope is the last a connection yields, and
    whatever is in a batch has a seq. -/
def Conn.TerminalLast (c : Conn) : Prop :=
  match c.pc with
  | .yielding cur rest =>
    (∃ ys, c.yielded = ys ++ [cur] ∧ NoTerminal ys) ∧ ∀ e ∈ cur :: rest, e.seq ≠ none
  | .returned | .cut => NoTerminal c.yielded.dropLast
  | _ => NoTerminal c.yielded

theorem NoTerminal.dropLast {es : List Envelope} (h : NoTerminal es) : NoTerminal es.dropLast :=
  fun e he => h e (List.dropLast_subset es he)

theorem terminalLast_deliver {c : Conn} {es : List Envelope} (hc : NoTerminal c.yielded)
    (hes : ∀ e ∈ es, e.seq ≠ none) : (c.deliver es).TerminalLast := by
  have hd := c.deliver_delivered es
  generalize c.deliver es = c' at hd
  cases hd with
  | waits | raises _ _ => exact hc
  | yields e rest => exact ⟨⟨c.yielded, rfl, hc⟩, hes⟩

theorem terminalLast_resume {c : Conn} (h : c.TerminalLast) (backlog : List Envelope) :
    (c.resume backlog).TerminalLast := by
  have hr := c.resume_resumed backlog
  generalize c.resume backlog = c' at hr
  cases hr with
  | scanned hscans =>
    -- it scans only while no terminal envelope has been sent
    have hno : NoTerminal c.yielded := by
      obtain ⟨last_sent, pc, yielded⟩ := c
      cases pc with
      | start | waiting _ | heartbeat => exact h
      | yielding _ _ | returned | raised | cut => cases hscans
    apply terminalLast_deliver hno
    intro e he hnone
    have hunsent := (List.mem_filter.mp he).2
    simp [Conn.unsent, hnone] at hunsent
  | unnumbered cur rest hpc hseq =>
    rw [Conn.TerminalLast, hpc] at h
    exact absurd hseq (h.2 cur List.mem_cons_self)
  | ended cur rest n hpc _ _ =>
    rw [Conn.TerminalLast, hpc] at h
    obtain ⟨⟨ys, hys, hno⟩, -⟩ := h
    show NoTerminal c.yielded.dropLast
    rw [hys, List.dropLast_concat]
    exact hno
  | sent cur rest n hpc _ hterm =>
    rw [Conn.TerminalLast, hpc] at h
    obtain ⟨⟨ys, hys, hno⟩, hseqs⟩ := h
    -- the envelope just sent was not the terminal one, so the batch goes on
    apply terminalLast_deliver (c := { c with last_sent := n })
    · show NoTerminal c.yielded
      intro e he
      rw [hys] at he
      rcases List.mem_append.mp he with he | he
      · exact hno e he
      · rw [List.mem_singleton.mp he]
        exact hterm
    · intro e he
      exact hseqs e (List.mem_cons_of_mem cur he)
  | idle _ => exact h

theorem terminalLast_step {s : Stream} {a : Act}
    (h : ∀ (i : Nat) (c : Conn), s.conns[i]? = some c → c.TerminalLast) {i : Nat} {c' : Conn}
    (hc' : (step s a).conns[i]? = some c') : c'.TerminalLast := by
  have hcs := conn_step hc'
  cases hcs with
  | emitted e c hc =>
    have hold := h i c hc
    by_cases hset : s.record.new_event = true
    · rwa [if_pos hset]
    · rw [if_neg hset]
      obtain ⟨last_sent, pc, yielded⟩ := c
      cases pc <;> exact hold
  | connected after _ =>
    intro e he
    cases he
  | resumed c hc => exact terminalLast_resume (h i c hc) _
  | timed_out c hc =>
    have hold := h i c hc
    obtain ⟨last_sent, pc, yielded⟩ := c
    cases pc <;> exact hold
  | closed c hc =>
    have hold := h i c hc
    obtain ⟨last_sent, pc, yielded⟩ := c
    cases pc with
    | start | waiting _ | heartbeat => exact NoTerminal.dropLast hold
    | yielding cur rest =>
      obtain ⟨⟨ys, hys, hno⟩, -⟩ := hold
      show NoTerminal yielded.dropLast
      have hys : yielded = ys ++ [cur] := hys
      rw [hys, List.dropLast_concat]
      exact hno
    | returned | raised | cut => exact hold
  | kept _ c hc _ => exact h i c' hc

theorem onmessage_stream (w : World) : (onmessage w).stream = w.stream := by
  unfold onmessage
  rcases w.message with _ | envelope <;> rfl

theorem watch_terminalLast (run_id raw_request : PyStr) (evs : List Event) (i : Nat) (c : Conn)
    (hc : (watch run_id raw_request evs).stream.conns[i]? = some c) : c.TerminalLast := by
  revert i c
  apply play_keeps
    (P := fun w : World => ∀ (i : Nat) (c : Conn), w.stream.conns[i]? = some c → c.TerminalLast)
  · intro i c hc
    simp [Stream.new] at hc
  · intro w ev h
    cases ev with
    | act a => exact fun i c hc => terminalLast_step h hc
    | attachStream => exact fun i c hc => terminalLast_step (a := .connect w.client.lastSeq) h hc
    | onmessage =>
      show ∀ (i : Nat) (c : Conn), (onmessage w).stream.conns[i]? = some c → c.TerminalLast
      rw [onmessage_stream]
      exact h
    | onerror => exact h

/-- Once it has yielded a terminal envelope, a connection yields nothing
    more: unless it is cut, it has returned or its next step is to return. -/
def Conn.EndsAfterTerminal (c : Conn) : Prop :=
  ∀ e ∈ c.yielded, e.kind.terminal = true →
    c.yielded.getLast? = some e ∧
    (c.pc = .cut ∨ c.pc = .returned ∨
      ∀ backlog, (c.resume backlog).pc = .returned ∧ (c.resume backlog).yielded = c.yielded)

theorem Conn.TerminalLast.ends {c : Conn} (h : c.TerminalLast) : c.EndsAfterTerminal := by
  intro e he hterm
  -- A terminal envelope that is not among the first ones is the last.
  have hlast : NoTerminal c.yielded.dropLast → c.yielded.getLast? = some e := by
    intro hno
    have hne : c.yielded ≠ [] := List.ne_nil_of_mem he
    rw [List.getLast?_eq_some_getLast hne]
    have hsplit := List.dropLast_append_getLast hne
    rw [← hsplit] at he
    rcases List.mem_append.mp he with he | he
    · have hfalse := hno e he
      rw [hterm] at hfalse
      cases hfalse
    · rw [List.mem_singleton.mp he]
  have hnone : NoTerminal c.yielded → False := by
    intro hno
    have hfalse := hno e he
    rw [hterm] at hfalse
    cases hfalse
  obtain ⟨last_sent, pc, yielded⟩ := c
  cases pc with
  | start | waiting _ | heartbeat | raised => exact (hnone h).elim
  | returned => exact ⟨hlast h, Or.inr (Or.inl rfl)⟩
  | cut => exact ⟨hlast h, Or.inl rfl⟩
  | yielding cur rest =>
    obtain ⟨⟨ys, hys, hno⟩, hseqs⟩ := h
    have hys : yielded = ys ++ [cur] := hys
    subst hys
    have hlast := hlast (by simpa using hno)
    obtain rfl : cur = e := by simpa using hlast
    obtain ⟨n, hn⟩ := Option.ne_none_iff_exists'.mp (hseqs cur List.mem_cons_self)
    refine ⟨hlast, Or.inr (Or.inr ?_)⟩
    intro backlog
    simp [Conn.resume, hn, hterm]

/-! ## Exactly once, in order -/

/-- **Exactly once**: however the steps of the driver, of the connections and
    of the client fall, and wherever its streams break, the client receives
    what was emitted, from seq 1 on, in order, each envelope once; and a
    connection that is not cut ends with the terminal envelope. -/
theorem received_exactly_once (run_id raw_request : PyStr) (evs : List Event)
    (h : NoneMissed run_id raw_request evs) :
    (watch run_id raw_request evs).client.received <+: (watch run_id raw_request evs).stream.emitted ∧
    Numbered (watch run_id raw_request evs).client.received ∧
    (watch run_id raw_request evs).client.lastSeq =
      (watch run_id raw_request evs).client.received.length ∧
    ∀ c ∈ (watch run_id raw_request evs).stream.conns, c.EndsAfterTerminal := by
  have hw := watch_watched h
  refine ⟨hw.received, hw.logged.numbered.of_prefix hw.received, hw.cursor, ?_⟩
  intro c hc
  obtain ⟨i, hi⟩ := List.getElem?_of_mem hc
  exact (watch_terminalLast run_id raw_request evs i c hi).ends

/-- A short run misses nothing: the backlog has room for all of it. -/
theorem noneMissed_of_length {run_id raw_request : PyStr} {evs : List Event}
    (h : evs.length ≤ BACKLOG_MAXLEN) : NoneMissed run_id raw_request evs := by
  have hemitted : ∀ pre, (watch run_id raw_request pre).stream.emitted.length ≤ pre.length := by
    intro pre
    induction pre using List.reverseRecOn with
    | nil => exact Nat.le_refl 0
    | append_singleton pre ev ih =>
      rw [watch] at ih ⊢
      rw [play_snoc, List.length_append, List.length_singleton]
      generalize play world_step _ pre = w at ih ⊢
      cases ev with
      | act a =>
        cases a with
        | emit e =>
          show (w.stream.emitted ++ [w.stream.next e]).length ≤ _
          simpa using ih
        | connect _ | resume _ | timeout _ | close _ => exact Nat.le_succ_of_le ih
      | attachStream | onerror => exact Nat.le_succ_of_le ih
      | onmessage =>
        show (onmessage w).stream.emitted.length ≤ _
        rw [onmessage_stream]
        exact Nat.le_succ_of_le ih
  intro pre i got hpre _ hmissed
  obtain ⟨c, -, -, e, he, -⟩ := hmissed
  have hlen := hpre.length_le
  have hpos := hemitted pre
  have hzero : (watch run_id raw_request pre).stream.emitted.length - BACKLOG_MAXLEN = 0 := by
    rw [List.length_append, List.length_singleton] at hlen
    omega
  rw [Stream.evicted, hzero, List.take_zero] at he
  cases he

/-- The stream breaks with the second envelope in flight, and the client
    opens another one after the first. -/
def broken_stream : List Event :=
  [.attachStream, .act (.emit (small_envelope .run_started none)), .act (.resume 0), .onmessage,
   .act (.resume 0), .act (.emit (small_envelope .node_update (some (lit "executor")))),
   .act (.resume 0), .onerror, .act (.close 0), .attachStream,
   .act (.emit (small_envelope .run_completed none)), .act (.resume 1), .onmessage,
   .act (.resume 1), .onmessage, .act (.resume 1)]

theorem received_exactly_once_broken_stream :
    NoneMissed (lit "r") (lit "x") broken_stream ∧
    (watch (lit "r") (lit "x") broken_stream).client.received.length = 3 ∧
    Numbered (watch (lit "r") (lit "x") broken_stream).client.received ∧
    ∀ c ∈ (watch (lit "r") (lit "x") broken_stream).stream.conns, c.EndsAfterTerminal := by
  have hnone : NoneMissed (lit "r") (lit "x") broken_stream :=
    noneMissed_of_length (by decide +kernel)
  obtain ⟨-, hnumbered, -, hends⟩ := received_exactly_once _ _ _ hnone
  exact ⟨hnone, by decide +kernel, hnumbered, hends⟩

end Syndicate.Server
