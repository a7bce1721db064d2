import Syndicate.Server.Stream

/-! # Wake-ups of the viewers

    `new_event` is set by the emitter and cleared by every viewer.  A viewer
    clears it after its last `yield` of a batch, and does not look at the
    backlog again before it waits: what was emitted during the batch is then
    in the backlog with nothing to wake the viewer for it. -/

namespace Syndicate.Server

open Py Framework

/-- Whoever waits with the event clear and no wake-up scheduled has been
    sent the whole backlog. -/
def Stream.NoLostWakeup (s : Stream) : Prop :=
  ∀ c ∈ s.conns, c.pc = .waiting false → s.record.new_event = false →
    ∀ e ∈ s.record.backlog.items, ∀ n, e.seq = some n → (n : Int) ≤ c.last_sent

/-- Connection `i` has yielded the last envelope of a batch, not a terminal
    one, and the backlog already holds a later one. -/
def Stream.Overtaken (s : Stream) (i : Nat) : Prop :=
  ∃ c cur n, s.conns[i]? = some c ∧ c.pc = .yielding cur [] ∧ cur.seq = some n ∧
    cur.kind.terminal = false ∧ ∃ e ∈ s.record.backlog.items, ∃ m, e.seq = some m ∧ n < m

/-- The backlog holds nothing above `last_sent`. -/
def Conn.UpToDate (c : Conn) (backlog : List Envelope) : Prop :=
  ∀ e ∈ backlog, ∀ n, e.seq = some n → (n : Int) ≤ c.last_sent

/-- **Invariant**: a sleeping connection is up to date, and the event is
    clear. -/
def Stream.Rested (s : Stream) : Prop :=
  ∀ (i : Nat) (c : Conn), s.conns[i]? = some c → c.pc = .waiting false →
    s.record.new_event = false ∧ c.UpToDate s.record.backlog.items

/-- An empty scan says that the connection is up to date. -/
theorem upToDate_of_pending {c : Conn} {backlog : List Envelope} (h : c.pending backlog = []) :
    c.UpToDate backlog := by
  intro e he n hn
  have hsent : ¬c.unsent e = true := List.filter_eq_nil_iff.mp h e he
  simpa [Conn.unsent, hn] using hsent

/-- `deliver` ends asleep only with nothing to send. -/
theorem deliver_asleep {c : Conn} {es : List Envelope} (h : (c.deliver es).pc = .waiting false) :
    es = [] := by
  have hd := c.deliver_delivered es
  generalize c.deliver es = c' at hd h
  cases hd with
  | waits => rfl
  | yields e rest => cases h
  | raises e rest => cases h

/-- Clearing the event is what puts a connection to sleep. -/
theorem clears_of_asleep {s : Stream} {i : Nat} {c : Conn} (hc : s.conns[i]? = some c)
    (hawake : c.pc ≠ .waiting false)
    (h : (c.resume s.record.backlog.items).pc = .waiting false) : s.clears i = true := by
  have hb : c.asleep = false := by
    rw [Bool.eq_false_iff]
    intro hasleep
    exact hawake (Conn.asleep_iff.mp hasleep)
  have ha := Conn.asleep_iff.mpr h
  simp [Stream.clears, hc, hb, ha]

/-- A connection that falls asleep on its own step is up to date, unless it
    was overtaken. -/
theorem resume_asleep {s : Stream} {i : Nat} {c : Conn} (hc : s.conns[i]? = some c)
    (hnot : ¬s.Overtaken i) (hrested : s.Rested)
    (h : (c.resume s.record.backlog.items).pc = .waiting false) :
    (c.resume s.record.backlog.items).UpToDate s.record.backlog.items := by
  have hr := c.resume_resumed s.record.backlog.items
  generalize c.resume s.record.backlog.items = c' at hr h
  cases hr with
  | scanned _ =>
    have hnil := deliver_asleep h
    rw [hnil]
    exact upToDate_of_pending hnil
  | unnumbered cur rest _ _ => cases h
  | ended cur rest n _ _ _ => cases h
  | sent cur rest n hpc hseq hterm =>
    obtain rfl := deliver_asleep h
    intro e he m hm
    by_contra hlt
    have hlt : (n : Int) < m := by simpa [Conn.deliver] using hlt
    exact hnot ⟨c, cur, n, hc, hpc, hseq, hterm, e, he, m, hm, by omega⟩
  | idle _ => exact (hrested i c hc h).2

theorem rested_step {s : Stream} {a : Act} (h : s.Rested)
    (hnot : ∀ i, a = .resume i → ¬s.Overtaken i) : (step s a).Rested := by
  intro i c' hc' hpc
  have hcs := conn_step hc'
  cases hcs with
  | emitted e c hc =>
    by_cases hset : s.record.new_event = true
    · -- The event was set, so no connection was asleep before.
      rw [if_pos hset] at hpc
      have hclear := (h i c hc hpc).1
      rw [hset] at hclear
      cases hclear
    · rw [if_neg hset] at hpc
      exact absurd hpc Conn.wake_pc_ne
  | connected after _ => cases hpc
  | resumed c hc =>
    have hbacklog : (step s (.resume i)).record.backlog = s.record.backlog :=
      (step_quiet (by simp)).1
    have hclear : (step s (.resume i)).record.new_event = false := by
      by_cases hold : c.pc = .waiting false
      · exact (step_quiet (by simp)).2.2.2 (h i c hc hold).1
      · simp [step, clears_of_asleep hc hold hpc]
    rw [hbacklog]
    exact ⟨hclear, resume_asleep hc (hnot i rfl) h hpc⟩
  | timed_out c _ => exact absurd hpc Conn.timeout_pc_ne
  | closed c _ => exact absurd hpc Conn.close_pc_ne
  | kept _ c hc ha =>
    obtain ⟨hbacklog, -, -, hquiet⟩ := step_quiet ha
    have hold := h i c' hc hpc
    rw [hbacklog]
    exact ⟨hquiet hold.1, hold.2⟩

/-- An overtaken connection goes to sleep on its next step, and what
    overtook it stays behind. -/
theorem overtaken_sleeps {s : Stream} {i : Nat} (h : s.Overtaken i) :
    ¬(step s (.resume i)).NoLostWakeup := by
  obtain ⟨c, cur, n, hc, hpc, hseq, hterm, e, he, m, hm, hlt⟩ := h
  have hresume : c.resume s.record.backlog.items =
      { c with last_sent := n, pc := .waiting false } := by
    simp [Conn.resume, Conn.deliver, hpc, hseq, hterm]
  have hclears : s.clears i = true := by
    apply clears_of_asleep hc
    · simp [hpc]
    · rw [hresume]
  have hconn : (step s (.resume i)).conns[i]? =
      some { c with last_sent := n, pc := .waiting false } := by
    show (s.conns.modify i fun c => c.resume s.record.backlog.items)[i]? = _
    rw [List.getElem?_modify_eq, hc, ← hresume]
    rfl
  have hevent : (step s (.resume i)).record.new_event = false := by
    simp [step, hclears]
  have hbacklog : (step s (.resume i)).record.backlog = s.record.backlog :=
    (step_quiet (by simp)).1
  intro hno
  have hle := hno _ (List.mem_of_getElem? hconn) rfl hevent e (hbacklog ▸ he) m hm
  have : (m : Int) ≤ n := hle
  omega

/-- **No wake-up is lost** exactly in the schedules that resume no overtaken
    connection: those where nothing is emitted between a viewer's scan and
    the end of the batch it yields. -/
theorem no_lost_wakeup_iff (run_id raw_request : PyStr) (acts : List Act) :
    (∀ pre, pre <+: acts → (serve run_id raw_request pre).NoLostWakeup) ↔
    ∀ pre i, pre ++ [.resume i] <+: acts → ¬(serve run_id raw_request pre).Overtaken i := by
  constructor
  · intro h pre i hpre hover
    have hno := h _ hpre
    rw [serve, play_snoc] at hno
    exact overtaken_sleeps hover hno
  · intro h pre hpre
    have hrested : (serve run_id raw_request pre).Rested := by
      apply play_invariant
      · intro i c hc
        simp [Stream.new] at hc
      · intro pre' a hpre' hP
        apply rested_step hP
        rintro i rfl
        exact h pre' i (hpre'.trans hpre)
    intro c hc hpc _
    obtain ⟨i, hi⟩ := List.getElem?_of_mem hc
    exact (hrested i c hi hpc).2

/-! ## An event emitted during a batch -/

/-- A viewer is suspended in the `yield` of `run_started` while the driver
    fails; then it goes to sleep on the terminal envelope. -/
def late_failure : List Act :=
  [.connect 0, .emit (small_envelope .run_started none), .resume 0,
   .emit (small_envelope .run_failed none), .resume 0]

theorem wakeup_lost :
    ¬∀ (run_id raw_request : PyStr) (acts pre : List Act), pre <+: acts →
      (serve run_id raw_request pre).NoLostWakeup := by
  intro h
  have hno := h (lit "r") (lit "x") late_failure late_failure List.prefix_rfl
  have hover : ∃ c ∈ (serve (lit "r") (lit "x") late_failure).conns, c.asleep = true ∧
      (serve (lit "r") (lit "x") late_failure).record.new_event = false ∧
      ∃ e ∈ (serve (lit "r") (lit "x") late_failure).record.backlog.items,
        e.kind.terminal = true ∧ e.seq = some 2 ∧ c.last_sent = 1 := by
    decide +kernel
  obtain ⟨c, hc, hasleep, hevent, e, he, -, hseq, hsent⟩ := hover
  have hle := hno c hc (Conn.asleep_iff.mp hasleep) hevent e he 2 hseq
  omega

end Syndicate.Server
