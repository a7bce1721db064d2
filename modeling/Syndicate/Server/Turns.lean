import Syndicate.Framework.Simulation
import Syndicate.Server.Delivery
import Syndicate.Server.Protocol

/-! # Viewers that get their turns

    A viewer may be left asleep with envelopes to send.  Its wait times out,
    though, and it looks at the backlog again after the heartbeat: whatever
    wake-ups it misses, and whatever the others do in between, with enough
    turns it sends all there is, and at the end of the run it returns. -/

namespace Syndicate.Server

open Py Framework

/-! ## Turns -/

/-- The act lets connection `i` go on: it runs, or the wait it sleeps in
    times out. -/
def Stream.turn (i : Nat) (s : Stream) : Act → Bool
  | .resume j => j == i && s.conns[i]?.any fun c => !c.asleep
  | .timeout j => j == i && s.conns[i]?.any Conn.asleep
  | _ => false

/-- Turns until the connection scans the backlog. -/
def Conn.delay (c : Conn) : Nat :=
  match c.pc with
  | .start | .heartbeat => 1
  | .waiting true => 2
  | .waiting false => 3
  | .yielding _ _ => 4
  | .returned | .raised | .cut => 0

theorem Conn.delay_of_scans {c : Conn} (h : c.scans = true) : 1 ≤ c.delay := by
  obtain ⟨last_sent, pc, yielded⟩ := c
  cases pc with
  | start | heartbeat => exact Nat.le_refl 1
  | waiting woken =>
    cases woken with
    | true => exact Nat.le_succ 1
    | false => cases h
  | yielding _ _ | returned | raised | cut => cases h

/-- Turns until the connection has got to seq `n`: five for an envelope. -/
def Conn.distance (after : Int) (n : Nat) (c : Conn) : Nat :=
  5 * (n - (c.reached after).toNat) + c.delay

/-- The connection has ended, or has got to seq `n`. -/
def Conn.Through (after : Int) (n : Nat) (c : Conn) : Prop :=
  c.Ended ∨ n ≤ (c.reached after).toNat

section turns
variable {after : Int} {s : Stream} {c : Conn} {n : Nat}

theorem distance_congr {c' : Conn} (h : c'.yielded = c.yielded) (hdelay : c'.delay < c.delay) :
    c'.distance after n < c.distance after n := by
  rw [Conn.distance, Conn.distance, Conn.reached_congr h]
  omega

/-- Yielding the envelope behind takes a connection on by one. -/
theorem distance_yield {last_sent : Int} {e : Envelope} {rest : List Envelope} {m : Nat}
    (hseq : e.seq = some (m + 1)) (hm : (c.reached after).toNat ≤ m)
    (hfar : (c.reached after).toNat < n) (hdelay : 1 ≤ c.delay) :
    Conn.distance after n ⟨last_sent, .yielding e rest, c.yielded ++ [e]⟩ < c.distance after n := by
  have hreached :
      Conn.reached after ⟨last_sent, .yielding e rest, c.yielded ++ [e]⟩ = ((m + 1 : Nat) : Int) :=
    Conn.reached_snoc rfl hseq
  rw [Conn.distance, Conn.distance, hreached, Int.toNat_natCast]
  show 5 * (n - (m + 1)) + 4 < 5 * (n - (c.reached after).toNat) + c.delay
  omega

/-- A connection never falls back. -/
theorem Delivers.reached_mono {c' : Conn} (h : Delivers after s c') (hlog : Logged s)
    (hpre : c.yielded <+: c'.yielded) : (c.reached after).toNat ≤ (c'.reached after).toNat := by
  cases hlast : c.yielded.getLast? with
  | none =>
    have hreached : c.reached after = after := by rw [Conn.reached, hlast]
    rw [hreached]
    exact h.opened
  | some e =>
    -- the last envelope it had yielded lies in what it has got through now
    have he : e ∈ c'.yielded := hpre.subset (List.mem_of_getLast? hlast)
    have hwindow := List.mem_of_mem_drop (h.ordered.subset he)
    obtain ⟨before, behind, hsplit⟩ := List.append_of_mem hwindow
    have hnumbered : Numbered (s.emitted.take (c'.reached after).toNat) :=
      hlog.numbered.of_prefix (List.take_prefix _ _)
    rw [hsplit] at hnumbered
    have hseq : e.seq = some (before.length + 1) := hnumbered.next ⟨behind, by simp⟩
    have hreached : c.reached after = ((before.length + 1 : Nat) : Int) := by
      rw [Conn.reached, hlast]
      simp [hseq]
    have hlen : before.length + 1 ≤ (c'.reached after).toNat := by
      have hle : (before ++ e :: behind).length ≤ (c'.reached after).toNat := by
        rw [← hsplit, List.length_take]
        exact Nat.min_le_left _ _
      rw [List.length_append, List.length_cons] at hle
      omega
    rw [hreached, Int.toNat_natCast]
    exact hlen

/-- The envelopes of a batch or of a scan: going on to them ends the
    connection, or takes it on, or there is nothing left. -/
theorem deliver_progress {m : Nat} {last_sent : Int} {es : List Envelope} (hlog : Logged s)
    (hm : (c.reached after).toNat ≤ m) (hes : es <+: s.emitted.drop m)
    (hfar : (c.reached after).toNat < n) (hdelay : 1 ≤ c.delay) (hnil : es = [] → 3 < c.delay) :
    (Conn.deliver { c with last_sent := last_sent } es).Ended ∨
      (Conn.deliver { c with last_sent := last_sent } es).distance after n < c.distance after n := by
  have hd := Conn.deliver_delivered { c with last_sent := last_sent } es
  generalize Conn.deliver { c with last_sent := last_sent } es = c' at hd
  cases hd with
  | waits =>
    right
    exact distance_congr rfl (hnil rfl)
  | raises e rest => exact Or.inl (Or.inr (Or.inl rfl))
  | yields e rest =>
    right
    obtain ⟨more, hmore⟩ := hes
    exact distance_yield (hlog.numbered.seq_of_drop hmore.symm) hm hfar hdelay

/-- **A turn**: a connection that is not asleep, and has not got to seq `n`,
    ends or comes closer when it runs. -/
theorem resume_progress (h : Delivers after s c) (hlog : Logged s) (hn : n ≤ s.emitted.length)
    (hawake : c.asleep = false) (hfar : ¬n ≤ (c.reached after).toNat) :
    (c.resume s.record.backlog.items).Ended ∨
      (c.resume s.record.backlog.items).distance after n < c.distance after n := by
  have hr := c.resume_resumed s.record.backlog.items
  generalize c.resume s.record.backlog.items = c' at hr
  cases hr with
  | scanned hscans =>
    have hcursor := h.cursor (Conn.between_of_scans hscans)
    have hfound := pending_drop hlog c
    have hlt : max c.last_sent.toNat (s.emitted.length - BACKLOG_MAXLEN) < s.emitted.length := by
      have hpos : 0 < BACKLOG_MAXLEN := by decide
      rw [hcursor]
      omega
    apply deliver_progress hlog (m := max c.last_sent.toNat (s.emitted.length - BACKLOG_MAXLEN))
    · rw [hcursor]
      exact Nat.le_max_left _ _
    · exact hfound ▸ List.prefix_rfl
    · exact Nat.lt_of_not_le hfar
    · exact Conn.delay_of_scans hscans
    · -- the scan finds something
      intro hnil
      rw [hfound, List.drop_eq_nil_iff] at hnil
      omega
  | unnumbered cur rest _ _ => exact Or.inl (Or.inr (Or.inl rfl))
  | ended cur rest m _ _ _ => exact Or.inl (Or.inl rfl)
  | sent cur rest m hpc hseq hterm =>
    obtain ⟨k, hk, hreached, hrest⟩ := h.rest hpc
    obtain rfl : k + 1 = m := Option.some.inj (hk.symm.trans hseq)
    have hdelay : c.delay = 4 := by rw [Conn.delay, hpc]
    apply deliver_progress hlog (m := k + 1)
    · rw [hreached, Int.toNat_natCast]
    · exact hrest
    · exact Nat.lt_of_not_le hfar
    · omega
    · intro _
      omega
  | idle hidle =>
    rcases hidle with hpc | hpc | hpc | hpc
    · rw [Conn.asleep_iff.mpr hpc] at hawake
      cases hawake
    · exact Or.inl (Or.inl hpc)
    · exact Or.inl (Or.inr (Or.inl hpc))
    · exact Or.inl (Or.inr (Or.inr hpc))

/-- What a connection that has ended does next. -/
theorem ended_step {i : Nat} {a : Act} {c' : Conn} (h : c.Ended) (hc : s.conns[i]? = some c)
    (hcs : ConnStep s i a c') : c'.Ended := by
  have hsame : ∀ {c₀ : Conn}, s.conns[i]? = some c₀ → c₀ = c := by
    intro c₀ hc₀
    exact Option.some.inj (hc₀ ▸ hc)
  obtain ⟨last_sent, pc, yielded⟩ := c
  cases hcs with
  | emitted e c₀ hc₀ =>
    obtain rfl := hsame hc₀
    by_cases hset : s.record.new_event = true
    · rwa [if_pos hset]
    · rw [if_neg hset]
      rcases h with rfl | rfl | rfl <;> simp [Conn.wake, Conn.Ended]
  | connected after' hi =>
    have hlt := (List.getElem?_eq_some_iff.mp hc).1
    omega
  | resumed c₀ hc₀ =>
    obtain rfl := hsame hc₀
    rcases h with rfl | rfl | rfl <;> simp [Conn.resume, Conn.Ended]
  | timed_out c₀ hc₀ =>
    obtain rfl := hsame hc₀
    rcases h with rfl | rfl | rfl <;> simp [Conn.timeout, Conn.Ended]
  | closed c₀ hc₀ =>
    obtain rfl := hsame hc₀
    rcases h with rfl | rfl | rfl <;> simp [Conn.close, Conn.Ended]
  | kept _ c₀ hc₀ _ =>
    obtain rfl := hsame hc₀
    exact h

/-- A wait that ends, by its time or by a wake-up, takes the connection on. -/
theorem timeout_distance (hpc : ∃ woken, c.pc = .waiting woken) :
    c.timeout.distance after n < c.distance after n := by
  obtain ⟨last_sent, pc, yielded⟩ := c
  obtain ⟨woken, rfl⟩ := hpc
  cases woken with
  | true => exact distance_congr rfl (by decide : 1 < 2)
  | false => exact distance_congr rfl (by decide : 1 < 3)

theorem wake_distance : c.wake.distance after n ≤ c.distance after n := by
  obtain ⟨last_sent, pc, yielded⟩ := c
  cases pc with
  | waiting woken =>
    cases woken with
    | true => exact Nat.le_refl _
    | false => exact Nat.le_of_lt (distance_congr rfl (by decide : 2 < 3))
  | start | yielding _ _ | heartbeat | returned | raised | cut => exact Nat.le_refl _

/-- The connection has reached its goal, or it does not fall back, and comes
    closer where it is its turn. -/
def Advances (goal : Conn → Prop) (after : Int) (n : Nat) (turn : Bool) (c c' : Conn) : Prop :=
  goal c' ∨ (c'.distance after n ≤ c.distance after n ∧
    (turn = true → c'.distance after n < c.distance after n))

theorem Advances.refl {goal : Conn → Prop} (c : Conn) : Advances goal after n false c c :=
  Or.inr ⟨Nat.le_refl _, by intro hturn; cases hturn⟩

theorem timeout_advances {goal : Conn → Prop} {i : Nat} (hc : s.conns[i]? = some c) :
    Advances goal after n (s.turn i (.timeout i)) c c.timeout := by
  by_cases hpc : ∃ woken, c.pc = .waiting woken
  · exact Or.inr ⟨Nat.le_of_lt (timeout_distance hpc), fun _ => timeout_distance hpc⟩
  · have hsame : c.timeout = c := by
      obtain ⟨last_sent, pc, yielded⟩ := c
      cases pc with
      | waiting woken => exact absurd ⟨woken, rfl⟩ hpc
      | start | yielding _ _ | heartbeat | returned | raised | cut => rfl
    have hawake : c.asleep = false := by
      rw [Bool.eq_false_iff]
      intro hasleep
      exact hpc ⟨false, Conn.asleep_iff.mp hasleep⟩
    have hturn : s.turn i (.timeout i) = false := by simp [Stream.turn, hc, hawake]
    rw [hsame, hturn]
    exact .refl c

/-- One act, whoever's it is, where the connection's own step takes it on. -/
theorem step_advances {goal : Conn → Prop} {i : Nat} {a : Act} {c' : Conn}
    (hended : ∀ c' : Conn, c'.Ended → goal c')
    (hresume : c.asleep = false → goal (c.resume s.record.backlog.items) ∨
      (c.resume s.record.backlog.items).distance after n < c.distance after n)
    (hc : s.conns[i]? = some c) (hc' : (step s a).conns[i]? = some c') :
    Advances goal after n (s.turn i a) c c' := by
  cases a with
  | emit e =>
    right
    refine ⟨?_, by intro hturn; cases hturn⟩
    by_cases hset : s.record.new_event = true
    · have hsame : (step s (.emit e)).conns = s.conns := by rw [step, if_pos hset]
      rw [hsame, hc] at hc'
      obtain rfl := Option.some.inj hc'
      exact Nat.le_refl _
    · have hwoken : (step s (.emit e)).conns = s.conns.map Conn.wake := by rw [step, if_neg hset]
      rw [hwoken, List.getElem?_map, hc] at hc'
      obtain rfl := Option.some.inj hc'
      exact wake_distance
  | connect after' =>
    have hsame : (step s (.connect after')).conns[i]? = s.conns[i]? :=
      List.getElem?_append_left (List.getElem?_eq_some_iff.mp hc).1
    rw [hsame, hc] at hc'
    obtain rfl := Option.some.inj hc'
    exact .refl c
  | resume j =>
    by_cases hj : j = i
    · subst hj
      have hstep : (step s (.resume j)).conns[j]? = some (c.resume s.record.backlog.items) := by
        rw [step, List.getElem?_modify_eq, hc]
        rfl
      rw [hstep] at hc'
      obtain rfl := Option.some.inj hc'
      cases hasleep : c.asleep with
      | true =>
        -- nothing happens to it, and it is not its turn
        have hsame : c.resume s.record.backlog.items = c := by
          simp [Conn.resume, Conn.asleep_iff.mp hasleep]
        have hturn : s.turn j (.resume j) = false := by simp [Stream.turn, hc, hasleep]
        rw [hsame, hturn]
        exact .refl c
      | false =>
        rcases hresume hasleep with hgoal | hless
        · exact Or.inl hgoal
        · exact Or.inr ⟨Nat.le_of_lt hless, fun _ => hless⟩
    · have hsame : (step s (.resume j)).conns[i]? = s.conns[i]? := List.getElem?_modify_ne _ _ hj
      rw [hsame, hc] at hc'
      obtain rfl := Option.some.inj hc'
      have hturn : s.turn i (.resume j) = false := by simp [Stream.turn, hj]
      rw [hturn]
      exact .refl c
  | timeout j =>
    by_cases hj : j = i
    · subst hj
      have hstep : (step s (.timeout j)).conns[j]? = some c.timeout := by
        rw [step, List.getElem?_modify_eq, hc]
        rfl
      rw [hstep] at hc'
      obtain rfl := Option.some.inj hc'
      exact timeout_advances hc
    · have hsame : (step s (.timeout j)).conns[i]? = s.conns[i]? := List.getElem?_modify_ne _ _ hj
      rw [hsame, hc] at hc'
      obtain rfl := Option.some.inj hc'
      have hturn : s.turn i (.timeout j) = false := by simp [Stream.turn, hj]
      rw [hturn]
      exact .refl c
  | close j =>
    have hturn : s.turn i (.close j) = false := rfl
    rw [hturn]
    rcases modify_cases hc' with ⟨rfl, c₀, hc₀, rfl⟩ | hsame
    · left
      apply hended
      unfold Conn.Ended Conn.close
      cases hpc : c₀.pc <;> simp [hpc]
    · obtain rfl := Option.some.inj (hc.symm.trans hsame)
      exact .refl c

end turns

/-! ## Enough turns -/

theorem play_grows (s : Stream) (acts : List Act) : s.emitted <+: (play step s acts).emitted := by
  apply play_keeps (P := fun s' : Stream => s.emitted <+: s'.emitted) List.prefix_rfl
  intro s' a hpre
  exact hpre.trans (emitted_grows s' a)

section progress
variable {after : Int} {i n : Nat}

/-- Connection `i` satisfies `goal`. -/
def Stream.Has (goal : Conn → Prop) (i : Nat) (s : Stream) : Prop :=
  ∃ c, s.conns[i]? = some c ∧ goal c

def Stream.remaining (after : Int) (i n : Nat) (s : Stream) : Nat :=
  (s.conns[i]?.map (Conn.distance after n)).getD 0

/-- Where each own step takes a connection on to a goal that stays, enough
    turns take it there. -/
theorem approaches_goal {P : Stream → Prop} {goal : Conn → Prop} {acts : List Act}
    (hinv : ∀ s, ∀ a ∈ acts, P s → P (step s a)) (hserved : ∀ s, P s → Served after i s)
    (hended : ∀ c : Conn, c.Ended → goal c)
    (hstable : ∀ s c c', P s → s.conns[i]? = some c → ∀ a, ConnStep s i a c' → goal c →
      Delivers after (step s a) c' → c.yielded <+: c'.yielded → goal c')
    (hresume : ∀ s c, P s → s.conns[i]? = some c → Delivers after s c → c.asleep = false →
      goal (c.resume s.record.backlog.items) ∨
        (c.resume s.record.backlog.items).distance after n < c.distance after n) :
    Approaches step (Stream.turn i) P (Stream.Has goal i) (Stream.remaining after i n) acts := by
  have hadvances : ∀ {s : Stream} {a : Act}, P s →
      ∃ c c', s.conns[i]? = some c ∧ (step s a).conns[i]? = some c' ∧
        Advances goal after n (s.turn i a) c c' := by
    intro s a hP
    obtain ⟨hlog, c, hc, hdelivers⟩ := hserved s hP
    obtain ⟨c', hc'⟩ := conn_persists hc a
    exact ⟨c, c', hc, hc', step_advances hended (hresume s c hP hc hdelivers) hc hc'⟩
  constructor
  · exact hinv
  · intro s a _ hP ⟨c, hc, hgoal⟩
    obtain ⟨hlog, c₀, hc₀, hdelivers⟩ := hserved s hP
    obtain rfl := Option.some.inj (hc.symm.trans hc₀)
    obtain ⟨c', hc'⟩ := conn_persists hc a
    have hcs := conn_step hc'
    exact ⟨c', hc', hstable s c c' hP hc a hcs hgoal (hdelivers.step hlog hc hcs) (hcs.yielded hc)⟩
  · intro s a _ hP
    obtain ⟨c, c', hc, hc', hadv⟩ := hadvances (a := a) hP
    rcases hadv with hgoal | ⟨hle, -⟩
    · exact Or.inl ⟨c', hc', hgoal⟩
    · right
      simpa [Stream.remaining, hc, hc'] using hle
  · intro s a _ hP hturn
    obtain ⟨c, c', hc, hc', hadv⟩ := hadvances (a := a) hP
    rcases hadv with hgoal | ⟨-, hless⟩
    · exact Or.inl ⟨c', hc', hgoal⟩
    · right
      simpa [Stream.remaining, hc, hc'] using hless hturn

/-- A connection is at most five turns for an envelope away from its goal. -/
theorem remaining_lt {s : Stream} : s.remaining after i n < 5 * (n + 1) := by
  unfold Stream.remaining
  cases s.conns[i]? with
  | none => simp
  | some c =>
    have hdelay : c.delay ≤ 4 := by
      unfold Conn.delay
      split <;> omega
    show c.distance after n < 5 * (n + 1)
    rw [Conn.distance]
    omega

/-- What has been emitted by now: with enough turns the connection yields all
    of it, but for what the backlog has dropped, or ends. -/
theorem delivers_enough {s : Stream} (h : Served after i s) {acts : List Act}
    (hturns : 5 * (s.emitted.length + 1) ≤ turns step (Stream.turn i) s acts) :
    ∃ c, (play step s acts).conns[i]? = some c ∧
      (c.Ended ∨
        ∀ e ∈ s.emitted.drop after.toNat, e ∈ c.yielded ∨ e ∈ (play step s acts).evicted) := by
  have happroaches : Approaches step (Stream.turn i)
      (fun s' => Served after i s' ∧ s.emitted <+: s'.emitted)
      (Stream.Has (Conn.Through after s.emitted.length) i)
      (Stream.remaining after i s.emitted.length) acts := by
    apply approaches_goal
    · intro s' a _ ⟨hserved, hgrows⟩
      exact ⟨served_step hserved a, hgrows.trans (emitted_grows s' a)⟩
    · exact fun s' hP => hP.1
    · exact fun c hended => Or.inl hended
    · intro s' c c' ⟨hserved, _⟩ hc a hcs hthrough hdelivers' hpre
      rcases hthrough with hended | hreached
      · exact Or.inl (ended_step hended hc hcs)
      · exact Or.inr (hreached.trans (hdelivers'.reached_mono (logged_step hserved.logged a) hpre))
    · intro s' c ⟨hserved, hgrows⟩ _ hdelivers hawake
      by_cases hfar : s.emitted.length ≤ (c.reached after).toNat
      · left
        right
        have hpre := c.resume_yielded s'.record.backlog.items
        exact hfar.trans ((hdelivers.resume hserved.logged).reached_mono hserved.logged hpre)
      · rcases resume_progress hdelivers hserved.logged hgrows.length_le hawake hfar with hended | hless
        · exact Or.inl (Or.inl hended)
        · exact Or.inr hless
  have hP : Served after i s ∧ s.emitted <+: s.emitted := ⟨h, List.prefix_rfl⟩
  have hdistance : s.remaining after i s.emitted.length < 5 * (s.emitted.length + 1) := remaining_lt
  obtain ⟨c, hc, hthrough⟩ := happroaches.play_progress hP (Nat.lt_of_lt_of_le hdistance hturns)
  obtain ⟨-, c₀, hc₀, hdelivers⟩ := served_play h acts
  obtain rfl := Option.some.inj (hc.symm.trans hc₀)
  have hgrows : s.emitted <+: (play step s acts).emitted := play_grows s acts
  refine ⟨c, hc, ?_⟩
  rcases hthrough with hended | hreached
  · exact Or.inl hended
  · right
    intro e he
    -- it has got past the place where `e` was emitted
    apply hdelivers.complete e
    obtain ⟨more, hmore⟩ := hgrows
    rw [Stream.window, ← hmore, List.take_append]
    rw [List.take_of_length_le hreached, List.drop_append]
    exact List.mem_append_left _ he

/-! ## The end of the run -/

/-- A connection that has got to the terminal envelope is about to return. -/
theorem Delivers.at_terminal {s : Stream} {c : Conn} (h : Delivers after s c) (hlog : Logged s)
    (hlast : c.TerminalLast) {before : List Envelope} {terminal : Envelope}
    (hemitted : s.emitted = before ++ [terminal]) (hterm : terminal.kind.terminal = true)
    (hafter : after.toNat < s.emitted.length) (hreached : s.emitted.length ≤ (c.reached after).toNat) :
    c.Ended ∨ ∀ backlog, (c.resume backlog).pc = .returned := by
  -- the last envelope it has yielded is the terminal one
  have hyielded : ∃ ys, c.yielded = ys ++ [terminal] := by
    cases hys : c.yielded.getLast? with
    | none =>
      rw [Conn.reached, hys] at hreached
      dsimp only at hreached
      omega
    | some e =>
      obtain ⟨ys, hsplit⟩ := List.getLast?_eq_some_iff.mp hys
      refine ⟨ys, ?_⟩
      have he : e ∈ c.yielded := List.mem_of_getLast? hys
      have hwindow := List.mem_of_mem_drop (h.ordered.subset he)
      obtain ⟨pre, post, hpre⟩ := List.append_of_mem (List.mem_of_mem_take hwindow)
      have hseq : e.seq = some (pre.length + 1) := hlog.numbered.next ⟨post, by rw [hpre]; simp⟩
      rw [Conn.reached_snoc hsplit hseq, Int.toNat_natCast] at hreached
      have hpost : post = [] := by
        rw [hpre, List.length_append, List.length_cons] at hreached
        exact List.length_eq_zero_iff.mp (by omega)
      rw [hpost, hemitted] at hpre
      obtain ⟨-, hsame⟩ := List.append_inj' hpre rfl
      rw [hsplit, List.singleton_inj.mp hsame]
  obtain ⟨ys, hys⟩ := hyielded
  have hmem : terminal ∈ c.yielded := by
    rw [hys]
    exact List.mem_append_right _ List.mem_cons_self
  obtain ⟨-, hcut | hreturned | hnext⟩ := hlast.ends terminal hmem hterm
  · exact Or.inl (Or.inr (Or.inr hcut))
  · exact Or.inl (Or.inl hreturned)
  · exact Or.inr fun backlog => (hnext backlog).1

/-- An act that is no emission. -/
theorem ne_emit_of_quiet {acts : List Act} (h : driven acts = []) {a : Act} (ha : a ∈ acts) (e : Envelope) :
    a ≠ .emit e := by
  rintro rfl
  have hmem : e ∈ driven acts := List.mem_filterMap.mpr ⟨_, ha, rfl⟩
  rw [h] at hmem
  cases hmem

theorem emitted_of_quiet {s : Stream} {acts : List Act} (h : driven acts = []) :
    (play step s acts).emitted = s.emitted := by
  apply play_invariant (P := fun s' : Stream => s'.emitted = s.emitted) rfl
  intro pre a hpre hsame
  have ha : a ∈ acts := hpre.subset (List.mem_append_right _ List.mem_cons_self)
  rw [(step_quiet (ne_emit_of_quiet h ha)).2.2.1, hsame]

/-- After the terminal envelope: with enough turns every connection opened
    before it ends. -/
theorem ends_enough {s : Stream} (h : Served after i s) {before : List Envelope} {terminal : Envelope}
    (hemitted : s.emitted = before ++ [terminal]) (hterm : terminal.kind.terminal = true)
    (hafter : after.toNat < s.emitted.length)
    (hlast : ∀ (j : Nat) (c : Conn), s.conns[j]? = some c → c.TerminalLast)
    {acts : List Act} (hquiet : driven acts = [])
    (hturns : 5 * (s.emitted.length + 1) ≤ turns step (Stream.turn i) s acts) :
    ∃ c, (play step s acts).conns[i]? = some c ∧ c.Ended := by
  have happroaches : Approaches step (Stream.turn i)
      (fun s' => Served after i s' ∧ s'.emitted = s.emitted ∧
        ∀ (j : Nat) (c : Conn), s'.conns[j]? = some c → c.TerminalLast)
      (Stream.Has Conn.Ended i) (Stream.remaining after i s.emitted.length) acts := by
    apply approaches_goal
    · intro s' a ha ⟨hserved, hsame, hlast⟩
      refine ⟨served_step hserved a, ?_, fun j c hc => terminalLast_step hlast hc⟩
      rw [(step_quiet (ne_emit_of_quiet hquiet ha)).2.2.1, hsame]
    · exact fun s' hP => hP.1
    · exact fun c hended => hended
    · intro s' c c' _ hc a hcs hended _ _
      exact ended_step hended hc hcs
    · intro s' c ⟨hserved, hsame, hlast⟩ hc hdelivers hawake
      by_cases hfar : s.emitted.length ≤ (c.reached after).toNat
      · left
        rcases hdelivers.at_terminal hserved.logged (hlast i c hc) (hsame.trans hemitted) hterm
            (hsame ▸ hafter) (hsame ▸ hfar) with hended | hreturns
        · -- it stays as it is
          obtain ⟨last_sent, pc, yielded⟩ := c
          rcases hended with rfl | rfl | rfl <;> simp [Conn.resume, Conn.Ended]
        · exact Or.inl (hreturns _)
      · exact resume_progress hdelivers hserved.logged (hsame ▸ Nat.le_refl _) hawake hfar
  have hdistance : s.remaining after i s.emitted.length < 5 * (s.emitted.length + 1) := remaining_lt
  exact happroaches.play_progress ⟨h, rfl, hlast⟩ (Nat.lt_of_lt_of_le hdistance hturns)

end progress

/-! ## How a connection ends -/

theorem deliver_ended {c : Conn} {es : List Envelope} (h : (c.deliver es).Ended) :
    ∃ e ∈ es, ¬Formats e := by
  cases es with
  | nil => rcases h with h | h | h <;> cases h
  | cons e rest =>
    refine ⟨e, List.mem_cons_self, ?_⟩
    rintro ⟨text, htext⟩
    rw [Conn.deliver, htext] at h
    rcases h with h | h | h <;> cases h

/-- It ends by its own step, or the server closes it. -/
theorem ended_by {s : Stream} {i : Nat} {a : Act} {c c' : Conn} (hc : s.conns[i]? = some c)
    (hcs : ConnStep s i a c') (hended : c'.Ended) :
    c' = c ∨ c' = c.resume s.record.backlog.items ∨ a = .close i := by
  have hsame : ∀ {c₀ : Conn}, s.conns[i]? = some c₀ → c₀ = c := by
    intro c₀ hc₀
    exact Option.some.inj (hc₀ ▸ hc)
  cases hcs with
  | emitted e c₀ hc₀ =>
    obtain rfl := hsame hc₀
    by_cases hset : s.record.new_event = true
    · rw [if_pos hset]
      exact Or.inl rfl
    · rw [if_neg hset] at hended ⊢
      obtain ⟨last_sent, pc, yielded⟩ := c₀
      cases pc with
      | waiting _ => rcases hended with h | h | h <;> cases h
      | start | yielding _ _ | heartbeat | returned | raised | cut => exact Or.inl rfl
  | connected after hi => rcases hended with h | h | h <;> cases h
  | resumed c₀ hc₀ =>
    obtain rfl := hsame hc₀
    exact Or.inr (Or.inl rfl)
  | timed_out c₀ hc₀ =>
    obtain rfl := hsame hc₀
    obtain ⟨last_sent, pc, yielded⟩ := c₀
    cases pc with
    | waiting _ => rcases hended with h | h | h <;> cases h
    | start | yielding _ _ | heartbeat | returned | raised | cut => exact Or.inl rfl
  | closed c₀ hc₀ => exact Or.inr (Or.inr rfl)
  | kept _ c₀ hc₀ _ => exact Or.inl (hsame hc₀)

/-- It has returned, after the terminal envelope. -/
def Conn.Complete (c : Conn) : Prop := c.pc = .returned ∧ ∃ e ∈ c.yielded, e.kind.terminal = true

/-- By its own step a connection ends complete, where all can be encoded. -/
theorem Delivers.complete_resume {after : Int} {s : Stream} {c : Conn} (h : Delivers after s c)
    (hlog : Logged s) (hformats : ∀ e ∈ s.emitted, Formats e) (hc : c.Ended → c.Complete)
    (hended : (c.resume s.record.backlog.items).Ended) :
    (c.resume s.record.backlog.items).Complete := by
  have hr := c.resume_resumed s.record.backlog.items
  generalize c.resume s.record.backlog.items = c' at hr hended
  cases hr with
  | scanned _ =>
    obtain ⟨e, he, hfails⟩ := deliver_ended hended
    rw [pending_drop hlog] at he
    exact absurd (hformats e (List.mem_of_mem_drop he)) hfails
  | unnumbered cur rest hpc hseq =>
    obtain ⟨k, hk, -⟩ := h.rest hpc
    rw [hk] at hseq
    cases hseq
  | ended cur rest n hpc _ hterm =>
    obtain ⟨⟨ys, hys⟩, -⟩ := h.batch cur rest hpc
    refine ⟨rfl, cur, ?_, hterm⟩
    show cur ∈ c.yielded
    rw [hys]
    exact List.mem_append_right _ List.mem_cons_self
  | sent cur rest n hpc _ _ =>
    obtain ⟨e, he, hfails⟩ := deliver_ended hended
    obtain ⟨k, -, -, hrest⟩ := h.rest hpc
    exact absurd (hformats e (List.mem_of_mem_drop (hrest.subset he))) hfails
  | idle _ => exact hc hended

/-- A viewer that is not cut off, and that ends complete if it ends. -/
structure Attending (after : Int) (i : Nat) (s : Stream) : Prop where
  logged : Logged s
  conn : ∃ c, s.conns[i]? = some c ∧ Delivers after s c ∧ (c.Ended → c.Complete)

theorem attending_connect {s : Stream} (hlog : Logged s) (after : Int) :
    Attending after s.conns.length (step s (.connect after)) := by
  refine ⟨logged_step hlog _, { last_sent := after }, List.getElem?_concat_length, ?_, ?_⟩
  · exact (delivers_opened after s).grow (emitted_grows s (.connect after))
  · intro hended
    rcases hended with h | h | h <;> cases h

theorem attending_play {after : Int} {i : Nat} {s : Stream} (h : Attending after i s) {acts : List Act}
    (hstays : .close i ∉ acts) (hformats : ∀ e ∈ (play step s acts).emitted, Formats e) :
    Attending after i (play step s acts) := by
  apply play_invariant h
  intro pre a hpre ⟨hlog, c, hc, hdelivers, hcomplete⟩
  obtain ⟨c', hc'⟩ := conn_persists hc a
  have hcs := conn_step hc'
  refine ⟨logged_step hlog a, c', hc', hdelivers.step hlog hc hcs, ?_⟩
  intro hended
  rcases ended_by hc hcs hended with rfl | rfl | rfl
  · exact hcomplete hended
  · apply hdelivers.complete_resume hlog _ hcomplete hended
    -- what is emitted by now is emitted in the end
    obtain ⟨rest, hrest⟩ := (List.prefix_append pre [a]).trans hpre
    have hgrows := play_grows (play step s pre) rest
    rw [← play_append, hrest] at hgrows
    exact fun e he => hformats e (hgrows.subset he)
  · exact absurd (hpre.subset (List.mem_append_right _ List.mem_cons_self)) hstays

/-- A complete viewer has been sent all there was. -/
theorem Delivers.all_of_complete {after : Int} {s : Stream} {c : Conn} (h : Delivers after s c)
    (hlog : Logged s) (hc : c.Complete) {before : List Envelope} {terminal : Envelope}
    (hemitted : s.emitted = before ++ [terminal]) (hbefore : NoTerminal before)
    (hroom : s.emitted.length ≤ BACKLOG_MAXLEN) : c.yielded = s.emitted.drop after.toNat := by
  obtain ⟨-, e, he, hterm⟩ := hc
  have hwindow := List.mem_of_mem_drop (h.ordered.subset he)
  -- the terminal envelope is the last one emitted, and lies in what has been reached
  have hreached : s.emitted.length ≤ (c.reached after).toNat := by
    by_contra hlt
    have hle : (c.reached after).toNat ≤ before.length := by
      rw [hemitted, List.length_append, List.length_singleton] at hlt
      omega
    rw [hemitted, List.take_append_of_le_length hle] at hwindow
    have hfalse := hbefore e (List.mem_of_mem_take hwindow)
    rw [hterm] at hfalse
    cases hfalse
  rw [h.all_yielded hlog hroom, Stream.window, List.take_of_length_le hreached]

theorem serve_terminalLast (run_id raw_request : PyStr) (acts : List Act) :
    ∀ (i : Nat) (c : Conn), (serve run_id raw_request acts).conns[i]? = some c → c.TerminalLast := by
  apply play_keeps (P := fun s : Stream => ∀ (i : Nat) (c : Conn), s.conns[i]? = some c → c.TerminalLast)
  · intro i c hc
    simp [Stream.new] at hc
  · intro s a h i c hc
    exact terminalLast_step h hc

end Syndicate.Server
