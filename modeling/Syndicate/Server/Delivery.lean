import Mathlib.Data.List.Nodup
import Mathlib.Data.List.Infix
import Syndicate.Server.Replay

/-! # What a viewer is sent

    A connection yields what was emitted after the `after` it asked for, in
    order and at most once, and it misses only what the backlog has dropped.
    No assumption is made on when it runs, or on `after`. -/

namespace Syndicate.Server

open Py Framework

/-! ## Positions -/

theorem Numbered.seq_of_drop {l rest : List Envelope} {e : Envelope} {k : Nat} (h : Numbered l)
    (hdrop : l.drop k = e :: rest) : e.seq = some (k + 1) := by
  have hlt : k < l.length := by
    by_contra hge
    rw [List.drop_eq_nil_of_le (by omega)] at hdrop
    cases hdrop
  have hpre : l.take k ++ [e] <+: l := by
    refine ⟨rest, ?_⟩
    rw [List.append_assoc, List.singleton_append, ← hdrop, List.take_append_drop]
  have hseq := h.next hpre
  rwa [List.length_take_of_le (by omega)] at hseq

/-- A scan of numbered envelopes finds those behind the cursor. -/
theorem Numbered.filter_unsent {l : List Envelope} (h : Numbered l) (c : Conn) :
    l.filter c.unsent = l.drop c.last_sent.toNat := by
  by_cases hneg : c.last_sent < 0
  · have hall : ∀ e ∈ l, c.unsent e = true := by
      intro e he
      obtain ⟨pre, post, rfl⟩ := List.append_of_mem he
      have hpre : pre ++ [e] <+: pre ++ e :: post := ⟨post, by simp⟩
      exact Conn.unsent_iff.mpr ⟨_, h.next hpre, by omega⟩
    rw [List.filter_eq_self.mpr hall, Int.toNat_of_nonpos (by omega), List.drop_zero]
  · rw [← h.filter_lt]
    congr 1
    funext e
    rw [Conn.unsent]
    congr 2
    rw [Int.toNat_of_nonneg (by omega)]

/-- What a scan of the backlog finds: what was emitted behind the cursor, but
    for what the backlog has dropped. -/
theorem pending_drop {s : Stream} (h : Logged s) (c : Conn) :
    c.pending s.record.backlog.items =
      s.emitted.drop (max c.last_sent.toNat (s.emitted.length - BACKLOG_MAXLEN)) := by
  have hbefore : Numbered s.evicted := h.numbered.of_prefix (List.take_prefix _ _)
  have hall := h.numbered.filter_unsent c
  rw [h.split, List.filter_append, hbefore.filter_unsent c] at hall
  have hdropped : s.record.backlog.items = s.emitted.drop (s.emitted.length - BACKLOG_MAXLEN) := h.backlog
  rw [← h.split] at hall
  show s.record.backlog.items.filter c.unsent = _
  generalize hd : s.emitted.length - BACKLOG_MAXLEN = d at hdropped ⊢
  have hevicted : s.evicted = s.emitted.take d := by rw [Stream.evicted, hd]
  rw [hevicted] at hall
  by_cases hle : c.last_sent.toNat ≤ d
  · -- the cursor lies in what was dropped: the scan finds the whole backlog
    rw [Nat.max_eq_right hle]
    have hsplit : s.emitted.drop c.last_sent.toNat =
        (s.emitted.take d).drop c.last_sent.toNat ++ s.emitted.drop d := by
      have hcut : s.emitted = s.emitted.take d ++ s.emitted.drop d := (List.take_append_drop d _).symm
      conv_lhs => rw [hcut]
      rw [List.drop_append_of_le_length (by rw [List.length_take]; omega)]
    rw [hsplit] at hall
    exact List.append_cancel_left hall
  · rw [Nat.max_eq_left (by omega)]
    rw [List.drop_eq_nil_of_le (by rw [List.length_take]; omega), List.nil_append] at hall
    exact hall

/-! ## What a connection has sent -/

namespace Conn

/-- The seq up to which the connection has got, opened with `after`. -/
def reached (after : Int) (c : Conn) : Int :=
  match c.yielded.getLast? with
  | none => after
  | some e => (e.seq.getD 0 : Nat)

theorem reached_congr {after : Int} {c c' : Conn} (h : c'.yielded = c.yielded) :
    c'.reached after = c.reached after := by
  rw [reached, reached, h]

theorem reached_snoc {after : Int} {c : Conn} {es : List Envelope} {e : Envelope} {n : Nat}
    (h : c.yielded = es ++ [e]) (hseq : e.seq = some n) : c.reached after = n := by
  rw [reached, h, List.getLast?_concat]
  simp [hseq]

/-- Ended: it returned, raised, or was closed from outside. -/
def Ended (c : Conn) : Prop := c.pc = .returned ∨ c.pc = .raised ∨ c.pc = .cut

end Conn

/-- The envelopes emitted between the place where the connection was opened
    and the place it has got to. -/
def Stream.window (after : Int) (s : Stream) (c : Conn) : List Envelope :=
  (s.emitted.take (c.reached after).toNat).drop after.toNat

/-- **Invariant**: the connection has yielded, in order and once, what lies
    between where it was opened and where it has got to, but for what the
    backlog has dropped. -/
structure Delivers (after : Int) (s : Stream) (c : Conn) : Prop where
  opened : after.toNat ≤ (c.reached after).toNat
  bounded : c.yielded = [] ∨ c.reached after ≤ s.emitted.length
  ordered : c.yielded.Sublist (s.window after c)
  complete : ∀ e ∈ s.window after c, e ∈ c.yielded ∨ e ∈ s.evicted
  cursor : c.between = true → c.last_sent = c.reached after
  batch : ∀ cur rest, c.pc = .yielding cur rest → (∃ ys, c.yielded = ys ++ [cur]) ∧
    ∃ k, cur.seq = some (k + 1) ∧ cur :: rest <+: s.emitted.drop k

section delivers
variable {after : Int} {s : Stream} {c : Conn}

/-- What the connection passes over and yields when it goes on to the
    envelope at position `m`. -/
theorem window_step {r m : Nat} {e : Envelope} {rest l : List Envelope} (hr : r ≤ m)
    (ha : after.toNat ≤ r) (hdrop : l.drop m = e :: rest) :
    (l.take (m + 1)).drop after.toNat =
      (l.take r).drop after.toNat ++ ((l.take m).drop r ++ [e]) := by
  have hlt : m < l.length := by
    by_contra hge
    rw [List.drop_eq_nil_of_le (by omega)] at hdrop
    cases hdrop
  have hget : l[m]? = some e := by
    rw [← List.head?_drop, hdrop]
    rfl
  have htake : l.take (m + 1) = l.take r ++ ((l.take m).drop r ++ [e]) := by
    rw [List.take_add_one, hget, ← List.append_assoc]
    congr 1
    have hcut := (List.take_append_drop r (l.take m)).symm
    rwa [List.take_take, Nat.min_eq_left hr] at hcut
  rw [htake, List.drop_append_of_le_length (by rw [List.length_take]; omega)]

/-- The next envelope is yielded: what lies between is in `evicted`. -/
theorem Delivers.yield (h : Delivers after s c) (hlog : Logged s) {m : Nat} {e : Envelope}
    {rest batch : List Envelope} (hm : (c.reached after).toNat ≤ m) (hdrop : s.emitted.drop m = e :: batch)
    (hbatch : rest <+: batch)
    (hgap : ∀ x ∈ (s.emitted.take m).drop (c.reached after).toNat, x ∈ s.evicted)
    (last_sent : Int) :
    Delivers after s ⟨last_sent, .yielding e rest, c.yielded ++ [e]⟩ := by
  have hseq := hlog.numbered.seq_of_drop hdrop
  have hreached :
      Conn.reached after ⟨last_sent, .yielding e rest, c.yielded ++ [e]⟩ = ((m + 1 : Nat) : Int) :=
    Conn.reached_snoc rfl hseq
  have hwindow : s.window after ⟨last_sent, .yielding e rest, c.yielded ++ [e]⟩ =
      s.window after c ++ ((s.emitted.take m).drop (c.reached after).toNat ++ [e]) := by
    rw [Stream.window, Stream.window, hreached, Int.toNat_natCast]
    exact window_step hm h.opened hdrop
  have hlt : m < s.emitted.length := by
    by_contra hge
    rw [List.drop_eq_nil_of_le (by omega)] at hdrop
    cases hdrop
  constructor
  · rw [hreached]
    have := h.opened
    omega
  · right
    rw [hreached]
    omega
  · rw [hwindow]
    exact h.ordered.append (List.sublist_append_right _ _)
  · intro x hx
    rw [hwindow] at hx
    rcases List.mem_append.mp hx with hx | hx
    · rcases h.complete x hx with hx | hx
      · exact Or.inl (List.mem_append_left _ hx)
      · exact Or.inr hx
    · rcases List.mem_append.mp hx with hx | hx
      · exact Or.inr (hgap x hx)
      · exact Or.inl (List.mem_append_right _ hx)
  · intro hbetween
    cases hbetween
  · intro cur rest' hpc
    obtain ⟨rfl, rfl⟩ : e = cur ∧ rest = rest' := by simpa using hpc
    refine ⟨⟨c.yielded, rfl⟩, m, hseq, ?_⟩
    rw [hdrop]
    exact (List.prefix_cons_inj e).mpr hbatch

/-- A connection that goes elsewhere without yielding. -/
theorem Delivers.goto (h : Delivers after s c) {c' : Conn} (hsame : c'.yielded = c.yielded)
    (hcursor : c'.between = true → c'.last_sent = c.reached after)
    (hpc : ∀ cur rest, c'.pc ≠ .yielding cur rest) : Delivers after s c' := by
  have hreached : c'.reached after = c.reached after := Conn.reached_congr hsame
  have hwindow : s.window after c' = s.window after c := by rw [Stream.window, Stream.window, hreached]
  constructor
  · rw [hreached]
    exact h.opened
  · rw [hsame, hreached]
    exact h.bounded
  · rw [hsame, hwindow]
    exact h.ordered
  · rw [hsame, hwindow]
    exact h.complete
  · rw [hreached]
    exact hcursor
  · intro cur rest hyields
    exact absurd hyields (hpc cur rest)

/-- Going on to what is left of a batch, or to what a scan has found. -/
theorem Delivers.deliver (h : Delivers after s c) (hlog : Logged s) {last_sent : Int} {m : Nat}
    {es : List Envelope} (hlast : last_sent = c.reached after) (hm : (c.reached after).toNat ≤ m)
    (hes : es <+: s.emitted.drop m)
    (hgap : ∀ x ∈ (s.emitted.take m).drop (c.reached after).toNat, x ∈ s.evicted) :
    Delivers after s ({ c with last_sent := last_sent }.deliver es) := by
  have hd := Conn.deliver_delivered { c with last_sent := last_sent } es
  generalize Conn.deliver { c with last_sent := last_sent } es = c' at hd
  cases hd with
  | waits => exact h.goto rfl (fun _ => hlast) (by simp)
  | raises e rest => exact h.goto rfl (by intro hb; cases hb) (by simp)
  | yields e rest =>
    obtain ⟨more, hmore⟩ := hes
    exact h.yield hlog hm hmore.symm (List.prefix_append rest more) hgap last_sent

/-- The rest of a batch begins right behind the envelope that is sent. -/
theorem Delivers.rest (h : Delivers after s c) {cur : Envelope} {rest : List Envelope}
    (hpc : c.pc = .yielding cur rest) : ∃ k : Nat, cur.seq = some (k + 1) ∧
      c.reached after = ((k + 1 : Nat) : Int) ∧ rest <+: s.emitted.drop (k + 1) := by
  obtain ⟨⟨ys, hys⟩, k, hk, more, hmore⟩ := h.batch cur rest hpc
  refine ⟨k, hk, Conn.reached_snoc hys hk, more, ?_⟩
  rw [List.cons_append] at hmore
  rw [← List.drop_drop, ← hmore]
  rfl

/-- One step of the connection itself. -/
theorem Delivers.resume (h : Delivers after s c) (hlog : Logged s) :
    Delivers after s (c.resume s.record.backlog.items) := by
  have hr := c.resume_resumed s.record.backlog.items
  generalize c.resume s.record.backlog.items = c' at hr
  cases hr with
  | scanned hscans =>
    have hcursor := h.cursor (Conn.between_of_scans hscans)
    apply h.deliver hlog hcursor (m := max c.last_sent.toNat (s.emitted.length - BACKLOG_MAXLEN))
    · rw [hcursor]
      exact Nat.le_max_left _ _
    · exact (pending_drop hlog c) ▸ List.prefix_rfl
    · -- the scan passes over nothing but what has been dropped
      intro x hx
      rw [hcursor] at hx
      by_cases hle : (c.reached after).toNat ≤ s.emitted.length - BACKLOG_MAXLEN
      · rw [Nat.max_eq_right hle] at hx
        exact List.mem_of_mem_drop hx
      · rw [Nat.max_eq_left (by omega), List.drop_eq_nil_of_le (by rw [List.length_take]; omega)] at hx
        exact absurd hx List.not_mem_nil
  | unnumbered cur rest hpc hseq =>
    obtain ⟨-, k, hk, -⟩ := h.batch cur rest hpc
    rw [hk] at hseq
    cases hseq
  | ended cur rest n hpc hseq _ =>
    exact h.goto rfl (by intro hb; cases hb) (by simp)
  | sent cur rest n hpc hseq hterm =>
    obtain ⟨k, hk, hreached, hrest⟩ := h.rest hpc
    obtain rfl : k + 1 = n := Option.some.inj (hk.symm.trans hseq)
    apply h.deliver hlog hreached.symm (m := k + 1)
    · rw [hreached, Int.toNat_natCast]
    · exact hrest
    · intro x hx
      rw [hreached, Int.toNat_natCast, List.drop_eq_nil_of_le (by rw [List.length_take]; omega)] at hx
      exact absurd hx List.not_mem_nil
  | idle _ => exact h

/-- Later emissions are nothing to where the connection has got to. -/
theorem Delivers.grow (h : Delivers after s c) {s' : Stream} (hgrows : s.emitted <+: s'.emitted) :
    Delivers after s' c := by
  have hevicted : ∀ x ∈ s.evicted, x ∈ s'.evicted := by
    intro x hx
    have hle := hgrows.length_le
    obtain ⟨more, hmore⟩ := hgrows
    rw [Stream.evicted] at hx ⊢
    rw [← hmore, List.take_append]
    apply List.mem_append_left
    rw [hmore]
    exact (List.take_prefix_take_left (by omega)).subset hx
  have hwindow : s'.window after c = s.window after c := by
    rcases h.bounded with hnil | hle
    · -- nothing has been yielded, so it is still where it was opened
      have hreached : c.reached after = after := by rw [Conn.reached, hnil]; rfl
      rw [Stream.window, Stream.window, hreached]
      rw [List.drop_eq_nil_of_le (by rw [List.length_take]; omega)]
      rw [List.drop_eq_nil_of_le (by rw [List.length_take]; omega)]
    · obtain ⟨more, hmore⟩ := hgrows
      rw [Stream.window, Stream.window, ← hmore, List.take_append_of_le_length (by omega)]
  constructor
  · exact h.opened
  · have hle := hgrows.length_le
    rcases h.bounded with hnil | hbound
    · exact Or.inl hnil
    · right
      omega
  · rw [hwindow]
    exact h.ordered
  · intro e he
    rw [hwindow] at he
    rcases h.complete e he with he | he
    · exact Or.inl he
    · exact Or.inr (hevicted e he)
  · exact h.cursor
  · intro cur rest hpc
    obtain ⟨hys, k, hk, hbatch⟩ := h.batch cur rest hpc
    refine ⟨hys, k, hk, hbatch.trans ?_⟩
    obtain ⟨more, hmore⟩ := hgrows
    rw [← hmore, List.drop_append]
    exact List.prefix_append _ _

/-- One act, whoever's it is. -/
theorem Delivers.step {i : Nat} {a : Act} {c' : Conn} (h : Delivers after s c) (hlog : Logged s)
    (hc : s.conns[i]? = some c) (hcs : ConnStep s i a c') : Delivers after (step s a) c' := by
  suffices hold : Delivers after s c' from hold.grow (emitted_grows s a)
  cases hcs with
  | emitted e c₀ hc₀ =>
    obtain rfl : c₀ = c := Option.some.inj (hc₀ ▸ hc)
    by_cases hset : s.record.new_event = true
    · rw [if_pos hset]
      exact h
    · rw [if_neg hset]
      obtain ⟨last_sent, pc, yielded⟩ := c₀
      cases pc with
      | waiting woken => exact h.goto rfl (fun _ => h.cursor rfl) (by simp [Conn.wake])
      | start | yielding _ _ | heartbeat | returned | raised | cut => exact h
  | connected after' hi =>
    have hlt := (List.getElem?_eq_some_iff.mp hc).1
    omega
  | resumed c₀ hc₀ =>
    obtain rfl : c₀ = c := Option.some.inj (hc₀ ▸ hc)
    exact h.resume hlog
  | timed_out c₀ hc₀ =>
    obtain rfl : c₀ = c := Option.some.inj (hc₀ ▸ hc)
    obtain ⟨last_sent, pc, yielded⟩ := c₀
    cases pc with
    | waiting woken => exact h.goto rfl (fun _ => h.cursor rfl) (by simp [Conn.timeout])
    | start | yielding _ _ | heartbeat | returned | raised | cut => exact h
  | closed c₀ hc₀ =>
    obtain rfl : c₀ = c := Option.some.inj (hc₀ ▸ hc)
    obtain ⟨last_sent, pc, yielded⟩ := c₀
    cases pc with
    | returned | raised => exact h
    | start | waiting _ | heartbeat | yielding _ _ | cut =>
      exact h.goto rfl (by intro hb; cases hb) (by simp [Conn.close])
  | kept _ c₀ hc₀ _ =>
    obtain rfl : c' = c := Option.some.inj (hc₀ ▸ hc)
    exact h

/-- A connection when it is opened. -/
theorem delivers_opened (after : Int) (s : Stream) : Delivers after s { last_sent := after } := by
  have hwindow : s.window after { last_sent := after } = [] := by
    rw [Stream.window]
    exact List.drop_eq_nil_of_le (by rw [List.length_take]; exact Nat.min_le_left _ _)
  constructor
  · exact Nat.le_refl _
  · exact Or.inl rfl
  · exact List.nil_sublist _
  · intro e he
    rw [hwindow] at he
    exact absurd he List.not_mem_nil
  · intro _
    rfl
  · intro cur rest hpc
    cases hpc

end delivers

/-- The viewer of connection `i`, opened with `after`, is served. -/
structure Served (after : Int) (i : Nat) (s : Stream) : Prop where
  logged : Logged s
  conn : ∃ c, s.conns[i]? = some c ∧ Delivers after s c

theorem served_step {after : Int} {i : Nat} {s : Stream} (h : Served after i s) (a : Act) :
    Served after i (step s a) := by
  obtain ⟨hlog, c, hc, hdelivers⟩ := h
  obtain ⟨c', hc'⟩ := conn_persists hc a
  exact ⟨logged_step hlog a, c', hc', hdelivers.step hlog hc (conn_step hc')⟩

theorem served_connect {s : Stream} (hlog : Logged s) (after : Int) :
    Served after s.conns.length (step s (.connect after)) := by
  refine ⟨logged_step hlog _, { last_sent := after }, List.getElem?_concat_length, ?_⟩
  exact (delivers_opened after s).grow (emitted_grows s (.connect after))

theorem served_play {after : Int} {i : Nat} {s : Stream} (h : Served after i s) (acts : List Act) :
    Served after i (play step s acts) := by
  apply play_keeps (P := Served after i) h
  intro s a hs
  exact served_step hs a

/-! ## Where the backlog has room -/

theorem Numbered.nodup {es : List Envelope} (h : Numbered es) : es.Nodup := by
  have hseqs : (es.map Envelope.seq).Nodup := by
    rw [h]
    exact List.Nodup.map (fun _ _ => Option.some.inj) (List.nodup_range' 1)
  exact List.Nodup.of_map Envelope.seq hseqs

/-- Nothing dropped, nothing missed. -/
theorem Delivers.all_yielded {after : Int} {s : Stream} {c : Conn} (h : Delivers after s c)
    (hlog : Logged s) (hroom : s.emitted.length ≤ BACKLOG_MAXLEN) : c.yielded = s.window after c := by
  have hnone : s.evicted = [] := by
    rw [Stream.evicted, Nat.sub_eq_zero_of_le hroom, List.take_zero]
  have hnodup : (s.window after c).Nodup :=
    (hlog.numbered.nodup.sublist (List.take_sublist _ _)).sublist (List.drop_sublist _ _)
  have hsubset : s.window after c ⊆ c.yielded := by
    intro e he
    rcases h.complete e he with hsent | hevicted
    · exact hsent
    · rw [hnone] at hevicted
      exact absurd hevicted List.not_mem_nil
  apply h.ordered.eq_of_length_le
  exact (List.subperm_of_subset hnodup hsubset).length_le

theorem Delivers.yielded_prefix {after : Int} {s : Stream} {c : Conn} (h : Delivers after s c)
    (hlog : Logged s) (hroom : s.emitted.length ≤ BACKLOG_MAXLEN) :
    c.yielded <+: s.emitted.drop after.toNat := by
  rw [h.all_yielded hlog hroom, Stream.window]
  exact List.IsPrefix.drop (List.take_prefix _ _) _

end Syndicate.Server
