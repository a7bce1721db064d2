import Syndicate.Server.Audience
import Syndicate.Server.Reading

/-! # Neither gaps nor duplicates

    The page gets the envelopes of its run from several connections, one
    after the other, and is never without a cursor that is right: at every
    moment it shows what a page would that has read the first envelopes of
    the run once each, in order. -/

namespace Syndicate.Server

open Py Framework

/-! ## The invariant -/

variable {stringify : Stringify}

/-- Where the event source stands in what the page has read: it will ask for
    what comes after the cursor, or its connection was opened there and has
    gone on since. -/
def EventSource.Listens (source : EventSource) (s : Stream) (view : View) (n : Nat) : Prop :=
  match source.conn with
  | none => source.after = view.page.last_seq ∧ source.dispatched = 0
  | some i => ∃ (k : Nat) (c : Conn), Served k i s ∧ s.conns[i]? = some c ∧
    source.dispatched ≤ c.yielded.length ∧ n = k + source.dispatched

/-- A page that reads a run from the first envelope on, and of which `P`
    holds. -/
structure View.Begins (P : View → Prop) (base : View) : Prop where
  known : P base
  last_seq : base.page.last_seq = lit "0"

/-- The page shows the first envelopes of the stream, each read once, on top
    of what it showed when it turned to the run. -/
def Monitor.Reads (stringify : Stringify) (P : View → Prop) (m : Monitor) (s : Stream) : Prop :=
  ∃ (base : View) (n : Nat), base.Begins P ∧ n ≤ s.emitted.length ∧
    m.view = base.read stringify (s.emitted.take n) ∧
    ∀ source, m.eventSource = some source → source.Listens s m.view n

/-- The page has turned to a run, and nothing has come yet. -/
structure Monitor.Turned (P : View → Prop) (m : Monitor) : Prop where
  view : m.view.Begins P
  source : ∀ source, m.eventSource = some source →
    source.conn = none ∧ source.after = lit "0" ∧ source.dispatched = 0

/-- **Invariant**: of the run it is on, the page shows what has come, and
    will ask for what has not; of a run that is not there, nothing. -/
inductive Monitor.Follows (stringify : Stringify) (P : View → Prop) (m : Monitor) (run_id : PyStr)
    (site : Site) : Prop
  | waits : site.app.registry.get run_id = none → m.Turned P → Follows stringify P m run_id site
  | reads (s : Stream) : site.Shows run_id s → Logged s →
      (s.emitted.length ≤ BACKLOG_MAXLEN → m.Reads stringify P s) →
        Follows stringify P m run_id site

/-! ## What keeps it -/

namespace Monitor

variable {P P' : View → Prop} {m m' : Monitor} {s : Stream}

theorem Turned.reads (h : m.Turned P) (s : Stream) : m.Reads stringify P s := by
  refine ⟨m.view, 0, h.view, Nat.zero_le _, rfl, ?_⟩
  intro source hsource
  obtain ⟨hconn, hafter, hdispatched⟩ := h.source source hsource
  rw [EventSource.Listens, hconn]
  exact ⟨hafter.trans h.view.last_seq.symm, hdispatched⟩

theorem play_conn {i : Nat} {c : Conn} (hc : s.conns[i]? = some c) (acts : List Server.Act) :
    ∃ c', (play Server.step s acts).conns[i]? = some c' ∧ c.yielded <+: c'.yielded := by
  apply play_keeps (P := fun s' : Stream => ∃ c', s'.conns[i]? = some c' ∧ c.yielded <+: c'.yielded)
  · exact ⟨c, hc, List.prefix_rfl⟩
  · intro s' a ⟨c', hc', hpre⟩
    obtain ⟨c'', hc''⟩ := conn_persists hc' a
    exact ⟨c'', hc'', hpre.trans ((conn_step hc'').yielded hc')⟩

/-- Nothing the server does is a loss to the page. -/
theorem Reads.play (h : m.Reads stringify P s) (acts : List Server.Act) :
    m.Reads stringify P (Framework.play Server.step s acts) := by
  obtain ⟨base, n, hbase, hn, hview, hsource⟩ := h
  have hgrows := play_grows s acts
  refine ⟨base, n, hbase, hn.trans hgrows.length_le, ?_, ?_⟩
  · obtain ⟨more, hmore⟩ := hgrows
    rw [← hmore, List.take_append_of_le_length hn]
    exact hview
  · intro source hm
    have hlistens := hsource source hm
    unfold EventSource.Listens at hlistens ⊢
    cases hconn : source.conn with
    | none =>
      rw [hconn] at hlistens
      exact hlistens
    | some i =>
      rw [hconn] at hlistens
      obtain ⟨k, c, hserved, hc, hle, hn⟩ := hlistens
      obtain ⟨c', hc', hpre⟩ := play_conn hc acts
      exact ⟨k, c', served_play hserved acts, hc', hle.trans hpre.length_le, hn⟩

/-- The cursor is right: a connection that is opened at it goes on where the
    page stands. -/
theorem Reads.connect [Unicode] (h : m.Reads stringify P s) (hlog : Logged s)
    (hroom : s.emitted.length ≤ BACKLOG_MAXLEN) {source : EventSource} (hsource : m.eventSource = some source)
    (hconn : source.conn = none) {after : Int} (hafter : parseInt source.after = some after) :
    Reads stringify P { m with eventSource := some { source with conn := some s.conns.length } }
      (Server.step s (.connect after)) := by
  obtain ⟨base, n, hbase, hn, hview, hlistens⟩ := h
  have hcursor := hlistens source hsource
  rw [EventSource.Listens, hconn] at hcursor
  obtain ⟨hseq, hdispatched⟩ := hcursor
  obtain ⟨k, hk, hlast, hsame⟩ := View.read_seq stringify
    (hlog.numbered.of_prefix (List.take_prefix n s.emitted)) hbase.last_seq
  rw [List.length_take_of_le hn] at hk
  rw [List.take_take, Nat.min_eq_left hk, ← hview] at hsame
  -- `after` is the number the page has last seen
  have hreach : k < 10 ^ maxStrDigits := by
    have hmany : BACKLOG_MAXLEN < 10 ^ maxStrDigits := by decide +kernel
    omega
  have hk' : after = k := by
    rw [hseq, hview, hlast, parseInt_str_int hreach] at hafter
    exact (Option.some.inj hafter).symm
  subst hk'
  refine ⟨base, k, hbase, (hk.trans hn).trans (emitted_grows s _).length_le, hsame.symm, ?_⟩
  intro source' hsource'
  obtain rfl := Option.some.inj hsource'
  exact ⟨k, { last_sent := k }, served_connect hlog k, List.getElem?_concat_length,
    hdispatched ▸ Nat.zero_le _, hdispatched ▸ rfl⟩

/-- The next frame is that of the next envelope. -/
theorem Reads.message (h : m.Reads stringify P s) (hroom : s.emitted.length ≤ BACKLOG_MAXLEN)
    {source : EventSource} (hsource : m.eventSource = some source) {i : Nat} (hconn : source.conn = some i)
    {c : Conn} (hc : s.conns[i]? = some c) {e : Envelope} (he : c.yielded[source.dispatched]? = some e)
    {frame : PyStr} (hframe : format_sse e = .ok frame) :
    Reads stringify P
      { m with
        view := m.view.receive stringify frame
        eventSource := some { source with dispatched := source.dispatched + 1 } } s := by
  obtain ⟨base, n, hbase, hn, hview, hlistens⟩ := h
  have hcursor := hlistens source hsource
  rw [EventSource.Listens, hconn] at hcursor
  obtain ⟨k, c₀, hserved, hc₀, -, rfl⟩ := hcursor
  obtain rfl := Option.some.inj (hc.symm.trans hc₀)
  have hnext : s.emitted[k + source.dispatched]? = some e := by
    obtain ⟨hlog, c₁, hc₁, hdelivers⟩ := hserved
    obtain rfl := Option.some.inj (hc.symm.trans hc₁)
    obtain ⟨more, hmore⟩ := hdelivers.yielded_prefix hlog hroom
    rw [Int.toNat_natCast] at hmore
    rw [← List.getElem?_drop, ← hmore]
    exact List.getElem?_append_left (List.getElem?_eq_some_iff.mp he).1 ▸ he
  have hlt := (List.getElem?_eq_some_iff.mp hnext).1
  refine ⟨base, k + source.dispatched + 1, hbase, hlt, ?_, ?_⟩
  · rw [List.take_add_one, hnext, Option.toList_some, View.read_snoc _ _ hframe, ← hview]
  · intro source' hsource'
    obtain rfl := Option.some.inj hsource'
    rw [EventSource.Listens, hconn]
    exact ⟨k, c, hserved, hc, (List.getElem?_eq_some_iff.mp he).1, Nat.add_assoc _ _ _⟩

/-- A page with the same view, whose event source, if any, is about to ask
    for what comes after the cursor. -/
structure Reopens (m m' : Monitor) : Prop where
  view : m'.view = m.view
  source : ∀ source, m'.eventSource = some source →
    source.conn = none ∧ source.after = m.view.page.last_seq ∧ source.dispatched = 0

theorem Reads.reopen (h : m.Reads stringify P s) (hopens : m.Reopens m') : m'.Reads stringify P s := by
  obtain ⟨base, n, hbase, hn, hview, -⟩ := h
  refine ⟨base, n, hbase, hn, hopens.view.trans hview, ?_⟩
  intro source hsource
  obtain ⟨hconn, hafter, hdispatched⟩ := hopens.source source hsource
  rw [EventSource.Listens, hconn, hopens.view]
  exact ⟨hafter, hdispatched⟩

theorem Turned.reopen (h : m.Turned P) (hopens : m.Reopens m') : m'.Turned P := by
  refine ⟨hopens.view ▸ h.view, ?_⟩
  intro source hsource
  obtain ⟨hconn, hafter, hdispatched⟩ := hopens.source source hsource
  exact ⟨hconn, hafter.trans h.view.last_seq, hdispatched⟩

/-- The page turns to a run. -/
theorem turned_attach (m : Monitor) (run_id : PyStr)
    (h : P (m.attachStream run_id (lit "0")).view) : (m.attachStream run_id (lit "0")).Turned P := by
  refine ⟨⟨h, rfl⟩, ?_⟩
  intro source hsource
  obtain rfl := Option.some.inj hsource
  exact ⟨rfl, rfl, rfl⟩

section step
variable [Unicode] {now : PyStr → Nat → PyStr} {hist : List Site.Act} {run_id : PyStr}

theorem Turned.follows (h : m.Turned P) (hids : (Site.ids hist).Nodup) :
    m.Follows stringify P run_id (Site.serve now hist) := by
  cases hget : (Site.serve now hist).app.registry.get run_id with
  | none => exact .waits hget h
  | some record =>
    obtain ⟨s, hshows, hlog⟩ := Site.streamed now hids (by rw [hget]; rfl)
    exact .reads s hshows hlog fun _ => h.reads s

theorem Follows.reopen (h : m.Follows stringify P run_id (Site.serve now hist)) (hopens : m.Reopens m') :
    m'.Follows stringify P run_id (Site.serve now hist) := by
  cases h with
  | waits hnone hturned => exact .waits hnone (hturned.reopen hopens)
  | reads s hshows hlog hreads => exact .reads s hshows hlog fun hroom => (hreads hroom).reopen hopens

/-- The reconnects that are scheduled do not matter. -/
theorem Follows.congr (h : m.Follows stringify P run_id (Site.serve now hist)) (hview : m'.view = m.view)
    (hsource : m'.eventSource = m.eventSource) : m'.Follows stringify P run_id (Site.serve now hist) := by
  cases h with
  | waits hnone hturned => exact .waits hnone ⟨hview ▸ hturned.view, hsource ▸ hturned.source⟩
  | reads s hshows hlog hreads =>
    refine .reads s hshows hlog ?_
    intro hroom
    obtain ⟨base, n, hbase, hn, hread, hlistens⟩ := hreads hroom
    exact ⟨base, n, hbase, hn, hview.trans hread, hview ▸ hsource ▸ hlistens⟩

theorem Follows.mono (h : m.Follows stringify P run_id (Site.serve now hist)) (himp : ∀ v, P v → P' v) :
    m.Follows stringify P' run_id (Site.serve now hist) := by
  cases h with
  | waits hnone hturned =>
    exact .waits hnone ⟨⟨himp _ hturned.view.known, hturned.view.last_seq⟩, hturned.source⟩
  | reads s hshows hlog hreads =>
    refine .reads s hshows hlog ?_
    intro hroom
    obtain ⟨base, n, hbase, hread⟩ := hreads hroom
    exact ⟨base, n, ⟨himp _ hbase.known, hbase.last_seq⟩, hread⟩

/-- Acts of the server and of the other viewers. -/
theorem Follows.site {a : Site.Act} (hids : (Site.ids (hist ++ [a])).Nodup)
    (h : m.Follows stringify P run_id (Site.serve now hist)) :
    m.Follows stringify P run_id (Site.serve now (hist ++ [a])) := by
  cases h with
  | waits _ hturned => exact hturned.follows hids
  | reads s hshows hlog hreads =>
    obtain ⟨record, hget, -⟩ := hshows.record
    have hkeeps := Site.keeps_of_known now hids (k := run_id) (by rw [hget]; rfl)
    have hsnoc : Site.serve now (hist ++ [a]) = Site.step now (Site.serve now hist) a := play_snoc
    rw [hsnoc]
    refine .reads _ (Site.shows_step now run_id (Site.serve_inv now hist).recorded hkeeps hshows) ?_ ?_
    · exact play_keeps hlog (fun s a h => logged_step h a)
    · intro hroom
      exact (hreads ((play_grows s _).length_le.trans hroom)).play _

/-- A run that is there takes the request of the event source. -/
theorem Follows.connect (h : m.Follows stringify P run_id (Site.serve now hist)) {source : EventSource}
    (hsource : m.eventSource = some source) (hconn : source.conn = none) {after : Int}
    (hafter : parseInt source.after = some after)
    (hknown : ((Site.serve now hist).app.registry.get run_id).isSome) :
    Follows stringify P
      { m with
        eventSource := some { source with conn := some ((Site.serve now hist).viewers run_id).length } }
      run_id (Site.step now (Site.serve now hist) (.viewer run_id (.stream after))) := by
  cases h with
  | waits hnone _ =>
    rw [hnone] at hknown
    cases hknown
  | reads s hshows hlog hreads =>
    have hseen : Site.seen now run_id (Site.serve now hist) (.viewer run_id (.stream after)) =
        [.connect after] := if_pos rfl
    have hshows' := Site.shows_step now run_id (a := .viewer run_id (.stream after))
      (Site.serve_inv now hist).recorded trivial hshows
    rw [hseen] at hshows'
    refine .reads (Server.step s (.connect after)) hshows' (logged_step hlog _) ?_
    intro hroom
    rw [hshows.conns]
    exact (hreads hroom).connect hlog hroom hsource hconn hafter

/-- A frame of its connection reaches the page. -/
theorem Follows.message (h : m.Follows stringify P run_id (Site.serve now hist)) {source : EventSource}
    (hsource : m.eventSource = some source) {i : Nat} (hconn : source.conn = some i) {c : Conn}
    (hc : ((Site.serve now hist).viewers run_id)[i]? = some c) {e : Envelope}
    (he : c.yielded[source.dispatched]? = some e) {frame : PyStr} (hframe : format_sse e = .ok frame) :
    Follows stringify P
      { m with
        view := m.view.receive stringify frame
        eventSource := some { source with dispatched := source.dispatched + 1 } }
      run_id (Site.serve now hist) := by
  cases h with
  | waits _ hturned =>
    rw [(hturned.source source hsource).1] at hconn
    cases hconn
  | reads s hshows hlog hreads =>
    refine .reads s hshows hlog ?_
    intro hroom
    rw [hshows.conns] at hc
    exact (hreads hroom).message hroom hsource hconn hc he hframe

end step

end Monitor

/-! ## Every schedule -/

namespace Browser

section step
variable [Unicode] (now : PyStr → Nat → PyStr) (stringify : Stringify)

/-- The page, and what the server has been through. -/
structure Inv (P : View → Prop) (hist : List Site.Act) (b : Browser) : Prop where
  site : b.site = Site.serve now hist
  source : ∀ source, b.monitor.eventSource = some source →
    b.monitor.currentRunId = some source.run_id
  follows : ∀ run_id, b.monitor.currentRunId = some run_id →
    b.monitor.Follows stringify P run_id b.site

variable {now stringify} {P P' : View → Prop} {hist : List Site.Act} {b : Browser}

theorem Inv.site_step (h : Inv now stringify P hist b) (a : Site.Act)
    (hids : (Site.ids (hist ++ [a])).Nodup) :
    Inv now stringify P (hist ++ [a]) { b with site := Site.step now b.site a } := by
  have hsite : Site.step now b.site a = Site.serve now (hist ++ [a]) := by
    rw [h.site]
    exact play_snoc.symm
  refine ⟨hsite, h.source, ?_⟩
  intro run_id hcurrent
  have hfollows := h.follows run_id hcurrent
  rw [h.site] at hfollows
  show b.monitor.Follows stringify P run_id (Site.step now b.site a)
  rw [hsite]
  exact hfollows.site hids

theorem Inv.mono (h : Inv now stringify P hist b) (himp : ∀ v, P v → P' v) :
    Inv now stringify P' hist b := by
  refine ⟨h.site, h.source, ?_⟩
  intro run_id hcurrent
  have hfollows := h.follows run_id hcurrent
  rw [h.site] at hfollows ⊢
  exact hfollows.mono himp

/-- The page turns to a run. -/
theorem Inv.turn (h : Inv now stringify P hist b) (hids : (Site.ids hist).Nodup) (m : Monitor)
    (run_id : PyStr) (hview : P' (m.attachStream run_id (lit "0")).view) :
    Inv now stringify P' hist { b with monitor := m.attachStream run_id (lit "0") } := by
  refine ⟨h.site, ?_, ?_⟩
  · intro source hsource
    obtain rfl := Option.some.inj hsource
    rfl
  · intro r _
    show (m.attachStream run_id (lit "0")).Follows stringify P' r b.site
    rw [h.site]
    exact (m.turned_attach run_id hview).follows hids

/-- The page stays on its run. -/
theorem Inv.reopen (h : Inv now stringify P hist b) {m : Monitor} (hopens : b.monitor.Reopens m)
    (hsame : m.currentRunId = b.monitor.currentRunId)
    (hsource : ∀ source, m.eventSource = some source → m.currentRunId = some source.run_id) :
    Inv now stringify P hist { b with monitor := m } := by
  refine ⟨h.site, hsource, ?_⟩
  intro run_id hcurrent
  have hfollows := h.follows run_id (hsame ▸ hcurrent)
  show m.Follows stringify P run_id b.site
  rw [h.site] at hfollows ⊢
  exact hfollows.reopen hopens

/-- A run that is there takes the request of the event source; from one that
    is not there, nothing comes. -/
theorem Inv.requested (h : Inv now stringify P hist b)
    (hids : (Site.ids (hist ++ b.requests .requested)).Nodup) :
    Inv now stringify P (hist ++ b.requests .requested) (b.step now stringify .requested) := by
  obtain ⟨site, monitor⟩ := b
  obtain ⟨rfl, hon, hfollows⟩ := h
  dsimp only at hon hfollows
  have hidle : Inv now stringify P (hist ++ []) ⟨Site.serve now hist, monitor⟩ := by
    rw [List.append_nil]
    exact ⟨rfl, hon, hfollows⟩
  cases hsource : monitor.eventSource with
  | none =>
    simp only [requests, step, page_step, hsource]
    exact hidle
  | some source =>
    obtain ⟨run_id, after, conn, dispatched⟩ := source
    cases conn with
    | some i =>
      simp only [requests, step, page_step, hsource]
      exact hidle
    | none =>
      cases hafter : parseInt after with
      | none =>
        simp only [requests, step, page_step, hsource, hafter, Option.isSome_none, Bool.false_eq_true,
          false_and, if_false]
        exact hidle
      | some k =>
        have hsnoc : Site.step now (Site.serve now hist) (.viewer run_id (.stream k)) =
            Site.serve now (hist ++ [.viewer run_id (.stream k)]) := play_snoc.symm
        simp only [requests, step, page_step, hsource, hafter, Option.isSome_some, true_and] at hids ⊢
        split_ifs with hknown
        · refine ⟨hsnoc, ?_, ?_⟩
          · intro source' hsource'
            obtain rfl := Option.some.inj hsource'
            have hcurrent := hon _ hsource
            exact hcurrent
          · intro r hcurrent
            obtain rfl := Option.some.inj (hcurrent.symm.trans (hon _ hsource))
            exact (hfollows r hcurrent).connect hsource rfl hafter hknown
        · have hinv : Inv now stringify P hist ⟨Site.serve now hist, monitor⟩ := ⟨rfl, hon, hfollows⟩
          exact hinv.site_step _ hids

/-- A frame, if there is one. -/
theorem Inv.message (h : Inv now stringify P hist b) :
    Inv now stringify P hist (b.step now stringify .message) := by
  obtain ⟨site, monitor⟩ := b
  obtain ⟨rfl, hon, hfollows⟩ := h
  dsimp only at hon hfollows
  cases hsource : monitor.eventSource with
  | none =>
    simp only [requests, step, page_step, hsource]
    exact ⟨rfl, hon, hfollows⟩
  | some source =>
    cases hframe : next_frame ⟨Site.serve now hist, monitor⟩ source with
    | none =>
      simp only [requests, step, page_step, hsource, hframe]
      exact ⟨rfl, hon, hfollows⟩
    | some frame =>
      simp only [requests, step, page_step, hsource, hframe]
      simp only [next_frame, Option.bind_eq_bind, Option.bind_eq_some_iff] at hframe
      obtain ⟨i, hi, c, hc, e, he, hformat⟩ := hframe
      refine ⟨rfl, ?_, ?_⟩
      · intro source' hsource'
        obtain rfl := Option.some.inj hsource'
        exact hon source hsource
      · intro r hcurrent
        obtain rfl := Option.some.inj (hcurrent.symm.trans (hon _ hsource))
        cases hsse : format_sse e with
        | error exc =>
          rw [hsse] at hformat
          cases hformat
        | ok text =>
          rw [hsse] at hformat
          obtain rfl := Option.some.inj hformat
          exact (hfollows _ hcurrent).message hsource hi hc he hsse

/-- The stream is over, or the network fails: the page will come back. -/
theorem Inv.onerror (h : Inv now stringify P hist b) :
    Inv now stringify P hist (b.step now stringify .onerror) := by
  cases hsource : b.monitor.eventSource with
  | none =>
    simp only [requests, step, page_step, hsource]
    exact h
  | some source =>
    simp only [requests, step, page_step, hsource]
    exact h.reopen ⟨rfl, nofun⟩ rfl nofun

/-- It comes back where it has got to, if it is still on that run. -/
theorem Inv.timeout (h : Inv now stringify P hist b) (k : Nat) :
    Inv now stringify P hist (b.step now stringify (.timeout k)) := by
  cases hdue : b.monitor.timeouts[k]? with
  | none =>
    simp only [requests, step, page_step, hdue]
    exact h
  | some run_id =>
    simp only [requests, step, page_step, hdue]
    split_ifs with hcurrent
    · refine h.reopen ⟨rfl, ?_⟩ hcurrent.symm ?_
      · intro source hsource
        obtain rfl := Option.some.inj hsource
        exact ⟨rfl, rfl, rfl⟩
      · intro source hsource
        obtain rfl := Option.some.inj hsource
        rfl
    · refine ⟨h.site, h.source, ?_⟩
      intro r hcurrent
      have hfollows := h.follows r hcurrent
      rw [h.site] at hfollows
      show Monitor.Follows stringify P _ r b.site
      rw [h.site]
      exact hfollows.congr rfl rfl

/-- **One act**, of the page or of anyone else. -/
theorem Inv.step (h : Inv now stringify P hist b) (a : Act)
    (hids : (Site.ids (hist ++ b.requests a)).Nodup) (hstays : ¬b.Turns a → ∀ v, P v → P' v)
    (hturns : b.Turns a → P' (b.step now stringify a).monitor.view) :
    Inv now stringify P' (hist ++ b.requests a) (b.step now stringify a) := by
  cases a with
  | site a => exact (h.site_step a hids).mono (hstays id)
  | requested => exact (h.requested hids).mono (hstays id)
  | message =>
    have hnone : b.requests .message = [] := rfl
    rw [hnone, List.append_nil]
    exact h.message.mono (hstays id)
  | onerror =>
    have hnone : b.requests .onerror = [] := rfl
    rw [hnone, List.append_nil]
    exact h.onerror.mono (hstays id)
  | timeout k =>
    have hnone : b.requests (.timeout k) = [] := rfl
    rw [hnone, List.append_nil]
    exact (h.timeout k).mono (hstays id)
  | initialised run_id =>
    have hnone : b.requests (.initialised run_id) = [] := rfl
    rw [hnone, List.append_nil] at hids ⊢
    by_cases hempty : run_id.isEmpty = true
    · simp only [Browser.step, page_step, hnone, if_pos hempty]
      exact h.mono (hstays (not_not_intro hempty))
    · have hview := hturns hempty
      simp only [Browser.step, page_step, hnone, if_neg hempty] at hview ⊢
      exact h.turn hids _ run_id hview
  | select run_id =>
    have hnone : b.requests (.select run_id) = [] := rfl
    rw [hnone, List.append_nil] at hids ⊢
    by_cases hsame : run_id.isEmpty = true ∨ b.monitor.currentRunId = some run_id
    · simp only [Browser.step, page_step, hnone, if_pos hsame]
      exact h.mono (hstays (not_not_intro hsame))
    · have hview := hturns hsame
      simp only [Browser.step, page_step, hnone, if_neg hsame] at hview ⊢
      exact h.turn hids _ run_id hview
  | submitted run_id =>
    have hnone : b.requests (.submitted run_id) = [] := rfl
    rw [hnone, List.append_nil] at hids ⊢
    exact h.turn hids _ run_id (hturns trivial)

variable (now stringify)

theorem inv_blank : Inv now stringify P [] {} := ⟨rfl, nofun, nofun⟩

theorem browse_snoc (acts : List Act) (a : Act) :
    browse now stringify (acts ++ [a]) = (browse now stringify acts).step now stringify a := play_snoc

theorem history_snoc (acts : List Act) (a : Act) :
    history now stringify (acts ++ [a]) =
      history now stringify acts ++ (browse now stringify acts).requests a := by
  rw [history, translated_append]
  congr 1
  exact List.append_nil _

/-- What the page showed when it last turned to a run. -/
def Base (acts : List Act) (view : View) : Prop :=
  ∃ before turn, LastTurn now stringify acts before turn ∧
    view = (browse now stringify (before ++ [turn])).monitor.view

variable {now stringify} in
theorem Base.snoc {acts : List Act} {a : Act} {view : View} (h : Base now stringify acts view)
    (ha : ¬(browse now stringify acts).Turns a) : Base now stringify (acts ++ [a]) view := by
  obtain ⟨before, turn, ⟨rest, rfl, hturn, hrest⟩, hview⟩ := h
  refine ⟨before, turn, ⟨rest ++ [a], by simp, hturn, hrest.snoc ha⟩, hview⟩

/-- **Over every schedule** in which no run id is drawn twice. -/
theorem browse_inv (acts : List Act) (hids : (Site.ids (history now stringify acts)).Nodup) :
    Inv now stringify (Base now stringify acts) (history now stringify acts)
      (browse now stringify acts) := by
  induction acts using List.reverseRecOn with
  | nil => exact inv_blank now stringify
  | append_singleton acts a ih =>
    rw [history_snoc] at hids
    have hold : (Site.ids (history now stringify acts)).Nodup := by
      rw [Site.ids_append] at hids
      exact (List.nodup_append.mp hids).1
    rw [history_snoc, browse_snoc]
    apply (ih hold).step a hids
    · exact fun hstays view hview => hview.snoc hstays
    · intro hturns
      exact ⟨acts, a, ⟨[], rfl, hturns, past_nil⟩, by rw [browse_snoc]⟩

/-- The page stays on its run, or on none, until it turns to one. -/
theorem current_step (b : Browser) (a : Act) :
    (b.Turns a ∧ (b.step now stringify a).monitor.currentRunId ≠ none) ∨
      (¬b.Turns a ∧ (b.step now stringify a).monitor.currentRunId = b.monitor.currentRunId) := by
  have hkeep : ∀ {m : Monitor}, ¬b.Turns a → m.currentRunId = b.monitor.currentRunId →
      (b.Turns a ∧ m.currentRunId ≠ none) ∨
        (¬b.Turns a ∧ m.currentRunId = b.monitor.currentRunId) := fun h h' => Or.inr ⟨h, h'⟩
  have hturn : ∀ {m : Monitor} {r : PyStr}, b.Turns a → m.currentRunId = some r →
      (b.Turns a ∧ m.currentRunId ≠ none) ∨
        (¬b.Turns a ∧ m.currentRunId = b.monitor.currentRunId) :=
    fun h h' => Or.inl ⟨h, by rw [h']; exact Option.some_ne_none _⟩
  show (b.Turns a ∧ (b.page_step stringify a).currentRunId ≠ none) ∨
    (¬b.Turns a ∧ (b.page_step stringify a).currentRunId = b.monitor.currentRunId)
  cases a with
  | site a => exact hkeep id rfl
  | requested =>
    apply hkeep id
    unfold page_step
    dsimp only
    repeat' split
    all_goals rfl
  | message =>
    apply hkeep id
    unfold page_step
    dsimp only
    repeat' split
    all_goals rfl
  | onerror =>
    apply hkeep id
    unfold page_step
    dsimp only
    split
    all_goals rfl
  | timeout k =>
    apply hkeep id
    unfold page_step
    dsimp only
    split
    · rfl
    · split_ifs with hcurrent
      · exact hcurrent.symm
      · rfl
  | initialised run_id =>
    by_cases hempty : run_id.isEmpty = true
    · exact hkeep (not_not_intro hempty) (by rw [page_step, if_pos hempty])
    · exact hturn hempty (by rw [page_step, if_neg hempty]; rfl)
  | select run_id =>
    by_cases hsame : run_id.isEmpty = true ∨ b.monitor.currentRunId = some run_id
    · exact hkeep (not_not_intro hsame) (by rw [page_step, if_pos hsame])
    · exact hturn hsame (by rw [page_step, if_neg hsame]; rfl)
  | submitted run_id => exact hturn trivial rfl

/-- Until it turns to a run, the page is blank. -/
theorem browse_blank (acts : List Act) : (browse now stringify acts).monitor.currentRunId = none →
    (browse now stringify acts).monitor.view = .blank (lit "idle") ∧
      (browse now stringify acts).monitor.eventSource = none := by
  apply play_keeps (P := fun b : Browser => b.monitor.currentRunId = none →
    b.monitor.view = .blank (lit "idle") ∧ b.monitor.eventSource = none)
  · exact fun _ => ⟨rfl, rfl⟩
  · intro b a h hcurrent
    rcases current_step now stringify b a with ⟨-, hsome⟩ | ⟨hstays, hsame⟩
    · exact absurd hcurrent hsome
    · have hbefore := hsame.symm.trans hcurrent
      obtain ⟨hview, hsource⟩ := h hbefore
      show (b.page_step stringify a).view = _ ∧ (b.page_step stringify a).eventSource = none
      cases a with
      | site a => exact ⟨hview, hsource⟩
      | requested =>
        have hnone : b.page_step stringify .requested = b.monitor := by
          simp only [page_step, hsource]
        rw [hnone]
        exact ⟨hview, hsource⟩
      | message =>
        have hnone : b.page_step stringify .message = b.monitor := by
          simp only [page_step, hsource]
        rw [hnone]
        exact ⟨hview, hsource⟩
      | onerror =>
        have hnone : b.page_step stringify .onerror = b.monitor := by
          simp only [page_step, hsource]
        rw [hnone]
        exact ⟨hview, hsource⟩
      | timeout k =>
        unfold page_step
        dsimp only
        split
        · exact ⟨hview, hsource⟩
        · rw [if_neg (by rw [hbefore]; exact nofun)]
          exact ⟨hview, hsource⟩
      | initialised run_id =>
        rw [page_step, if_pos (not_not.mp hstays)]
        exact ⟨hview, hsource⟩
      | select run_id =>
        rw [page_step, if_pos (not_not.mp hstays)]
        exact ⟨hview, hsource⟩
      | submitted run_id => exact absurd trivial hstays

/-- What the pill says of a run the page has just turned to. -/
def Pristine (pill : PyStr) : Prop := pill = lit "idle" ∨ pill = lit "queued"

variable {now stringify} in
/-- The page turns to a run blank, but where `init` comes after it has turned
    to one already. -/
theorem LastTurn.blank {acts before : List Act} {turn : Act} (h : LastTurn now stringify acts before turn)
    (hprompt : ∀ run_id, turn = .initialised run_id →
      (browse now stringify before).monitor.currentRunId = none) :
    ∃ pill, Pristine pill ∧ (browse now stringify (before ++ [turn])).monitor.view = .blank pill := by
  obtain ⟨rest, -, hturn, -⟩ := h
  rw [browse_snoc]
  show ∃ pill, Pristine pill ∧ ((browse now stringify before).page_step stringify turn).view = .blank pill
  cases turn with
  | site _ | requested | message | onerror | timeout _ => exact absurd hturn id
  | initialised run_id =>
    obtain ⟨hview, -⟩ := browse_blank now stringify before (hprompt run_id rfl)
    refine ⟨lit "idle", Or.inl rfl, ?_⟩
    rw [page_step, if_neg hturn, Monitor.attachStream, hview]
    rfl
  | select run_id =>
    refine ⟨lit "idle", Or.inl rfl, ?_⟩
    rw [page_step, if_neg hturn]
    rfl
  | submitted run_id => exact ⟨lit "queued", Or.inr rfl, rfl⟩

/-! ## The raw log -/

theorem logs_step {now : PyStr → Nat → PyStr} {stringify : Stringify}
    (hline : ∀ card, newline ∉ stringify card) {b : Browser} (h : b.monitor.view.Logs stringify) (a : Act) :
    (b.step now stringify a).monitor.view.Logs stringify := by
  have hblank : ∀ pill, (View.blank pill).Logs stringify := fun _ => View.logs_empty rfl rfl
  show (b.page_step stringify a).view.Logs stringify
  unfold page_step
  cases a with
  | site a => exact h
  | requested =>
    dsimp only
    split
    · split_ifs
      · exact h
      · exact h
    · exact h
  | message =>
    dsimp only
    split
    · exact h
    · split
      · exact h
      · exact View.logs_receive hline h _
  | onerror =>
    dsimp only
    split
    · exact h
    · exact h
  | timeout k =>
    dsimp only
    split
    · exact h
    · split_ifs
      · exact h
      · exact h
  | initialised run_id =>
    dsimp only
    split_ifs
    · exact h
    · exact h
  | select run_id =>
    dsimp only
    split_ifs
    · exact h
    · exact hblank _
  | submitted run_id => exact hblank _

/-- **The raw log** has the lines of the last 499 cards, at every moment. -/
theorem raw_log_bounded (now : PyStr → Nat → PyStr) (stringify : Stringify)
    (hline : ∀ card, newline ∉ stringify card) (acts : List Act) :
    let view := (browse now stringify acts).monitor.view
    view.raw_log = (lastN 499 view.timeline).flatMap fun card => stringify card ++ [newline] := by
  have hlogs : (browse now stringify acts).monitor.view.Logs stringify := by
    apply play_keeps (P := fun b : Browser => b.monitor.view.Logs stringify)
    · exact View.logs_empty rfl rfl
    · intro b a hb
      exact logs_step hline hb a
  have hmax : RAW_LOG_MAX_LINES - 1 = 499 := rfl
  rw [View.Logs, hmax] at hlogs
  exact hlogs

end step

/-! ## A run of the graph -/

section run
variable {W : Type} [Unicode]

/-- What the pill says of the first envelopes of a run of the graph. -/
theorem read_over (env : Env W) (w : W) (n : Nat) (now : Nat → PyStr) (stringify : Stringify)
    (run_id raw_request : PyStr) (base : View) (k : Nat) :
    let es := (drive_run now (served_graph env w n) (RunRecord.new run_id raw_request)).events
    let pc := (ainvoke env n (input_state (build_initial_state run_id raw_request)) w).2.pc
    let shown := (base.read stringify (es.take k)).page.status_pill
    (k < es.length → ¬View.Over base.page.status_pill → ¬View.Over shown) ∧
      (k = es.length → (shown = lit "failed" ∧ ∃ exc, pc = .raised exc) ∨
        (shown = lit "completed" ∧ ∀ exc, pc ≠ .raised exc)) := by
  intro es pc shown
  have hwritten : ∀ e ∈ es, Written e := served_graph_written env w n now run_id raw_request
  obtain ⟨before, terminal, hes, hkind⟩ := served_graph_terminal env w n now run_id raw_request
  have hes : es = before ++ [terminal] := hes
  constructor
  · intro hlt hbase
    obtain ⟨before', terminal', hes', -, hinner⟩ := Site.drive_run_terminal now (served_graph env w n)
      (RunRecord.new run_id raw_request)
    obtain ⟨rfl, -⟩ := List.append_inj' (hes.symm.trans hes') rfl
    have hle : k ≤ before.length := by
      rw [hes, List.length_append, List.length_singleton] at hlt
      omega
    have htake : es.take k = before.take k := by rw [hes, List.take_append_of_le_length hle]
    show ¬View.Over (base.read stringify (es.take k)).page.status_pill
    rw [htake]
    exact View.read_pill (fun e he => hinner e (List.mem_of_mem_take he)) hbase
  · rintro rfl
    have hlast : Written terminal := hwritten terminal (by rw [hes]; simp)
    obtain ⟨frame, hframe⟩ := hlast.formats
    have hshown := (View.receive_pill stringify hframe (base.read stringify before)).1 hlast.parses
    rw [← View.read_snoc _ _ hframe, ← hes] at hshown
    show ((base.read stringify (es.take es.length)).page.status_pill = _ ∧ _) ∨
      ((base.read stringify (es.take es.length)).page.status_pill = _ ∧ _)
    rw [List.take_length]
    rcases hkind with ⟨hkind, hraised⟩ | ⟨hkind, hraised⟩
    · rw [hkind] at hshown
      exact Or.inl ⟨hshown, hraised⟩
    · rw [hkind] at hshown
      exact Or.inr ⟨hshown, hraised⟩

/-- **Neither gaps nor duplicates**: whatever the server and its viewers do,
    whatever the network does to the page's streams, and wherever its user
    goes in between, the page that is on a run of the compiled graph has added
    a card for each of its first envelopes, once and in order, to what it
    showed when it last turned to a run.  That is nothing, but where `init`
    turned it to a run though it was on one.  It says that the run is over when
    it shows all of it, and how it ended, and not before. -/
theorem page_reads_run (env : Env W) (w : W) (n : Nat) (now : PyStr → Nat → PyStr) (stringify : Stringify)
    (acts : List Act) (pre after : List Site.Act) (run_id raw_request : PyStr)
    (hids : (Site.ids (history now stringify acts)).Nodup)
    (hhistory : history now stringify acts = pre ++ .app (.post run_id raw_request) :: after)
    (h : Site.Carried now pre run_id raw_request after
      (served_graph env w n (build_initial_state run_id raw_request) run_id))
    (hcurrent : (browse now stringify acts).monitor.currentRunId = some run_id) :
    let es := (drive_run (now run_id) (served_graph env w n) (RunRecord.new run_id raw_request)).events
    let pc := (ainvoke env n (input_state (build_initial_state run_id raw_request)) w).2.pc
    let b := browse now stringify acts
    ∃ before turn record k, LastTurn now stringify acts before turn ∧
      b.site.app.registry.get run_id = some record ∧ k ≤ record.seq_counter ∧
      record.seq_counter ≤ es.length ∧
      let base := (browse now stringify (before ++ [turn])).monitor.view
      b.monitor.view = base.read stringify (es.take k) ∧
      b.monitor.view.numbers = base.numbers ++ (List.range' 1 k).map (fun i => some (.number (str_int i))) ∧
      (k = es.length →
        (b.monitor.view.page.status_pill = lit "failed" ∧ ∃ exc, pc = .raised exc) ∨
        (b.monitor.view.page.status_pill = lit "completed" ∧ ∀ exc, pc ≠ .raised exc)) ∧
      ((∀ run_id, turn = .initialised run_id → (browse now stringify before).monitor.currentRunId = none) →
        (∃ pill, Pristine pill ∧ base = .blank pill) ∧
        (k < es.length → b.monitor.view.page.status_pill ≠ lit "completed" ∧
          b.monitor.view.page.status_pill ≠ lit "failed")) := by
  intro es pc b
  have hnumbered : Numbered es :=
    (drive_run_spec (now run_id) (served_graph env w n) (RunRecord.new run_id raw_request)).2.1.seqs
  have hwritten : ∀ e ∈ es, Written e := served_graph_written env w n (now run_id) run_id raw_request
  have hroom : es.length ≤ BACKLOG_MAXLEN :=
    Nat.le_of_lt (served_graph_few env w n (now run_id) run_id raw_request)
  have hinv : Inv now stringify (Base now stringify acts)
      (pre ++ .app (.post run_id raw_request) :: after) b :=
    hhistory ▸ browse_inv now stringify acts hids
  -- the stream that the page reads is that of the run
  obtain ⟨s₀, hshows₀, hlog₀, hemitted, record, hget, hcounter⟩ :
      ∃ s₀, b.site.Shows run_id s₀ ∧ Logged s₀ ∧ s₀.emitted <+: es ∧
        ∃ record, b.site.app.registry.get run_id = some record ∧
          record.seq_counter = s₀.emitted.length := by
    obtain ⟨hemitted, -, hrecord⟩ := h.emitted
    rw [hinv.site]
    exact ⟨_, h.shows, serve_logged _ _ _, hemitted, hrecord⟩
  obtain ⟨base, k, hbase, hk, hview⟩ : ∃ base k, Base now stringify acts base ∧
      k ≤ s₀.emitted.length ∧ b.monitor.view = base.read stringify (s₀.emitted.take k) := by
    cases hinv.follows run_id hcurrent with
    | waits hnone _ =>
      rw [hnone] at hget
      cases hget
    | reads s hshows hlog hreads =>
      have hsame := hshows.emitted_unique hshows₀ hlog hlog₀ (hemitted.length_le.trans hroom)
      rw [hsame] at hreads
      obtain ⟨base, k, hbase, hk, hview, -⟩ := hreads (hemitted.length_le.trans hroom)
      rw [hsame] at hk hview
      exact ⟨base, k, hbase.known, hk, hview⟩
  obtain ⟨before, turn, hturn, rfl⟩ := hbase
  have htake : s₀.emitted.take k = es.take k := by
    obtain ⟨more, hmore⟩ := hemitted
    rw [← hmore, List.take_append_of_le_length hk]
  have hkes : k ≤ es.length := hk.trans hemitted.length_le
  rw [htake] at hview
  obtain ⟨hinner, hover⟩ := read_over env w n (now run_id) stringify run_id raw_request
    (browse now stringify (before ++ [turn])).monitor.view k
  refine ⟨before, turn, record, k, hturn, hget, hcounter ▸ hk, hcounter ▸ hemitted.length_le, hview,
    ?_, ?_, ?_⟩
  · have hnumbers := View.read_numbers stringify
      (hnumbered.of_prefix (List.take_prefix k es)) (fun e he => hwritten e (List.mem_of_mem_take he))
      (browse now stringify (before ++ [turn])).monitor.view
    rw [List.length_take_of_le hkes] at hnumbers
    rw [hview]
    exact hnumbers
  · intro hall
    rw [hview]
    exact hover hall
  · intro hprompt
    obtain ⟨pill, hpristine, hblank⟩ := hturn.blank hprompt
    refine ⟨⟨pill, hpristine, hblank⟩, ?_⟩
    intro hlt
    rw [hview]
    apply not_or.mp (hinner hlt _)
    rw [hblank]
    rcases hpristine with rfl | rfl
    · unfold View.Over
      decide
    · unfold View.Over
      decide

end run

/-! ## A small run -/

section small
attribute [local instance] Unicode.ascii

theorem translated_sites (now : PyStr → Nat → PyStr) (stringify : Stringify) (b : Browser)
    (acts : List Site.Act) : translated (step now stringify) requests b (acts.map .site) = acts := by
  induction acts generalizing b with
  | nil => rfl
  | cons a acts ih =>
    rw [List.map_cons, translated, ih]
    rfl

theorem requests_requested {b : Browser} {run_id after : PyStr} {k : Int}
    (hsource : b.monitor.eventSource = some { run_id := run_id, after := after })
    (hafter : parseInt after = some k) : b.requests .requested = [.viewer run_id (.stream k)] := by
  simp only [requests, hsource, hafter]

def small_browse : List Act → Browser := browse (fun _ _ => []) (fun _ => [])

/-- The page submits a request, and its run goes on without it. -/
def submits : List Act :=
  [.initialised [], .site (.app (.post (lit "r") (lit "x"))), .submitted (lit "r")] ++
    Site.failing_acts.map .site

/-- It reads an envelope, and loses the stream. -/
def loses : List Act :=
  submits ++ .requested :: [.site (.viewer (lit "r") (.resume 0)), .message, .onerror, .timeout 0]

/-- It comes back, and reads the next one. -/
def visit : List Act := loses ++ .requested :: [.site (.viewer (lit "r") (.resume 1)), .message]

def after_post : List Site.Act :=
  Site.failing_acts ++ [.viewer (lit "r") (.stream 0), .viewer (lit "r") (.resume 0),
    .viewer (lit "r") (.stream 1), .viewer (lit "r") (.resume 1)]

theorem history_visit : history (fun _ _ => []) (fun _ => []) visit =
    [] ++ .app (.post (lit "r") (lit "x")) :: after_post := by
  have hsubmits : (small_browse submits).requests .requested = [.viewer (lit "r") (.stream 0)] := by
    have hsource : (small_browse submits).monitor.eventSource =
        some { run_id := lit "r", after := lit "0" } := by decide +kernel
    exact requests_requested hsource (by decide +kernel)
  have hloses : (small_browse loses).requests .requested = [.viewer (lit "r") (.stream 1)] := by
    have hsource : (small_browse loses).monitor.eventSource =
        some { run_id := lit "r", after := lit "1" } := by decide +kernel
    exact requests_requested hsource (by decide +kernel)
  have hrequests : ∀ acts acts' : List Act, history (fun _ _ => []) (fun _ => []) (acts ++ acts') =
      history (fun _ _ => []) (fun _ => []) acts ++
        translated (step (fun _ _ => []) (fun _ => [])) requests (small_browse acts) acts' :=
    fun acts acts' => translated_append _ acts acts'
  have hfirst : history (fun _ _ => []) (fun _ => []) submits =
      .app (.post (lit "r") (lit "x")) :: Site.failing_acts := by
    rw [submits, hrequests, translated_sites]
    rfl
  have hsecond : history (fun _ _ => []) (fun _ => []) loses = .app (.post (lit "r") (lit "x")) ::
      Site.failing_acts ++ [.viewer (lit "r") (.stream 0), .viewer (lit "r") (.resume 0)] := by
    rw [loses, hrequests, hfirst, translated, hsubmits]
    rfl
  rw [visit, hrequests, hsecond, translated, hloses, List.append_assoc]
  rfl

theorem page_reads_run_visit : ¬View.Over (small_browse visit).monitor.view.page.status_pill ∧
    (small_browse visit).monitor.view.numbers =
      (List.range' 1 2).map fun n => some (.number (str_int n)) := by
  have hcarried : Site.Carried (fun _ _ => []) [] (lit "r") (lit "x") after_post Site.failing := by
    refine ⟨rfl, rfl, ?_⟩
    have hown : after_post.flatMap Site.Act.own = App.task_acts (lit "r") Site.failing := by
      rw [after_post, List.flatMap_append, Site.failing_acts, Site.own_apps]
      exact List.append_nil _
    rw [hown, Site.filter_task_acts]
  have hids : (Site.ids (history (fun _ _ => []) (fun _ => []) visit)).Nodup := by
    rw [history_visit]
    decide +kernel
  have hreads := page_reads_run Site.unreachable false 15 (fun _ _ => []) (fun _ => []) visit []
    after_post (lit "r") (lit "x") hids history_visit hcarried (by decide +kernel)
  dsimp only at hreads
  rw [← small_browse] at hreads
  obtain ⟨before, turn, record, k, hturn, -, -, -, -, hnumbers, -, hblank⟩ := hreads
  have hprompt : ∀ r, turn = .initialised r → (small_browse before).monitor.currentRunId = none := by
    rintro r rfl
    obtain ⟨rest, hacts, hturns, -⟩ := hturn
    have hmem : Act.initialised r ∈ visit := by rw [hacts]; simp
    obtain rfl : r = [] := by simpa [visit, loses, submits, Site.failing_acts] using hmem
    exact absurd rfl hturns
  obtain ⟨⟨pill, -, hbase⟩, hinner⟩ := hblank hprompt
  have hnone : (View.blank pill).numbers = [] := rfl
  rw [hbase, hnone, List.nil_append] at hnumbers
  have hcards : (small_browse visit).monitor.view.numbers.length = 2 := by decide +kernel
  rw [hnumbers, List.length_map, List.length_range'] at hcards
  subst hcards
  exact ⟨not_or.mpr (hinner (by decide +kernel)), hnumbers⟩

/-- A late `init` shows the first card again. -/
example : ((small_browse (loses ++ [.initialised (lit "r"), .requested,
    .site (.viewer (lit "r") (.resume 1)), .message])).monitor.view.numbers.map fun number =>
      match number with
      | some (.number text) => text
      | _ => []) = [lit "1", lit "1"] := by
  decide +kernel

/-- `JSON.stringify` of the envelopes of a short run. -/
def small_stringify (card : Json.Value) : PyStr :=
  let update (seq : String) : PyStr := lit ("\x7b\"seq\":" ++ seq ++
    ",\"ts\":\"\",\"run_id\":\"r\",\"kind\":\"node_update\",\"node\":\"a\",\"payload\":\x7b\x7d\x7d")
  match Page.prop "seq" card with
  | some (.number seq) =>
    if seq = lit "1" then
      lit ("\x7b\"seq\":1,\"ts\":\"\",\"run_id\":\"r\",\"kind\":\"run_started\",\"node\":null," ++
        "\"payload\":\x7b\"raw_request\":\"x\"\x7d\x7d")
    else if seq = lit "2" then update "2"
    else if seq = lit "3" then update "3"
    else if seq = lit "4" then update "4"
    else if seq = lit "5" then update "5"
    else []
  | _ => []

theorem small_stringify_line (card : Json.Value) : newline ∉ small_stringify card := by
  unfold small_stringify
  split
  · dsimp only
    split_ifs
    all_goals decide +kernel
  · exact List.not_mem_nil

/-- The short run, and a page that reads it all once more each time that it
    is initialised. -/
def rereads (times : Nat) : List Act :=
  [.site (.app (.post (lit "r") (lit "x"))), .site (.app (.start (lit "r"))),
    .site (.app (.update (lit "r") (List.replicate 4 (lit "a", .dict []))))] ++
  (List.range times).flatMap fun i => [.initialised (lit "r"), .requested] ++
    (List.replicate 5 (.site (.viewer (lit "r") (.resume i))) ++ List.replicate 5 .message)

/-- Of 505 cards, the log has 499 lines. -/
theorem raw_log_bounded_cut :
    let view := (browse (fun _ _ => []) small_stringify (rereads 101)).monitor.view
    view.timeline.length = 505 ∧ view.raw_log.count newline = 499 := by
  have hlog := raw_log_bounded (fun _ _ => []) small_stringify small_stringify_line (rereads 101)
  have hcards : (browse (fun _ _ => []) small_stringify (rereads 101)).monitor.view.timeline.length = 505 := by
    decide +kernel
  generalize (browse (fun _ _ => []) small_stringify (rereads 101)).monitor.view = view at hlog hcards ⊢
  have hlines : ∀ cards : List Json.Value,
      (cards.flatMap fun card => small_stringify card ++ [newline]).count newline = cards.length := by
    intro cards
    induction cards with
    | nil => rfl
    | cons card cards ih =>
      rw [List.flatMap_cons, List.count_append, List.count_append, ih,
        List.count_eq_zero_of_not_mem (small_stringify_line card), List.count_singleton_self, List.length_cons]
      omega
  refine ⟨hcards, ?_⟩
  rw [hlog, hlines, lastN, List.length_drop, hcards]

end small

end Browser

end Syndicate.Server
