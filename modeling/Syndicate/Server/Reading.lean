import Syndicate.Server.Browser
import Syndicate.Server.Encodes

/-! # What a page has read

    A page that reads the envelopes of a run from the first on, in whatever
    pieces, has a cursor: the number of the last one that parsed.  What it
    showed before stays above the cards that it adds. -/

namespace Syndicate.Server

open Py Framework

namespace View

variable (stringify : Stringify)

/-- What the page shows after these envelopes, each in a frame. -/
def read (view : View) (es : List Envelope) : View :=
  es.foldl (fun view e => (format_sse e).toOption.elim view (view.receive stringify)) view

variable {stringify}

theorem read_snoc (view : View) (es : List Envelope) {e : Envelope} {frame : PyStr}
    (h : format_sse e = .ok frame) :
    view.read stringify (es ++ [e]) = (view.read stringify es).receive stringify frame := by
  rw [read, List.foldl_append, List.foldl_cons, h]
  rfl

theorem last_seq_onmessage {data text : PyStr} {envelope : Json.Value} (h : Json.loads data = some envelope)
    (hseq : Page.prop "seq" envelope = some (.number text)) (page : Page) :
    (page.onmessage data).last_seq = text := by
  have hset : ∀ status page, (Page.set_status_pill status page).last_seq = page.last_seq := fun _ _ => rfl
  unfold Page.onmessage
  rw [h]
  simp only [hseq, Page.set_last_seq]
  split_ifs <;> simp only [hset]

/-- A card with this number is added, and the cursor set to it. -/
structure Adds (n : Nat) (view view' : View) : Prop where
  last_seq : view'.page.last_seq = str_int n
  timeline : ∃ card, view'.timeline = view.timeline ++ [card] ∧
    Page.prop "seq" card = some (.number (str_int n))

/-- **One frame** adds the card of its envelope, or changes nothing where the
    payload is no JSON. -/
theorem receive_cases (stringify : Stringify) {e : Envelope} {frame : PyStr} {n : Nat}
    (h : format_sse e = .ok frame) (hseq : e.seq = some n) (view : View) :
    (Parses e.payload ∧ Adds n view (view.receive stringify frame)) ∨
      (¬Parses e.payload ∧ view.receive stringify frame = view) := by
  rw [← format_sse_toObj] at h
  obtain ⟨ts, hts, rfl⟩ := Payload.format_sse_eq_ok.mp h
  have hparse := Payload.parse_text hts []
  rw [List.append_nil] at hparse
  have hreceive : view.receive stringify (lit "data: " ++ e.toObj.text ts ++ lit "\n\n") =
      view.onmessage stringify (e.toObj.text ts) := by
    rw [receive, hparse]
    rfl
  rw [hreceive, parses_iff hts]
  by_cases hstrict : ts.all Json.Token.strict = true
  · left
    obtain ⟨v, hv⟩ := (Payload.loads_text hts).2 hstrict
    have hnumber := (Payload.member_parts Json.joinPairs e.toObj (ts.map Json.Token.read) v).1
    have hown : e.toObj.seq = some n := hseq
    rw [hown] at hnumber
    refine ⟨hstrict, ?_⟩
    unfold onmessage
    rw [hv]
    exact ⟨last_seq_onmessage hv hnumber view.page, _, rfl, hnumber⟩
  · right
    have hnone := (Payload.loads_text hts).1 (Bool.eq_false_of_not_eq_true hstrict)
    refine ⟨hstrict, ?_⟩
    unfold onmessage
    rw [hnone]

/-- Where the cursor stands: what comes after it, of what has been read, has
    changed nothing. -/
theorem read_seq (stringify : Stringify) {es : List Envelope} (hnumbered : Numbered es) {base : View}
    (hbase : base.page.last_seq = lit "0") :
    ∃ k ≤ es.length, (base.read stringify es).page.last_seq = str_int k ∧
      base.read stringify (es.take k) = base.read stringify es := by
  induction es using List.reverseRecOn with
  | nil => exact ⟨0, Nat.le_refl 0, hbase, rfl⟩
  | append_singleton es e ih =>
    obtain ⟨hes, hseq⟩ := numbered_snoc.mp hnumbered
    obtain ⟨k, hk, hlast, hsame⟩ := ih hes
    -- the last one is passed over, or sets the cursor to itself
    have hread : base.read stringify (es ++ [e]) = base.read stringify es ∨
        (base.read stringify (es ++ [e])).page.last_seq = str_int (es.length + 1) := by
      cases hframe : format_sse e with
      | error exc =>
        left
        rw [read, List.foldl_append, List.foldl_cons, hframe]
        rfl
      | ok frame =>
        rw [read_snoc _ _ hframe]
        rcases receive_cases stringify hframe hseq (base.read stringify es) with
          ⟨-, hadds⟩ | ⟨-, hsame⟩
        · exact Or.inr hadds.last_seq
        · exact Or.inl hsame
    rw [List.length_append, List.length_singleton]
    rcases hread with hread | hread
    · refine ⟨k, Nat.le_succ_of_le hk, hread ▸ hlast, ?_⟩
      rw [List.take_append_of_le_length hk, hsame, hread]
    · refine ⟨es.length + 1, Nat.le_refl _, hread, ?_⟩
      rw [List.take_of_length_le (by rw [List.length_append, List.length_singleton])]

/-! ## What can be encoded -/

/-- The numbers on the cards. -/
def numbers (view : View) : List (Option Json.Value) := view.timeline.map (Page.prop "seq")

/-- **A card for each**: the cards that are added are those of the envelopes,
    once each, in order. -/
theorem read_numbers [Unicode] (stringify : Stringify) {es : List Envelope} (hnumbered : Numbered es)
    (hwritten : ∀ e ∈ es, Written e) (base : View) : (base.read stringify es).numbers =
      base.numbers ++ (List.range' 1 es.length).map fun n => some (.number (str_int n)) := by
  induction es using List.reverseRecOn with
  | nil => exact (List.append_nil _).symm
  | append_singleton es e ih =>
    obtain ⟨hes, hseq⟩ := numbered_snoc.mp hnumbered
    have hlast : Written e := hwritten e (List.mem_append_right _ List.mem_cons_self)
    obtain ⟨frame, hframe⟩ := hlast.formats
    have hrest := ih hes fun e he => hwritten e (List.mem_append_left _ he)
    rw [read_snoc _ _ hframe, List.length_append, List.length_singleton, List.range'_1_concat, List.map_append,
      ← List.append_assoc, ← hrest]
    rcases receive_cases stringify hframe hseq (base.read stringify es) with
      ⟨-, hadds⟩ | ⟨hlax, -⟩
    · obtain ⟨card, hcard, hnumber⟩ := hadds.timeline
      rw [numbers, hcard, List.map_append, List.map_singleton, hnumber, Nat.add_comm 1]
      rfl
    · exact absurd hlast.parses hlax

/-- The cursor and the pill are those of the page alone. -/
theorem receive_page (view : View) (frame : PyStr) :
    (view.receive stringify frame).page = view.page.watch frame := by
  rw [receive, Page.watch]
  generalize EventStream.parse frame = data
  induction data generalizing view with
  | nil => rfl
  | cons text data ih =>
    rw [List.foldl_cons, List.foldl_cons, ih]
    congr 1
    unfold onmessage
    cases hloads : Json.loads text with
    | none => rw [onmessage_none hloads]
    | some envelope =>
      cases envelope with
      | null =>
        unfold Page.onmessage
        rw [hloads]
        rfl
      | _ => rfl

/-- The run is over, says the pill. -/
def Over (pill : PyStr) : Prop := pill = lit "completed" ∨ pill = lit "failed"

theorem shows_inner {kind : EventKind} (h : kind.terminal = false) {before after : PyStr}
    (hshows : kind.shows before after) (hbefore : ¬Over before) : ¬Over after := by
  cases kind with
  | run_completed | run_failed => cases h
  | run_started =>
    obtain rfl : after = lit "running" := hshows
    unfold Over
    decide
  | escalation =>
    rcases hshows with rfl | rfl
    · exact hbefore
    · unfold Over
      decide
  | node_update | attempt | heartbeat =>
    obtain rfl : after = before := hshows
    exact hbefore

theorem receive_pill (stringify : Stringify) {e : Envelope} {frame : PyStr} (h : format_sse e = .ok frame)
    (view : View) :
    (Parses e.payload →
        e.kind.shows view.page.status_pill (view.receive stringify frame).page.status_pill) ∧
      (¬Parses e.payload → (view.receive stringify frame).page = view.page) := by
  obtain ⟨page', hwatch, hshows, hsame⟩ := watch_frame h view.page []
  rw [List.append_nil] at hwatch
  have hpage : (view.receive stringify frame).page = page' := (receive_page view frame).trans hwatch
  rw [hpage]
  exact ⟨hshows, hsame⟩

/-- Before its last envelope no run is over. -/
theorem read_pill {es : List Envelope} (hinner : NoTerminal es) {view : View}
    (hview : ¬Over view.page.status_pill) : ¬Over (view.read stringify es).page.status_pill := by
  induction es using List.reverseRecOn with
  | nil => exact hview
  | append_singleton es e ih =>
    have hbefore := ih fun e he => hinner e (List.mem_append_left _ he)
    have hkind := hinner e (List.mem_append_right _ List.mem_cons_self)
    cases hframe : format_sse e with
    | error exc =>
      have hsame : view.read stringify (es ++ [e]) = view.read stringify es := by
        rw [read, List.foldl_append, List.foldl_cons, hframe]
        rfl
      rwa [hsame]
    | ok frame =>
      rw [read_snoc _ _ hframe]
      obtain ⟨hshows, hsame⟩ := receive_pill stringify hframe (view.read stringify es)
      by_cases hparses : Parses e.payload
      · exact shows_inner hkind (hshows hparses) hbefore
      · rwa [hsame hparses]

/-! ## The raw log -/

/-- The line of a card. -/
def line (stringify : Stringify) (card : Json.Value) : PyStr := stringify card ++ [newline]

/-- **Invariant**: the raw log has the lines of the last cards, but one less
    than `RAW_LOG_MAX_LINES`: what is behind the last newline counts, too. -/
def Logs (stringify : Stringify) (view : View) : Prop :=
  view.raw_log = (lastN (RAW_LOG_MAX_LINES - 1) view.timeline).flatMap (line stringify)

theorem logs_empty {view : View} (hlog : view.raw_log = []) (hcards : view.timeline = []) :
    view.Logs stringify := by
  rw [Logs, hlog, hcards, lastN, List.drop_nil, List.flatMap_nil]

theorem join_lines (texts : List PyStr) :
    join [newline] (texts ++ [[]]) = texts.flatMap (· ++ [newline]) := by
  induction texts with
  | nil => rfl
  | cons text texts ih =>
    obtain ⟨next, rest, hrest⟩ := List.exists_cons_of_ne_nil (l := texts ++ [[]]) (by simp)
    have hcons : join [newline] (text :: texts ++ [[]]) =
        text ++ [newline] ++ join [newline] (texts ++ [[]]) := by
      rw [List.cons_append, hrest]
      simp [join, List.intercalate]
    rw [hcons, ih, List.flatMap_cons]

theorem split_lines {texts : List PyStr} (h : ∀ text ∈ texts, newline ∉ text) :
    (texts.flatMap (· ++ [newline])).splitOn newline = texts ++ [[]] := by
  rw [← join_lines]
  apply List.splitOn_intercalate
  · intro text htext
    rcases List.mem_append.mp htext with htext | htext
    · exact h text htext
    · rw [List.mem_singleton.mp htext]
      exact List.not_mem_nil
  · simp

theorem lastN_snoc {α : Type} (n : Nat) (xs : List α) (x : α) :
    lastN (n + 1) (lastN (n + 1) xs ++ [x]) = lastN (n + 1) (xs ++ [x]) := by
  unfold lastN
  rw [List.length_append, List.length_append, List.length_singleton, List.length_drop]
  by_cases hle : xs.length ≤ n
  · have hnone : xs.length - (n + 1) = 0 := by omega
    rw [hnone, List.drop_zero, Nat.sub_zero]
  · have hcut : xs.drop (xs.length - (n + 1)) ++ [x] = (xs ++ [x]).drop (xs.length - (n + 1)) := by
      rw [List.drop_append_of_le_length (by omega)]
    rw [hcut, List.drop_drop]
    congr 1
    omega

/-- A line more, and where there are too many, the first ones less. -/
theorem append_raw_line_lines (hline : ∀ card, newline ∉ stringify card) (cards : List Json.Value)
    (card : Json.Value) : append_raw_line stringify card (cards.flatMap (line stringify)) =
      (lastN (RAW_LOG_MAX_LINES - 1) (cards ++ [card])).flatMap (line stringify) := by
  have hlines : ∀ cards : List Json.Value,
      cards.flatMap (line stringify) = (cards.map stringify).flatMap (· ++ [newline]) := by
    intro cards
    rw [List.flatMap_map]
    rfl
  have hsplit : ((cards ++ [card]).flatMap (line stringify)).splitOn newline =
      (cards ++ [card]).map stringify ++ [[]] := by
    rw [hlines]
    apply split_lines
    intro text htext
    obtain ⟨card, -, rfl⟩ := List.mem_map.mp htext
    exact hline card
  have htext : cards.flatMap (line stringify) ++ stringify card ++ [newline] =
      (cards ++ [card]).flatMap (line stringify) := by
    rw [List.flatMap_append, List.flatMap_singleton, List.append_assoc]
    rfl
  have hmax : RAW_LOG_MAX_LINES = 500 := rfl
  have hcount : ((cards ++ [card]).map stringify ++ [[]]).length = (cards ++ [card]).length + 1 := by
    rw [List.length_append, List.length_map, List.length_singleton]
  unfold append_raw_line
  dsimp only
  rw [htext, hsplit, hcount, lastN, hmax]
  split_ifs with hmany
  · -- what is behind the last newline is the last one to stay
    have hdrop : (cards ++ [card]).length + 1 - 500 = (cards ++ [card]).length - (500 - 1) := by omega
    have hle : (cards ++ [card]).length - (500 - 1) ≤ ((cards ++ [card]).map stringify).length := by
      rw [List.length_map]
      omega
    rw [hdrop, List.drop_append_of_le_length hle, ← List.map_drop, join_lines, ← hlines]
  · have hnone : (cards ++ [card]).length - (500 - 1) = 0 := by omega
    rw [hnone, List.drop_zero]

theorem logs_onmessage (hline : ∀ card, newline ∉ stringify card) {view : View} (h : view.Logs stringify)
    (data : PyStr) : (view.onmessage stringify data).Logs stringify := by
  unfold onmessage
  split
  · exact h
  · exact h
  · rename_i envelope _ _
    show append_raw_line stringify envelope view.raw_log = _
    rw [h, append_raw_line_lines hline]
    exact congrArg (List.flatMap (line stringify)) (lastN_snoc 498 view.timeline envelope)

theorem logs_receive (hline : ∀ card, newline ∉ stringify card) {view : View} (h : view.Logs stringify)
    (frame : PyStr) : (view.receive stringify frame).Logs stringify := by
  unfold receive
  generalize EventStream.parse frame = data
  induction data generalizing view with
  | nil => exact h
  | cons text data ih => exact ih (logs_onmessage hline h text)

end View

end Syndicate.Server
