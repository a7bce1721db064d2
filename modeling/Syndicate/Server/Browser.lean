import Syndicate.Server.Monitor
import Syndicate.Server.Viewers

/-! # `server/static/app.js`: a page and its event source

    The page is a viewer that remembers how far it has got: when its event
    source fails, it opens another one after the last number it has seen.  It
    may turn to another run at any time, and a reconnect it has scheduled may
    come late.  So may `init`: it waits for two answers of the server while
    the selector and the prompt are there already.

    Left out are the state and ledger tabs, the run list, the prompt, and how
    a card looks. -/

namespace Syndicate.Server

open Py Framework

/-! ## What the page shows -/

/-- `JSON.stringify` is up to the browser. -/
abbrev Stringify := Json.Value → PyStr

/-- `RAW_LOG_MAX_LINES`. -/
def RAW_LOG_MAX_LINES : Nat := 500

def newline : CodePoint := CodePoint.ofChar '\n'

/-- What the events of a stream change of the page: `lastSeq` and the pill,
    the envelopes with a card, and the text of `rawLogEl`. -/
structure View where
  page : Page
  timeline : List Json.Value := []
  raw_log : PyStr := []

namespace View

variable (stringify : Stringify)

/-- `appendRawLine`. -/
def append_raw_line (envelope : Json.Value) (raw_log : PyStr) : PyStr :=
  let text := raw_log ++ stringify envelope ++ [newline]
  let lines := text.splitOn newline
  if RAW_LOG_MAX_LINES < lines.length then
    join [newline] (lines.drop (lines.length - RAW_LOG_MAX_LINES))
  else text

/-- `eventSource.onmessage`: the text that is no JSON is passed over, and at
    `null` the first property raises. -/
def onmessage (view : View) (data : PyStr) : View :=
  match Json.loads data with
  | none | some .null => view
  | some envelope =>
    { page := view.page.onmessage data
      timeline := view.timeline ++ [envelope]
      raw_log := append_raw_line stringify envelope view.raw_log }

/-- A frame dispatches the events in it. -/
def receive (view : View) (frame : PyStr) : View :=
  (EventStream.parse frame).foldl (onmessage stringify) view

/-- The page of a run it turns to. -/
def blank (pill : PyStr) : View where
  page := { last_seq := lit "0", status_pill := pill }

end View

/-! ## The page -/

/-- An `EventSource`: the `after` of its URL, the connection the server has
    opened for it, and how many frames it has dispatched. -/
structure EventSource where
  run_id : PyStr
  after : PyStr
  conn : Option Nat := none
  dispatched : Nat := 0
  deriving DecidableEq

structure Monitor where
  view : View := .blank (lit "idle")
  currentRunId : Option PyStr := none
  eventSource : Option EventSource := none
  /-- The reconnects that `setTimeout` has scheduled, each for a run. -/
  timeouts : List PyStr := []

namespace Monitor

/-- `attachStream`, whatever `afterSeq` is. -/
def attachStream (run_id after : PyStr) (m : Monitor) : Monitor :=
  { m with
    view := { m.view with page := { m.view.page with last_seq := after } }
    currentRunId := some run_id
    eventSource := some { run_id := run_id, after := after } }

/-- The page turns to a run: cards and raw log go. -/
def turnTo (run_id pill : PyStr) (m : Monitor) : Monitor :=
  attachStream run_id (lit "0") { m with view := .blank pill }

end Monitor

/-! ## The page and the server -/

structure Browser where
  site : Site := {}
  monitor : Monitor := {}

namespace Browser

inductive Act where
  /-- Anything the server or another viewer does. -/
  | site (a : Site.Act)
  /-- The request of the event source reaches the server. -/
  | requested
  /-- The next frame reaches the event source. -/
  | message
  /-- `eventSource.onerror`: the stream is over, or the network fails. -/
  | onerror
  /-- The `k`-th scheduled reconnect is due. -/
  | timeout (k : Nat)
  /-- `init` has its answers, and reads the value of the selector. -/
  | initialised (run_id : PyStr)
  /-- The `change` of the selector. -/
  | select (run_id : PyStr)
  /-- A `POST /runs` of the page is answered with this run. -/
  | submitted (run_id : PyStr)

section step
variable [Unicode] (now : PyStr → Nat → PyStr) (stringify : Stringify)

/-- What an act is to the server. -/
def requests (b : Browser) : Act → List Site.Act
  | .site a => [a]
  | .requested =>
    match b.monitor.eventSource with
    | some { run_id, after, conn := none, .. } =>
      match parseInt after with
      | some after => [.viewer run_id (.stream after)]
      | none => []
    | _ => []
  | _ => []

/-- The frame that the event source has yet to dispatch. -/
def next_frame (b : Browser) (source : EventSource) : Option PyStr := do
  let i ← source.conn
  let c ← (b.site.viewers source.run_id)[i]?
  let e ← c.yielded[source.dispatched]?
  (format_sse e).toOption

/-- What an act changes of the page. -/
def page_step (b : Browser) : Act → Monitor
  | .site _ => b.monitor
  | .requested =>
    match b.monitor.eventSource with
    | some { run_id, after, conn := none, dispatched } =>
      -- a run that is not there is a `404`
      if (parseInt after).isSome ∧ (b.site.app.registry.get run_id).isSome then
        { b.monitor with
          eventSource := some
            { run_id, after, conn := some (b.site.viewers run_id).length, dispatched } }
      else b.monitor
    | _ => b.monitor
  | .message =>
    match b.monitor.eventSource with
    | none => b.monitor
    | some source =>
      match b.next_frame source with
      | none => b.monitor
      | some frame =>
        { b.monitor with
          view := b.monitor.view.receive stringify frame
          eventSource := some { source with dispatched := source.dispatched + 1 } }
  | .onerror =>
    match b.monitor.eventSource with
    | none => b.monitor
    | some source =>
      { b.monitor with eventSource := none, timeouts := b.monitor.timeouts ++ [source.run_id] }
  | .timeout k =>
    match b.monitor.timeouts[k]? with
    | none => b.monitor
    | some run_id =>
      let m := { b.monitor with timeouts := b.monitor.timeouts.eraseIdx k }
      if m.currentRunId = some run_id then m.attachStream run_id m.view.page.last_seq else m
  | .initialised run_id =>
    -- what the page shows stays
    if run_id.isEmpty then b.monitor else b.monitor.attachStream run_id (lit "0")
  | .select run_id =>
    if run_id.isEmpty ∨ b.monitor.currentRunId = some run_id then b.monitor
    else b.monitor.turnTo run_id (lit "idle")
  | .submitted run_id => b.monitor.turnTo run_id (lit "queued")

def step (b : Browser) (a : Act) : Browser where
  site := play (Site.step now) b.site (b.requests a)
  monitor := b.page_step stringify a

/-- A schedule, from the blank page on. -/
def browse (acts : List Act) : Browser := play (step now stringify) {} acts

/-- What the schedule was to the server. -/
def history (acts : List Act) : List Site.Act := translated (step now stringify) requests {} acts

/-- The page turns to a run, which it reads from the beginning. -/
def Turns (b : Browser) : Act → Prop
  | .initialised run_id => ¬run_id.isEmpty
  | .select run_id => ¬(run_id.isEmpty ∨ b.monitor.currentRunId = some run_id)
  | .submitted _ => True
  | _ => False

/-- The act with which the page last turned to a run, and what came before. -/
def LastTurn (acts before : List Act) (turn : Act) : Prop :=
  ∃ rest, acts = before ++ turn :: rest ∧ (browse now stringify before).Turns turn ∧
    Past (fun mid a => ¬(browse now stringify (before ++ turn :: mid)).Turns a) rest

end step

end Browser

end Syndicate.Server
