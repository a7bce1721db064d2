import Syndicate.Py.Str

/-! # Event streams

    What a browser makes of a `text/event-stream`: lines, and of these the
    data of events.  A comment, and a field other than `data`, adds nothing
    to an event's data. -/

namespace Syndicate.EventStream

open Py

/-- The lines that end in a text: an LF, a CR or a CR LF ends one.  `line` is
    what was read of the next line, `cr` whether a CR was read last. -/
def lines (line : PyStr) (cr : Bool) : PyStr → List PyStr
  | [] => []
  | c :: rest =>
    if c.val = 10 then
      -- the LF of a CR LF ends no second line
      if cr then lines [] false rest else line :: lines [] false rest
    else if c.val = 13 then line :: lines [] true rest
    else lines (line ++ [c]) false rest

/-- The value of a `data` field; one blank behind the colon is dropped. -/
def data_field (line : PyStr) : Option PyStr :=
  if line = lit "data" then some []
  else if (lit "data: ").isPrefixOf line then some (line.drop 6)
  else if (lit "data:").isPrefixOf line then some (line.drop 5)
  else none

/-- The data of the events that these lines complete: an empty line sends an
    event off, if any data was read for it. -/
def events (buffer : Option PyStr) : List PyStr → List PyStr
  | [] => []
  | [] :: rest =>
    match buffer with
    | some data => data :: events none rest
    | none => events none rest
  | line :: rest =>
    match data_field line, buffer with
    | some value, some data => events (some (data ++ lit "\n" ++ value)) rest
    | some value, none => events (some value) rest
    | none, _ => events buffer rest

/-- The data of the events of a stream. -/
def parse (s : PyStr) : List PyStr := events none (lines [] false s)

/-- A character that ends no line. -/
def isInline (c : CodePoint) : Bool := c.val != 10 && c.val != 13

theorem lines_inline {text : PyStr} (h : text.all isInline = true) (line rest : PyStr) :
    lines line false (text ++ CodePoint.ofChar '\n' :: rest) =
      (line ++ text) :: lines [] false rest := by
  induction text generalizing line with
  | nil =>
    rw [List.append_nil]
    rfl
  | cons c text ih =>
    rw [List.all_cons, Bool.and_eq_true] at h
    have hc : c.val ≠ 10 ∧ c.val ≠ 13 := by
      simpa [isInline] using h.1
    rw [List.cons_append, lines, if_neg hc.1, if_neg hc.2, ih h.2, List.append_assoc]
    rfl

theorem data_field_data (data : PyStr) : data_field (lit "data: " ++ data) = some data := by
  have hne : lit "data: " ++ data ≠ lit "data" := by
    intro h
    have hlen := congrArg List.length h
    have hlong : (lit "data: ").length = 6 := rfl
    have hshort : (lit "data").length = 4 := rfl
    rw [List.length_append, hlong, hshort] at hlen
    omega
  rw [data_field, if_neg hne, if_pos (List.isPrefixOf_iff_prefix.mpr (List.prefix_append _ _))]
  rfl

/-- The first data read for an event. -/
theorem events_data {line value : PyStr} (h : data_field line = some value) (rest : List PyStr) :
    events none (line :: rest) = events (some value) rest := by
  cases line with
  | nil =>
    have hnone : data_field [] = none := rfl
    rw [hnone] at h
    cases h
  | cons c line => simp only [events, h]

/-- **A frame of one line is one event, whatever follows it.** -/
theorem parse_frame {data : PyStr} (h : data.all isInline = true) (rest : PyStr) :
    parse (lit "data: " ++ data ++ lit "\n\n" ++ rest) = data :: parse rest := by
  have hinline : (lit "data: " ++ data).all isInline = true := by
    rw [List.all_append, h]
    rfl
  have htext : lit "data: " ++ data ++ lit "\n\n" ++ rest =
      (lit "data: " ++ data) ++ CodePoint.ofChar '\n' :: ([] ++ CodePoint.ofChar '\n' :: rest) := by
    rw [List.append_assoc]
    rfl
  have hempty := lines_inline (show List.all ([] : PyStr) isInline = true from rfl)
  rw [parse, htext, lines_inline hinline, hempty]
  show events none ((lit "data: " ++ data) :: [] :: lines [] false rest) = _
  rw [events_data (data_field_data data)]
  rfl

end Syndicate.EventStream
