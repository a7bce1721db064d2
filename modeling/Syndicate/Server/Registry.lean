import Syndicate.Server.Events

/-! # `server/registry.py`: the record of a run

    `new_event` is the `asyncio.Event`: here only whether it is set; who
    waits on it is where each connection stands. -/

namespace Syndicate.Server

open Py

/-! ## `collections.deque` with a bound -/

/-- `deque(maxlen=n)`. -/
structure Deque (α : Type) (maxlen : Nat) where
  items : List α
  bounded : items.length ≤ maxlen

namespace Deque

variable {α : Type} {maxlen : Nat}

protected def empty : Deque α maxlen := ⟨[], Nat.zero_le _⟩

/-- `append`: a full deque drops its oldest item. -/
def append (d : Deque α maxlen) (a : α) : Deque α maxlen where
  items := lastN maxlen (d.items ++ [a])
  bounded := by
    simp only [lastN, List.length_drop, List.length_append, List.length_singleton]
    omega

/-- The last items of a list stay the last ones when both grow. -/
theorem append_lastN (d : Deque α maxlen) {all : List α} (a : α) (h : d.items = lastN maxlen all) :
    (d.append a).items = lastN maxlen (all ++ [a]) := by
  show lastN maxlen (d.items ++ [a]) = _
  rw [h]
  unfold lastN
  by_cases hle : maxlen ≤ all.length
  · rw [← List.drop_append_of_le_length (by omega), List.drop_drop]
    congr 1
    simp only [List.length_drop, List.length_append, List.length_singleton]
    omega
  · rw [show all.length - maxlen = 0 by omega, List.drop_zero]

end Deque

/-! ## The record -/

/-- `RunStatusLiteral`. -/
inductive RunStatusLiteral where
  | queued
  | running
  | completed
  | failed
  | escalated
deriving DecidableEq, Repr

/-- `_BACKLOG_MAXLEN`. -/
def BACKLOG_MAXLEN : Nat := 2000

/-- `RunRecord`. -/
structure RunRecord where
  run_id : PyStr
  raw_request : PyStr
  status : RunStatusLiteral := .queued
  backlog : Deque Envelope BACKLOG_MAXLEN := .empty
  /-- `new_event.is_set()`. -/
  new_event : Bool := false
  seq_counter : Nat := 0
  last_attempt_log_len : Nat := 0
  last_escalation_count : Int := 0
  last_run_status : PyVal := .none

namespace RunRecord

/-- A record as `try_start` makes it. -/
protected def new (run_id raw_request : PyStr) : RunRecord where
  run_id := run_id
  raw_request := raw_request

/-- `next_seq`. -/
def next_seq (r : RunRecord) : Nat × RunRecord :=
  (r.seq_counter + 1, { r with seq_counter := r.seq_counter + 1 })

/-- `emit`. -/
def emit (r : RunRecord) (envelope : Envelope) : RunRecord :=
  { r with backlog := r.backlog.append envelope, new_event := true }

section fields
variable (r : RunRecord) (e : Envelope)

@[simp] theorem emit_run_id : (r.emit e).run_id = r.run_id := by rw [emit]
@[simp] theorem emit_raw_request : (r.emit e).raw_request = r.raw_request := by rw [emit]
@[simp] theorem emit_status : (r.emit e).status = r.status := by rw [emit]
@[simp] theorem emit_seq_counter : (r.emit e).seq_counter = r.seq_counter := by rw [emit]
@[simp] theorem emit_backlog : (r.emit e).backlog = r.backlog.append e := by rw [emit]
@[simp] theorem next_seq_fst : r.next_seq.1 = r.seq_counter + 1 := by rw [next_seq]
@[simp] theorem next_seq_run_id : r.next_seq.2.run_id = r.run_id := by rw [next_seq]
@[simp] theorem next_seq_raw_request : r.next_seq.2.raw_request = r.raw_request := by rw [next_seq]
@[simp] theorem next_seq_status : r.next_seq.2.status = r.status := by rw [next_seq]
@[simp] theorem next_seq_seq_counter : r.next_seq.2.seq_counter = r.seq_counter + 1 := by rw [next_seq]
@[simp] theorem next_seq_backlog : r.next_seq.2.backlog = r.backlog := by rw [next_seq]

@[simp] theorem new_seq_counter (run_id raw_request : PyStr) :
    (RunRecord.new run_id raw_request).seq_counter = 0 := rfl

@[simp] theorem new_backlog (run_id raw_request : PyStr) :
    (RunRecord.new run_id raw_request).backlog.items = [] := rfl

end fields

/-- `record.emit(..)` of an envelope numbered by `record.next_seq()`. -/
def emit_next (r : RunRecord) (envelope : Envelope) : RunRecord :=
  r.next_seq.2.emit { envelope with seq := some r.next_seq.1 }

end RunRecord

/-! ## Numbered envelopes -/

/-- The seqs are `1, 2, 3, …`. -/
def Numbered (es : List Envelope) : Prop :=
  es.map Envelope.seq = (List.range' 1 es.length).map some

theorem numbered_snoc {es : List Envelope} {e : Envelope} :
    Numbered (es ++ [e]) ↔ Numbered es ∧ e.seq = some (es.length + 1) := by
  have hlen : (List.range' 1 (es ++ [e]).length).map some =
      (List.range' 1 es.length).map some ++ [some (es.length + 1)] := by
    rw [List.length_append, List.length_singleton, List.range'_concat, List.map_append]
    simp [Nat.add_comm]
  unfold Numbered
  rw [hlen, List.map_append, List.map_singleton]
  constructor
  · intro h
    obtain ⟨hes, he⟩ := List.append_inj' h rfl
    exact ⟨hes, List.singleton_inj.mp he⟩
  · intro ⟨hes, he⟩
    rw [hes, he]

/-- A prefix of numbered envelopes is numbered. -/
theorem Numbered.of_prefix {es es' : List Envelope} (h : Numbered es') (hpre : es <+: es') :
    Numbered es := by
  obtain ⟨rest, rfl⟩ := hpre
  induction rest using List.reverseRecOn with
  | nil => simpa using h
  | append_singleton rest e ih =>
    rw [← List.append_assoc] at h
    exact ih (numbered_snoc.mp h).1

/-- The envelope after `es` has the next number. -/
theorem Numbered.next {es all : List Envelope} {e : Envelope} (h : Numbered all)
    (hpre : es ++ [e] <+: all) : e.seq = some (es.length + 1) :=
  (numbered_snoc.mp (h.of_prefix hpre)).2

/-- Of numbered envelopes, those numbered above `k` are those after the
    first `k`. -/
theorem Numbered.filter_lt {es : List Envelope} (h : Numbered es) (k : Nat) :
    es.filter (fun e => e.seq.any fun n => decide ((k : Int) < n)) = es.drop k := by
  induction es using List.reverseRecOn with
  | nil => simp
  | append_singleton es e ih =>
    obtain ⟨hes, he⟩ := numbered_snoc.mp h
    rw [List.filter_append, ih hes]
    by_cases hk : k ≤ es.length
    · rw [List.drop_append_of_le_length hk]
      congr 1
      simp [he]
      omega
    · have hnone : es.drop k = [] := List.drop_eq_nil_of_le (by omega)
      rw [hnone, List.drop_eq_nil_of_le (by simp; omega)]
      simp [he]
      omega

end Syndicate.Server
