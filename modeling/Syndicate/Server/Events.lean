import Mathlib.Data.List.Induction
import Syndicate.Py.Re
import Syndicate.Py.Value

/-! # `server/events.py`: the event envelope

    Redaction and the size cap of a payload, and the envelope around it.
    The clock is outside: `make_envelope` is given the time it reads. -/

namespace Syndicate.Server

open Py

/-- `EventKind`. -/
inductive EventKind where
  | run_started
  | node_update
  | attempt
  | escalation
  | run_completed
  | run_failed
  | heartbeat
deriving DecidableEq, Repr

/-- The literal of a kind. -/
def EventKind.value : EventKind → String
  | run_started => "run_started"
  | node_update => "node_update"
  | attempt => "attempt"
  | escalation => "escalation"
  | run_completed => "run_completed"
  | run_failed => "run_failed"
  | heartbeat => "heartbeat"

/-- `kind in ('run_completed', 'run_failed')`. -/
def EventKind.terminal : EventKind → Bool
  | run_completed | run_failed => true
  | _ => false

/-- `Envelope`. -/
structure Envelope where
  seq : Option Nat
  ts : PyStr
  run_id : PyStr
  kind : EventKind
  node : Option PyStr
  payload : Dict

/-! ## Redaction -/

/-- `[A-Za-z0-9]` and the characters of `extra`. -/
def alnumOr (extra : String) (c : CodePoint) : Bool :=
  Re.between 'A' 'Z' c || Re.between 'a' 'z' c || Re.between '0' '9' c || Re.oneOf extra c

/-- `[A-Za-z0-9_\-\.]` under `(?i)`. -/
def tokenChar (c : CodePoint) : Bool :=
  alnumOr "_-." c || (lit "isk").any fun lower => Re.foldExtra lower c

/-- `[A-Z ]`. -/
def upperOrSpace (c : CodePoint) : Bool := Re.between 'A' 'Z' c || Re.oneOf " " c

/-- `_SECRET_PATTERNS`. -/
def SECRET_PATTERNS : List Re :=
  [ -- sk-ant-[A-Za-z0-9_-]{10,}
    .seqs [.text "sk-ant-", .atLeast 10 (alnumOr "_-")],
    -- (?i)(api[_-]?key|token|secret)\s*[:=]\s*['"]?[A-Za-z0-9_\-\.]{12,}['"]?
    .seqs [.alt (.seqs [.textFolded "api", .opt (.one (Re.oneOf "_-")), .textFolded "key"])
              (.alt (.textFolded "token") (.textFolded "secret")),
            .star isspace, .one (Re.oneOf ":="), .star isspace, .opt (.one (Re.oneOf "'\"")),
            .atLeast 12 tokenChar, .opt (.one (Re.oneOf "'\""))],
    -- (?i)bearer\s+[A-Za-z0-9_\-\.]{12,}
    .seqs [.textFolded "bearer", .atLeast 1 isspace, .atLeast 12 tokenChar],
    -- AKIA[0-9A-Z]{16}
    .seqs [.text "AKIA", .exactly 16 fun c => Re.between '0' '9' c || Re.between 'A' 'Z' c],
    -- -----BEGIN [A-Z ]*PRIVATE KEY-----[\s\S]*?-----END [A-Z ]*PRIVATE KEY-----
    .seqs [.text "-----BEGIN ", .star upperOrSpace, .text "PRIVATE KEY-----", .lazy fun _ => true,
            .text "-----END ", .star upperOrSpace, .text "PRIVATE KEY-----"]]

/-- `_REDACTED`. -/
def REDACTED : PyStr := lit "[REDACTED]"

/-- `redact_text`. -/
def redact_text (text : PyStr) : PyStr :=
  SECRET_PATTERNS.foldl (fun text pattern => pattern.sub REDACTED text) text

/-- A redaction leaves the text as it was, or leaves a bracket in it. -/
theorem redact_text_eq_or_mem (text : PyStr) :
    redact_text text = text ∨ CodePoint.ofChar '[' ∈ redact_text text := by
  unfold redact_text
  induction SECRET_PATTERNS using List.reverseRecOn with
  | nil => exact Or.inl rfl
  | append_singleton patterns pattern ih =>
    rw [List.foldl_append, List.foldl_cons, List.foldl_nil]
    have hmem : CodePoint.ofChar '[' ∈ REDACTED := by decide
    rcases pattern.sub_eq_or_mem hmem
      (patterns.foldl (fun text pattern => pattern.sub REDACTED text) text) with h | h
    · rw [h]
      exact ih
    · exact Or.inr h

mutual
/-- `dataclasses.asdict`, and its recursion into the containers it knows. -/
def asdict : PyVal → PyVal
  | .list xs => .list (asdict_all xs)
  | .tuple xs => .tuple (asdict_all xs)
  | .dict items => .dict (asdict_items items)
  | .dataclass _ fields => .dict (asdict_items fields)
  | v => v

def asdict_all : List PyVal → List PyVal
  | [] => []
  | x :: xs => asdict x :: asdict_all xs

def asdict_items : List (PyStr × PyVal) → List (PyStr × PyVal)
  | [] => []
  | (k, v) :: rest => (k, asdict v) :: asdict_items rest
end

mutual
/-- `redact_value` of a value `asdict` has been over: no dataclass is left
    in it. -/
def redact_plain : PyVal → PyVal
  | .str s => .str (redact_text s)
  | .enum _ value => .str (redact_text value)
  | .dict items => .dict (redact_plain_items items)
  | .list xs => .list (redact_plain_all xs)
  | v => v

def redact_plain_all : List PyVal → List PyVal
  | [] => []
  | x :: xs => redact_plain x :: redact_plain_all xs

def redact_plain_items : List (PyStr × PyVal) → List (PyStr × PyVal)
  | [] => []
  | (k, v) :: rest => (k, redact_plain v) :: redact_plain_items rest
end

mutual
/-- `redact_value`: a member of a `str` enum is a `str`, and a tuple is
    returned as it is. -/
def redact_value : PyVal → PyVal
  | .str s => .str (redact_text s)
  | .enum _ value => .str (redact_text value)
  | .dict items => .dict (redact_items items)
  | .list xs => .list (redact_all xs)
  | .dataclass _ fields => .dict (redact_plain_items (asdict_items fields))
  | v => v

def redact_all : List PyVal → List PyVal
  | [] => []
  | x :: xs => redact_value x :: redact_all xs

def redact_items : List (PyStr × PyVal) → List (PyStr × PyVal)
  | [] => []
  | (k, v) :: rest => (k, redact_value v) :: redact_items rest
end

mutual
theorem redact_value_asdict : ∀ v, redact_value (asdict v) = redact_plain (asdict v)
  | .none | .bool _ | .int _ | .float _ | .str _ | .enum _ _ | .tuple _ => rfl
  | .list xs => by
    rw [asdict, redact_value, redact_plain, redact_all_asdict xs]
  | .dict items => by
    rw [asdict, redact_value, redact_plain, redact_items_asdict items]
  | .dataclass _ fields => by
    rw [asdict, redact_value, redact_plain, redact_items_asdict fields]

theorem redact_all_asdict : ∀ xs, redact_all (asdict_all xs) = redact_plain_all (asdict_all xs)
  | [] => rfl
  | x :: xs => by
    rw [asdict_all, redact_all, redact_plain_all, redact_value_asdict x, redact_all_asdict xs]

theorem redact_items_asdict :
    ∀ items, redact_items (asdict_items items) = redact_plain_items (asdict_items items)
  | [] => rfl
  | (k, v) :: rest => by
    rw [asdict_items, redact_items, redact_plain_items, redact_value_asdict v,
      redact_items_asdict rest]
end

/-- The source's branch for a dataclass: `redact_value(asdict(value))`. -/
theorem redact_value_dataclass (cls : PyStr) (fields : Dict) :
    redact_value (.dataclass cls fields) = redact_value (asdict (.dataclass cls fields)) := by
  rw [redact_value_asdict, asdict, redact_value, redact_plain]

/-! ## The size cap -/

/-- `_MAX_PAYLOAD_BYTES`. -/
def MAX_PAYLOAD_BYTES : Nat := 8192

/-- `cap_payload`. -/
def cap_payload [Unicode] (payload : Dict) (max_bytes : Nat) : Except PyExc Dict := do
  let encoded ← json_dumps (some str) (.dict payload)
  match encode encoded with
  | none => .error surrogates_not_allowed
  | some bytes =>
    if bytes.length ≤ max_bytes then pure payload
    else pure [(lit "truncated", .bool true), (lit "original_size_bytes", .int bytes.length),
      (lit "preview", .str (encoded.take (max_bytes - 200)))]

/-- The keys of the marker that stands for a payload over the cap. -/
def truncated_keys : List PyStr := [lit "truncated", lit "original_size_bytes", lit "preview"]

/-- `cap_payload` accepts every payload: it returns it, or the marker. -/
theorem cap_payload_ok [Unicode] (payload : Dict) (max_bytes : Nat) :
    ∃ capped, cap_payload payload max_bytes = .ok capped ∧
      (capped = payload ∨ capped.map Prod.fst = truncated_keys) := by
  obtain ⟨encoded, hdumps, hascii⟩ := json_dumps_ascii str (.dict payload)
  obtain ⟨bytes, hbytes, -⟩ := encode_of_ascii hascii
  have hcap : cap_payload payload max_bytes =
      if bytes.length ≤ max_bytes then .ok payload
      else .ok [(lit "truncated", .bool true), (lit "original_size_bytes", .int bytes.length),
        (lit "preview", .str (encoded.take (max_bytes - 200)))] := by
    simp only [cap_payload, hdumps, bind, Except.bind, hbytes]
    rfl
  by_cases hle : bytes.length ≤ max_bytes
  · exact ⟨payload, by rw [hcap, if_pos hle], Or.inl rfl⟩
  · exact ⟨_, by rw [hcap, if_neg hle], Or.inr rfl⟩

/-! ## Envelopes -/

/-- What `make_envelope` makes of a payload. -/
def safe_payload [Unicode] (payload : Dict) : Except PyExc Dict :=
  cap_payload (redact_items payload) MAX_PAYLOAD_BYTES

/-- `make_envelope`, at the time `now`. -/
def make_envelope [Unicode] (now : PyStr) (seq : Option Nat) (run_id : PyStr) (kind : EventKind)
    (node : Option PyStr) (payload : Dict) : Except PyExc Envelope := do
  let safe ← safe_payload payload
  pure { seq := seq, ts := now, run_id := run_id, kind := kind, node := node, payload := safe }

/-- An optional value as Python sees it. -/
def optional {α : Type} (f : α → PyVal) : Option α → PyVal
  | none => .none
  | some a => f a

/-- The `dict` an envelope is. -/
def Envelope.toDict (e : Envelope) : PyVal :=
  .dict [(lit "seq", optional (fun n => .int (n : Int)) e.seq), (lit "ts", .str e.ts),
    (lit "run_id", .str e.run_id), (lit "kind", .str (lit e.kind.value)),
    (lit "node", optional .str e.node), (lit "payload", .dict e.payload)]

/-- `format_sse`. -/
def format_sse (e : Envelope) : Except PyExc PyStr := do
  let text ← json_dumps none e.toDict
  pure (lit "data: " ++ text ++ lit "\n\n")

end Syndicate.Server
