import Syndicate.Py.Object
import Syndicate.Server.Events

/-! # Payloads of any objects

    `server/events.py` once more, and `get_run_state` of `server/app.py`,
    over `Obj`: what a node returns and what a checkpoint holds is up to the
    chassis and the model's tool calls.  On the values of `Events.lean` the
    functions are the ones there (`safe_payload_ofItems`). -/

namespace Syndicate.Server.Payload

open Py

/-! ## `server/events.py` -/

mutual
/-- `dataclasses.asdict`, and its recursion into the containers it knows. -/
def asdict : Obj → Obj
  | .list xs => .list (asdict_all xs)
  | .tuple xs => .tuple (asdict_all xs)
  | .dict items => .dict (asdict_items items)
  | .dataclass _ fields => .dict (asdict_fields fields)
  | v => v

def asdict_all : List Obj → List Obj
  | [] => []
  | x :: xs => asdict x :: asdict_all xs

def asdict_items : List (Key × Obj) → List (Key × Obj)
  | [] => []
  | (k, v) :: rest => (k, asdict v) :: asdict_items rest

def asdict_fields : List (PyStr × Obj) → List (Key × Obj)
  | [] => []
  | (k, v) :: rest => (.str k, asdict v) :: asdict_fields rest
end

mutual
/-- `redact_value` of a value `asdict` has been over. -/
def redact_plain : Obj → Obj
  | .str s => .str (redact_text s)
  | .str_enum _ value => .str (redact_text value)
  | .dict items => .dict (redact_plain_items items)
  | .list xs => .list (redact_plain_all xs)
  | .int_enum _ value => .int value
  | .enum _ value => value
  | v => v

def redact_plain_all : List Obj → List Obj
  | [] => []
  | x :: xs => redact_plain x :: redact_plain_all xs

def redact_plain_items : List (Key × Obj) → List (Key × Obj)
  | [] => []
  | (k, v) :: rest => (k, redact_plain v) :: redact_plain_items rest
end

mutual
/-- `redact_value`: a tuple, and an object of any other class, is returned as
    it is, and so is the value of an enum's member. -/
def redact_value : Obj → Obj
  | .str s => .str (redact_text s)
  | .str_enum _ value => .str (redact_text value)
  | .dict items => .dict (redact_items items)
  | .list xs => .list (redact_all xs)
  | .int_enum _ value => .int value
  | .enum _ value => value
  | .dataclass _ fields => .dict (redact_plain_items (asdict_fields fields))
  | v => v

def redact_all : List Obj → List Obj
  | [] => []
  | x :: xs => redact_value x :: redact_all xs

def redact_items : List (Key × Obj) → List (Key × Obj)
  | [] => []
  | (k, v) :: rest => (k, redact_value v) :: redact_items rest
end

mutual
theorem redact_value_asdict : ∀ v, redact_value (asdict v) = redact_plain (asdict v)
  | .none | .bool _ | .int _ | .float _ | .str _ | .tuple _ | .str_enum _ _ | .int_enum _ _
  | .enum _ _ | .object _ _ _ => rfl
  | .list xs => by
    rw [asdict, redact_value, redact_plain, redact_all_asdict xs]
  | .dict items => by
    rw [asdict, redact_value, redact_plain, redact_items_asdict items]
  | .dataclass _ fields => by
    rw [asdict, redact_value, redact_plain, redact_fields_asdict fields]

theorem redact_all_asdict : ∀ xs, redact_all (asdict_all xs) = redact_plain_all (asdict_all xs)
  | [] => rfl
  | x :: xs => by
    rw [asdict_all, redact_all, redact_plain_all, redact_value_asdict x, redact_all_asdict xs]

theorem redact_items_asdict :
    ∀ items, redact_items (asdict_items items) = redact_plain_items (asdict_items items)
  | [] => rfl
  | (k, v) :: rest => by
    rw [asdict_items, redact_items, redact_plain_items, redact_value_asdict v,
      redact_items_asdict rest]

theorem redact_fields_asdict :
    ∀ fields, redact_items (asdict_fields fields) = redact_plain_items (asdict_fields fields)
  | [] => rfl
  | (k, v) :: rest => by
    rw [asdict_fields, redact_items, redact_plain_items, redact_value_asdict v,
      redact_fields_asdict rest]
end

/-- The source's branch for a dataclass: `redact_value(asdict(value))`. -/
theorem redact_value_dataclass (cls : PyStr) (fields : List (PyStr × Obj)) :
    redact_value (.dataclass cls fields) = redact_value (asdict (.dataclass cls fields)) := by
  rw [redact_value_asdict, asdict, redact_value, redact_plain]

/-- A `dict` of any keys. -/
abbrev Dict := List (Key × Obj)

/-- The marker for a payload over the cap. -/
def marker (size : Nat) (preview : PyStr) : Dict :=
  [(.str (lit "truncated"), .bool true), (.str (lit "original_size_bytes"), .int size),
    (.str (lit "preview"), .str preview)]

/-- `cap_payload`. -/
def cap_payload [Unicode] (payload : Dict) (max_bytes : Nat) : Except PyExc Dict := do
  let encoded ← (Obj.dict payload).json_dumps (some Obj.to_str)
  match encode encoded with
  | none => .error surrogates_not_allowed
  | some bytes =>
    if bytes.length ≤ max_bytes then pure payload
    else pure (marker bytes.length (encoded.take (max_bytes - 200)))

/-- What `cap_payload` makes of a payload with this JSON text. -/
def capped (payload : Dict) (encoded : PyStr) (max_bytes : Nat) : Dict :=
  if encoded.length ≤ max_bytes then payload
  else marker encoded.length (encoded.take (max_bytes - 200))

/-- `cap_payload` accepts what `json.dumps` accepts with its `default`. -/
theorem cap_payload_eq_ok [Unicode] {payload safe : Dict} {max_bytes : Nat} :
    cap_payload payload max_bytes = .ok safe ↔
      ∃ ts, (Obj.dict payload).tokens (some Obj.to_str) = .ok ts ∧
        safe = capped payload (Json.render ts) max_bytes := by
  have hcap : ∀ ts, (Obj.dict payload).tokens (some Obj.to_str) = .ok ts →
      cap_payload payload max_bytes = .ok (capped payload (Json.render ts) max_bytes) := by
    intro ts hts
    obtain ⟨bytes, hbytes, hlen⟩ := encode_printable (Json.printable_render (Obj.wellWritten_tokens _ hts))
    have hdumps : (Obj.dict payload).json_dumps (some Obj.to_str) = .ok (Json.render ts) := by
      rw [Obj.json_dumps, hts]
      rfl
    simp only [cap_payload, hdumps, bind, Except.bind, hbytes, capped, hlen]
    split <;> rfl
  constructor
  · intro h
    cases hts : (Obj.dict payload).tokens (some Obj.to_str) with
    | error e =>
      have hdumps : (Obj.dict payload).json_dumps (some Obj.to_str) = .error e := by
        rw [Obj.json_dumps, hts]
        rfl
      simp only [cap_payload, hdumps, bind, Except.bind] at h
      cases h
    | ok ts =>
      rw [hcap ts hts] at h
      exact ⟨ts, rfl, (Except.ok.inj h).symm⟩
  · intro hsome
    obtain ⟨ts, hts, rfl⟩ := hsome
    exact hcap ts hts

/-- `Envelope`. -/
structure Envelope where
  seq : Option Nat
  ts : PyStr
  run_id : PyStr
  kind : EventKind
  node : Option PyStr
  payload : Dict

/-- What `make_envelope` makes of a payload. -/
def safe_payload [Unicode] (payload : Dict) : Except PyExc Dict :=
  cap_payload (redact_items payload) MAX_PAYLOAD_BYTES

/-- `make_envelope`, at the time `now`. -/
def make_envelope [Unicode] (now : PyStr) (seq : Option Nat) (run_id : PyStr) (kind : EventKind)
    (node : Option PyStr) (payload : Dict) : Except PyExc Envelope := do
  let safe ← safe_payload payload
  pure { seq := seq, ts := now, run_id := run_id, kind := kind, node := node, payload := safe }

/-- An optional value as Python sees it. -/
def optional {α : Type} (f : α → Obj) : Option α → Obj
  | none => .none
  | some a => f a

/-- The `dict` an envelope is. -/
def Envelope.toDict (e : Envelope) : Dict :=
  [(.str (lit "seq"), optional (fun n => .int (n : Int)) e.seq), (.str (lit "ts"), .str e.ts),
    (.str (lit "run_id"), .str e.run_id), (.str (lit "kind"), .str (lit e.kind.value)),
    (.str (lit "node"), optional .str e.node), (.str (lit "payload"), .dict e.payload)]

/-- `format_sse`. -/
def format_sse (e : Envelope) : Except PyExc PyStr := do
  let text ← (Obj.dict e.toDict).json_dumps none
  pure (lit "data: " ++ text ++ lit "\n\n")

/-! ## `get_run_state` -/

/-- `bool(v)`. -/
def truthy : Obj → Bool
  | .none => false
  | .bool b => b
  | .int n | .int_enum _ n => n != 0
  | .float r => !r.isZero
  | .str s | .str_enum _ s => !s.isEmpty
  | .list xs | .tuple xs => !xs.isEmpty
  | .dict items => !items.isEmpty
  | _ => true

/-- A key, as an object. -/
def of_key : Key → Obj
  | .str s => .str s
  | .int n => .int n
  | .float r => .float r
  | .bool b => .bool b
  | .none => .none
  | .other cls shown => .object cls shown shown

/-- What iterating over a value yields. -/
def iterate : Obj → Except PyExc (List Obj)
  | .list xs | .tuple xs => .ok xs
  | .dict items => .ok (items.map fun (k, _) => of_key k)
  | .str s | .str_enum _ s => .ok (s.map fun c => .str [c])
  | _ => .error ⟨.TypeError, lit "object is not iterable"⟩

/-- What stands for an entry of the ledger. -/
def ledger_entry : Obj → Obj
  | .dataclass cls fields =>
    if cls = lit "DecisionSummary" then
      .dict [(.str (lit "summary"), (fields.lookup (lit "summary")).getD .none),
        (.str (lit "attempt_count"), (fields.lookup (lit "attempt_count")).getD .none)]
    else .dataclass cls fields
  | v => v

/-- A `dict` whose keys are strings. -/
def str_items (d : List (PyStr × Obj)) : Dict := d.map fun (k, v) => (.str k, v)

/-- `snapshot.values`, with the ledger's entries taken apart. -/
def state_values (values : List (PyStr × Obj)) : Except PyExc Dict := do
  let found := (values.lookup (lit "decision_ledger")).getD .none
  let entries ← iterate (if truthy found then found else .list [])
  pure (str_items (setItem values (lit "decision_ledger") (.list (entries.map ledger_entry))))

/-- `get_run_state`, for the values of the snapshot, if there is one. -/
def get_run_state [Unicode] (run_id : PyStr) (snapshot : Option (List (PyStr × Obj))) :
    Except PyExc Dict :=
  match snapshot with
  | none | some [] => .error ⟨.Other (lit "HTTPException"), lit "404: no state for run_id=" ++ repr_str run_id⟩
  | some values => (state_values values).map redact_items

/-! ## The same as in `Events.lean` -/

section agreement
open Obj (ofPyVal ofPyVals ofItems ofFields)

mutual
theorem asdict_ofPyVal : ∀ v, asdict (ofPyVal v) = ofPyVal (Server.asdict v)
  | .none | .bool _ | .int _ | .float _ | .str _ | .enum _ _ => rfl
  | .list xs => by
    rw [ofPyVal, asdict, Server.asdict, ofPyVal, asdict_ofPyVals xs]
  | .tuple xs => by
    rw [ofPyVal, asdict, Server.asdict, ofPyVal, asdict_ofPyVals xs]
  | .dict items => by
    rw [ofPyVal, asdict, Server.asdict, ofPyVal, asdict_ofItems items]
  | .dataclass _ fields => by
    rw [ofPyVal, asdict, Server.asdict, ofPyVal, asdict_ofFields fields]

theorem asdict_ofPyVals : ∀ xs, asdict_all (ofPyVals xs) = ofPyVals (Server.asdict_all xs)
  | [] => rfl
  | x :: xs => by
    rw [ofPyVals, asdict_all, Server.asdict_all, ofPyVals, asdict_ofPyVal x, asdict_ofPyVals xs]

theorem asdict_ofItems : ∀ items, asdict_items (ofItems items) = ofItems (Server.asdict_items items)
  | [] => rfl
  | (k, v) :: rest => by
    rw [ofItems, asdict_items, Server.asdict_items, ofItems, asdict_ofPyVal v, asdict_ofItems rest]

theorem asdict_ofFields :
    ∀ fields, asdict_fields (ofFields fields) = ofItems (Server.asdict_items fields)
  | [] => rfl
  | (k, v) :: rest => by
    rw [ofFields, asdict_fields, Server.asdict_items, ofItems, asdict_ofPyVal v, asdict_ofFields rest]
end

mutual
theorem redact_plain_ofPyVal : ∀ v, redact_plain (ofPyVal v) = ofPyVal (Server.redact_plain v)
  | .none | .bool _ | .int _ | .float _ | .str _ | .enum _ _ | .tuple _ | .dataclass _ _ => rfl
  | .list xs => by
    rw [ofPyVal, redact_plain, Server.redact_plain, ofPyVal, redact_plain_ofPyVals xs]
  | .dict items => by
    rw [ofPyVal, redact_plain, Server.redact_plain, ofPyVal, redact_plain_ofItems items]

theorem redact_plain_ofPyVals :
    ∀ xs, redact_plain_all (ofPyVals xs) = ofPyVals (Server.redact_plain_all xs)
  | [] => rfl
  | x :: xs => by
    rw [ofPyVals, redact_plain_all, Server.redact_plain_all, ofPyVals, redact_plain_ofPyVal x,
      redact_plain_ofPyVals xs]

theorem redact_plain_ofItems :
    ∀ items, redact_plain_items (ofItems items) = ofItems (Server.redact_plain_items items)
  | [] => rfl
  | (k, v) :: rest => by
    rw [ofItems, redact_plain_items, Server.redact_plain_items, ofItems, redact_plain_ofPyVal v,
      redact_plain_ofItems rest]
end

mutual
theorem redact_value_ofPyVal : ∀ v, redact_value (ofPyVal v) = ofPyVal (Server.redact_value v)
  | .none | .bool _ | .int _ | .float _ | .str _ | .enum _ _ | .tuple _ => rfl
  | .list xs => by
    rw [ofPyVal, redact_value, Server.redact_value, ofPyVal, redact_all_ofPyVals xs]
  | .dict items => by
    rw [ofPyVal, redact_value, Server.redact_value, ofPyVal, redact_items_ofItems items]
  | .dataclass _ fields => by
    rw [ofPyVal, redact_value, Server.redact_value, ofPyVal, asdict_ofFields, redact_plain_ofItems]

theorem redact_all_ofPyVals : ∀ xs, redact_all (ofPyVals xs) = ofPyVals (Server.redact_all xs)
  | [] => rfl
  | x :: xs => by
    rw [ofPyVals, redact_all, Server.redact_all, ofPyVals, redact_value_ofPyVal x,
      redact_all_ofPyVals xs]

theorem redact_items_ofItems :
    ∀ items, redact_items (ofItems items) = ofItems (Server.redact_items items)
  | [] => rfl
  | (k, v) :: rest => by
    rw [ofItems, redact_items, Server.redact_items, ofItems, redact_value_ofPyVal v,
      redact_items_ofItems rest]
end

theorem cap_payload_ofItems [Unicode] (payload : Py.Dict) (max_bytes : Nat) :
    cap_payload (ofItems payload) max_bytes = (Server.cap_payload payload max_bytes).map ofItems := by
  have hstr : Obj.onPyVal (some Obj.to_str) = some str :=
    congrArg some (funext Obj.to_str_ofPyVal)
  have hdumps : (Obj.dict (ofItems payload)).json_dumps (some Obj.to_str) =
      json_dumps (some str) (.dict payload) := by
    rw [← hstr]
    exact Obj.json_dumps_ofPyVal (some Obj.to_str) (.dict payload)
  unfold cap_payload Server.cap_payload
  rw [hdumps]
  cases json_dumps (some str) (.dict payload) with
  | error e => rfl
  | ok encoded =>
    -- the same three ways out, by the size of the bytes
    have hbranch : ∀ o : Option (List Byte),
        (match o with
          | none => Except.error surrogates_not_allowed
          | some bytes =>
            if bytes.length ≤ max_bytes then Except.ok (ofItems payload)
            else Except.ok (marker bytes.length (encoded.take (max_bytes - 200)))) =
          Except.map ofItems (match o with
          | none => Except.error surrogates_not_allowed
          | some bytes =>
            if bytes.length ≤ max_bytes then Except.ok payload
            else Except.ok [(lit "truncated", .bool true),
              (lit "original_size_bytes", .int bytes.length),
              (lit "preview", .str (encoded.take (max_bytes - 200)))]) := by
      intro o
      cases o with
      | none => rfl
      | some bytes =>
        by_cases h : bytes.length ≤ max_bytes
        · simp only [h, if_true]
          rfl
        · simp only [h, if_false]
          rfl
    exact hbranch (encode encoded)

/-- Of a payload of tickets and deltas the two models make the same. -/
theorem safe_payload_ofItems [Unicode] (payload : Py.Dict) :
    safe_payload (ofItems payload) = (Server.safe_payload payload).map ofItems := by
  rw [safe_payload, redact_items_ofItems, cap_payload_ofItems]
  rfl

end agreement

end Syndicate.Server.Payload
