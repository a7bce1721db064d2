import Syndicate.Py.Json

/-! # Python objects

    `PyVal` holds what tickets and state deltas are made of.  The encoders
    take anything: dictionaries with keys that are no strings, members of
    any enumeration, instances of classes they have never heard of.  `Obj`
    has these too, and `Obj.ofPyVal` finds a `PyVal` among them. -/

namespace Syndicate.Py

/-- A key of a `dict`. -/
inductive Key where
  | str (s : PyStr)
  | int (n : Int)
  | float (r : FloatRepr)
  | bool (b : Bool)
  | none
  /-- Any other hashable object: its class and its `repr`. -/
  | other (cls shown : PyStr)

inductive Obj where
  | none
  | bool (b : Bool)
  | int (n : Int)
  | float (r : FloatRepr)
  | str (s : PyStr)
  | list (xs : List Obj)
  | tuple (xs : List Obj)
  | dict (items : List (Key × Obj))
  /-- A member of a `str` enum, which is a `str` itself. -/
  | str_enum (member value : PyStr)
  /-- A member of an `int` enum, which is an `int` itself. -/
  | int_enum (member : PyStr) (value : Int)
  /-- A member of an enum that is nothing else. -/
  | enum (member : PyStr) (value : Obj)
  | dataclass (cls : PyStr) (fields : List (PyStr × Obj))
  /-- An instance of any other class: its class, its `str` and its `repr`. -/
  | object (cls text shown : PyStr)
deriving Inhabited

namespace Obj

/-! ## `repr` and `str` -/

/-- `repr` of a key. -/
def repr_key [Unicode] : Key → PyStr
  | .str s => repr_str s
  | .int n => str_int n
  | .float r => r.text
  | .bool true => lit "True"
  | .bool false => lit "False"
  | .none => lit "None"
  | .other _ shown => shown

mutual
/-- `repr(v)`. -/
def repr [Unicode] : Obj → PyStr
  | .none => lit "None"
  | .bool true => lit "True"
  | .bool false => lit "False"
  | .int n => str_int n
  | .float r => r.text
  | .str s => repr_str s
  | .list xs => lit "[" ++ join (lit ", ") (reprs xs) ++ lit "]"
  | .tuple [x] => lit "(" ++ repr x ++ lit ",)"
  | .tuple xs => lit "(" ++ join (lit ", ") (reprs xs) ++ lit ")"
  | .dict items => lit "\x7b" ++ join (lit ", ") (repr_items items) ++ lit "\x7d"
  | .str_enum member value => lit "<" ++ member ++ lit ": " ++ repr_str value ++ lit ">"
  | .int_enum member value => lit "<" ++ member ++ lit ": " ++ str_int value ++ lit ">"
  | .enum member value => lit "<" ++ member ++ lit ": " ++ repr value ++ lit ">"
  | .dataclass cls fields => cls ++ lit "(" ++ join (lit ", ") (repr_fields fields) ++ lit ")"
  | .object _ _ shown => shown

def reprs [Unicode] : List Obj → List PyStr
  | [] => []
  | x :: xs => repr x :: reprs xs

def repr_items [Unicode] : List (Key × Obj) → List PyStr
  | [] => []
  | (k, v) :: rest => (repr_key k ++ lit ": " ++ repr v) :: repr_items rest

def repr_fields [Unicode] : List (PyStr × Obj) → List PyStr
  | [] => []
  | (k, v) :: rest => (k ++ lit "=" ++ repr v) :: repr_fields rest
end

/-- `str(v)`. -/
def to_str [Unicode] : Obj → PyStr
  | .str s => s
  | .str_enum member _ => member
  | .int_enum _ value => str_int value
  | .enum member _ => member
  | .object _ text _ => text
  | v => repr v

/-! ## `json.dumps` -/

open Json (Token)

/-- The name a key gets in JSON; other keys raise, whatever `default` is. -/
def key_name : Key → Except PyExc PyStr
  | .str s => .ok s
  | .int n => .ok (str_int n)
  | .float r => .ok (jsonFloat r.text)
  | .bool true => .ok (lit "true")
  | .bool false => .ok (lit "false")
  | .none => .ok (lit "null")
  | .other cls _ => .error ⟨.TypeError,
      lit "keys must be str, int, float, bool or None, not " ++ cls⟩

/-- An object the encoder does not know goes through `default`, or raises. -/
def unknown (default : Option (Obj → PyStr)) (cls : PyStr) (v : Obj) : Except PyExc (List Token) :=
  match default with
  | some f => .ok [.string (f v)]
  | Option.none => .error ⟨.TypeError, lit "Object of type " ++ cls ++ lit " is not JSON serializable"⟩

mutual
/-- The tokens that `json.dumps(v, default=default)` writes. -/
def tokens (default : Option (Obj → PyStr)) : Obj → Except PyExc (List Token)
  | .none => .ok [.word (lit "null")]
  | .bool true => .ok [.word (lit "true")]
  | .bool false => .ok [.word (lit "false")]
  | .int n => .ok [.number (str_int n)]
  | .float r => .ok [.ofFloat r]
  | .str s => .ok [.string s]
  | .list xs => (tokens_all default xs).map Json.arrayTokens
  | .tuple xs => (tokens_all default xs).map Json.arrayTokens
  | .dict items => (tokens_items default items).map Json.objectTokens
  | .str_enum _ value => .ok [.string value]
  | .int_enum _ value => .ok [.number (str_int value)]
  | .enum member value => unknown default (cut (CodePoint.ofChar '.') member).1 (.enum member value)
  | .dataclass cls fields => unknown default cls (.dataclass cls fields)
  | .object cls text shown => unknown default cls (.object cls text shown)

def tokens_all (default : Option (Obj → PyStr)) : List Obj → Except PyExc (List (List Token))
  | [] => .ok []
  | x :: xs => do
    let part ← tokens default x
    let parts ← tokens_all default xs
    pure (part :: parts)

def tokens_items (default : Option (Obj → PyStr)) :
    List (Key × Obj) → Except PyExc (List (List Token))
  | [] => .ok []
  | (k, v) :: rest => do
    let name ← key_name k
    let value ← tokens default v
    let parts ← tokens_items default rest
    pure (Json.memberTokens name value :: parts)
end

/-- `json.dumps(v, default=default)`. -/
def json_dumps (default : Option (Obj → PyStr)) (v : Obj) : Except PyExc PyStr :=
  (tokens default v).map Json.render

end Obj

/-! ## What the encoder writes -/

theorem except_bind_ok {ε α β : Type} {x : Except ε α} {f : α → Except ε β} {b : β} :
    x >>= f = .ok b ↔ ∃ a, x = .ok a ∧ f a = .ok b := by
  cases x with
  | error e => simp [bind, Except.bind]
  | ok a => simp [bind, Except.bind]

theorem except_map_ok {ε α β : Type} {x : Except ε α} {f : α → β} {b : β} :
    x.map f = .ok b ↔ ∃ a, x = .ok a ∧ f a = b := by
  cases x with
  | error e => simp [Except.map]
  | ok a => simp [Except.map]

namespace Json

/-- The token of a float is written as JSON or Python has it. -/
theorem written_ofFloat (r : FloatRepr) : (Token.ofFloat r).Written := by
  unfold Token.ofFloat
  by_cases h : r.text ∈ special_floats
  · rw [if_pos h]
    exact List.mem_append_right _ (List.mem_map_of_mem h)
  · rw [if_neg h]
    exact r.shape.resolve_right h

end Json

namespace Obj

open Json (Token WellWritten Reads)

variable {default : Option (Obj → PyStr)}

theorem wellWritten_unknown {cls : PyStr} {v : Obj} {ts : List Token}
    (h : unknown default cls v = .ok ts) : WellWritten ts := by
  unfold unknown at h
  cases default with
  | none => cases h
  | some f =>
    obtain rfl := Except.ok.inj h
    exact Json.wellWritten_singleton trivial

theorem written_word {text : PyStr} (h : text ∈ Json.words) : (Token.word text).Written :=
  List.mem_append_left _ h

mutual
theorem wellWritten_tokens : ∀ (v : Obj) {ts : List Token}, tokens default v = .ok ts → WellWritten ts
  | .none, ts, h => by
    obtain rfl := Except.ok.inj h
    exact Json.wellWritten_singleton (written_word (by decide))
  | .bool true, ts, h => by
    obtain rfl := Except.ok.inj h
    exact Json.wellWritten_singleton (written_word (by decide))
  | .bool false, ts, h => by
    obtain rfl := Except.ok.inj h
    exact Json.wellWritten_singleton (written_word (by decide))
  | .int n, ts, h => by
    obtain rfl := Except.ok.inj h
    exact Json.wellWritten_singleton (Json.isNumber_str_int n)
  | .int_enum _ n, ts, h => by
    obtain rfl := Except.ok.inj h
    exact Json.wellWritten_singleton (Json.isNumber_str_int n)
  | .float r, ts, h => by
    obtain rfl := Except.ok.inj h
    exact Json.wellWritten_singleton (Json.written_ofFloat r)
  | .str s, ts, h => by
    obtain rfl := Except.ok.inj h
    exact Json.wellWritten_singleton trivial
  | .str_enum _ s, ts, h => by
    obtain rfl := Except.ok.inj h
    exact Json.wellWritten_singleton trivial
  | .list xs, ts, h => by
    obtain ⟨parts, hparts, rfl⟩ := except_map_ok.mp h
    exact Json.wellWritten_array (wellWritten_all xs hparts)
  | .tuple xs, ts, h => by
    obtain ⟨parts, hparts, rfl⟩ := except_map_ok.mp h
    exact Json.wellWritten_array (wellWritten_all xs hparts)
  | .dict items, ts, h => by
    obtain ⟨parts, hparts, rfl⟩ := except_map_ok.mp h
    exact Json.wellWritten_object (wellWritten_items items hparts)
  | .enum member value, ts, h => wellWritten_unknown h
  | .dataclass cls fields, ts, h => wellWritten_unknown h
  | .object cls text shown, ts, h => wellWritten_unknown h

theorem wellWritten_all : ∀ (xs : List Obj) {parts : List (List Token)},
    tokens_all default xs = .ok parts → ∀ part ∈ parts, WellWritten part
  | [], parts, h => by
    obtain rfl := Except.ok.inj h
    simp
  | x :: xs, parts, h => by
    obtain ⟨part, hpart, h⟩ := except_bind_ok.mp h
    obtain ⟨parts, hparts, h⟩ := except_bind_ok.mp h
    obtain rfl := Except.ok.inj h
    exact List.forall_mem_cons.mpr ⟨wellWritten_tokens x hpart, wellWritten_all xs hparts⟩

theorem wellWritten_items : ∀ (items : List (Key × Obj)) {parts : List (List Token)},
    tokens_items default items = .ok parts → ∀ part ∈ parts, WellWritten part
  | [], parts, h => by
    obtain rfl := Except.ok.inj h
    simp
  | (k, v) :: rest, parts, h => by
    obtain ⟨name, -, h⟩ := except_bind_ok.mp h
    obtain ⟨value, hvalue, h⟩ := except_bind_ok.mp h
    obtain ⟨parts, hparts, h⟩ := except_bind_ok.mp h
    obtain rfl := Except.ok.inj h
    exact List.forall_mem_cons.mpr
      ⟨Json.wellWritten_member (wellWritten_tokens v hvalue), wellWritten_items rest hparts⟩
end

/-! ## What the encoder writes is JSON -/

theorem reads_unknown {cls : PyStr} {v : Obj} {ts : List Token} (h : unknown default cls v = .ok ts) :
    ∃ j, Reads (ts.map Token.read) j := by
  unfold unknown at h
  cases default with
  | none => cases h
  | some f =>
    obtain rfl := Except.ok.inj h
    exact ⟨_, Json.reads_string _⟩

mutual
/-- The tokens of an object are read as a value, unless there is a special
    float among them. -/
theorem reads_tokens : ∀ (v : Obj) {ts : List Token}, tokens default v = .ok ts →
    ts.all Token.strict = true → ∃ j, Reads (ts.map Token.read) j
  | .none, ts, h, _ => by
    obtain rfl := Except.ok.inj h
    exact ⟨_, Json.reads_word rfl⟩
  | .bool true, ts, h, _ => by
    obtain rfl := Except.ok.inj h
    exact ⟨_, Json.reads_word rfl⟩
  | .bool false, ts, h, _ => by
    obtain rfl := Except.ok.inj h
    exact ⟨_, Json.reads_word rfl⟩
  | .int n, ts, h, _ => by
    obtain rfl := Except.ok.inj h
    exact ⟨_, Json.reads_number _⟩
  | .int_enum _ n, ts, h, _ => by
    obtain rfl := Except.ok.inj h
    exact ⟨_, Json.reads_number _⟩
  | .float r, ts, h, hstrict => by
    obtain rfl := Except.ok.inj h
    -- `NaN` and the infinities are not JSON, `strict` leaves them out
    unfold Token.ofFloat at hstrict ⊢
    by_cases hspecial : r.text ∈ special_floats
    · rw [if_pos hspecial] at hstrict
      have hall : ∀ text ∈ special_floats, [Token.word (jsonFloat text)].all Token.strict = false := by
        decide
      rw [hall _ hspecial] at hstrict
      cases hstrict
    · rw [if_neg hspecial]
      exact ⟨_, Json.reads_number _⟩
  | .str s, ts, h, _ => by
    obtain rfl := Except.ok.inj h
    exact ⟨_, Json.reads_string _⟩
  | .str_enum _ s, ts, h, _ => by
    obtain rfl := Except.ok.inj h
    exact ⟨_, Json.reads_string _⟩
  | .list xs, ts, h, hstrict => by
    obtain ⟨parts, hparts, rfl⟩ := except_map_ok.mp h
    rw [Json.strict_array] at hstrict
    obtain ⟨items, hitems, hfst⟩ := reads_all xs hparts hstrict
    rw [Json.map_read_array, ← hfst]
    exact ⟨_, Json.reads_array hitems⟩
  | .tuple xs, ts, h, hstrict => by
    obtain ⟨parts, hparts, rfl⟩ := except_map_ok.mp h
    rw [Json.strict_array] at hstrict
    obtain ⟨items, hitems, hfst⟩ := reads_all xs hparts hstrict
    rw [Json.map_read_array, ← hfst]
    exact ⟨_, Json.reads_array hitems⟩
  | .dict fields, ts, h, hstrict => by
    obtain ⟨parts, hparts, rfl⟩ := except_map_ok.mp h
    rw [Json.strict_object] at hstrict
    obtain ⟨items, hitems, hmembers⟩ := reads_items fields hparts hstrict
    rw [Json.map_read_object, ← hmembers]
    exact ⟨_, Json.reads_object hitems⟩
  | .enum member value, ts, h, _ => reads_unknown h
  | .dataclass cls fields, ts, h, _ => reads_unknown h
  | .object cls text shown, ts, h, _ => reads_unknown h

theorem reads_all : ∀ (xs : List Obj) {parts : List (List Token)},
    tokens_all default xs = .ok parts → (parts.all fun part => part.all Token.strict) = true →
      ∃ items : List (List Token × Json.Value), (∀ i ∈ items, Reads i.1 i.2) ∧
        items.map Prod.fst = parts.map (List.map Token.read)
  | [], parts, h, _ => by
    obtain rfl := Except.ok.inj h
    exact ⟨[], by simp, rfl⟩
  | x :: xs, parts, h, hstrict => by
    obtain ⟨part, hpart, h⟩ := except_bind_ok.mp h
    obtain ⟨parts, hparts, h⟩ := except_bind_ok.mp h
    obtain rfl := Except.ok.inj h
    rw [List.all_cons, Bool.and_eq_true] at hstrict
    obtain ⟨j, hj⟩ := reads_tokens x hpart hstrict.1
    obtain ⟨items, hitems, hfst⟩ := reads_all xs hparts hstrict.2
    exact ⟨(_, j) :: items, List.forall_mem_cons.mpr ⟨hj, hitems⟩, congrArg (_ :: ·) hfst⟩

theorem reads_items : ∀ (fields : List (Key × Obj)) {parts : List (List Token)},
    tokens_items default fields = .ok parts →
      (parts.all fun part => part.all Token.strict) = true →
      ∃ items : List (PyStr × List Token × Json.Value), (∀ i ∈ items, Reads i.2.1 i.2.2) ∧
        Json.members items = parts.map (List.map Token.read)
  | [], parts, h, _ => by
    obtain rfl := Except.ok.inj h
    exact ⟨[], by simp, rfl⟩
  | (k, v) :: rest, parts, h, hstrict => by
    obtain ⟨name, -, h⟩ := except_bind_ok.mp h
    obtain ⟨value, hvalue, h⟩ := except_bind_ok.mp h
    obtain ⟨parts, hparts, h⟩ := except_bind_ok.mp h
    obtain rfl := Except.ok.inj h
    rw [List.all_cons, Bool.and_eq_true] at hstrict
    obtain ⟨j, hj⟩ := reads_tokens v hvalue (by simpa [Json.memberTokens, Token.strict] using hstrict.1)
    obtain ⟨items, hitems, hmembers⟩ := reads_items rest hparts hstrict.2
    exact ⟨(Json.joinPairs name, _, j) :: items, List.forall_mem_cons.mpr ⟨hj, hitems⟩,
      congrArg (_ :: ·) hmembers⟩
end

/-! ## The values of tickets among them -/

mutual
def ofPyVal : PyVal → Obj
  | .none => .none
  | .bool b => .bool b
  | .int n => .int n
  | .float r => .float r
  | .str s => .str s
  | .list xs => .list (ofPyVals xs)
  | .tuple xs => .tuple (ofPyVals xs)
  | .dict items => .dict (ofItems items)
  | .enum member value => .str_enum member value
  | .dataclass cls fields => .dataclass cls (ofFields fields)

def ofPyVals : List PyVal → List Obj
  | [] => []
  | x :: xs => ofPyVal x :: ofPyVals xs

def ofItems : List (PyStr × PyVal) → List (Key × Obj)
  | [] => []
  | (k, v) :: rest => (.str k, ofPyVal v) :: ofItems rest

def ofFields : List (PyStr × PyVal) → List (PyStr × Obj)
  | [] => []
  | (k, v) :: rest => (k, ofPyVal v) :: ofFields rest
end

section agreement
variable [Unicode]

mutual
theorem repr_ofPyVal : ∀ v, repr (ofPyVal v) = Py.repr v
  | .none | .bool true | .bool false | .int _ | .float _ | .str _ | .enum _ _ => rfl
  | .list xs => by
    rw [ofPyVal, repr, Py.repr, reprs_ofPyVals xs]
  | .tuple [] => rfl
  | .tuple [x] => by
    show lit "(" ++ repr (ofPyVal x) ++ lit ",)" = lit "(" ++ Py.repr x ++ lit ",)"
    rw [repr_ofPyVal x]
  | .tuple (x :: y :: xs) => by
    show lit "(" ++ join (lit ", ") (reprs (ofPyVals (x :: y :: xs))) ++ lit ")" =
      lit "(" ++ join (lit ", ") (Py.reprs (x :: y :: xs)) ++ lit ")"
    rw [reprs_ofPyVals (x :: y :: xs)]
  | .dict items => by
    rw [ofPyVal, repr, Py.repr, repr_ofItems items]
  | .dataclass cls fields => by
    rw [ofPyVal, repr, Py.repr, repr_ofFields fields]

theorem reprs_ofPyVals : ∀ xs, reprs (ofPyVals xs) = Py.reprs xs
  | [] => rfl
  | x :: xs => by rw [ofPyVals, reprs, Py.reprs, repr_ofPyVal x, reprs_ofPyVals xs]

theorem repr_ofItems : ∀ items, repr_items (ofItems items) = Py.repr_items items
  | [] => rfl
  | (k, v) :: rest => by
    rw [ofItems, repr_items, Py.repr_items, repr_ofPyVal v, repr_ofItems rest]
    rfl

theorem repr_ofFields : ∀ fields, repr_fields (ofFields fields) = Py.repr_fields fields
  | [] => rfl
  | (k, v) :: rest => by
    rw [ofFields, repr_fields, Py.repr_fields, repr_ofPyVal v, repr_ofFields rest]
end

theorem to_str_ofPyVal (v : PyVal) : to_str (ofPyVal v) = Py.str v := by
  cases v with
  | str s => rfl
  | enum member value => rfl
  | none | bool _ | int _ | float _ | list _ | tuple _ | dict _ | dataclass _ _ =>
    exact repr_ofPyVal _

end agreement

section dumps
variable (default : Option (Obj → PyStr))

/-- `default` for the values among the objects. -/
def onPyVal : Option (PyVal → PyStr) := default.map fun f v => f (ofPyVal v)

theorem render_ofFloat (r : FloatRepr) : (Token.ofFloat r).render = jsonFloat r.text := by
  unfold Token.ofFloat
  by_cases h : r.text ∈ special_floats
  · rw [if_pos h]
    rfl
  · rw [if_neg h]
    have hcases : r.text ≠ lit "nan" ∧ r.text ≠ lit "inf" ∧ r.text ≠ lit "-inf" := by
      simpa [special_floats] using h
    rw [jsonFloat, if_neg hcases.1, if_neg hcases.2.1, if_neg hcases.2.2]
    rfl

mutual
/-- `json.dumps` writes the same of both. -/
theorem json_dumps_ofPyVal : ∀ v,
    json_dumps default (ofPyVal v) = Py.json_dumps (onPyVal default) v
  | .none | .bool true | .bool false => rfl
  | .int n => congrArg Except.ok (Json.render_singleton (.number (str_int n)))
  | .float r => congrArg Except.ok ((Json.render_singleton _).trans (render_ofFloat r))
  | .str s => congrArg Except.ok (Json.render_singleton (.string s))
  | .enum _ s => congrArg Except.ok (Json.render_singleton (.string s))
  | .list xs => by
    have ih := json_dumps_ofPyVals xs
    show ((tokens_all default (ofPyVals xs)).map Json.arrayTokens).map Json.render = _
    rw [Py.json_dumps, ← ih]
    cases tokens_all default (ofPyVals xs) with
    | error e => rfl
    | ok parts => exact congrArg Except.ok (Json.render_array parts)
  | .tuple xs => by
    have ih := json_dumps_ofPyVals xs
    show ((tokens_all default (ofPyVals xs)).map Json.arrayTokens).map Json.render = _
    rw [Py.json_dumps, ← ih]
    cases tokens_all default (ofPyVals xs) with
    | error e => rfl
    | ok parts => exact congrArg Except.ok (Json.render_array parts)
  | .dict items => by
    have ih := json_dumps_ofItems items
    show ((tokens_items default (ofItems items)).map Json.objectTokens).map Json.render = _
    rw [Py.json_dumps, ← ih]
    cases tokens_items default (ofItems items) with
    | error e => rfl
    | ok parts => exact congrArg Except.ok (Json.render_object parts)
  | .dataclass cls fields => by
    cases default with
    | none => rfl
    | some f => exact congrArg Except.ok (Json.render_singleton (.string _))

theorem json_dumps_ofPyVals : ∀ xs,
    (tokens_all default (ofPyVals xs)).map (List.map Json.render) =
      Py.json_dumps_all (onPyVal default) xs
  | [] => rfl
  | x :: xs => by
    have ihx := json_dumps_ofPyVal x
    have ihxs := json_dumps_ofPyVals xs
    rw [ofPyVals, tokens_all, Py.json_dumps_all, ← ihx, ← ihxs, json_dumps]
    cases tokens default (ofPyVal x) with
    | error e => rfl
    | ok part => cases tokens_all default (ofPyVals xs) <;> rfl

theorem json_dumps_ofItems : ∀ items,
    (tokens_items default (ofItems items)).map (List.map Json.render) =
      Py.json_dumps_items (onPyVal default) items
  | [] => rfl
  | (k, v) :: rest => by
    have ihv := json_dumps_ofPyVal v
    have ihrest := json_dumps_ofItems rest
    rw [ofItems, tokens_items, Py.json_dumps_items, ← ihv, ← ihrest, json_dumps]
    cases tokens default (ofPyVal v) with
    | error e => rfl
    | ok value =>
      cases tokens_items default (ofItems rest) with
      | error e => rfl
      | ok parts =>
        show Except.ok (Json.render (Json.memberTokens k value) :: parts.map Json.render) = _
        have hmember : Json.render (Json.memberTokens k value) =
            jsonString k ++ lit ": " ++ Json.render value := by
          rw [Json.memberTokens, Json.render_cons, Json.render_cons, List.append_assoc]
          rfl
        rw [hmember]
        rfl
end

end dumps

end Obj

end Syndicate.Py
