import Syndicate.Py.Str

/-! # Python values

    The values that flow through tickets, tool inputs, model replies and
    state deltas: JSON values, the two `str` enums of `syndicate/state.py`,
    tuples and dataclass instances.

    A float is kept as its `repr` text: `repr` determines the float, and
    nothing here computes with one. -/

namespace Syndicate.Py

/-- The floats that are no number: `inf`, `-inf` and `nan`. -/
def special_floats : List PyStr := [lit "nan", lit "inf", lit "-inf"]

/-- The `repr` of a float: a number in decimal notation, or a special one. -/
structure FloatRepr where
  text : PyStr
  ascii : IsAscii text
  shape : isNumber text ∨ text ∈ special_floats

inductive PyVal where
  | none
  | bool (b : Bool)
  | int (n : Int)
  | float (repr : FloatRepr)
  | str (s : PyStr)
  | list (xs : List PyVal)
  | tuple (xs : List PyVal)
  | dict (items : List (PyStr × PyVal))
  /-- A member of a `str` enum: class and member name, and its value. -/
  | enum (member : PyStr) (value : PyStr)
  /-- An instance of a dataclass: class name and fields. -/
  | dataclass (cls : PyStr) (fields : List (PyStr × PyVal))
deriving Inhabited

/-- A `dict` with string keys, in insertion order. -/
abbrev Dict := List (PyStr × PyVal)

/-- Exceptions the modelled code raises, catches or lets through; `msg` is
    `str(exc)`. -/
inductive ExcKind where
  | ValueError
  | JSONDecodeError
  | UnicodeEncodeError
  | FileNotFoundError
  | KeyError
  | TypeError
  | RuntimeError
  | Other (name : PyStr)
deriving DecidableEq

structure PyExc where
  kind : ExcKind
  msg : PyStr
deriving DecidableEq

/-- `isinstance(exc, ValueError)`: the class and its two subclasses here. -/
def ExcKind.isValueError : ExcKind → Bool
  | ValueError | JSONDecodeError | UnicodeEncodeError => true
  | _ => false

/-- What `str.encode` raises on a lone surrogate. -/
def surrogates_not_allowed : PyExc :=
  ⟨.UnicodeEncodeError, lit "'utf-8' codec can't encode: surrogates not allowed"⟩

/-! ## Dictionaries -/

/-- `d[key]` where the key is present. -/
def Dict.find (d : Dict) (key : String) : Option PyVal := List.lookup (lit key) d

/-- `d.get(key)`. -/
def Dict.get (d : Dict) (key : String) : PyVal := (d.find key).getD .none

/-- `d.get(key, default)`. -/
def Dict.getD (d : Dict) (key : String) (default : PyVal) : PyVal := (d.find key).getD default

/-- `d[key]`: a missing key raises `KeyError`. -/
def Dict.getItem (d : Dict) (key : String) : Except PyExc PyVal :=
  match d.find key with
  | some v => .ok v
  | .none => .error ⟨.KeyError, lit "'" ++ lit key ++ lit "'"⟩

theorem Dict.get_of_not_mem {d : Dict} {key : String} (h : lit key ∉ d.map Prod.fst) :
    d.get key = .none := by
  have hfind : d.find key = Option.none := by
    apply List.lookup_eq_none_iff.mpr
    intro item hitem
    rw [bne_iff_ne]
    intro heq
    exact h (heq ▸ List.mem_map_of_mem hitem)
  rw [Dict.get, hfind]
  rfl

/-! A `dict` of any values that is built up by assignment. -/

section assignment
variable {β : Type}

/-- `d[key] = value`: a new key goes to the end. -/
def setItem (d : List (PyStr × β)) (key : PyStr) (value : β) : List (PyStr × β) :=
  if (d.lookup key).isSome then d.map fun (k, v) => (k, if k = key then value else v)
  else d ++ [(key, value)]

theorem lookup_map_key (d : List (PyStr × β)) (key : PyStr) (f : PyStr → β → β) :
    (d.map fun (k, v) => (k, f k v)).lookup key = (d.lookup key).map (f key) := by
  induction d with
  | nil => rfl
  | cons item d ih =>
    obtain ⟨k, v⟩ := item
    rw [List.map_cons, List.lookup_cons, List.lookup_cons]
    by_cases h : key = k
    · simp [h]
    · have hne : (key == k) = false := by simpa using h
      rw [hne]
      exact ih

theorem lookup_setItem (d : List (PyStr × β)) (key k : PyStr) (value : β) :
    (setItem d key value).lookup k = if k = key then some value else d.lookup k := by
  unfold setItem
  by_cases hsome : (d.lookup key).isSome
  · rw [if_pos hsome, lookup_map_key d k fun k v => if k = key then value else v]
    by_cases hk : k = key
    · obtain ⟨v, hv⟩ := Option.isSome_iff_exists.mp hsome
      rw [if_pos hk, hk, hv]
      simp
    · simp [hk]
  · rw [if_neg hsome, List.lookup_append]
    by_cases hk : k = key
    · have hnone : d.lookup key = Option.none := by rwa [Option.not_isSome_iff_eq_none] at hsome
      simp [hk, hnone]
    · have hne : (k == key) = false := by simpa using hk
      simp [hk, hne, List.lookup_cons]

/-- Assignment keeps the keys distinct. -/
theorem nodup_setItem {d : List (PyStr × β)} (h : (d.map Prod.fst).Nodup) (key : PyStr) (value : β) :
    ((setItem d key value).map Prod.fst).Nodup := by
  unfold setItem
  by_cases hsome : (d.lookup key).isSome
  · rw [if_pos hsome, List.map_map]
    exact h
  · have hnone : d.lookup key = Option.none := by rwa [Option.not_isSome_iff_eq_none] at hsome
    rw [if_neg hsome, List.map_append, List.nodup_append]
    refine ⟨h, by simp, ?_⟩
    intro k hk k' hk' heq
    obtain ⟨item, hitem, rfl⟩ := List.mem_map.mp hk
    obtain rfl : k' = key := by simpa using hk'
    have := List.lookup_eq_none_iff.mp hnone item hitem
    simp [heq] at this

/-- The one item of a key. -/
theorem filter_key {d : List (PyStr × β)} (h : (d.map Prod.fst).Nodup) {key : PyStr} {value : β}
    (hlookup : d.lookup key = some value) : d.filter (·.1 = key) = [(key, value)] := by
  induction d with
  | nil => cases hlookup
  | cons item d ih =>
    obtain ⟨k, v⟩ := item
    rw [List.map_cons, List.nodup_cons] at h
    rw [List.lookup_cons] at hlookup
    by_cases hk : key = k
    · subst hk
      have hnone : d.filter (·.1 = key) = [] := by
        rw [List.filter_eq_nil_iff]
        intro item hitem
        have hmem : item.1 ∈ d.map Prod.fst := List.mem_map_of_mem hitem
        have hne : item.1 ≠ key := fun heq => h.1 (heq ▸ hmem)
        simpa using hne
      have hv : v = value := by simpa using hlookup
      simp [hnone, hv]
    · have hne : (key == k) = false := by simpa using hk
      rw [hne] at hlookup
      rw [List.filter_cons_of_neg (by simpa using Ne.symm hk)]
      exact ih h.2 hlookup

end assignment

/-! ## Truth and `or` -/

def FloatRepr.isZero (r : FloatRepr) : Bool := r.text == lit "0.0" || r.text == lit "-0.0"

/-- `bool(v)`. -/
def PyVal.truthy : PyVal → Bool
  | .none => false
  | .bool b => b
  | .int n => n != 0
  | .float r => !r.isZero
  | .str s => !s.isEmpty
  | .list xs => !xs.isEmpty
  | .tuple xs => !xs.isEmpty
  | .dict items => !items.isEmpty
  | .enum _ value => !value.isEmpty
  | .dataclass _ _ => true

/-- `a or b`. -/
def PyVal.or (a b : PyVal) : PyVal := if a.truthy then a else b

/-! ## `==` -/

/-- `==` of a float and an integer, by their texts: below `10 ** 16` an
    integral float is written with a trailing `.0`. -/
def FloatRepr.eqInt (r : FloatRepr) (n : Int) : Bool :=
  r.text == str_int n ++ lit ".0" || (r.isZero && n == 0)

/-- `==` of two floats: a `nan` differs from everything. -/
def FloatRepr.eq (r r' : FloatRepr) : Bool :=
  (r.text == r'.text && r.text != lit "nan") || (r.isZero && r'.isZero)

/-- The number a `bool` or an `int` is. -/
def PyVal.asInt : PyVal → Option Int
  | .bool b => some (if b then 1 else 0)
  | .int n => some n
  | _ => Option.none

/-- The text a `str` or a member of a `str` enum is. -/
def PyVal.asStr : PyVal → Option PyStr
  | .str s => some s
  | .enum _ value => some value
  | _ => Option.none

mutual
/-- `a == b`. -/
def pyEq : PyVal → PyVal → Bool
  | .none, .none => true
  | .bool a, b => b.asInt == some (if a then 1 else 0) ||
      (match b with | .float r => r.eqInt (if a then 1 else 0) | _ => false)
  | .int a, b => b.asInt == some a || (match b with | .float r => r.eqInt a | _ => false)
  | .float r, .float r' => r.eq r'
  | .float r, b => (b.asInt.map r.eqInt).getD false
  | .str a, b => b.asStr == some a
  | .enum _ a, b => b.asStr == some a
  | .list xs, .list ys => pyEqs xs ys
  | .tuple xs, .tuple ys => pyEqs xs ys
  | .dict items, .dict items' => items.length == items'.length && pyEqItems items items'
  | .dataclass cls fields, .dataclass cls' fields' =>
    cls == cls' && fields.length == fields'.length && pyEqItems fields fields'
  | _, _ => false

def pyEqs : List PyVal → List PyVal → Bool
  | [], [] => true
  | x :: xs, y :: ys => pyEq x y && pyEqs xs ys
  | _, _ => false

/-- Each item has its counterpart in `other`. -/
def pyEqItems : List (PyStr × PyVal) → List (PyStr × PyVal) → Bool
  | [], _ => true
  | (k, v) :: rest, other =>
    (match List.lookup k other with
      | some v' => pyEq v v'
      | .none => false) && pyEqItems rest other
end

/-- A member of a `str` enum equals what is a `str` with its value. -/
theorem pyEq_enum (v : PyVal) (member value : PyStr) :
    pyEq v (.enum member value) = (v.asStr == some value) := by
  cases v with
  | str s =>
    rw [pyEq]
    simp [PyVal.asStr, eq_comm]
  | enum _ s =>
    rw [pyEq]
    simp [PyVal.asStr, eq_comm]
  | none | bool _ | int _ | float _ | list _ | tuple _ | dict _ | dataclass _ _ => rfl

/-! ## `repr` and `str` -/

mutual
/-- `repr(v)`. -/
def repr [Unicode] : PyVal → PyStr
  | .none => lit "None"
  | .bool true => lit "True"
  | .bool false => lit "False"
  | .int n => str_int n
  | .float r => r.text
  | .str s => repr_str s
  | .list xs => lit "[" ++ join (lit ", ") (reprs xs) ++ lit "]"
  | .tuple [x] => lit "(" ++ repr x ++ lit ",)"
  | .tuple xs => lit "(" ++ join (lit ", ") (reprs xs) ++ lit ")"
  | .dict items => lit "\x7b" ++ join (lit ", ") (repr_items items) ++ lit "\x7d"
  | .enum member value => lit "<" ++ member ++ lit ": " ++ repr_str value ++ lit ">"
  | .dataclass cls fields => cls ++ lit "(" ++ join (lit ", ") (repr_fields fields) ++ lit ")"

def reprs [Unicode] : List PyVal → List PyStr
  | [] => []
  | x :: xs => repr x :: reprs xs

def repr_items [Unicode] : List (PyStr × PyVal) → List PyStr
  | [] => []
  | (k, v) :: rest => (repr_str k ++ lit ": " ++ repr v) :: repr_items rest

def repr_fields [Unicode] : List (PyStr × PyVal) → List PyStr
  | [] => []
  | (k, v) :: rest => (k ++ lit "=" ++ repr v) :: repr_fields rest
end

/-- `str(v)`, which is also what an f-string writes. -/
def str [Unicode] : PyVal → PyStr
  | .str s => s
  | .enum member _ => member
  | v => repr v

/-! ## JSON text -/

/-- `\uXXXX`. -/
def jsonEscape (n : Nat) : PyStr := lit "\\u" ++ hexDigits 4 n

/-- One character of a JSON string under `ensure_ascii`; a character beyond
    the basic plane is written as a surrogate pair. -/
def jsonChar (c : CodePoint) : PyStr :=
  if c = CodePoint.ofChar '"' then lit "\\\""
  else if c = CodePoint.ofChar '\\' then lit "\\\\"
  else if c.val = 10 then lit "\\n"
  else if c.val = 13 then lit "\\r"
  else if c.val = 9 then lit "\\t"
  else if c.val = 12 then lit "\\f"
  else if c.val = 8 then lit "\\b"
  else if 0x20 ≤ c.val ∧ c.val ≤ 0x7e then [c]
  else if c.val ≤ 0xffff then jsonEscape c.val
  else jsonEscape (0xd800 + (c.val - 0x10000) / 0x400) ++ jsonEscape (0xdc00 + (c.val - 0x10000) % 0x400)

theorem jsonChar_ne_nil (c : CodePoint) : jsonChar c ≠ [] := by
  unfold jsonChar
  split_ifs <;> simp [jsonEscape, lit]

def jsonString (s : PyStr) : PyStr := lit "\"" ++ s.flatMap jsonChar ++ lit "\""

/-- A float under `json.dumps`. -/
def jsonFloat (repr : PyStr) : PyStr :=
  if repr = lit "nan" then lit "NaN"
  else if repr = lit "inf" then lit "Infinity"
  else if repr = lit "-inf" then lit "-Infinity"
  else repr

mutual
/-- `json.dumps(v, default=default)`: an object the encoder does not know
    goes through `default`, or raises `TypeError` when there is none. -/
def json_dumps (default : Option (PyVal → PyStr)) : PyVal → Except PyExc PyStr
  | .none => .ok (lit "null")
  | .bool true => .ok (lit "true")
  | .bool false => .ok (lit "false")
  | .int n => .ok (str_int n)
  | .float r => .ok (jsonFloat r.text)
  | .str s => .ok (jsonString s)
  | .enum _ value => .ok (jsonString value)
  | .list xs => do
    let parts ← json_dumps_all default xs
    pure (lit "[" ++ join (lit ", ") parts ++ lit "]")
  | .tuple xs => do
    let parts ← json_dumps_all default xs
    pure (lit "[" ++ join (lit ", ") parts ++ lit "]")
  | .dict items => do
    let parts ← json_dumps_items default items
    pure (lit "\x7b" ++ join (lit ", ") parts ++ lit "\x7d")
  | .dataclass cls fields =>
    match default with
    | some f => .ok (jsonString (f (.dataclass cls fields)))
    | .none => .error ⟨.TypeError,
        lit "Object of type " ++ cls ++ lit " is not JSON serializable"⟩

def json_dumps_all (default : Option (PyVal → PyStr)) : List PyVal → Except PyExc (List PyStr)
  | [] => .ok []
  | x :: xs => do
    let p ← json_dumps default x
    let ps ← json_dumps_all default xs
    pure (p :: ps)

def json_dumps_items (default : Option (PyVal → PyStr)) :
    List (PyStr × PyVal) → Except PyExc (List PyStr)
  | [] => .ok []
  | (k, v) :: rest => do
    let p ← json_dumps default v
    let ps ← json_dumps_items default rest
    pure ((jsonString k ++ lit ": " ++ p) :: ps)
end

/-! ## What `json.dumps` writes is ASCII -/

theorem isAscii_jsonString (s : PyStr) : IsAscii (jsonString s) := by
  have hu : IsAscii (lit "\\u") := by decide
  have hchar : ∀ c, IsAscii (jsonChar c) := by
    intro c
    unfold jsonChar
    repeat' split
    all_goals first
      | decide
      | exact hu.append (isAscii_hexDigits 4 _)
      | exact (hu.append (isAscii_hexDigits 4 _)).append (hu.append (isAscii_hexDigits 4 _))
      | intro d hd
        rw [List.mem_singleton.mp hd]
        omega
  have hquote : IsAscii (lit "\"") := by decide
  apply (hquote.append _).append hquote
  intro d hd
  obtain ⟨c, -, hd⟩ := List.mem_flatMap.mp hd
  exact hchar c d hd

theorem isAscii_jsonFloat (r : FloatRepr) : IsAscii (jsonFloat r.text) := by
  unfold jsonFloat
  repeat' split
  all_goals first
    | decide
    | exact r.ascii

mutual
/-- With a `default` for the objects it does not know, `json.dumps` never
    raises, and what it writes is ASCII. -/
theorem json_dumps_ascii (f : PyVal → PyStr) :
    ∀ v, ∃ s, json_dumps (some f) v = .ok s ∧ IsAscii s
  | .none => ⟨_, rfl, by decide⟩
  | .bool true => ⟨_, rfl, by decide⟩
  | .bool false => ⟨_, rfl, by decide⟩
  | .int n => ⟨_, rfl, isAscii_str_int n⟩
  | .float r => ⟨_, rfl, isAscii_jsonFloat r⟩
  | .str s => ⟨_, rfl, isAscii_jsonString s⟩
  | .enum _ value => ⟨_, rfl, isAscii_jsonString value⟩
  | .list xs => by
    obtain ⟨parts, hparts, hascii⟩ := json_dumps_all_ascii f xs
    refine ⟨_, by rw [json_dumps, hparts]; rfl, ?_⟩
    exact (IsAscii.append (by decide) (IsAscii.join (by decide) hascii)).append (by decide)
  | .tuple xs => by
    obtain ⟨parts, hparts, hascii⟩ := json_dumps_all_ascii f xs
    refine ⟨_, by rw [json_dumps, hparts]; rfl, ?_⟩
    exact (IsAscii.append (by decide) (IsAscii.join (by decide) hascii)).append (by decide)
  | .dict items => by
    obtain ⟨parts, hparts, hascii⟩ := json_dumps_items_ascii f items
    refine ⟨_, by rw [json_dumps, hparts]; rfl, ?_⟩
    exact (IsAscii.append (by decide) (IsAscii.join (by decide) hascii)).append (by decide)
  | .dataclass cls fields => ⟨_, rfl, isAscii_jsonString (f (.dataclass cls fields))⟩

theorem json_dumps_all_ascii (f : PyVal → PyStr) :
    ∀ xs, ∃ parts, json_dumps_all (some f) xs = .ok parts ∧ ∀ s ∈ parts, IsAscii s
  | [] => ⟨[], rfl, by simp⟩
  | x :: xs => by
    obtain ⟨s, hs, hascii⟩ := json_dumps_ascii f x
    obtain ⟨parts, hparts, hall⟩ := json_dumps_all_ascii f xs
    refine ⟨s :: parts, by rw [json_dumps_all, hs, hparts]; rfl, ?_⟩
    exact List.forall_mem_cons.mpr ⟨hascii, hall⟩

theorem json_dumps_items_ascii (f : PyVal → PyStr) :
    ∀ items, ∃ parts, json_dumps_items (some f) items = .ok parts ∧ ∀ s ∈ parts, IsAscii s
  | [] => ⟨[], rfl, by simp⟩
  | (k, v) :: rest => by
    obtain ⟨s, hs, hascii⟩ := json_dumps_ascii f v
    obtain ⟨parts, hparts, hall⟩ := json_dumps_items_ascii f rest
    refine ⟨_ :: parts, by rw [json_dumps_items, hs, hparts]; rfl, ?_⟩
    exact List.forall_mem_cons.mpr
      ⟨((isAscii_jsonString k).append (by decide)).append hascii, hall⟩
end

end Syndicate.Py
