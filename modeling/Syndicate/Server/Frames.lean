import Syndicate.Framework.EventStream
import Syndicate.Server.Cap

/-! # Do frames arrive?

    `cap_payload` encodes a payload with `default=str`, `format_sse` encodes
    it again without.  What only the first encoder accepts is in the backlog
    for good and raises in each viewer's stream. -/

namespace Syndicate.Server.Payload

open Py

/-! ## What is written without a `default` -/

mutual
/-- Does `json.dumps(v)` write JSON?  With `flat`, of `asdict(v)`: there a
    dataclass is a `dict`. -/
def writable (flat : Bool) : Obj → Bool
  | .float r => decide (r.text ∉ special_floats)
  | .list xs => writable_all flat xs
  | .tuple xs => writable_all flat xs
  | .dict items => writable_items flat items
  | .dataclass _ fields => flat && writable_fields flat fields
  | .enum _ _ | .object _ _ _ => false
  | .none | .bool _ | .int _ | .str _ | .str_enum _ _ | .int_enum _ _ => true

def writable_all (flat : Bool) : List Obj → Bool
  | [] => true
  | x :: xs => writable flat x && writable_all flat xs

def writable_items (flat : Bool) : List (Key × Obj) → Bool
  | [] => true
  | (_, v) :: rest => writable flat v && writable_items flat rest

def writable_fields (flat : Bool) : List (PyStr × Obj) → Bool
  | [] => true
  | (_, v) :: rest => writable flat v && writable_fields flat rest
end

mutual
/-- Does redaction leave what `json.dumps` writes as JSON?  It goes through
    lists and `dict`s and through a dataclass as `asdict` has it; a tuple it
    leaves alone, and of an enum's member it leaves the value. -/
def survives (flat : Bool) : Obj → Bool
  | .float r => decide (r.text ∉ special_floats)
  | .list xs => survives_all flat xs
  | .dict items => survives_items flat items
  | .dataclass _ fields => survives_fields fields
  | .tuple xs => writable_all flat xs
  | .enum _ value => writable false value
  | .object _ _ _ => false
  | .none | .bool _ | .int _ | .str _ | .str_enum _ _ | .int_enum _ _ => true

def survives_all (flat : Bool) : List Obj → Bool
  | [] => true
  | x :: xs => survives flat x && survives_all flat xs

def survives_items (flat : Bool) : List (Key × Obj) → Bool
  | [] => true
  | (_, v) :: rest => survives flat v && survives_items flat rest

def survives_fields : List (PyStr × Obj) → Bool
  | [] => true
  | (_, v) :: rest => survives true v && survives_fields rest
end

mutual
theorem writable_asdict : ∀ v, writable false (asdict v) = writable true v
  | .none | .bool _ | .int _ | .float _ | .str _ | .str_enum _ _ | .int_enum _ _ | .enum _ _
  | .object _ _ _ => rfl
  | .list xs => writable_asdict_all xs
  | .tuple xs => writable_asdict_all xs
  | .dict items => writable_asdict_items items
  | .dataclass _ fields => by
    rw [asdict, writable, writable, Bool.true_and]
    exact writable_asdict_fields fields

theorem writable_asdict_all : ∀ xs, writable_all false (asdict_all xs) = writable_all true xs
  | [] => rfl
  | x :: xs => by
    rw [asdict_all, writable_all, writable_all, writable_asdict x, writable_asdict_all xs]

theorem writable_asdict_items :
    ∀ items, writable_items false (asdict_items items) = writable_items true items
  | [] => rfl
  | (k, v) :: rest => by
    rw [asdict_items, writable_items, writable_items, writable_asdict v, writable_asdict_items rest]

theorem writable_asdict_fields :
    ∀ fields, writable_items false (asdict_fields fields) = writable_fields true fields
  | [] => rfl
  | (k, v) :: rest => by
    rw [asdict_fields, writable_items, writable_fields, writable_asdict v,
      writable_asdict_fields rest]
end

mutual
theorem writable_redact_plain : ∀ v, writable false (redact_plain (asdict v)) = survives true v
  | .none | .bool _ | .int _ | .float _ | .str _ | .str_enum _ _ | .int_enum _ _ | .enum _ _
  | .object _ _ _ => rfl
  | .tuple xs => writable_asdict_all xs
  | .list xs => writable_redact_plain_all xs
  | .dict items => writable_redact_plain_items items
  | .dataclass _ fields => writable_redact_plain_fields fields

theorem writable_redact_plain_all :
    ∀ xs, writable_all false (redact_plain_all (asdict_all xs)) = survives_all true xs
  | [] => rfl
  | x :: xs => by
    rw [asdict_all, redact_plain_all, writable_all, survives_all, writable_redact_plain x,
      writable_redact_plain_all xs]

theorem writable_redact_plain_items : ∀ items,
    writable_items false (redact_plain_items (asdict_items items)) = survives_items true items
  | [] => rfl
  | (k, v) :: rest => by
    rw [asdict_items, redact_plain_items, writable_items, survives_items, writable_redact_plain v,
      writable_redact_plain_items rest]

theorem writable_redact_plain_fields : ∀ fields,
    writable_items false (redact_plain_items (asdict_fields fields)) = survives_fields fields
  | [] => rfl
  | (k, v) :: rest => by
    rw [asdict_fields, redact_plain_items, writable_items, survives_fields,
      writable_redact_plain v, writable_redact_plain_fields rest]
end

mutual
theorem writable_redact_value : ∀ v, writable false (redact_value v) = survives false v
  | .none | .bool _ | .int _ | .float _ | .str _ | .str_enum _ _ | .int_enum _ _ | .enum _ _
  | .object _ _ _ | .tuple _ => rfl
  | .list xs => writable_redact_all xs
  | .dict items => writable_redact_items items
  | .dataclass _ fields => writable_redact_plain_fields fields

theorem writable_redact_all : ∀ xs, writable_all false (redact_all xs) = survives_all false xs
  | [] => rfl
  | x :: xs => by
    rw [redact_all, writable_all, survives_all, writable_redact_value x, writable_redact_all xs]

theorem writable_redact_items :
    ∀ items, writable_items false (redact_items items) = survives_items false items
  | [] => rfl
  | (k, v) :: rest => by
    rw [redact_items, writable_items, survives_items, writable_redact_value v,
      writable_redact_items rest]
end

/-! ## The two encoders -/

section encoders
variable {f : Obj → PyStr}

theorem strict_ofFloat (r : FloatRepr) :
    (Json.Token.ofFloat r).strict = decide (r.text ∉ special_floats) := by
  unfold Json.Token.ofFloat
  by_cases h : r.text ∈ special_floats
  · have hall : ∀ text ∈ special_floats, (Json.Token.word (jsonFloat text)).strict = false := by
      decide
    rw [if_pos h, hall _ h, decide_eq_false (not_not_intro h)]
  · rw [if_neg h, decide_eq_true h]
    rfl

theorem except_map_ok_iff {ε α β : Type} {x : Except ε α} {a : α} {g : α → β}
    (h : ∀ b, x = .ok b → b = a) : x.map g = .ok (g a) ↔ x = .ok a := by
  rw [except_map_ok]
  constructor
  · intro hsome
    obtain ⟨b, hb, -⟩ := hsome
    rw [hb, h b hb]
  · intro ha
    exact ⟨a, ha, rfl⟩

/-- An atom is written, and as JSON. -/
theorem writable_atom {t : Json.Token} (h : t.strict = true) :
    true = true ↔ (Except.ok [t] : Except PyExc (List Json.Token)) = .ok [t] ∧
      [t].all Json.Token.strict = true := by
  simp [h]

mutual
/-- What the encoder with a `default` writes, the one without writes as JSON,
    if and only if the value is writable. -/
theorem writable_iff : ∀ (v : Obj) {ts : List Json.Token}, v.tokens (some f) = .ok ts →
    (writable false v = true ↔ v.tokens none = .ok ts ∧ ts.all Json.Token.strict = true)
  | .none, ts, h | .bool true, ts, h | .bool false, ts, h => by
    obtain rfl := Except.ok.inj h
    exact writable_atom (by decide)
  | .int _, ts, h | .int_enum _ _, ts, h | .str _, ts, h | .str_enum _ _, ts, h => by
    obtain rfl := Except.ok.inj h
    exact writable_atom rfl
  | .float r, ts, h => by
    obtain rfl := Except.ok.inj h
    rw [writable, ← strict_ofFloat]
    simp [Obj.tokens]
  | .list xs, ts, h => by
    obtain ⟨parts, hparts, rfl⟩ := except_map_ok.mp h
    rw [writable, writable_all_iff xs hparts, Json.strict_array, Obj.tokens, except_map_ok_iff]
    intro parts' hnone
    exact Except.ok.inj ((tokens_all_default xs hnone).symm.trans hparts)
  | .tuple xs, ts, h => by
    obtain ⟨parts, hparts, rfl⟩ := except_map_ok.mp h
    rw [writable, writable_all_iff xs hparts, Json.strict_array, Obj.tokens, except_map_ok_iff]
    intro parts' hnone
    exact Except.ok.inj ((tokens_all_default xs hnone).symm.trans hparts)
  | .dict items, ts, h => by
    obtain ⟨parts, hparts, rfl⟩ := except_map_ok.mp h
    rw [writable, writable_items_iff items hparts, Json.strict_object, Obj.tokens, except_map_ok_iff]
    intro parts' hnone
    exact Except.ok.inj ((tokens_items_default items hnone).symm.trans hparts)
  | .enum _ _, ts, h | .dataclass _ _, ts, h | .object _ _ _, ts, h => by
    simp [writable, Obj.tokens, Obj.unknown]

theorem writable_all_iff : ∀ (xs : List Obj) {parts : List (List Json.Token)},
    Obj.tokens_all (some f) xs = .ok parts → (writable_all false xs = true ↔
      Obj.tokens_all none xs = .ok parts ∧ (parts.all fun part => part.all Json.Token.strict) = true)
  | [], parts, h => by
    obtain rfl := Except.ok.inj h
    simp [writable_all, Obj.tokens_all]
  | x :: xs, parts, h => by
    obtain ⟨part, hpart, h⟩ := except_bind_ok.mp h
    obtain ⟨parts, hparts, h⟩ := except_bind_ok.mp h
    obtain rfl := Except.ok.inj h
    rw [writable_all, Bool.and_eq_true, writable_iff x hpart, writable_all_iff xs hparts,
      List.all_cons, Bool.and_eq_true]
    constructor
    · intro hparts
      obtain ⟨⟨hx, hxstrict⟩, hxs, hxsstrict⟩ := hparts
      exact ⟨except_bind_ok.mpr ⟨part, hx, except_bind_ok.mpr ⟨parts, hxs, rfl⟩⟩, hxstrict, hxsstrict⟩
    · intro hparts
      obtain ⟨hnone, hxstrict, hxsstrict⟩ := hparts
      obtain ⟨part', hx, hnone⟩ := except_bind_ok.mp hnone
      obtain ⟨parts', hxs, hnone⟩ := except_bind_ok.mp hnone
      obtain ⟨rfl, rfl⟩ := List.cons.inj (Except.ok.inj hnone)
      exact ⟨⟨hx, hxstrict⟩, hxs, hxsstrict⟩

theorem writable_items_iff : ∀ (items : List (Key × Obj)) {parts : List (List Json.Token)},
    Obj.tokens_items (some f) items = .ok parts → (writable_items false items = true ↔
      Obj.tokens_items none items = .ok parts ∧
        (parts.all fun part => part.all Json.Token.strict) = true)
  | [], parts, h => by
    obtain rfl := Except.ok.inj h
    simp [writable_items, Obj.tokens_items]
  | (k, v) :: rest, parts, h => by
    obtain ⟨name, hname, h⟩ := except_bind_ok.mp h
    obtain ⟨value, hvalue, h⟩ := except_bind_ok.mp h
    obtain ⟨parts, hparts, h⟩ := except_bind_ok.mp h
    obtain rfl := Except.ok.inj h
    have hmember : (Json.memberTokens name value).all Json.Token.strict =
        value.all Json.Token.strict := rfl
    rw [writable_items, Bool.and_eq_true, writable_iff v hvalue, writable_items_iff rest hparts,
      List.all_cons, Bool.and_eq_true, hmember]
    constructor
    · intro hparts
      obtain ⟨⟨hv, hvstrict⟩, hrest, hreststrict⟩ := hparts
      exact ⟨except_bind_ok.mpr ⟨name, hname, except_bind_ok.mpr ⟨value, hv,
        except_bind_ok.mpr ⟨parts, hrest, rfl⟩⟩⟩, hvstrict, hreststrict⟩
    · intro hparts
      obtain ⟨hnone, hvstrict, hreststrict⟩ := hparts
      obtain ⟨name', hname', hnone⟩ := except_bind_ok.mp hnone
      obtain ⟨value', hv, hnone⟩ := except_bind_ok.mp hnone
      obtain ⟨parts', hrest, hnone⟩ := except_bind_ok.mp hnone
      obtain rfl := Except.ok.inj (hname.symm.trans hname')
      obtain ⟨hmembers, rfl⟩ := List.cons.inj (Except.ok.inj hnone)
      obtain rfl : value' = value := (List.cons.inj (List.cons.inj hmembers).2).2
      exact ⟨⟨hv, hvstrict⟩, hrest, hreststrict⟩
end

end encoders

/-! ## The frame of an envelope -/

/-- An optional value as JSON has it. -/
def optional_json {α : Type} (f : α → Json.Value) : Option α → Json.Value
  | none => .null
  | some a => f a

def optional_tokens {α : Type} (f : α → Json.Token) : Option α → List Json.Token
  | none => [.word (lit "null")]
  | some a => [f a]

/-- What a viewer finds under a name; of two members the later one counts. -/
def member (name : PyStr) (fields : List (PyStr × Json.Value)) : Option Json.Value :=
  fields.reverse.lookup name

/-- The frame of an envelope is written, is one event of the stream it stands
    in, and is read as an object with the envelope's fields. -/
def Delivered (e : Envelope) : Prop :=
  ∃ frame data fields, format_sse e = .ok frame ∧
    (∀ rest, EventStream.parse (frame ++ rest) = data :: EventStream.parse rest) ∧
    Json.loads data = some (.object fields) ∧
    member (lit "seq") fields =
      some (optional_json (fun n => .number (str_int (n : Nat))) e.seq) ∧
    member (lit "run_id") fields = some (.string e.run_id) ∧
    member (lit "kind") fields = some (.string (lit e.kind.value)) ∧
    member (lit "node") fields = some (optional_json .string e.node)

/-- The members of an envelope's JSON text: name, tokens and value, with `ts`
    and `v` for its payload and `g` done to its strings. -/
def Envelope.parts (g : PyStr → PyStr) (e : Envelope) (ts : List Json.Token) (v : Json.Value) :
    List (PyStr × List Json.Token × Json.Value) :=
  [(lit "seq", optional_tokens (fun n => .number (str_int (n : Nat))) e.seq,
      optional_json (fun n => .number (str_int (n : Nat))) e.seq),
    (lit "ts", [.string (g e.ts)], .string (g e.ts)),
    (lit "run_id", [.string (g e.run_id)], .string (g e.run_id)),
    (lit "kind", [.string (lit e.kind.value)], .string (lit e.kind.value)),
    (lit "node", optional_tokens (fun s => .string (g s)) e.node,
      optional_json (fun s => .string (g s)) e.node),
    (lit "payload", ts, v)]

theorem tokens_envelope (e : Envelope) (v : Json.Value) :
    (Obj.dict e.toDict).tokens none = ((Obj.dict e.payload).tokens none).map fun ts =>
      Json.objectTokens (Json.members (e.parts id ts v)) := by
  obtain ⟨seq, ts, run_id, kind, node, payload⟩ := e
  cases h : Obj.tokens_items none payload <;> cases seq <;> cases node <;>
    simp [Envelope.toDict, Envelope.parts, Json.members, optional, optional_tokens, Obj.tokens_items,
      Obj.key_name, Obj.tokens, bind, Except.bind, pure, Except.pure, Except.map, h]

/-- Only the payload's words can be other than JSON's. -/
theorem strict_parts (e : Envelope) (ts : List Json.Token) (v : Json.Value) :
    (Json.objectTokens (Json.members (e.parts id ts v))).all Json.Token.strict =
      ts.all Json.Token.strict := by
  have hnull : [Json.Token.word (lit "null")].all Json.Token.strict = true := by decide
  have hseq : (optional_tokens (fun n => Json.Token.number (str_int (n : Nat))) e.seq).all
      Json.Token.strict = true := by
    cases e.seq with
    | none => exact hnull
    | some n => rfl
  have hnode : (optional_tokens (fun s => Json.Token.string s) e.node).all
      Json.Token.strict = true := by
    cases e.node with
    | none => exact hnull
    | some s => rfl
  rw [Json.strict_object]
  simp [Json.members, Envelope.parts, Json.memberTokens, Json.Token.strict, hseq, hnode]

theorem read_parts (e : Envelope) (ts : List Json.Token) (v : Json.Value) :
    (Json.objectTokens (Json.members (e.parts id ts v))).map Json.Token.read =
      Json.objectTokens (Json.members (e.parts Json.joinPairs (ts.map Json.Token.read) v)) := by
  have hkind : Json.joinPairs (lit e.kind.value) = lit e.kind.value := by
    rw [Json.joinPairs_eq_iff]
    cases e.kind <;> rfl
  have hnames : ∀ name ∈ [lit "seq", lit "ts", lit "run_id", lit "kind", lit "node",
      lit "payload"], Json.joinPairs name = name := by
    simp only [List.forall_mem_cons, Json.joinPairs_eq_iff]
    decide
  simp only [List.forall_mem_cons] at hnames
  obtain ⟨hseq, hts, hrun_id, hkindname, hnode, hpayload, -⟩ := hnames
  have hoptional : ∀ {α : Type} (f : α → Json.Token) (o : Option α),
      (optional_tokens f o).map Json.Token.read = optional_tokens (fun a => (f a).read) o := by
    intro α f o
    cases o <;> rfl
  rw [Json.map_read_object]
  simp only [Envelope.parts, Json.members, Json.memberTokens, List.map_cons, List.map_nil,
    Json.Token.read, hseq, hts, hrun_id, hkindname, hnode, hpayload, hkind, hoptional, id]

theorem reads_optional {α : Type} {f : α → Json.Token} {g : α → Json.Value}
    (h : ∀ a, Json.Reads [f a] (g a)) (o : Option α) :
    Json.Reads (optional_tokens f o) (optional_json g o) := by
  cases o with
  | none => exact Json.reads_word rfl
  | some a => exact h a

theorem reads_parts {ts : List Json.Token} {v : Json.Value} (h : Json.Reads ts v) (g : PyStr → PyStr)
    (e : Envelope) : ∀ i ∈ e.parts g ts v, Json.Reads i.2.1 i.2.2 := by
  intro i hi
  simp only [Envelope.parts, List.mem_cons, List.not_mem_nil, or_false] at hi
  obtain rfl | rfl | rfl | rfl | rfl | rfl := hi
  · exact reads_optional (fun n => Json.reads_number _) e.seq
  · exact Json.reads_string _
  · exact Json.reads_string _
  · exact Json.reads_string _
  · exact reads_optional (fun s => Json.reads_string _) e.node
  · exact h

/-- The fields a viewer reads of an envelope. -/
theorem member_parts (g : PyStr → PyStr) (e : Envelope) (ts : List Json.Token) (v : Json.Value) :
    let fields := (e.parts g ts v).map fun i => (i.1, i.2.2)
    member (lit "seq") fields =
        some (optional_json (fun n => .number (str_int (n : Nat))) e.seq) ∧
      member (lit "run_id") fields = some (.string (g e.run_id)) ∧
      member (lit "kind") fields = some (.string (lit e.kind.value)) ∧
      member (lit "node") fields = some (optional_json (fun s => .string (g s)) e.node) :=
  ⟨rfl, rfl, rfl, rfl⟩

/-- The text of an envelope whose payload has these tokens. -/
def Envelope.text (e : Envelope) (ts : List Json.Token) : PyStr :=
  Json.render (Json.objectTokens (Json.members (e.parts id ts .null)))

theorem tokens_text {e : Envelope} {ts : List Json.Token}
    (h : (Obj.dict e.payload).tokens none = .ok ts) :
    (Obj.dict e.toDict).tokens none =
      .ok (Json.objectTokens (Json.members (e.parts id ts .null))) := by
  rw [tokens_envelope e .null, h]
  rfl

theorem format_sse_eq_ok {e : Envelope} {frame : PyStr} :
    format_sse e = .ok frame ↔ ∃ ts, (Obj.dict e.payload).tokens none = .ok ts ∧
      frame = lit "data: " ++ e.text ts ++ lit "\n\n" := by
  rw [format_sse, except_bind_ok]
  constructor
  · intro h
    obtain ⟨text, htext, hframe⟩ := h
    obtain ⟨toks, htoks, rfl⟩ := except_map_ok.mp htext
    rw [tokens_envelope e .null] at htoks
    obtain ⟨ts, hts, rfl⟩ := except_map_ok.mp htoks
    exact ⟨ts, hts, (Except.ok.inj hframe).symm⟩
  · intro h
    obtain ⟨ts, hts, rfl⟩ := h
    exact ⟨e.text ts, except_map_ok.mpr ⟨_, tokens_text hts, rfl⟩, rfl⟩

/-- A frame is one event, and its data is the text. -/
theorem parse_text {e : Envelope} {ts : List Json.Token}
    (h : (Obj.dict e.payload).tokens none = .ok ts) (rest : PyStr) :
    EventStream.parse (lit "data: " ++ e.text ts ++ lit "\n\n" ++ rest) =
      e.text ts :: EventStream.parse rest := by
  apply EventStream.parse_frame
  have hprint := Json.printable_render (Obj.wellWritten_tokens _ (tokens_text h))
  rw [List.all_eq_true] at hprint ⊢
  intro c hc
  have hc := hprint c hc
  simp only [Json.isPrintable, Bool.and_eq_true, decide_eq_true_eq] at hc
  simp only [EventStream.isInline, Bool.and_eq_true, bne_iff_ne]
  omega

/-- What `JSON.parse` makes of the text. -/
theorem loads_text {e : Envelope} {ts : List Json.Token}
    (h : (Obj.dict e.payload).tokens none = .ok ts) :
    (ts.all Json.Token.strict = false → Json.loads (e.text ts) = none) ∧
      (ts.all Json.Token.strict = true → ∃ v, Json.loads (e.text ts) = some (.object
        ((e.parts Json.joinPairs (ts.map Json.Token.read) v).map fun i => (i.1, i.2.2)))) := by
  have hwritten := Obj.wellWritten_tokens _ (tokens_text h)
  have hloads := Json.loads_render hwritten
  rw [strict_parts] at hloads
  refine ⟨hloads.1, fun hstrict => ?_⟩
  obtain ⟨v, hv⟩ := Obj.reads_tokens _ h hstrict
  have hreads := Json.reads_object (reads_parts hv Json.joinPairs e)
  refine ⟨v, hloads.2 _ hstrict ?_⟩
  rw [read_parts]
  exact hreads

/-- An envelope is delivered if and only if its payload is written as JSON and
    its strings come back as they are. -/
theorem delivered_iff_writable {f : Obj → PyStr} {e : Envelope} {ts : List Json.Token}
    (h : (Obj.dict e.payload).tokens (some f) = .ok ts) :
    Delivered e ↔ writable_items false e.payload = true ∧ Json.hasPair e.run_id = false ∧
      ∀ s ∈ e.node, Json.hasPair s = false := by
  have hwritable := writable_iff (.dict e.payload) h
  constructor
  · intro hsome
    obtain ⟨frame, data, fields, hframe, hparse, hloads, -, hrun_id, -, hnode⟩ := hsome
    obtain ⟨ts', hts', rfl⟩ := format_sse_eq_ok.mp hframe
    obtain rfl : ts' = ts := Except.ok.inj ((tokens_default _ hts').symm.trans h)
    obtain ⟨rfl, -⟩ := List.cons.inj ((parse_text hts' []).symm.trans (hparse []))
    obtain ⟨hlax, hread⟩ := loads_text hts'
    -- what was parsed cannot hold `NaN` or an infinity
    have hstrict : ts'.all Json.Token.strict = true := by
      by_contra hno
      rw [hlax (Bool.eq_false_of_not_eq_true hno)] at hloads
      cases hloads
    obtain ⟨v, hv⟩ := hread hstrict
    obtain rfl := Json.Value.object.inj (Option.some.inj (hv.symm.trans hloads))
    obtain ⟨-, hrun_id', -, hnode'⟩ := member_parts Json.joinPairs e (ts'.map Json.Token.read) v
    -- a member comes back as it was only if no pair in it was joined
    refine ⟨hwritable.mpr ⟨hts', hstrict⟩, ?_, ?_⟩
    · rw [← Json.joinPairs_eq_iff]
      exact Json.Value.string.inj (Option.some.inj (hrun_id'.symm.trans hrun_id))
    · intro s hs
      have hsame := Option.some.inj (hnode'.symm.trans hnode)
      rw [Option.mem_def.mp hs] at hsame
      rw [← Json.joinPairs_eq_iff]
      exact Json.Value.string.inj hsame
  · intro hparts
    obtain ⟨hpayload, hrun_id, hnode⟩ := hparts
    obtain ⟨hts, hstrict⟩ := hwritable.mp hpayload
    obtain ⟨v, hv⟩ := (loads_text hts).2 hstrict
    obtain ⟨hseq', hrun_id', hkind', hnode'⟩ :=
      member_parts Json.joinPairs e (ts.map Json.Token.read) v
    refine ⟨_, _, _, format_sse_eq_ok.mpr ⟨ts, hts, rfl⟩, parse_text hts, hv, hseq', ?_, hkind', ?_⟩
    · rw [hrun_id', (Json.joinPairs_eq_iff _).mpr hrun_id]
    · rw [hnode']
      cases hs : e.node with
      | none => rfl
      | some s =>
        show some (Json.Value.string (Json.joinPairs s)) = _
        rw [(Json.joinPairs_eq_iff s).mpr (hnode s hs)]
        rfl

/-- **The frame of an envelope arrives if and only if** no string of its own
    has a surrogate pair, and its payload was over the cap or all of it
    survives redaction. -/
theorem make_envelope_delivered_iff [Unicode] {now run_id encoded : PyStr} {seq : Option Nat}
    {kind : EventKind} {node : Option PyStr} {payload : Dict} {e : Envelope}
    (hmake : make_envelope now seq run_id kind node payload = .ok e)
    (hdumps : (Obj.dict (redact_items payload)).json_dumps (some Obj.to_str) = .ok encoded) :
    Delivered e ↔ (MAX_PAYLOAD_BYTES < encoded.length ∨ survives_items false payload = true) ∧
      Json.hasPair run_id = false ∧ ∀ s ∈ node, Json.hasPair s = false := by
  obtain ⟨safe, hsafe, he⟩ := except_bind_ok.mp hmake
  obtain rfl := Except.ok.inj he
  obtain ⟨ts, hts, hcapped⟩ := cap_payload_eq_ok.mp hsafe
  obtain ⟨ts', hts', rfl⟩ := except_map_ok.mp hdumps
  obtain rfl : ts' = ts := Except.ok.inj (hts'.symm.trans hts)
  by_cases hsmall : (Json.render ts').length ≤ MAX_PAYLOAD_BYTES
  · obtain rfl : safe = redact_items payload := hcapped.trans (if_pos hsmall)
    rw [delivered_iff_writable hts, writable_redact_items]
    simp only [Nat.not_lt.mpr hsmall, false_or]
  · obtain rfl := hcapped.trans (if_neg hsmall)
    have hmarker : ∀ size preview, writable_items false (marker size preview) = true :=
      fun _ _ => rfl
    rw [delivered_iff_writable (marker_tokens (some Obj.to_str) _ _)]
    simp only [hmarker, Nat.lt_of_not_le hsmall, true_or]

section small
attribute [local instance] Unicode.ascii

/-- What a node's update may hold: a status, a secret, a tuple, a dataclass
    with a lone surrogate. -/
def updated : Dict :=
  [(.str (lit "ticket_status"), .str_enum (lit "TicketStatus.LOCAL_PASS") (lit "LOCAL_PASS")),
   (.str (lit "log"), .list [.str (lit "token=abcdefghijklmnop\n"), .none]),
   (.str (lit "span"), .tuple [.int 3, .int (-1)]),
   (.str (lit "summary"), .dataclass (lit "DecisionSummary")
     [(lit "summary", .str [⟨0xD800, by decide⟩]), (lit "attempt_count", .int 2)]),
   (.str (lit "passed"), .bool true)]

/-- Its frame arrives. -/
theorem make_envelope_delivered_iff_updated :
    ∃ e, make_envelope (lit "2026-01-01T00:00:00+00:00") (some 1) (lit "run-1") .node_update
        (some (lit "executor")) updated = .ok e ∧ Delivered e := by
  have hts : (Obj.dict (redact_items updated)).tokens (some Obj.to_str) = .ok _ := rfl
  have hmake : make_envelope (lit "2026-01-01T00:00:00+00:00") (some 1) (lit "run-1") .node_update
      (some (lit "executor")) updated = .ok _ :=
    except_bind_ok.mpr ⟨_, cap_payload_eq_ok.mpr ⟨_, hts, rfl⟩, rfl⟩
  refine ⟨_, hmake, (make_envelope_delivered_iff hmake
    (except_map_ok.mpr ⟨_, hts, rfl⟩)).mpr ⟨.inr ?_, ?_, ?_⟩⟩
  · decide +kernel
  · decide +kernel
  · intro s hs
    obtain rfl := Option.some.inj hs
    decide +kernel

/-- A payload that holds an instance of a class no encoder knows. -/
def dated : Dict := [(.str (lit "at"), .object (lit "datetime") (lit "2026-01-01 00:00:00")
  (lit "datetime.datetime(2026, 1, 1, 0, 0)"))]

/-- Its envelope is made, and no frame is written of it. -/
theorem dated_is_poison : ∃ e err,
    make_envelope (lit "2026-01-01T00:00:00+00:00") (some 1) (lit "run-1") .node_update
      (some (lit "executor")) dated = .ok e ∧ format_sse e = .error err :=
  ⟨_, _, rfl, rfl⟩

end small

end Syndicate.Server.Payload
