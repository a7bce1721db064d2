import Syndicate.Server.Payloads
import Syndicate.Server.Preview

/-! # What redaction reaches

    `redact_value` redacts the values of `dict`s and lists and the fields of
    dataclasses.  It leaves keys and field names alone, and everything in a
    tuple, and the value of an enum's member that is no string itself. -/

namespace Syndicate.Server.Payload

open Py Py.Re

/-! ## The strings of an object -/

def key_strings : Key → List PyStr
  | .str s => [s]
  | _ => []

mutual
/-- The strings in an object: keys and the names of fields too. -/
def strings : Obj → List PyStr
  | .str s | .str_enum _ s => [s]
  | .list xs | .tuple xs => strings_all xs
  | .dict items => strings_items items
  | .enum _ value => strings value
  | .dataclass _ fields => strings_fields fields
  | .none | .bool _ | .int _ | .float _ | .int_enum _ _ | .object _ _ _ => []

def strings_all : List Obj → List PyStr
  | [] => []
  | x :: xs => strings x ++ strings_all xs

def strings_items : List (Key × Obj) → List PyStr
  | [] => []
  | (k, v) :: rest => key_strings k ++ (strings v ++ strings_items rest)

def strings_fields : List (PyStr × Obj) → List PyStr
  | [] => []
  | (k, v) :: rest => k :: (strings v ++ strings_fields rest)
end

mutual
/-- The strings that redaction leaves as they are. -/
def bare : Obj → List PyStr
  | .list xs => bare_all xs
  | .dict items => bare_items items
  | .tuple xs => strings_all xs
  | .enum _ value => strings value
  | .dataclass _ fields => bare_fields fields
  | .none | .bool _ | .int _ | .float _ | .str _ | .str_enum _ _ | .int_enum _ _
  | .object _ _ _ => []

def bare_all : List Obj → List PyStr
  | [] => []
  | x :: xs => bare x ++ bare_all xs

def bare_items : List (Key × Obj) → List PyStr
  | [] => []
  | (k, v) :: rest => key_strings k ++ (bare v ++ bare_items rest)

def bare_fields : List (PyStr × Obj) → List PyStr
  | [] => []
  | (k, v) :: rest => k :: (bare v ++ bare_fields rest)
end

mutual
theorem strings_asdict : ∀ v, strings (asdict v) = strings v
  | .none | .bool _ | .int _ | .float _ | .str _ | .str_enum _ _ | .int_enum _ _ | .enum _ _
  | .object _ _ _ => rfl
  | .list xs => strings_asdict_all xs
  | .tuple xs => strings_asdict_all xs
  | .dict items => strings_asdict_items items
  | .dataclass _ fields => strings_asdict_fields fields

theorem strings_asdict_all : ∀ xs, strings_all (asdict_all xs) = strings_all xs
  | [] => rfl
  | x :: xs => by
    rw [asdict_all, strings_all, strings_all, strings_asdict x, strings_asdict_all xs]

theorem strings_asdict_items : ∀ items, strings_items (asdict_items items) = strings_items items
  | [] => rfl
  | (k, v) :: rest => by
    rw [asdict_items, strings_items, strings_items, strings_asdict v, strings_asdict_items rest]

theorem strings_asdict_fields :
    ∀ fields, strings_items (asdict_fields fields) = strings_fields fields
  | [] => rfl
  | (k, v) :: rest => by
    rw [asdict_fields, strings_items, strings_fields, strings_asdict v, strings_asdict_fields rest]
    rfl
end

section reach
variable {P : PyStr → Prop}

mutual
theorem redact_plain_reach (hP : ∀ t, P (redact_text t)) :
    ∀ v, (∀ s ∈ strings (redact_plain (asdict v)), P s) ↔ ∀ s ∈ bare v, P s
  | .none | .bool _ | .int _ | .float _ | .int_enum _ _ | .enum _ _ | .object _ _ _ => Iff.rfl
  | .str s | .str_enum _ s => by
    simp [asdict, redact_plain, strings, bare, hP]
  | .tuple xs => by
    show (∀ s ∈ strings_all (asdict_all xs), P s) ↔ ∀ s ∈ strings_all xs, P s
    rw [strings_asdict_all]
  | .list xs => redact_plain_reach_all hP xs
  | .dict items => redact_plain_reach_items hP items
  | .dataclass _ fields => redact_plain_reach_fields hP fields

theorem redact_plain_reach_all (hP : ∀ t, P (redact_text t)) : ∀ xs,
    (∀ s ∈ strings_all (redact_plain_all (asdict_all xs)), P s) ↔ ∀ s ∈ bare_all xs, P s
  | [] => Iff.rfl
  | x :: xs => by
    rw [asdict_all, redact_plain_all, strings_all, bare_all, List.forall_mem_append,
      List.forall_mem_append, redact_plain_reach hP x, redact_plain_reach_all hP xs]

theorem redact_plain_reach_items (hP : ∀ t, P (redact_text t)) : ∀ items,
    (∀ s ∈ strings_items (redact_plain_items (asdict_items items)), P s) ↔
      ∀ s ∈ bare_items items, P s
  | [] => Iff.rfl
  | (k, v) :: rest => by
    rw [asdict_items, redact_plain_items, strings_items, bare_items, List.forall_mem_append,
      List.forall_mem_append, List.forall_mem_append, List.forall_mem_append,
      redact_plain_reach hP v, redact_plain_reach_items hP rest]

theorem redact_plain_reach_fields (hP : ∀ t, P (redact_text t)) : ∀ fields,
    (∀ s ∈ strings_items (redact_plain_items (asdict_fields fields)), P s) ↔
      ∀ s ∈ bare_fields fields, P s
  | [] => Iff.rfl
  | (k, v) :: rest => by
    rw [asdict_fields, redact_plain_items, strings_items, bare_fields, key_strings,
      List.singleton_append, List.forall_mem_cons, List.forall_mem_cons, List.forall_mem_append,
      List.forall_mem_append, redact_plain_reach hP v, redact_plain_reach_fields hP rest]
end

mutual
/-- What holds of redacted texts holds of all strings of a redacted value if
    and only if it holds of those redaction does not reach. -/
theorem redact_value_reach (hP : ∀ t, P (redact_text t)) :
    ∀ v, (∀ s ∈ strings (redact_value v), P s) ↔ ∀ s ∈ bare v, P s
  | .none | .bool _ | .int _ | .float _ | .int_enum _ _ | .enum _ _ | .object _ _ _ | .tuple _ =>
    Iff.rfl
  | .str s | .str_enum _ s => by
    simp [redact_value, strings, bare, hP]
  | .list xs => redact_reach_all hP xs
  | .dict items => redact_reach_items hP items
  | .dataclass _ fields => redact_plain_reach_fields hP fields

theorem redact_reach_all (hP : ∀ t, P (redact_text t)) :
    ∀ xs, (∀ s ∈ strings_all (redact_all xs), P s) ↔ ∀ s ∈ bare_all xs, P s
  | [] => Iff.rfl
  | x :: xs => by
    rw [redact_all, strings_all, bare_all, List.forall_mem_append, List.forall_mem_append,
      redact_value_reach hP x, redact_reach_all hP xs]

theorem redact_reach_items (hP : ∀ t, P (redact_text t)) :
    ∀ items, (∀ s ∈ strings_items (redact_items items), P s) ↔ ∀ s ∈ bare_items items, P s
  | [] => Iff.rfl
  | (k, v) :: rest => by
    rw [redact_items, strings_items, bare_items, List.forall_mem_append, List.forall_mem_append,
      List.forall_mem_append, List.forall_mem_append, redact_value_reach hP v,
      redact_reach_items hP rest]
end

end reach

/-! ## Payloads without a secret -/

/-- No part of the text matches a pattern. -/
def NoSecret (s : PyStr) : Prop := ∀ r ∈ SECRET_PATTERNS, Free r s

/-- No string in the object has a part that matches a pattern. -/
def Clean (v : Obj) : Prop := ∀ s ∈ strings v, NoSecret s

theorem clean_redact_items (payload : Dict) :
    Clean (.dict (redact_items payload)) ↔ ∀ s ∈ bare_items payload, NoSecret s :=
  redact_reach_items free_redact_text payload

/-- No pattern matches at any position of the texts. -/
theorem noSecret_of_tails {texts : List PyStr}
    (h : (texts.all fun s => SECRET_PATTERNS.all fun r =>
      s.tails.all fun e => (r.matchHere e).isNone) = true) : ∀ s ∈ texts, NoSecret s := by
  intro s hs r hr
  exact free_of_tails (List.all_eq_true.mp (List.all_eq_true.mp h s hs) r hr)

/-- The marker is clean if and only if its preview is. -/
theorem clean_marker (size : Nat) (preview : PyStr) :
    Clean (.dict (marker size preview)) ↔ NoSecret preview := by
  have hkey : ∀ s ∈ [lit "truncated", lit "original_size_bytes", lit "preview"], NoSecret s :=
    noSecret_of_tails rfl
  constructor
  · intro h
    exact h preview (by simp [marker, strings, strings_items])
  · intro h s hs
    simp only [marker, strings, strings_items, key_strings, List.cons_append, List.nil_append,
      List.append_nil, List.mem_cons, List.not_mem_nil, or_false] at hs
    obtain rfl | rfl | rfl | rfl := hs
    · exact hkey _ (by simp)
    · exact hkey _ (by simp)
    · exact hkey _ (by simp)
    · exact h

/-- Nothing secret-shaped gets past redaction: within the cap none of the
    strings it leaves alone has a secret; over the cap, none shows in the
    strings of the preview as JSON writes them. -/
def Covered [Unicode] (payload : Dict) : Prop :=
  ∀ ts, (Obj.dict (redact_items payload)).tokens (some Obj.to_str) = .ok ts →
    if (Json.render ts).length ≤ MAX_PAYLOAD_BYTES then ∀ s ∈ bare_items payload, NoSecret s
    else ¬Leaks (shown (MAX_PAYLOAD_BYTES - 200) ts)

theorem make_envelope_clean_iff [Unicode] {now run_id : PyStr} {seq : Option Nat} {kind : EventKind}
    {node : Option PyStr} {payload : Dict} {e : Envelope}
    (h : make_envelope now seq run_id kind node payload = .ok e) :
    Clean (.dict e.payload) ↔ Covered payload := by
  obtain ⟨safe, hsafe, he⟩ := except_bind_ok.mp h
  obtain rfl := Except.ok.inj he
  obtain ⟨ts, hts, hcapped⟩ := cap_payload_eq_ok.mp hsafe
  have hcovered : Covered payload ↔
      if (Json.render ts).length ≤ MAX_PAYLOAD_BYTES then ∀ s ∈ bare_items payload, NoSecret s
      else ¬Leaks (shown (MAX_PAYLOAD_BYTES - 200) ts) := by
    constructor
    · exact fun hall => hall ts hts
    · intro hone ts' hts'
      obtain rfl := Except.ok.inj (hts.symm.trans hts')
      exact hone
  rw [hcovered]
  by_cases hsmall : (Json.render ts).length ≤ MAX_PAYLOAD_BYTES
  · obtain rfl : safe = redact_items payload := hcapped.trans (if_pos hsmall)
    rw [if_pos hsmall]
    exact clean_redact_items payload
  · obtain rfl := hcapped.trans (if_neg hsmall)
    have hwritten := Obj.wellWritten_tokens _ hts
    rw [if_neg hsmall, ← free_iff_not_leaks (woven_take hwritten.separated hwritten.written _)]
    exact clean_marker _ _

theorem get_run_state_clean_iff [Unicode] {run_id : PyStr} {values : List (PyStr × Obj)} {r : Dict}
    (h : get_run_state run_id (some values) = .ok r) :
    ∃ state, state_values values = .ok state ∧
      (Clean (.dict r) ↔ ∀ s ∈ bare_items state, NoSecret s) := by
  cases values with
  | nil => cases h
  | cons value values =>
    obtain ⟨state, hstate, rfl⟩ := except_map_ok.mp h
    exact ⟨state, hstate, clean_redact_items state⟩

/-- **What redaction covers**, of an envelope's payload and of the state of a
    run: the payload is clean if and only if it is `Covered`, the state if and
    only if the strings that redaction leaves alone are. -/
theorem redaction_covers_iff [Unicode] :
    (∀ now seq run_id kind node payload e,
        make_envelope now seq run_id kind node payload = .ok e →
          (Clean (.dict e.payload) ↔ Covered payload)) ∧
      ∀ run_id values r, get_run_state run_id (some values) = .ok r →
        ∃ state, state_values values = .ok state ∧
          (Clean (.dict r) ↔ ∀ s ∈ bare_items state, NoSecret s) := by
  constructor
  · intro now seq run_id kind node payload e h
    exact make_envelope_clean_iff h
  · intro run_id values r h
    exact get_run_state_clean_iff h

section small
attribute [local instance] Unicode.ascii

/-- Two texts that look like secrets, in a value and in a list. -/
def reported : Dict :=
  [(.str (lit "detail"), .str (lit "Authorization: Bearer AAAABBBBCCCCDDDD")),
   (.str (lit "files"), .list [.str (lit "a.py"), .str (lit "token=abcdefghijklmnop")]),
   (.str (lit "strike"), .int 2)]

/-- A state whose log has one. -/
def logged_state : List (PyStr × Obj) :=
  [(lit "attempt_log", .list [.str (lit "fast_check said api_key=abcdefghijklmnop")]),
   (lit "decision_ledger", .list [])]

/-- Both are redacted: the payload and the state that are shown are clean. -/
theorem redaction_covers_iff_reported :
    (∃ e, make_envelope [] (some 1) (lit "run-1") .node_update none reported = .ok e ∧
        Clean (.dict e.payload)) ∧
      ∃ r, get_run_state (lit "run-1") (some logged_state) = .ok r ∧ Clean (.dict r) := by
  constructor
  · refine ⟨_, rfl, (redaction_covers_iff.1 [] (some 1) (lit "run-1") .node_update none reported _
      rfl).mpr ?_⟩
    intro ts hts
    obtain rfl := Except.ok.inj (hts.symm.trans rfl)
    rw [if_pos (by decide +kernel)]
    exact noSecret_of_tails (by decide +kernel)
  · refine ⟨_, rfl, ?_⟩
    obtain ⟨state, hstate, hiff⟩ := redaction_covers_iff.2 (lit "run-1") logged_state _ rfl
    obtain rfl := Except.ok.inj (hstate.symm.trans rfl)
    exact hiff.mpr (noSecret_of_tails (by decide +kernel))

/-! ## A secret in a key -/

/-- A model's JSON object with a key of an API key's shape. -/
def keyed : Dict := [(.str (lit "sk-ant-api03-0123456789"), .bool true)]

/-- Keys are not redacted. -/
theorem key_is_shown : ∃ e, make_envelope [] (some 1) (lit "run-1") .node_update none keyed = .ok e ∧
    ¬Clean (.dict e.payload) := by
  refine ⟨_, rfl, ?_⟩
  intro hclean
  have hfree := hclean (lit "sk-ant-api03-0123456789") List.mem_cons_self _ List.mem_cons_self
  have hsame : Re.sub _ REDACTED (lit "sk-ant-api03-0123456789") = lit "sk-ant-api03-0123456789" :=
    sub_of_free hfree
  exact absurd hsame (by decide)

end small

end Syndicate.Server.Payload
