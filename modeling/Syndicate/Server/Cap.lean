import Syndicate.Server.Payloads

/-! # Does the cap hold?

    The preview is a piece of JSON text, and is written as a JSON string
    once more: each quote and each backslash in it then takes two bytes.
    200 bytes are left for that and for the rest of the marker. -/

namespace Syndicate.Server.Payload

open Py

/-- Every text `format_sse` can write for this payload is within the cap. -/
def Fits (payload : Dict) : Prop :=
  ∀ text bytes, (Obj.dict payload).json_dumps none = .ok text → encode text = some bytes →
    bytes.length ≤ MAX_PAYLOAD_BYTES

/-- The characters that take two bytes in a JSON string. -/
def isDoubled (c : CodePoint) : Bool := c == CodePoint.ofChar '"' || c == CodePoint.ofChar '\\'

/-- The preview `cap_payload` takes of a JSON text. -/
def preview (encoded : PyStr) : PyStr := encoded.take (MAX_PAYLOAD_BYTES - 200)

/-- What the 200 bytes leave for quotes and backslashes, and for the digits of
    the size. -/
def headroom : Nat := 141

/-! ## The encoder without a `default` -/

section tokens
variable {f : Obj → PyStr}

mutual
/-- Where it does not raise, it writes the same. -/
theorem tokens_default : ∀ (v : Obj) {ts : List Json.Token},
    v.tokens none = .ok ts → v.tokens (some f) = .ok ts
  | .none, ts, h | .bool true, ts, h | .bool false, ts, h | .int _, ts, h | .float _, ts, h
  | .str _, ts, h | .str_enum _ _, ts, h | .int_enum _ _, ts, h => h
  | .list xs, ts, h => by
    obtain ⟨parts, hparts, rfl⟩ := except_map_ok.mp h
    exact except_map_ok.mpr ⟨parts, tokens_all_default xs hparts, rfl⟩
  | .tuple xs, ts, h => by
    obtain ⟨parts, hparts, rfl⟩ := except_map_ok.mp h
    exact except_map_ok.mpr ⟨parts, tokens_all_default xs hparts, rfl⟩
  | .dict items, ts, h => by
    obtain ⟨parts, hparts, rfl⟩ := except_map_ok.mp h
    exact except_map_ok.mpr ⟨parts, tokens_items_default items hparts, rfl⟩
  | .enum _ _, ts, h | .dataclass _ _, ts, h | .object _ _ _, ts, h => by cases h

theorem tokens_all_default : ∀ (xs : List Obj) {parts : List (List Json.Token)},
    Obj.tokens_all none xs = .ok parts → Obj.tokens_all (some f) xs = .ok parts
  | [], parts, h => h
  | x :: xs, parts, h => by
    obtain ⟨part, hpart, h⟩ := except_bind_ok.mp h
    obtain ⟨parts, hparts, h⟩ := except_bind_ok.mp h
    exact except_bind_ok.mpr ⟨part, tokens_default x hpart,
      except_bind_ok.mpr ⟨parts, tokens_all_default xs hparts, h⟩⟩

theorem tokens_items_default : ∀ (items : List (Key × Obj)) {parts : List (List Json.Token)},
    Obj.tokens_items none items = .ok parts → Obj.tokens_items (some f) items = .ok parts
  | [], parts, h => h
  | (k, v) :: rest, parts, h => by
    obtain ⟨name, hname, h⟩ := except_bind_ok.mp h
    obtain ⟨value, hvalue, h⟩ := except_bind_ok.mp h
    obtain ⟨parts, hparts, h⟩ := except_bind_ok.mp h
    exact except_bind_ok.mpr ⟨name, hname, except_bind_ok.mpr ⟨value, tokens_default v hvalue,
      except_bind_ok.mpr ⟨parts, tokens_items_default rest hparts, h⟩⟩⟩
end

end tokens

/-! ## The size of a marker -/

theorem length_jsonString {s : PyStr} (h : s.all Json.isPrintable = true) :
    (jsonString s).length = s.length + s.countP isDoubled + 2 := by
  have hbody : (s.flatMap jsonChar).length = s.length + s.countP isDoubled := by
    induction s with
    | nil => rfl
    | cons c s ih =>
      rw [List.all_cons, Bool.and_eq_true] at h
      have hc : (jsonChar c).length = 1 + if isDoubled c then 1 else 0 := by
        have hprint := h.1
        rw [Json.isPrintable, Bool.and_eq_true, decide_eq_true_eq, decide_eq_true_eq] at hprint
        unfold jsonChar
        by_cases hquote : c = CodePoint.ofChar '"'
        · subst hquote
          decide
        by_cases hslash : c = CodePoint.ofChar '\\'
        · subst hslash
          decide
        have hno : isDoubled c = false := by
          simp [isDoubled, hquote, hslash]
        rw [if_neg hquote, if_neg hslash, if_neg (by omega), if_neg (by omega), if_neg (by omega),
          if_neg (by omega), if_neg (by omega), if_pos hprint, hno]
        rfl
      rw [List.flatMap_cons, List.length_append, ih h.2, hc, List.length_cons, List.countP_cons]
      omega
  have hquote : (lit "\"").length = 1 := rfl
  rw [jsonString, List.length_append, List.length_append, hbody, hquote]
  omega

/-- The text of a marker. -/
theorem marker_tokens (default : Option (Obj → PyStr)) (size : Nat) (preview : PyStr) :
    (Obj.dict (marker size preview)).tokens default = .ok (Json.objectTokens
      [Json.memberTokens (lit "truncated") [.word (lit "true")],
        Json.memberTokens (lit "original_size_bytes") [.number (str_int size)],
        Json.memberTokens (lit "preview") [.string preview]]) := rfl

theorem length_marker {preview : PyStr} (h : preview.all Json.isPrintable = true) (size : Nat) :
    (Json.render (Json.objectTokens
      [Json.memberTokens (lit "truncated") [.word (lit "true")],
        Json.memberTokens (lit "original_size_bytes") [.number (str_int size)],
        Json.memberTokens (lit "preview") [.string preview]])).length =
      59 + (str_int size).length + preview.length + preview.countP isDoubled := by
  have hsplit : Json.render (Json.objectTokens
      [Json.memberTokens (lit "truncated") [.word (lit "true")],
        Json.memberTokens (lit "original_size_bytes") [.number (str_int size)],
        Json.memberTokens (lit "preview") [.string preview]]) =
      Json.render [.open_object, .string (lit "truncated"), .colon, .word (lit "true"), .comma,
        .string (lit "original_size_bytes"), .colon] ++ (str_int size ++
      (Json.render [.comma, .string (lit "preview"), .colon] ++ (jsonString preview ++
        Json.render [.close_object]))) := by
    simp [Json.render, Json.objectTokens, Json.memberTokens, Json.separate, Json.Token.render]
  have hfirst : (Json.render [.open_object, .string (lit "truncated"), .colon, .word (lit "true"),
      .comma, .string (lit "original_size_bytes"), .colon]).length = 43 := by decide
  have hsecond : (Json.render [.comma, .string (lit "preview"), .colon]).length = 13 := by decide
  have hlast : (Json.render [.close_object]).length = 1 := by decide
  rw [hsplit, List.length_append, List.length_append, List.length_append, List.length_append, hfirst,
    hsecond, hlast, length_jsonString h]
  omega

/-! ## The cap -/

/-- A text of printable characters has a byte for each. -/
theorem length_encode [Unicode] {text : PyStr} {bytes : List Byte}
    (hprint : text.all Json.isPrintable = true) (h : encode text = some bytes) :
    bytes.length = text.length := by
  obtain ⟨bytes', hbytes, hlen⟩ := encode_printable hprint
  rw [hbytes] at h
  exact (Option.some.inj h) ▸ hlen

/-- A payload within the cap is written as it was measured. -/
theorem fits_of_small [Unicode] {payload : Dict} {ts : List Json.Token}
    (hts : (Obj.dict payload).tokens (some Obj.to_str) = .ok ts)
    (hsmall : (Json.render ts).length ≤ MAX_PAYLOAD_BYTES) : Fits payload := by
  intro text bytes htext hbytes
  obtain ⟨ts', hts', rfl⟩ := except_map_ok.mp htext
  obtain rfl : ts' = ts := Except.ok.inj ((tokens_default _ hts').symm.trans hts)
  rw [length_encode (Json.printable_render (Obj.wellWritten_tokens _ hts)) hbytes]
  exact hsmall

theorem fits_marker [Unicode] {preview : PyStr} (h : preview.all Json.isPrintable = true)
    (size : Nat) : Fits (marker size preview) ↔
      59 + (str_int size).length + preview.length + preview.countP isDoubled ≤
        MAX_PAYLOAD_BYTES := by
  rw [← length_marker h size]
  have hwritten := Obj.wellWritten_tokens (.dict (marker size preview))
    (marker_tokens none size preview)
  constructor
  · intro hfits
    obtain ⟨bytes, hbytes, hlen⟩ := encode_printable (Json.printable_render hwritten)
    rw [← hlen]
    exact hfits _ bytes (except_map_ok.mpr ⟨_, marker_tokens none size preview, rfl⟩) hbytes
  · intro hle text bytes htext hbytes
    obtain ⟨ts, hts, rfl⟩ := except_map_ok.mp htext
    obtain rfl := Except.ok.inj ((marker_tokens none size preview).symm.trans hts)
    rw [length_encode (Json.printable_render hwritten) hbytes]
    exact hle

/-- A marker within the cap is not replaced by another. -/
theorem capped_marker {size : Nat} {preview text : PyStr} (h : text.length ≤ MAX_PAYLOAD_BYTES) :
    capped (marker size preview) text MAX_PAYLOAD_BYTES = marker size preview :=
  if_pos h

theorem length_preview {encoded : PyStr} (h : MAX_PAYLOAD_BYTES < encoded.length) :
    (preview encoded).length = MAX_PAYLOAD_BYTES - 200 := by
  rw [preview, List.length_take]
  omega

theorem preview_printable {encoded : PyStr} (h : encoded.all Json.isPrintable = true) :
    (preview encoded).all Json.isPrintable = true := by
  rw [List.all_eq_true] at h ⊢
  intro c hc
  exact h c (List.mem_of_mem_take hc)

/-- What `cap_payload` returns is within the cap, and is returned again as it
    is, if and only if the payload was, or the first 7992 characters of its
    text hold few quotes and backslashes. -/
theorem cap_payload_fits_iff [Unicode] {payload safe : Dict} {encoded : PyStr}
    (hcap : cap_payload payload MAX_PAYLOAD_BYTES = .ok safe)
    (hdumps : (Obj.dict payload).json_dumps (some Obj.to_str) = .ok encoded) :
    (Fits safe ∧ cap_payload safe MAX_PAYLOAD_BYTES = .ok safe) ↔
      encoded.length ≤ MAX_PAYLOAD_BYTES ∨
        (preview encoded).countP isDoubled + (str_int encoded.length).length ≤ headroom := by
  obtain ⟨ts, hts, hsafe⟩ := cap_payload_eq_ok.mp hcap
  obtain ⟨ts', hts', rfl⟩ := except_map_ok.mp hdumps
  obtain rfl : ts' = ts := Except.ok.inj (hts'.symm.trans hts)
  have hprint := Json.printable_render (Obj.wellWritten_tokens _ hts)
  by_cases hsmall : (Json.render ts').length ≤ MAX_PAYLOAD_BYTES
  · obtain rfl : safe = payload := hsafe.trans (if_pos hsmall)
    exact ⟨fun _ => .inl hsmall, fun _ => ⟨fits_of_small hts hsmall, hcap⟩⟩
  -- over the cap: what is measured again is the marker
  obtain rfl : safe = marker (Json.render ts').length (preview (Json.render ts')) :=
    hsafe.trans (if_neg hsmall)
  have hpreview := length_preview (Nat.lt_of_not_le hsmall)
  have hfits := fits_marker (preview_printable hprint) (Json.render ts').length
  have hroom : 59 + (str_int (Json.render ts').length).length +
      (preview (Json.render ts')).length + (preview (Json.render ts')).countP isDoubled ≤
        MAX_PAYLOAD_BYTES ↔ (preview (Json.render ts')).countP isDoubled +
          (str_int (Json.render ts').length).length ≤ headroom := by
    rw [hpreview]
    simp only [MAX_PAYLOAD_BYTES, headroom]
    omega
  constructor
  · intro hboth
    obtain ⟨h, -⟩ := hboth
    exact .inr (hroom.mp (hfits.mp h))
  · intro h
    have hle := hroom.mpr (h.resolve_left hsmall)
    refine ⟨hfits.mpr hle, cap_payload_eq_ok.mpr ⟨_, marker_tokens _ _ _, ?_⟩⟩
    rw [← length_marker (preview_printable hprint)] at hle
    exact (capped_marker hle).symm

/-! ## Two outputs over the cap -/

/-- A node's output of 9000 letters. -/
def letters : PyStr := List.replicate 9000 (CodePoint.ofChar 'x')

def lettered : Dict := [(.str (lit "out"), .str letters)]

/-- A node's output of 5000 quotes. -/
def quotes : PyStr := List.replicate 5000 (CodePoint.ofChar '"')

def quoted : Dict := [(.str (lit "out"), .str quotes)]

theorem tokens_out (default : Option (Obj → PyStr)) (out : PyStr) :
    (Obj.dict [(.str (lit "out"), .str out)]).tokens default =
      .ok (Json.objectTokens [Json.memberTokens (lit "out") [.string out]]) := rfl

theorem render_out (out : PyStr) : Json.render (Json.objectTokens [Json.memberTokens (lit "out")
    [.string out]]) = lit "\x7b\"out\": \"" ++ (out.flatMap jsonChar ++ lit "\"\x7d") := by
  have hopen : Json.render [.open_object, .string (lit "out"), .colon] ++ lit "\"" =
      lit "\x7b\"out\": \"" := by decide
  have hclose : lit "\"\x7d" = lit "\"" ++ (lit "\x7d" ++ []) := by decide
  rw [← hopen, hclose]
  simp only [Json.render, Json.objectTokens, Json.memberTokens, Json.separate, Json.Token.render,
    jsonString, List.flatMap_cons, List.flatMap_nil, List.append_assoc, List.cons_append,
    List.nil_append]

/-- The preview of a long output is the member's name and 7983 characters. -/
theorem preview_out {out : PyStr} (h : 7983 ≤ (out.flatMap jsonChar).length) (last : PyStr) :
    preview (lit "\x7b\"out\": \"" ++ (out.flatMap jsonChar ++ last)) =
      lit "\x7b\"out\": \"" ++ (out.flatMap jsonChar).take 7983 := by
  have hlen : MAX_PAYLOAD_BYTES - 200 = (lit "\x7b\"out\": \"").length + 7983 := rfl
  rw [preview, hlen, List.take_length_add_append, List.take_append_of_le_length h]

/-- How long an output of one character is written. -/
theorem length_written (n : Nat) (c : CodePoint) :
    ((List.replicate n c).flatMap jsonChar).length = n * (jsonChar c).length := by
  rw [List.length_flatMap, List.map_replicate, List.sum_replicate_nat]

theorem mem_written {n : Nat} {c d : CodePoint} (h : d ∈ (List.replicate n c).flatMap jsonChar) :
    d ∈ jsonChar c := by
  obtain ⟨q, hq, hd⟩ := List.mem_flatMap.mp h
  obtain rfl := List.eq_of_mem_replicate hq
  exact hd

theorem length_written_letters : (letters.flatMap jsonChar).length = 9000 :=
  length_written 9000 (CodePoint.ofChar 'x')

/-- Each quote is written as a backslash and a quote. -/
theorem length_written_quotes : (quotes.flatMap jsonChar).length = 10000 :=
  length_written 5000 (CodePoint.ofChar '"')

/-- A preview of letters has the three quotes around the name. -/
theorem countP_preview_lettered (last : PyStr) :
    (preview (lit "\x7b\"out\": \"" ++ (letters.flatMap jsonChar ++ last))).countP
      isDoubled = 3 := by
  have hbody : ((letters.flatMap jsonChar).take 7983).countP isDoubled = 0 := by
    have hnone : (jsonChar (CodePoint.ofChar 'x')).all (fun c => !isDoubled c) = true := by decide
    rw [List.countP_eq_zero]
    intro c hc
    simpa using List.all_eq_true.mp hnone c (mem_written (List.mem_of_mem_take hc))
  have hname : (lit "\x7b\"out\": \"").countP isDoubled = 3 := by decide
  rw [preview_out (by rw [length_written_letters]; omega), List.countP_append, hbody, hname]

/-- A preview of quotes is nearly all quotes and backslashes. -/
theorem countP_preview_quoted (last : PyStr) :
    7983 ≤ (preview (lit "\x7b\"out\": \"" ++ (quotes.flatMap jsonChar ++ last))).countP
      isDoubled := by
  have hlen := length_written_quotes
  have hbody : ((quotes.flatMap jsonChar).take 7983).countP isDoubled = 7983 := by
    have hall : (jsonChar (CodePoint.ofChar '"')).all isDoubled = true := by decide
    rw [List.countP_eq_length.mpr, List.length_take]
    · omega
    · intro c hc
      exact List.all_eq_true.mp hall c (mem_written (List.mem_of_mem_take hc))
  rw [preview_out (by omega), List.countP_append, hbody]
  omega

section small
attribute [local instance] Unicode.ascii

/-- An output of letters is replaced by a marker that fits, and that is not
    replaced again. -/
theorem cap_payload_fits_iff_lettered :
    ∃ safe, cap_payload lettered MAX_PAYLOAD_BYTES = .ok safe ∧ safe ≠ lettered ∧ Fits safe ∧
      cap_payload safe MAX_PAYLOAD_BYTES = .ok safe := by
  have hlen := length_written_letters
  have hsize : (Json.render (Json.objectTokens
      [Json.memberTokens (lit "out") [.string letters]])).length = 9011 := by
    have hends : (lit "\x7b\"out\": \"").length = 9 ∧ (lit "\"\x7d").length = 2 := by decide
    rw [render_out, List.length_append, List.length_append, hlen, hends.1, hends.2]
  have hover : MAX_PAYLOAD_BYTES < 9011 := by decide
  have hcap : cap_payload lettered MAX_PAYLOAD_BYTES = _ :=
    cap_payload_eq_ok.mpr ⟨_, tokens_out _ letters, rfl⟩
  rw [capped, hsize, if_neg (Nat.not_le.mpr hover)] at hcap
  have hfew := countP_preview_lettered (lit "\"\x7d")
  rw [← render_out] at hfew
  have hroom : 3 + (str_int (9011 : Nat)).length ≤ headroom := by decide
  refine ⟨_, hcap, by simp [marker, lettered], (cap_payload_fits_iff hcap
    (except_map_ok.mpr ⟨_, tokens_out _ letters, rfl⟩)).mpr (.inr ?_)⟩
  rw [hfew, hsize]
  exact hroom

/-- The marker for an output of quotes is itself over the cap. -/
theorem quoted_is_over : ∃ safe, cap_payload quoted MAX_PAYLOAD_BYTES = .ok safe ∧ ¬ Fits safe := by
  have hlen := length_written_quotes
  have hprint := Json.printable_render (Obj.wellWritten_tokens _ (tokens_out (some Obj.to_str) quotes))
  have hsize : MAX_PAYLOAD_BYTES < (Json.render (Json.objectTokens
      [Json.memberTokens (lit "out") [.string quotes]])).length := by
    rw [render_out, List.length_append, List.length_append, hlen, MAX_PAYLOAD_BYTES]
    omega
  refine ⟨_, cap_payload_eq_ok.mpr ⟨_, tokens_out _ quotes, rfl⟩, ?_⟩
  rw [capped, if_neg (Nat.not_le.mpr hsize)]
  intro hfits
  have hle := (fits_marker (preview_printable hprint) _).mp hfits
  have hpreview := length_preview hsize
  have hmany := countP_preview_quoted (lit "\"\x7d")
  rw [← render_out] at hmany
  rw [hpreview, MAX_PAYLOAD_BYTES] at hle
  omega

end small

end Syndicate.Server.Payload
