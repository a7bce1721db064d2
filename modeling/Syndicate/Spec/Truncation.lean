import Syndicate.Nodes.Oversight
import Syndicate.Py.Cuts

/-! # What `_truncate_diagnosis` keeps

    The last lines, and of those the last bytes.  The bytes may start inside
    a character: each byte left of it becomes a replacement character, which
    is longer than it. -/

namespace Syndicate

open Py

/-- The output with its line breaks as newlines, and no break at the end. -/
def normalised (output : PyStr) : PyStr := join (lit "\n") (splitlines output)

/-- What the line cut leaves. -/
def last_lines (output : PyStr) : PyStr :=
  join (lit "\n") (lastN DIAGNOSIS_MAX_LINES (splitlines output))

/-- A diagnosis within the limits, and the end of the output, but for
    replacement characters where a character was cut. -/
structure Truncation (output diagnosis : PyStr) : Prop where
  lines : (splitlines diagnosis).length ≤ DIAGNOSIS_MAX_LINES
  bytes : ∃ encoded, encode diagnosis = some encoded ∧ encoded.length ≤ DIAGNOSIS_MAX_BYTES
  suffix : ∃ n t, diagnosis = List.replicate n replacement ++ t ∧ t <:+ normalised output ∧
    (n = 0 ∨ ∃ c, n < utf8_len c ∧ c :: t <:+ normalised output)

/-- What the byte cut leaves: all, or as much as the limit allows, with `n`
    bytes of a cut character before it. -/
structure ByteCut (text : PyStr) (n : Nat) (t : PyStr) : Prop where
  suffix : t <:+ text
  cut_char : n = 0 ∨ ∃ c, n < utf8_len c ∧ c :: t <:+ text
  size : (utf8_size text ≤ DIAGNOSIS_MAX_BYTES ∧ n = 0 ∧ t = text) ∨
    (DIAGNOSIS_MAX_BYTES < utf8_size text ∧ n + utf8_size t = DIAGNOSIS_MAX_BYTES)

theorem truncate_diagnosis_error {output : PyStr} (h : ¬Encodable (last_lines output)) :
    truncate_diagnosis output = .error surrogates_not_allowed := by
  have hnone : encode (last_lines output) = none := by
    rwa [← encode_isSome, Option.not_isSome_iff_eq_none] at h
  unfold truncate_diagnosis
  rw [last_lines] at hnone
  simp only [hnone]

theorem truncate_diagnosis_cut {output : PyStr} (h : Encodable (last_lines output)) :
    ∃ n t, truncate_diagnosis output = .ok (List.replicate n replacement ++ t) ∧
      ByteCut (last_lines output) n t := by
  obtain ⟨encoded, hencoded⟩ := Option.isSome_iff_exists.mp ((encode_isSome _).mpr h)
  have hsize := encode_length hencoded
  have hval : truncate_diagnosis output =
      if encoded.length > DIAGNOSIS_MAX_BYTES then
        .ok (decode_replace (lastN DIAGNOSIS_MAX_BYTES encoded))
      else .ok (last_lines output) := by
    unfold truncate_diagnosis
    have hencoded' := hencoded
    rw [last_lines] at hencoded'
    simp only [hencoded']
    rfl
  rw [hval]
  split
  · rename_i hlong
    have hlong : DIAGNOSIS_MAX_BYTES < encoded.length := hlong
    -- dropping bytes from the front cuts one character at most
    obtain ⟨k⟩ := encode_drop hencoded (encoded.length - DIAGNOSIS_MAX_BYTES)
    obtain ⟨before, stray, t, bytes, htext, hbytes, hdrop, htails, hcut⟩ := k
    have hlen := congrArg List.length hdrop
    rw [List.length_drop, List.length_append, encode_length hbytes] at hlen
    refine ⟨stray.length, t, ?_, ?_, ?_, Or.inr ⟨by omega, by omega⟩⟩
    · rw [lastN, hdrop, decode_stray htails, decode_encode hbytes]
    · rw [htext]
      exact List.suffix_append _ _
    · by_cases hnone : stray = []
      · exact Or.inl (by rw [hnone]; rfl)
      · obtain ⟨pre, c, bs, hbefore, hbs, -, hlt⟩ := hcut hnone
        refine Or.inr ⟨c, (encodeChar_bytes hbs).1 ▸ hlt, ?_⟩
        rw [htext, hbefore, List.append_assoc]
        exact List.suffix_append _ _
  · exact ⟨0, last_lines output, rfl, List.suffix_refl _, Or.inl rfl,
      Or.inl ⟨by omega, rfl, rfl⟩⟩

/-- The line cut keeps the end of the output, and no more lines than allowed. -/
theorem last_lines_suffix (output : PyStr) : last_lines output <:+ normalised output := by
  obtain ⟨before, hbefore⟩ := lastN_suffix DIAGNOSIS_MAX_LINES (splitlines output)
  unfold last_lines normalised
  nth_rewrite 2 [← hbefore]
  exact join_suffix _ before _

theorem breaks_last_lines (output : PyStr) : breaks (last_lines output) + 1 ≤ DIAGNOSIS_MAX_LINES := by
  have hlines : ∀ line ∈ lastN DIAGNOSIS_MAX_LINES (splitlines output), breaks line = 0 :=
    fun line hline => breaks_splitlines output line ((lastN_suffix _ _).mem hline)
  have hlength := length_lastN_le DIAGNOSIS_MAX_LINES (splitlines output)
  have hpos : 0 < DIAGNOSIS_MAX_LINES := by decide
  rw [last_lines, breaks_join hlines]
  omega

section cut
variable {output t : PyStr} {n : Nat}

/-- Whatever the byte cut leaves has few enough lines. -/
theorem ByteCut.lines (h : ByteCut (last_lines output) n t) :
    (splitlines (List.replicate n replacement ++ t)).length ≤ DIAGNOSIS_MAX_LINES := by
  -- a replacement character breaks no line
  have hreplaced : breaks (List.replicate n replacement) = 0 := by
    unfold breaks
    rw [List.countP_eq_zero]
    intro c hc
    rw [List.eq_of_mem_replicate hc]
    decide
  have hsuffix : breaks t ≤ breaks (last_lines output) := h.suffix.sublist.countP_le
  have hsplit : breaks (List.replicate n replacement ++ t) =
      breaks (List.replicate n replacement) + breaks t := List.countP_append
  calc (splitlines (List.replicate n replacement ++ t)).length
      ≤ breaks (List.replicate n replacement ++ t) + 1 := length_splitlines_le _
    _ = breaks t + 1 := by rw [hsplit, hreplaced, Nat.zero_add]
    _ ≤ breaks (last_lines output) + 1 := Nat.succ_le_succ hsuffix
    _ ≤ DIAGNOSIS_MAX_LINES := breaks_last_lines output

/-- And it is the end of the output. -/
theorem ByteCut.normalised (h : ByteCut (last_lines output) n t) :
    t <:+ normalised output ∧ (n = 0 ∨ ∃ c, n < utf8_len c ∧ c :: t <:+ Syndicate.normalised output) := by
  refine ⟨h.suffix.trans (last_lines_suffix output), ?_⟩
  rcases h.cut_char with hnone | ⟨c, hlt, hsuffix⟩
  · exact Or.inl hnone
  · exact Or.inr ⟨c, hlt, hsuffix.trans (last_lines_suffix output)⟩

/-- Its bytes: those of the text, and three for each replacement. -/
theorem ByteCut.bytes (h : ByteCut (last_lines output) n t) (henc : Encodable (last_lines output)) :
    ∃ encoded, encode (List.replicate n replacement ++ t) = some encoded ∧
      encoded.length = 3 * n + utf8_size t := by
  obtain ⟨bs, hbs⟩ := Option.isSome_iff_exists.mp (encode_replicate n)
  have ht : Encodable t := fun c hc => henc c (h.suffix.mem hc)
  obtain ⟨bt, hbt⟩ := Option.isSome_iff_exists.mp ((encode_isSome t).mpr ht)
  refine ⟨bs ++ bt, encode_append hbs hbt, ?_⟩
  rw [List.length_append, encode_length hbs, encode_length hbt, utf8_size_replicate]

end cut

/-- The last lines are short enough, or the cut falls between two
    characters. -/
def CutsCleanly (text : PyStr) : Prop :=
  utf8_size text ≤ DIAGNOSIS_MAX_BYTES ∨ ∃ t, t <:+ text ∧ utf8_size t = DIAGNOSIS_MAX_BYTES

theorem ByteCut.clean_iff {text t : PyStr} {n : Nat} (h : ByteCut text n t) :
    3 * n + utf8_size t ≤ DIAGNOSIS_MAX_BYTES ↔ CutsCleanly text := by
  rcases h.size with ⟨hshort, rfl, rfl⟩ | ⟨hlong, hsize⟩
  · exact iff_of_true (by omega) (Or.inl hshort)
  · constructor
    · intro hle
      exact Or.inr ⟨t, h.suffix, by omega⟩
    · intro hclean
      rcases hclean with hshort | ⟨t', hsuffix, hsize'⟩
      · omega
      · rcases h.cut_char with rfl | ⟨c, hlt, hcut⟩
        · omega
        · -- the other cut would have to fall inside `c`
          rcases List.suffix_or_suffix_of_suffix hsuffix hcut with hsub | hsub
          · rcases List.suffix_cons_iff.mp hsub with rfl | ⟨pre, rfl⟩
            · rw [utf8_size] at hsize'
              omega
            · rw [utf8_size_append] at hsize ⊢
              omega
          · obtain ⟨pre, rfl⟩ := hsub
            rw [utf8_size_append, utf8_size] at hsize'
            omega

theorem truncation_clean {output diagnosis : PyStr}
    (hval : truncate_diagnosis output = .ok diagnosis) (h : Truncation output diagnosis) :
    Encodable (last_lines output) ∧ CutsCleanly (last_lines output) := by
  by_cases henc : Encodable (last_lines output)
  · obtain ⟨n, t, hval', hcut⟩ := truncate_diagnosis_cut henc
    obtain rfl := Except.ok.inj (hval.symm.trans hval')
    obtain ⟨encoded, hencoded, hle⟩ := h.bytes
    obtain ⟨encoded', hencoded', hlength⟩ := hcut.bytes henc
    obtain rfl := Option.some.inj (hencoded.symm.trans hencoded')
    exact ⟨henc, hcut.clean_iff.mp (by omega)⟩
  · rw [truncate_diagnosis_error henc] at hval
    cases hval

theorem clean_truncation {output : PyStr} (henc : Encodable (last_lines output))
    (hclean : CutsCleanly (last_lines output)) :
    ∃ diagnosis, truncate_diagnosis output = .ok diagnosis ∧ Truncation output diagnosis := by
  obtain ⟨n, t, hval, hcut⟩ := truncate_diagnosis_cut henc
  obtain ⟨encoded, hencoded, hlength⟩ := hcut.bytes henc
  have hle := hcut.clean_iff.mpr hclean
  exact ⟨_, hval, hcut.lines, ⟨encoded, hencoded, by omega⟩, n, t, rfl, hcut.normalised⟩

/-- **Diagnosis truncation.**  A diagnosis within the limits comes out if and
    only if the last lines have no surrogate and the byte cut, if there is
    one, falls between two characters. -/
theorem truncate_diagnosis_iff (output : PyStr) :
    (∃ diagnosis, truncate_diagnosis output = .ok diagnosis ∧ Truncation output diagnosis) ↔
      Encodable (last_lines output) ∧ CutsCleanly (last_lines output) := by
  constructor
  · intro h
    obtain ⟨diagnosis, hval, htrunc⟩ := h
    exact truncation_clean hval htrunc
  · intro h
    exact clean_truncation h.1 h.2

/-! ## Two outputs -/

/-- `é` so many times, and one more byte. -/
def accents (n : Nat) : PyStr := List.replicate n 0xe9 ++ lit "a"

theorem utf8_size_accents (n : Nat) : utf8_size (accents n) = 2 * n + 1 := by
  induction n with
  | zero => decide
  | succ n ih =>
    have hlen : utf8_len (0xe9 : CodePoint) = 2 := by decide
    rw [accents, List.replicate_succ, List.cons_append, utf8_size, hlen]
    rw [accents] at ih
    omega

/-- What such a text ends with has an odd number of bytes. -/
theorem odd_suffix (n : Nat) : ∀ t, t <:+ accents n → t = [] ∨ utf8_size t % 2 = 1 := by
  induction n with
  | zero =>
    intro t h
    rcases List.suffix_cons_iff.mp h with rfl | h
    · exact Or.inr (by decide)
    · exact Or.inl (List.suffix_nil.mp h)
  | succ n ih =>
    intro t h
    have hsize := utf8_size_accents (n + 1)
    rw [accents, List.replicate_succ, List.cons_append] at h hsize
    rcases List.suffix_cons_iff.mp h with rfl | h
    · exact Or.inr (by omega)
    · exact ih t h

theorem last_lines_accents (n : Nat) : last_lines (accents n) = accents n := by
  have hquiet : breaks (accents n) = 0 := by
    unfold breaks accents
    rw [List.countP_eq_zero]
    intro c hc
    rcases List.mem_append.mp hc with hc | hc
    · rw [List.eq_of_mem_replicate hc]
      decide
    · rw [List.mem_singleton.mp hc]
      decide
  have hne : accents n ≠ [] := by simp [accents, lit]
  rw [last_lines, splitlines_of_no_break hne hquiet]
  exact List.intercalate_singleton

/-- Its cut is inside a character, and the diagnosis is too long. -/
theorem accents_too_long {n : Nat} (h : DIAGNOSIS_MAX_BYTES < 2 * n + 1) :
    ¬∃ diagnosis, truncate_diagnosis (accents n) = .ok diagnosis ∧
      Truncation (accents n) diagnosis := by
  intro htruncated
  obtain ⟨diagnosis, hval, htrunc⟩ := htruncated
  have hclean := (truncation_clean hval htrunc).2
  rw [last_lines_accents] at hclean
  rcases hclean with hshort | ⟨t, hsuffix, hsize⟩
  · rw [utf8_size_accents] at hshort
    omega
  · rcases odd_suffix n t hsuffix with rfl | hodd
    · cases hsize
    · rw [hsize] at hodd
      cases hodd

theorem surrogate_raises {output : PyStr} (h : ¬Encodable (last_lines output)) :
    ¬∃ diagnosis, truncate_diagnosis output = .ok diagnosis ∧ Truncation output diagnosis := by
  intro htruncated
  obtain ⟨diagnosis, hval, htrunc⟩ := htruncated
  exact h (truncation_clean hval htrunc).1

/-- A lone surrogate raises, and a cut inside a character makes the
    diagnosis longer than allowed. -/
theorem cut_inside_a_character :
    (¬∃ diagnosis, truncate_diagnosis [0xd800] = .ok diagnosis ∧ Truncation [0xd800] diagnosis) ∧
      ¬∃ diagnosis, truncate_diagnosis (accents 2048) = .ok diagnosis ∧
        Truncation (accents 2048) diagnosis := by
  have hlines : last_lines [0xd800] = [0xd800] := by decide
  have hsurrogate : ¬IsScalar (0xd800 : CodePoint) := by decide
  refine ⟨surrogate_raises ?_, accents_too_long (by decide)⟩
  rw [hlines]
  intro h
  exact hsurrogate (h _ List.mem_cons_self)

end Syndicate
