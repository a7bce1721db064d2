import Syndicate.Framework.Occurs
import Syndicate.Py.Pieces
import Syndicate.Runtime.Adapters
import Syndicate.Runtime.AgentHttp

/-! # What an edit replaces

    `str_replace` asks `s.count`, which skips an occurrence as it counts it,
    and replaces the first one.  Two occurrences that overlap count as one.

    The adapter edits the text a file decodes to and uploads the whole of it
    again, so bytes outside the match are written too. -/

namespace Syndicate

open Py Framework Http

/-! ## Counting and replacing -/

section count
variable {w : PyStr}

/-- The characters of the last occurrence are skipped. -/
theorem countLoop_skip (skip : Nat) (s : PyStr) : countLoop w skip s = countLoop w 0 (s.drop skip) := by
  induction s generalizing skip with
  | nil =>
    rw [List.drop_nil]
    cases skip <;> rfl
  | cons c s ih =>
    cases skip with
    | zero => rfl
    | succ skip =>
      rw [countLoop, List.drop_succ_cons]
      exact ih skip

/-- A scan for a text that is not empty: there is no occurrence, or the first
    one is counted and the scan goes on behind it. -/
theorem countLoop_cases (hw : w ≠ []) (s : PyStr) :
    ((∀ i, ¬OccursAt w s i) ∧ countLoop w 0 s = 0) ∨
      ∃ i, First w s i ∧ countLoop w 0 s = countLoop w 0 (s.drop (i + w.length)) + 1 := by
  induction s with
  | nil =>
    refine Or.inl ⟨?_, rfl⟩
    intro i hi
    have hle : i + w.length ≤ 0 := hi.end_le
    have hpos := List.length_pos_iff.mpr hw
    omega
  | cons c s ih =>
    rw [countLoop]
    by_cases hprefix : w.isPrefixOf (c :: s) = true
    · -- an occurrence starts here
      rw [if_pos hprefix]
      refine Or.inr ⟨0, first_zero (List.isPrefixOf_iff_prefix.mp hprefix), ?_⟩
      have hpos := List.length_pos_iff.mpr hw
      have hlength : 0 + w.length = (w.length - 1) + 1 := by omega
      rw [countLoop_skip, hlength, List.drop_succ_cons]
    · rw [if_neg hprefix]
      have hnot : ¬w <+: c :: s := by
        rwa [← List.isPrefixOf_iff_prefix]
      rcases ih with ⟨hnone, hcount⟩ | ⟨i, hfirst, hcount⟩
      · refine Or.inl ⟨?_, hcount⟩
        intro i hi
        cases i with
        | zero => exact hnot (occursAt_zero.mp hi)
        | succ i => exact hnone i (occursAt_cons.mp hi)
      · refine Or.inr ⟨i + 1, hfirst.cons hnot, ?_⟩
        rw [hcount, Nat.add_right_comm, List.drop_succ_cons]

/-- What `s.count` says of a text with a first occurrence: one, unless
    another comes behind it. -/
theorem count_first {s : PyStr} {i : Nat} (h : First w s i) : count w s = 1 ↔ ¬Apart w s := by
  rw [h.apart_iff]
  unfold count
  by_cases hw : w = []
  · subst hw
    -- the empty text is found everywhere
    have hall : ∀ j, OccursAt ([] : PyStr) s j ↔ j ≤ s.length := by
      intro j
      simp [OccursAt]
    have hi : i = 0 := Nat.le_zero.mp (h.2 0 ((hall 0).mpr (Nat.zero_le _)))
    subst hi
    rw [List.isEmpty_nil, if_pos rfl]
    constructor
    · intro hone hsome
      obtain ⟨j, hj, hlt, -⟩ := hsome
      have hle := (hall j).mp hj
      omega
    · intro hnone
      by_contra hmany
      exact hnone ⟨1, (hall 1).mpr (by omega), by omega, by simp⟩
  · have hnonempty : ¬w.isEmpty = true := by rwa [List.isEmpty_iff]
    have hpos := List.length_pos_iff.mpr hw
    rw [if_neg hnonempty]
    rcases countLoop_cases hw s with ⟨hnone, -⟩ | ⟨i', hfirst, hcount⟩
    · exact absurd h.1 (hnone i)
    · -- the scan counts the first occurrence; is there one behind it?
      obtain rfl : i = i' := Nat.le_antisymm (h.2 i' hfirst.1) (hfirst.2 i h.1)
      rw [hcount]
      have hend := h.1.end_le
      rcases countLoop_cases hw (s.drop (i + w.length)) with ⟨hrest, hzero⟩ | ⟨j, hj, hmore⟩
      · rw [hzero]
        refine iff_of_true rfl ?_
        intro hsome
        obtain ⟨k, hk, -, hle⟩ := hsome
        obtain ⟨d, rfl⟩ := Nat.exists_eq_add_of_le hle
        exact hrest d ((occursAt_drop hend).mpr hk)
      · rw [hmore]
        refine iff_of_false (by omega) ?_
        intro hnone
        exact hnone ⟨i + w.length + j, (occursAt_drop hend).mp hj.1, by omega, by omega⟩

/-- Without an occurrence the count is zero. -/
theorem count_none {s : PyStr} (h : ∀ i, ¬OccursAt w s i) : count w s = 0 := by
  have hw : w ≠ [] := by
    rintro rfl
    exact h 0 (by simp [OccursAt])
  have hnonempty : ¬w.isEmpty = true := by rwa [List.isEmpty_iff]
  rw [count, if_neg hnonempty]
  rcases countLoop_cases hw s with ⟨-, hzero⟩ | ⟨i, hfirst, -⟩
  · exact hzero
  · exact absurd hfirst.1 (h i)

/-- `s.replace(old, new, 1)` replaces the first occurrence. -/
theorem replace_first_spec (new : PyStr) (s : PyStr) :
    (∀ i, ¬OccursAt w s i) ∨
      ∃ i, First w s i ∧ replace_first w new s = s.take i ++ (new ++ s.drop (i + w.length)) := by
  induction s with
  | nil =>
    by_cases hw : w = []
    · subst hw
      exact Or.inr ⟨0, first_zero (List.prefix_refl []), by simp [replace_first]⟩
    · refine Or.inl ?_
      intro i hi
      have hle : i + w.length ≤ 0 := hi.end_le
      have hpos := List.length_pos_iff.mpr hw
      omega
  | cons c s ih =>
    rw [replace_first]
    by_cases hprefix : w.isPrefixOf (c :: s) = true
    · rw [if_pos hprefix]
      -- an occurrence starts here
      exact Or.inr ⟨0, first_zero (List.isPrefixOf_iff_prefix.mp hprefix), by simp⟩
    · rw [if_neg hprefix]
      have hnot : ¬w <+: c :: s := by
        rwa [← List.isPrefixOf_iff_prefix]
      rcases ih with hnone | ⟨i, hfirst, hreplace⟩
      · refine Or.inl ?_
        intro i hi
        cases i with
        | zero => exact hnot (occursAt_zero.mp hi)
        | succ i => exact hnone i (occursAt_cons.mp hi)
      · refine Or.inr ⟨i + 1, hfirst.cons hnot, ?_⟩
        rw [hreplace, Nat.add_right_comm, List.drop_succ_cons, List.take_succ_cons]
        rfl

end count

/-! ## The edit -/

section edit
variable [Unicode] {content old_string new_string path : PyStr}

/-- An edit needs one occurrence, replaces that one, and leaves the file as it
    is where it raises. -/
structure UnambiguousEdit (content old_string new_string path : PyStr) : Prop where
  succeeds : (∃ result, str_replace content old_string new_string path = .ok result) ↔
    ∃! i, OccursAt old_string content i
  replaces : ∀ result, str_replace content old_string new_string path = .ok result →
    ∀ i, OccursAt old_string content i →
      result = content.take i ++ (new_string ++ content.drop (i + old_string.length))
  raises : ∀ exc, str_replace content old_string new_string path = .error exc →
    exc.kind = .ValueError
  mock_untouched : ∀ files exc, MockRuntimeClient.read_file path files = .ok content →
    str_replace content old_string new_string path = .error exc →
      MockRuntimeClient.edit_file path old_string new_string files = (.error exc, files)
  openhands_untouched : ∀ {S : Type} {http : Transport S} {files : S → AgentFiles},
    Documented http files → ∀ s exc, (OpenHandsRuntimeClient.read_file http path s).1 = .ok content →
      str_replace content old_string new_string path = .error exc →
        (OpenHandsRuntimeClient.edit_file http path old_string new_string s).1 = .error exc ∧
          files (OpenHandsRuntimeClient.edit_file http path old_string new_string s).2 = files s

/-- `str_replace` succeeds where there is an occurrence and none behind it. -/
theorem str_replace_ok : (∃ result, str_replace content old_string new_string path = .ok result) ↔
    (∃ i, OccursAt old_string content i) ∧ ¬Apart old_string content := by
  -- the code asks for a count of one
  have hcount : (∃ result, str_replace content old_string new_string path = .ok result) ↔
      count old_string content = 1 := by
    unfold str_replace
    by_cases hone : count old_string content = 1
    · simp [hone]
    · simp [hone]
  rw [hcount]
  rcases replace_first_spec (w := old_string) new_string content with hnone | ⟨i, hfirst, -⟩
  · rw [count_none hnone]
    refine iff_of_false (by omega) ?_
    intro h
    obtain ⟨i, hi⟩ := h.1
    exact hnone i hi
  · rw [count_first hfirst]
    exact (and_iff_right ⟨i, hfirst.1⟩).symm

/-- What it returns: the first occurrence is replaced. -/
theorem str_replace_result {result : PyStr}
    (h : str_replace content old_string new_string path = .ok result) :
    ∃ i, First old_string content i ∧
      result = content.take i ++ (new_string ++ content.drop (i + old_string.length)) := by
  have hoccurs := (str_replace_ok.mp ⟨result, h⟩).1
  unfold str_replace at h
  split at h
  · cases h
  · obtain rfl := Except.ok.inj h
    rcases replace_first_spec (w := old_string) new_string content with hnone | hfirst
    · obtain ⟨i, hi⟩ := hoccurs
      exact absurd hi (hnone i)
    · exact hfirst

theorem str_replace_error {exc : PyExc}
    (h : str_replace content old_string new_string path = .error exc) : exc.kind = .ValueError := by
  unfold str_replace at h
  split at h
  · obtain rfl := Except.error.inj h
    rfl
  · cases h

/-- `count` is 1 also for two occurrences that overlap: the first is then
    replaced.  Elsewhere the edit is unambiguous. -/
theorem str_replace_iff : UnambiguousEdit content old_string new_string path ↔
    AtMostOne old_string content ∨ Apart old_string content := by
  constructor
  · intro h
    by_cases hapart : Apart old_string content
    · exact Or.inr hapart
    · refine Or.inl ?_
      intro i j hi hj
      -- there is an occurrence and none apart from it, so the edit succeeds
      have hunique := h.succeeds.mp (str_replace_ok.mpr ⟨⟨i, hi⟩, hapart⟩)
      exact hunique.unique hi hj
  · intro h
    refine ⟨?_, ?_, fun exc => str_replace_error, ?_, ?_⟩
    · rw [str_replace_ok]
      constructor
      · intro hok
        obtain ⟨⟨i, hi⟩, hapart⟩ := hok
        have hone := h.resolve_right hapart
        exact ⟨i, hi, fun j hj => hone j i hj hi⟩
      · intro hunique
        refine ⟨hunique.exists, ?_⟩
        intro hapart
        exact hapart.not_atMostOne fun i j hi hj => hunique.unique hi hj
    · intro result hok i hi
      have hone := h.resolve_right (str_replace_ok.mp ⟨result, hok⟩).2
      obtain ⟨j, hfirst, hresult⟩ := str_replace_result hok
      obtain rfl := hone i j hi hfirst.1
      exact hresult
    · intro files exc hread herror
      simp only [MockRuntimeClient.edit_file, hread, Except.bind, herror]
    · intro S http files hdoc s exc hread herror
      simp only [OpenHandsRuntimeClient.edit_file, hread, Except.bind, herror]
      exact ⟨trivial, openhands_read_keeps hdoc⟩

end edit

section small

attribute [local instance] Unicode.ascii

/-- The text `aa` stands twice in `aaa`, and the edit goes through. -/
theorem overlapping_edit : ¬UnambiguousEdit (lit "aaa") (lit "aa") (lit "b") (lit "f") := by
  intro h
  have hok : str_replace (lit "aaa") (lit "aa") (lit "b") (lit "f") = .ok (lit "ba") := by decide
  have hunique := h.succeeds.mp ⟨_, hok⟩
  have hzero : OccursAt (lit "aa") (lit "aaa") 0 := ⟨by decide, by decide⟩
  have hone : OccursAt (lit "aa") (lit "aaa") 1 := ⟨by decide, by decide⟩
  have heq := hunique.unique hzero hone
  omega

end small

/-! ## The bytes of the file -/

section bytes
variable [Unicode] {old_string new_string : PyStr}

/-- The bytes before a match that starts with the character at `i`. -/
def before_match (bytes : List Byte) (i : Nat) : List Byte := octets ((pieces bytes).take i)

/-- The bytes of its `n` characters. -/
def match_bytes (bytes : List Byte) (i n : Nat) : List Byte :=
  octets (((pieces bytes).drop i).take n)

/-- The bytes behind it. -/
def behind_match (bytes : List Byte) (i n : Nat) : List Byte := octets ((pieces bytes).drop (i + n))

/-- A file is as it was, but for the bytes of the characters that matched. -/
def OnlyRegion (old_string new_string : PyStr) (file file' : Option (List Byte)) : Prop :=
  ∃ bytes inserted i, file = some bytes ∧ encode new_string = some inserted ∧
    First old_string (decode_replace bytes) i ∧
    bytes = before_match bytes i ++
      (match_bytes bytes i old_string.length ++ behind_match bytes i old_string.length) ∧
    file' = some (before_match bytes i ++ (inserted ++ behind_match bytes i old_string.length))

omit [Unicode] in
/-- The bytes before the match, of the match and behind it make up the file. -/
theorem around_match (bytes : List Byte) (i n : Nat) :
    before_match bytes i ++ (match_bytes bytes i n ++ behind_match bytes i n) = bytes := by
  unfold before_match match_bytes behind_match octets
  rw [← List.drop_drop, ← List.flatMap_append, List.take_append_drop, ← List.flatMap_append,
    List.take_append_drop]
  exact octets_pieces bytes

/-- Before and behind the match, the file is well-formed UTF-8. -/
def WellFormedOutside (old_string : PyStr) (file : Option (List Byte)) : Prop :=
  ∀ bytes i, file = some bytes → First old_string (decode_replace bytes) i →
    (∀ p ∈ (pieces bytes).take i, p.Faithful) ∧
      ∀ p ∈ (pieces bytes).drop (i + old_string.length), p.Faithful

section adapter
variable {S : Type} {http : Transport S} {files : S → AgentFiles} (hdoc : Documented http files)
  {path : PyStr} {name : List Byte} (hname : http.download_name path = some name) {s s' : S}
include hdoc hname

/-- An edit that went through: three texts were encoded. -/
theorem openhands_edit
    (h : OpenHandsRuntimeClient.edit_file http path old_string new_string s = (.ok (), s')) :
    ∃ bytes i pre inserted post, files s name = some bytes ∧
      First old_string (decode_replace bytes) i ∧
      encode (chars ((pieces bytes).take i)) = some pre ∧ encode new_string = some inserted ∧
      encode (chars ((pieces bytes).drop (i + old_string.length))) = some post ∧
      files s' name = some (pre ++ (inserted ++ post)) := by
  simp only [OpenHandsRuntimeClient.edit_file, openhands_read hdoc hname] at h
  cases hfile : files s name with
  | none => simp [hfile, Except.bind] at h
  | some bytes =>
    simp only [hfile, Except.bind] at h
    cases hreplace : str_replace (decode_replace bytes) old_string new_string path with
    | error exc => simp [hreplace] at h
    | ok result =>
      simp only [hreplace] at h
      -- the path is written to the file it was read from
      obtain ⟨⟨name', hname'⟩, written, hwritten⟩ := openhands_write_ok hdoc (congrArg Prod.fst h)
      obtain rfl := hdoc.alike hname hname'
      obtain ⟨-, hstored⟩ := openhands_write hdoc
        (s := (OpenHandsRuntimeClient.read_file http path s).2) hname' hwritten
      rw [h] at hstored
      -- the result is three texts, and each has its bytes
      obtain ⟨i, hfirst, rfl⟩ := str_replace_result hreplace
      obtain ⟨pre, rest, hpre, hrest, rfl⟩ := encode_append_some hwritten
      obtain ⟨inserted, post, hinserted, hpost, rfl⟩ := encode_append_some hrest
      refine ⟨bytes, i, pre, inserted, post, rfl, hfirst, ?_, hinserted, ?_, ?_⟩
      · rw [chars, List.map_take]
        rwa [← chars_pieces] at hpre
      · rw [chars, List.map_drop]
        rwa [← chars_pieces] at hpost
      · rw [hstored]
        exact Function.update_self _ _ _

/-- **An edit leaves the other bytes as they are** if and only if they are
    well-formed. -/
theorem edit_bytes_iff
    (h : OpenHandsRuntimeClient.edit_file http path old_string new_string s = (.ok (), s')) :
    OnlyRegion old_string new_string (files s name) (files s' name) ↔
      WellFormedOutside old_string (files s name) := by
  obtain ⟨bytes, i, pre, inserted, post, hfile, hfirst, hpre, hinserted, hpost, hafter⟩ :=
    openhands_edit hdoc hname h
  have hlen := pieces_length bytes
  have hbefore : ∀ p ∈ (pieces bytes).take i, p.bytes.length ≤ utf8_len p.char :=
    fun p hp => hlen p (List.mem_of_mem_take hp)
  have hbehind : ∀ p ∈ (pieces bytes).drop (i + old_string.length), p.bytes.length ≤ utf8_len p.char :=
    fun p hp => hlen p (List.mem_of_mem_drop hp)
  -- there is one first occurrence
  have hunique : ∀ j, First old_string (decode_replace bytes) j → j = i :=
    fun j hj => Nat.le_antisymm (hj.2 i hfirst.1) (hfirst.2 j hj.1)
  rw [hfile, hafter]
  constructor
  · intro hregion bytes' j hfile' hj
    obtain ⟨bytes'', inserted', k, hfile'', hinserted', hk, -, hafter'⟩ := hregion
    obtain rfl := Option.some.inj hfile'
    obtain rfl := Option.some.inj hfile''
    obtain rfl : inserted' = inserted := Option.some.inj (hinserted'.symm.trans hinserted)
    obtain rfl := hunique j hj
    obtain rfl := hunique k hk
    unfold before_match behind_match at hafter'
    have heq := Option.some.inj hafter'
    -- neither side got shorter, so neither got longer
    have hprelen := encode_chars_length hbefore hpre
    have hpostlen := encode_chars_length hbehind hpost
    have htotal := congrArg List.length heq
    simp only [List.length_append] at htotal
    obtain ⟨hpre', hrest⟩ := List.append_inj heq (by omega)
    have hpost' := List.append_cancel_left hrest
    exact ⟨(encode_chars_iff hbefore hpre).mp hpre', (encode_chars_iff hbehind hpost).mp hpost'⟩
  · intro houtside
    obtain ⟨hfaithful, hfaithful'⟩ := houtside bytes i rfl hfirst
    refine ⟨bytes, inserted, i, rfl, hinserted, hfirst, (around_match _ _ _).symm, ?_⟩
    rw [before_match, behind_match, (encode_chars_iff hbefore hpre).mpr hfaithful,
      (encode_chars_iff hbehind hpost).mpr hfaithful']

end adapter

end bytes

section small

attribute [local instance] Unicode.ascii

/-- A server that holds one file. -/
def holding (bytes : List Byte) : AgentFiles := Function.update (fun _ => none) [0x66] (some bytes)

theorem holding_self (bytes : List Byte) : holding bytes [0x66] = some bytes :=
  Function.update_self _ _ _

/-- Its name on the server. -/
theorem name_of_f : agent_http.download_name (lit "f") = some [0x66] ∧
    agent_http.upload_name (lit "f") = some [0x66] := by
  decide +kernel

theorem holding_edited {bytes written : List Byte} {old_string new_string : PyStr}
    (result : PyStr)
    (hreplace : str_replace (decode_replace bytes) old_string new_string (lit "f") = .ok result)
    (hwritten : encode result = some written) :
    OpenHandsRuntimeClient.edit_file agent_http (lit "f") old_string new_string (holding bytes) =
      (.ok (), holding written) := by
  have hread := openhands_read agent_documented (s := holding bytes) name_of_f.1
  have hkeeps : (OpenHandsRuntimeClient.read_file agent_http (lit "f") (holding bytes)).2 =
      holding bytes := openhands_read_keeps agent_documented
  rw [id, holding_self] at hread
  obtain ⟨hok, hstored⟩ := openhands_write agent_documented (s := holding bytes) name_of_f.2 hwritten
  have hover : Function.update (holding bytes) [0x66] (some written) = holding written :=
    Function.update_idem _ _ _
  simp only [OpenHandsRuntimeClient.edit_file, hread, Except.bind, hreplace]
  rw [hkeeps]
  exact Prod.ext hok (hstored.trans hover)

/-- In the file `é=a`, the `a` becomes a `b`, and nothing else changes. -/
theorem edit_bytes_iff_accent :
    OnlyRegion (lit "a") (lit "b") (holding [0xc3, 0xa9, 0x3d, 0x61] [0x66])
      (holding [0xc3, 0xa9, 0x3d, 0x62] [0x66]) := by
  refine (edit_bytes_iff agent_documented name_of_f.1
    (holding_edited [0xe9, 0x3d, 0x62] (by decide) (by decide))).mpr ?_
  intro bytes i hfile _
  obtain rfl : [0xc3, 0xa9, 0x3d, 0x61] = bytes :=
    Option.some.inj ((holding_self _).symm.trans hfile)
  have hall : ∀ p ∈ pieces [0xc3, 0xa9, 0x3d, 0x61], p.Faithful := by decide
  exact ⟨fun p hp => hall p (List.mem_of_mem_take hp), fun p hp => hall p (List.mem_of_mem_drop hp)⟩

/-- The same file in another encoding: its first byte becomes three. -/
theorem stray_byte_rewritten :
    OpenHandsRuntimeClient.edit_file agent_http (lit "f") (lit "a") (lit "b")
        (holding [0xe9, 0x3d, 0x61]) = (.ok (), holding [0xef, 0xbf, 0xbd, 0x3d, 0x62]) ∧
      ¬OnlyRegion (lit "a") (lit "b") (holding [0xe9, 0x3d, 0x61] [0x66])
        (holding [0xef, 0xbf, 0xbd, 0x3d, 0x62] [0x66]) := by
  refine ⟨holding_edited [replacement, 0x3d, 0x62] (by decide) (by decide), ?_⟩
  intro h
  obtain ⟨bytes, inserted, i, hfile, hinserted, hfirst, -, hafter⟩ := h
  rw [holding_self] at hfile hafter
  obtain rfl := Option.some.inj hfile
  obtain rfl : inserted = [0x62] := Option.some.inj hinserted.symm
  have hend : i + 1 ≤ 3 := hfirst.1.end_le
  have hposition : i = 0 ∨ i = 1 ∨ i = 2 := by omega
  rcases hposition with rfl | rfl | rfl
  · exact absurd hafter (by decide)
  · exact absurd hafter (by decide)
  · exact absurd hafter (by decide)

end small

end Syndicate
