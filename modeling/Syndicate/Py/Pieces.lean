import Syndicate.Py.Cuts

/-! # Which bytes a decoded character was read from

    `decode_replace` reads a file piece by piece, one character from each
    piece.  `encode` writes a piece back as it was unless the piece was
    ill-formed: `U+FFFD` is then read from at most three bytes, and written
    as three others. -/

namespace Syndicate.Py

/-- Some bytes of a file, and the character read from them. -/
structure Piece where
  bytes : List Byte
  char : CodePoint

/-- The pieces `decode_replace` reads, branch by branch. -/
def pieces : List Byte → List Piece
  | [] => []
  | b :: bs =>
    if b.val < 0x80 then ⟨[b], Fin.ofNat _ b.val⟩ :: pieces bs
    else if b.within 0xc2 0xdf then
      match bs with
      | [] => [⟨[b], replacement⟩]
      | b₁ :: bs₁ =>
        if b₁.within 0x80 0xbf then
          ⟨[b, b₁], Fin.ofNat _ ((b.val - 0xc0) * 0x40 + (b₁.val - 0x80))⟩ :: pieces bs₁
        else ⟨[b], replacement⟩ :: pieces (b₁ :: bs₁)
    else if b.within 0xe0 0xef then
      match bs with
      | [] => [⟨[b], replacement⟩]
      | b₁ :: bs₁ =>
        if b₁.within (secondRange b).1 (secondRange b).2 then
          match bs₁ with
          | [] => [⟨[b, b₁], replacement⟩]
          | b₂ :: bs₂ =>
            if b₂.within 0x80 0xbf then
              ⟨[b, b₁, b₂], Fin.ofNat _
                ((b.val - 0xe0) * 0x1000 + (b₁.val - 0x80) * 0x40 + (b₂.val - 0x80))⟩ :: pieces bs₂
            else ⟨[b, b₁], replacement⟩ :: pieces (b₂ :: bs₂)
        else ⟨[b], replacement⟩ :: pieces (b₁ :: bs₁)
    else if b.within 0xf0 0xf4 then
      match bs with
      | [] => [⟨[b], replacement⟩]
      | b₁ :: bs₁ =>
        if b₁.within (secondRange b).1 (secondRange b).2 then
          match bs₁ with
          | [] => [⟨[b, b₁], replacement⟩]
          | b₂ :: bs₂ =>
            if b₂.within 0x80 0xbf then
              match bs₂ with
              | [] => [⟨[b, b₁, b₂], replacement⟩]
              | b₃ :: bs₃ =>
                if b₃.within 0x80 0xbf then
                  ⟨[b, b₁, b₂, b₃], Fin.ofNat _
                    ((b.val - 0xf0) * 0x40000 + (b₁.val - 0x80) * 0x1000 + (b₂.val - 0x80) * 0x40 +
                      (b₃.val - 0x80))⟩ :: pieces bs₃
                else ⟨[b, b₁, b₂], replacement⟩ :: pieces (b₃ :: bs₃)
            else ⟨[b, b₁], replacement⟩ :: pieces (b₂ :: bs₂)
        else ⟨[b], replacement⟩ :: pieces (b₁ :: bs₁)
    else ⟨[b], replacement⟩ :: pieces bs

/-- The bytes of some pieces. -/
def octets (ps : List Piece) : List Byte := ps.flatMap Piece.bytes

/-- The text read from some pieces. -/
def chars (ps : List Piece) : PyStr := ps.map Piece.char

/-- `encode` writes the piece as it was. -/
def Piece.Faithful (p : Piece) : Prop := encodeChar p.char = some p.bytes

instance (p : Piece) : Decidable p.Faithful := inferInstanceAs (Decidable (_ = _))

/-! ## The pieces make up the file -/

theorem octets_cons (p : Piece) (ps : List Piece) : octets (p :: ps) = p.bytes ++ octets ps := rfl

theorem chars_cons (p : Piece) (ps : List Piece) : chars (p :: ps) = p.char :: chars ps := rfl

theorem octets_pieces (bytes : List Byte) : octets (pieces bytes) = bytes := by
  fun_induction pieces bytes
  all_goals first
    | rfl
    | rw [octets_cons, ‹octets (pieces _) = _›]
      rfl

theorem chars_pieces (bytes : List Byte) : chars (pieces bytes) = decode_replace bytes := by
  fun_induction pieces bytes
  all_goals rw [decode_replace.eq_def]
  all_goals simp only [chars_cons, *, if_true, if_false, Bool.false_eq_true]
  all_goals rfl

/-! ## A well-formed piece is written back -/

theorem byte_of_val {n : Nat} {b : Byte} (h : n = b.val) : Fin.ofNat 256 n = b := by
  apply Fin.ext
  rw [h]
  exact Nat.mod_eq_of_lt b.isLt

theorem codePoint_val {n : Nat} (h : n < 0x110000) : (Fin.ofNat 0x110000 n).val = n :=
  Nat.mod_eq_of_lt h

section faithful
variable {b b₁ b₂ b₃ : Byte}

theorem faithful_one (h : b.val < 0x80) : encodeChar (Fin.ofNat _ b.val) = some [b] := by
  have hval := codePoint_val (n := b.val) (by omega)
  rcases encodeChar_cases (Fin.ofNat _ b.val) with
    ⟨-, he⟩ | ⟨h0, -⟩ | ⟨h0, -⟩ | ⟨h0, -⟩ | ⟨h0, -⟩
  · rw [he, hval, byte_of_val rfl]
  all_goals omega

theorem faithful_two (h : 0xc2 ≤ b.val ∧ b.val ≤ 0xdf) (h₁ : 0x80 ≤ b₁.val ∧ b₁.val ≤ 0xbf) :
    encodeChar (Fin.ofNat _ ((b.val - 0xc0) * 0x40 + (b₁.val - 0x80))) = some [b, b₁] := by
  generalize hn : (b.val - 0xc0) * 0x40 + (b₁.val - 0x80) = n
  have hval := codePoint_val (n := n) (by omega)
  rcases encodeChar_cases (Fin.ofNat _ n) with ⟨h0, -⟩ | ⟨-, -, he⟩ | ⟨h0, -⟩ | ⟨h0, -⟩ | ⟨h0, -⟩
  · omega
  · rw [he, hval, byte_of_val (b := b) (by omega), byte_of_val (b := b₁) (by omega)]
  all_goals omega

theorem faithful_three (h : 0xe0 ≤ b.val ∧ b.val ≤ 0xef)
    (h₁ : (secondRange b).1 ≤ b₁.val ∧ b₁.val ≤ (secondRange b).2)
    (h₂ : 0x80 ≤ b₂.val ∧ b₂.val ≤ 0xbf) :
    encodeChar (Fin.ofNat _ ((b.val - 0xe0) * 0x1000 + (b₁.val - 0x80) * 0x40 + (b₂.val - 0x80))) =
      some [b, b₁, b₂] := by
  -- neither an overlong form nor a surrogate
  have hsecond := secondRange_iff.mp h₁
  generalize hn : (b.val - 0xe0) * 0x1000 + (b₁.val - 0x80) * 0x40 + (b₂.val - 0x80) = n
  have hval := codePoint_val (n := n) (by omega)
  rcases encodeChar_cases (Fin.ofNat _ n) with
    ⟨h0, -⟩ | ⟨-, h0, -⟩ | ⟨h0, h0', -⟩ | ⟨-, -, -, he⟩ | ⟨h0, -⟩
  · omega
  · omega
  · omega
  · rw [he, hval, byte_of_val (b := b) (by omega), byte_of_val (b := b₁) (by omega),
      byte_of_val (b := b₂) (by omega)]
  · omega

theorem faithful_four (h : 0xf0 ≤ b.val ∧ b.val ≤ 0xf4)
    (h₁ : (secondRange b).1 ≤ b₁.val ∧ b₁.val ≤ (secondRange b).2)
    (h₂ : 0x80 ≤ b₂.val ∧ b₂.val ≤ 0xbf) (h₃ : 0x80 ≤ b₃.val ∧ b₃.val ≤ 0xbf) :
    encodeChar (Fin.ofNat _ ((b.val - 0xf0) * 0x40000 + (b₁.val - 0x80) * 0x1000 +
      (b₂.val - 0x80) * 0x40 + (b₃.val - 0x80))) = some [b, b₁, b₂, b₃] := by
  -- neither an overlong form nor a number past the last code point
  have hsecond := secondRange_iff.mp h₁
  generalize hn : (b.val - 0xf0) * 0x40000 + (b₁.val - 0x80) * 0x1000 + (b₂.val - 0x80) * 0x40 +
    (b₃.val - 0x80) = n
  have hval := codePoint_val (n := n) (by omega)
  rcases encodeChar_cases (Fin.ofNat _ n) with
    ⟨h0, -⟩ | ⟨-, h0, -⟩ | ⟨-, h0, -⟩ | ⟨-, h0, -⟩ | ⟨-, he⟩
  · omega
  · omega
  · omega
  · omega
  · rw [he, hval, byte_of_val (b := b) (by omega), byte_of_val (b := b₁) (by omega),
      byte_of_val (b := b₂) (by omega), byte_of_val (b := b₃) (by omega)]

end faithful

/-- An ill-formed piece is `U+FFFD`, from at most three bytes. -/
theorem pieces_form (bytes : List Byte) :
    ∀ p ∈ pieces bytes, p.Faithful ∨ p.char = replacement ∧ p.bytes.length ≤ 3 := by
  fun_induction pieces bytes
  case case1 => simp
  case case2 h ih => exact List.forall_mem_cons.mpr ⟨Or.inl (faithful_one h), ih⟩
  case case4 hlead _ _ h₁ ih =>
    rw [Byte.within_iff] at hlead h₁
    exact List.forall_mem_cons.mpr ⟨Or.inl (faithful_two hlead h₁), ih⟩
  case case8 hlead _ h₁ _ _ h₂ ih =>
    rw [Byte.within_iff] at hlead h₁ h₂
    exact List.forall_mem_cons.mpr ⟨Or.inl (faithful_three hlead h₁ h₂), ih⟩
  case case14 hlead _ h₁ _ h₂ _ _ h₃ ih =>
    rw [Byte.within_iff] at hlead h₁ h₂ h₃
    exact List.forall_mem_cons.mpr ⟨Or.inl (faithful_four hlead h₁ h₂ h₃), ih⟩
  -- the other branches read `U+FFFD`
  all_goals
    refine List.forall_mem_cons.mpr ⟨Or.inr ⟨rfl, ?_⟩, ?_⟩
    · simp
    · first | assumption | simp

/-- A character never takes fewer bytes than it was read from. -/
theorem pieces_length (bytes : List Byte) :
    ∀ p ∈ pieces bytes, p.bytes.length ≤ utf8_len p.char := by
  intro p hp
  rcases pieces_form bytes p hp with hfaithful | ⟨hchar, hlen⟩
  · exact Nat.le_of_eq (encodeChar_bytes hfaithful).1
  · have hthree : utf8_len replacement = 3 := by decide
    rw [hchar, hthree]
    exact hlen

section write
variable {ps : List Piece} {written : List Byte}

theorem encode_chars_length (hlen : ∀ p ∈ ps, p.bytes.length ≤ utf8_len p.char)
    (h : encode (chars ps) = some written) : (octets ps).length ≤ written.length := by
  induction ps generalizing written with
  | nil => exact Nat.zero_le _
  | cons p ps ih =>
    obtain ⟨bs, rest, hbs, hrest, rfl⟩ := encode_cons_some h
    rw [List.forall_mem_cons] at hlen
    have hhead := hlen.1
    have htail := ih hlen.2 hrest
    have hbytes := (encodeChar_bytes hbs).1
    rw [octets, List.flatMap_cons, List.length_append, List.length_append]
    unfold octets at htail
    omega

/-- The text is written back as the bytes it was read from if each piece is. -/
theorem encode_chars_iff (hlen : ∀ p ∈ ps, p.bytes.length ≤ utf8_len p.char)
    (h : encode (chars ps) = some written) : written = octets ps ↔ ∀ p ∈ ps, p.Faithful := by
  induction ps generalizing written with
  | nil =>
    obtain rfl : [] = written := Option.some.inj h
    simp [octets]
  | cons p ps ih =>
    obtain ⟨bs, rest, hbs, hrest, rfl⟩ := encode_cons_some h
    rw [List.forall_mem_cons] at hlen ⊢
    have hhead := hlen.1
    have htail := encode_chars_length hlen.2 hrest
    have hbytes := (encodeChar_bytes hbs).1
    rw [← ih hlen.2 hrest]
    show bs ++ rest = p.bytes ++ octets ps ↔ _
    constructor
    · intro heq
      -- the parts are no shorter than what they were read from, so they are as long
      have htotal := congrArg List.length heq
      rw [List.length_append, List.length_append] at htotal
      obtain ⟨hbs', hrest'⟩ := List.append_inj heq (by omega)
      exact ⟨by rw [Piece.Faithful, hbs, hbs'], hrest'⟩
    · intro hboth
      obtain ⟨hfaithful, hrest'⟩ := hboth
      rw [hrest', Option.some.inj (hbs.symm.trans hfaithful)]

end write

end Syndicate.Py
