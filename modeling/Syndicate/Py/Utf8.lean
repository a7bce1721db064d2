import Syndicate.Py.Str

/-! # UTF-8 there and back

    What `str.encode` writes, `bytes.decode(errors='replace')` reads back. -/

namespace Syndicate.Py

/-- A code point that `str.encode` takes: no surrogate. -/
def IsScalar (c : CodePoint) : Prop := c.val < 0xd800 ∨ 0xe000 ≤ c.val

instance (c : CodePoint) : Decidable (IsScalar c) := inferInstanceAs (Decidable (_ ∨ _))

theorem byte_val {n : Nat} (h : n < 256) : (Fin.ofNat 256 n).val = n := Nat.mod_eq_of_lt h

theorem codePoint_of_val {n : Nat} {c : CodePoint} (h : n = c.val) : Fin.ofNat 0x110000 n = c := by
  apply Fin.ext
  rw [h]
  exact Nat.mod_eq_of_lt c.isLt

/-- `encodeChar`, one case for each length. -/
theorem encodeChar_cases (c : CodePoint) :
    (c.val < 0x80 ∧ encodeChar c = some [Fin.ofNat _ c.val]) ∨
    (0x80 ≤ c.val ∧ c.val < 0x800 ∧ encodeChar c =
      some [Fin.ofNat _ (0xc0 + c.val / 0x40), Fin.ofNat _ (0x80 + c.val % 0x40)]) ∨
    (0xd800 ≤ c.val ∧ c.val < 0xe000 ∧ encodeChar c = none) ∨
    (0x800 ≤ c.val ∧ c.val < 0x10000 ∧ IsScalar c ∧ encodeChar c =
      some [Fin.ofNat _ (0xe0 + c.val / 0x1000), Fin.ofNat _ (0x80 + c.val / 0x40 % 0x40),
        Fin.ofNat _ (0x80 + c.val % 0x40)]) ∨
    (0x10000 ≤ c.val ∧ encodeChar c =
      some [Fin.ofNat _ (0xf0 + c.val / 0x40000), Fin.ofNat _ (0x80 + c.val / 0x1000 % 0x40),
        Fin.ofNat _ (0x80 + c.val / 0x40 % 0x40), Fin.ofNat _ (0x80 + c.val % 0x40)]) := by
  have hlt := c.isLt
  unfold encodeChar IsScalar
  by_cases h1 : c.val < 0x80
  · simp [h1]
  · by_cases h2 : c.val < 0x800
    · simp [h1, h2]
      omega
    · by_cases h3 : 0xd800 ≤ c.val ∧ c.val < 0xe000
      · simp [h1, h2, h3]
      · by_cases h4 : c.val < 0x10000
        · simp only [h1, h2, h3, h4, if_true, if_false]
          right; right; right; left
          exact ⟨by omega, trivial, by omega, trivial⟩
        · simp only [h1, h2, h3, h4, if_false]
          right; right; right; right
          exact ⟨by omega, trivial⟩

/-! ## Reading one character

    A sequence of two, three or four bytes is read by its lead byte. -/

theorem Byte.within_iff {b : Byte} {lo hi : Nat} :
    Byte.within b lo hi = true ↔ lo ≤ b.val ∧ b.val ≤ hi := by
  simp [Byte.within]

section sequences
variable {b b₁ b₂ b₃ : Byte}

theorem decode_one (h : b.val < 0x80) (rest : List Byte) :
    decode_replace (b :: rest) = Fin.ofNat _ b.val :: decode_replace rest := by
  rw [decode_replace.eq_def]
  simp only [h, if_true]

theorem decode_two (h : 0xc2 ≤ b.val ∧ b.val ≤ 0xdf) (h₁ : 0x80 ≤ b₁.val ∧ b₁.val ≤ 0xbf)
    (rest : List Byte) : decode_replace (b :: b₁ :: rest) =
      Fin.ofNat _ ((b.val - 0xc0) * 0x40 + (b₁.val - 0x80)) :: decode_replace rest := by
  have hlow : ¬b.val < 0x80 := by omega
  rw [decode_replace.eq_def]
  simp only [hlow, Byte.within_iff.mpr h, Byte.within_iff.mpr h₁, if_true, if_false]

theorem decode_three (h : 0xe0 ≤ b.val ∧ b.val ≤ 0xef)
    (h₁ : (secondRange b).1 ≤ b₁.val ∧ b₁.val ≤ (secondRange b).2)
    (h₂ : 0x80 ≤ b₂.val ∧ b₂.val ≤ 0xbf) (rest : List Byte) :
    decode_replace (b :: b₁ :: b₂ :: rest) =
      Fin.ofNat _ ((b.val - 0xe0) * 0x1000 + (b₁.val - 0x80) * 0x40 + (b₂.val - 0x80)) ::
        decode_replace rest := by
  have hlow : ¬b.val < 0x80 := by omega
  have htwo : ¬Byte.within b 0xc2 0xdf = true := by
    rw [Byte.within_iff]
    omega
  rw [decode_replace.eq_def]
  simp only [hlow, htwo, Byte.within_iff.mpr h, Byte.within_iff.mpr h₁, Byte.within_iff.mpr h₂,
    if_true, if_false, Bool.false_eq_true]

theorem decode_four (h : 0xf0 ≤ b.val ∧ b.val ≤ 0xf4)
    (h₁ : (secondRange b).1 ≤ b₁.val ∧ b₁.val ≤ (secondRange b).2)
    (h₂ : 0x80 ≤ b₂.val ∧ b₂.val ≤ 0xbf) (h₃ : 0x80 ≤ b₃.val ∧ b₃.val ≤ 0xbf)
    (rest : List Byte) : decode_replace (b :: b₁ :: b₂ :: b₃ :: rest) =
      Fin.ofNat _ ((b.val - 0xf0) * 0x40000 + (b₁.val - 0x80) * 0x1000 + (b₂.val - 0x80) * 0x40 +
        (b₃.val - 0x80)) :: decode_replace rest := by
  have hlow : ¬b.val < 0x80 := by omega
  have htwo : ¬Byte.within b 0xc2 0xdf = true := by
    rw [Byte.within_iff]
    omega
  have hthree : ¬Byte.within b 0xe0 0xef = true := by
    rw [Byte.within_iff]
    omega
  rw [decode_replace.eq_def]
  simp only [hlow, htwo, hthree, Byte.within_iff.mpr h, Byte.within_iff.mpr h₁,
    Byte.within_iff.mpr h₂, Byte.within_iff.mpr h₃, if_true, if_false, Bool.false_eq_true]

end sequences

/-- What the second byte may be: a tail, with a limit after four of the leads. -/
theorem secondRange_iff {b : Byte} {x : Nat} :
    (secondRange b).1 ≤ x ∧ x ≤ (secondRange b).2 ↔
      0x80 ≤ x ∧ x ≤ 0xbf ∧ (b.val = 0xe0 → 0xa0 ≤ x) ∧ (b.val = 0xed → x ≤ 0x9f) ∧
        (b.val = 0xf0 → 0x90 ≤ x) ∧ (b.val = 0xf4 → x ≤ 0x8f) := by
  unfold secondRange
  repeat' split
  all_goals
    dsimp only
    omega

/-- One character is read back, whatever follows. -/
theorem decode_encodeChar {c : CodePoint} {bs : List Byte} (h : encodeChar c = some bs)
    (rest : List Byte) : decode_replace (bs ++ rest) = c :: decode_replace rest := by
  have hlt := c.isLt
  -- a continuation byte carries six bits
  have hcont : ∀ n, (Fin.ofNat 256 (0x80 + n % 0x40)).val = 0x80 + n % 0x40 :=
    fun n => byte_val (by omega)
  rcases encodeChar_cases c with ⟨h1, he⟩ | ⟨h0, h1, he⟩ | ⟨-, -, he⟩ | ⟨h0, h1, hs, he⟩ | ⟨h0, he⟩
  · obtain rfl : _ = bs := Option.some.inj (he.symm.trans h)
    have hb : (Fin.ofNat 256 c.val).val = c.val := byte_val (by omega)
    rw [List.cons_append, List.nil_append, decode_one (by omega), hb, codePoint_of_val rfl]
  · obtain rfl : _ = bs := Option.some.inj (he.symm.trans h)
    have hb : (Fin.ofNat 256 (0xc0 + c.val / 0x40)).val = 0xc0 + c.val / 0x40 := byte_val (by omega)
    have hb₁ := hcont c.val
    show decode_replace (_ :: _ :: rest) = _
    rw [decode_two (by omega) (by omega), hb, hb₁, codePoint_of_val (c := c) (by omega)]
  · rw [he] at h
    cases h
  · obtain rfl : _ = bs := Option.some.inj (he.symm.trans h)
    have hb : (Fin.ofNat 256 (0xe0 + c.val / 0x1000)).val = 0xe0 + c.val / 0x1000 :=
      byte_val (by omega)
    have hb₁ := hcont (c.val / 0x40)
    have hb₂ := hcont c.val
    -- the range of the second byte keeps out overlong forms and surrogates
    have hsecond : (secondRange (Fin.ofNat 256 (0xe0 + c.val / 0x1000))).1 ≤ 0x80 + c.val / 0x40 % 0x40 ∧
        0x80 + c.val / 0x40 % 0x40 ≤ (secondRange (Fin.ofNat 256 (0xe0 + c.val / 0x1000))).2 := by
      unfold IsScalar at hs
      rw [secondRange_iff, hb]
      omega
    show decode_replace (_ :: _ :: _ :: rest) = _
    rw [decode_three (by omega) (by rw [hb₁]; exact hsecond) (by omega), hb, hb₁, hb₂,
      codePoint_of_val (c := c) (by omega)]
  · obtain rfl : _ = bs := Option.some.inj (he.symm.trans h)
    have hb : (Fin.ofNat 256 (0xf0 + c.val / 0x40000)).val = 0xf0 + c.val / 0x40000 :=
      byte_val (by omega)
    have hb₁ := hcont (c.val / 0x1000)
    have hb₂ := hcont (c.val / 0x40)
    have hb₃ := hcont c.val
    have hsecond : (secondRange (Fin.ofNat 256 (0xf0 + c.val / 0x40000))).1 ≤
          0x80 + c.val / 0x1000 % 0x40 ∧
        0x80 + c.val / 0x1000 % 0x40 ≤ (secondRange (Fin.ofNat 256 (0xf0 + c.val / 0x40000))).2 := by
      rw [secondRange_iff, hb]
      omega
    show decode_replace (_ :: _ :: _ :: _ :: rest) = _
    rw [decode_four (by omega) (by rw [hb₁]; exact hsecond) (by omega) (by omega), hb, hb₁, hb₂,
      hb₃, codePoint_of_val (c := c) (by omega)]

/-! ## Whole texts -/

theorem encode_cons (c : CodePoint) (s : PyStr) :
    encode (c :: s) = (encodeChar c).bind fun bs => (encode s).map (bs ++ ·) := by
  unfold encode
  rw [List.mapM_cons]
  cases encodeChar c with
  | none => rfl
  | some bs =>
    cases h : s.mapM encodeChar <;> simp

/-- **UTF-8 there and back.** -/
theorem decode_encode {s : PyStr} {bytes : List Byte} (h : encode s = some bytes) :
    decode_replace bytes = s := by
  induction s generalizing bytes with
  | nil =>
    obtain rfl : [] = bytes := Option.some.inj h
    rw [decode_replace]
  | cons c s ih =>
    rw [encode_cons] at h
    obtain ⟨bs, hbs, h⟩ := Option.bind_eq_some_iff.mp h
    obtain ⟨rest, hrest, rfl⟩ := Option.map_eq_some_iff.mp h
    rw [decode_encodeChar hbs, ih hrest]

/-- Different texts have different bytes. -/
theorem encode_inj {s t : PyStr} {bytes : List Byte} (hs : encode s = some bytes)
    (ht : encode t = some bytes) : s = t := by
  rw [← decode_encode hs, decode_encode ht]

/-- `str.encode` accepts a text. -/
def Encodable (s : PyStr) : Prop := ∀ c ∈ s, IsScalar c

instance (s : PyStr) : Decidable (Encodable s) := inferInstanceAs (Decidable (∀ c ∈ s, _))

theorem encodeChar_isSome (c : CodePoint) : (encodeChar c).isSome ↔ IsScalar c := by
  unfold IsScalar
  rcases encodeChar_cases c with ⟨h, he⟩ | ⟨-, h, he⟩ | ⟨h, h', he⟩ | ⟨-, -, h, he⟩ | ⟨h, he⟩
  · simp [he]
    omega
  · simp [he]
    omega
  · simp [he]
    omega
  · rw [he]
    exact iff_of_true rfl h
  · simp [he]
    omega

theorem encode_isSome (s : PyStr) : (encode s).isSome ↔ Encodable s := by
  induction s with
  | nil => simp [encode, Encodable]
  | cons c s ih =>
    have hsplit : Encodable (c :: s) ↔ IsScalar c ∧ Encodable s := List.forall_mem_cons
    rw [hsplit, ← ih, ← encodeChar_isSome, encode_cons]
    cases encodeChar c with
    | none => simp
    | some bs => simp

end Syndicate.Py
