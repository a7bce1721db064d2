import Syndicate.Py.Utf8

/-! # The end of a text

    The last lines of a text, and the last bytes of its UTF-8 form.

    * `encode_drop`: where the bytes are cut, a character may be cut too, and
      what is left of it are continuation bytes.
    * `length_splitlines_le`, `breaks_join`: how many lines a text has. -/

namespace Syndicate.Py

/-! ## Bytes -/

/-- How many bytes UTF-8 takes for a character. -/
def utf8_len (c : CodePoint) : Nat :=
  if c.val < 0x80 then 1 else if c.val < 0x800 then 2 else if c.val < 0x10000 then 3 else 4

/-- How many bytes it takes for a text. -/
def utf8_size : PyStr → Nat
  | [] => 0
  | c :: s => utf8_len c + utf8_size s

/-- A byte that no character starts with. -/
def IsTail (b : Byte) : Prop := 0x80 ≤ b.val ∧ b.val ≤ 0xbf

/-- The bytes of a character: as many as `utf8_len` says, and all but the
    first are tails. -/
theorem encodeChar_bytes {c : CodePoint} {bs : List Byte} (h : encodeChar c = some bs) :
    bs.length = utf8_len c ∧ ∀ b ∈ bs.tail, IsTail b := by
  -- what is added to `0x80` stays below `0x40`
  have hcont : ∀ n, IsTail (Fin.ofNat 256 (0x80 + n % 0x40)) := by
    intro n
    unfold IsTail
    rw [byte_val (by omega)]
    omega
  unfold utf8_len
  rcases encodeChar_cases c with ⟨h1, he⟩ | ⟨h0, h1, he⟩ | ⟨-, -, he⟩ | ⟨h0, h1, -, he⟩ | ⟨h0, he⟩
  · obtain rfl := Option.some.inj (he.symm.trans h)
    simp [h1]
  · obtain rfl := Option.some.inj (he.symm.trans h)
    rw [if_neg (by omega), if_pos h1]
    simpa using hcont c.val
  · rw [he] at h
    cases h
  · obtain rfl := Option.some.inj (he.symm.trans h)
    rw [if_neg (by omega), if_neg (by omega), if_pos h1]
    simpa using ⟨hcont (c.val / 0x40), hcont c.val⟩
  · obtain rfl := Option.some.inj (he.symm.trans h)
    rw [if_neg (by omega), if_neg (by omega), if_neg (by omega)]
    simpa using ⟨hcont (c.val / 0x1000), hcont (c.val / 0x40), hcont c.val⟩

theorem encode_cons_some {c : CodePoint} {s : PyStr} {bytes : List Byte}
    (h : encode (c :: s) = some bytes) : ∃ bs rest, encodeChar c = some bs ∧
      encode s = some rest ∧ bytes = bs ++ rest := by
  rw [encode_cons] at h
  obtain ⟨bs, hbs, h⟩ := Option.bind_eq_some_iff.mp h
  obtain ⟨rest, hrest, rfl⟩ := Option.map_eq_some_iff.mp h
  exact ⟨bs, rest, hbs, hrest, rfl⟩

theorem encode_append {s t : PyStr} {bs bt : List Byte} (hs : encode s = some bs)
    (ht : encode t = some bt) : encode (s ++ t) = some (bs ++ bt) := by
  induction s generalizing bs with
  | nil =>
    obtain rfl : [] = bs := Option.some.inj hs
    exact ht
  | cons c s ih =>
    obtain ⟨b, rest, hb, hrest, rfl⟩ := encode_cons_some hs
    rw [List.cons_append, encode_cons, hb, ih hrest]
    simp

/-- The converse. -/
theorem encode_append_some {s t : PyStr} {bytes : List Byte} (h : encode (s ++ t) = some bytes) :
    ∃ bs bt, encode s = some bs ∧ encode t = some bt ∧ bytes = bs ++ bt := by
  induction s generalizing bytes with
  | nil => exact ⟨[], bytes, rfl, h, rfl⟩
  | cons c s ih =>
    obtain ⟨b, rest, hb, hrest, rfl⟩ := encode_cons_some h
    obtain ⟨bs, bt, hbs, hbt, rfl⟩ := ih hrest
    refine ⟨b ++ bs, bt, ?_, hbt, (List.append_assoc b bs bt).symm⟩
    rw [encode_cons, hb, hbs]
    rfl

theorem encode_length {s : PyStr} {bytes : List Byte} (h : encode s = some bytes) :
    bytes.length = utf8_size s := by
  induction s generalizing bytes with
  | nil =>
    obtain rfl : [] = bytes := Option.some.inj h
    rfl
  | cons c s ih =>
    obtain ⟨bs, rest, hbs, hrest, rfl⟩ := encode_cons_some h
    rw [List.length_append, (encodeChar_bytes hbs).1, ih hrest]
    rfl

theorem utf8_size_append (s t : PyStr) : utf8_size (s ++ t) = utf8_size s + utf8_size t := by
  induction s with
  | nil => exact (Nat.zero_add _).symm
  | cons c s ih =>
    rw [List.cons_append, utf8_size, utf8_size, ih, Nat.add_assoc]

/-- A cut through the bytes of a text: the characters before, the rest of
    one that is cut, and the text after. -/
structure Cut (s : PyStr) (bytes : List Byte) where
  before : PyStr
  stray : List Byte
  after : PyStr
  after_bytes : List Byte
  text : s = before ++ after
  encoded : encode after = some after_bytes
  bytes_eq : bytes = stray ++ after_bytes
  tails : ∀ b ∈ stray, IsTail b
  /-- Stray bytes are those of the character before, without the first. -/
  cut_char : stray ≠ [] → ∃ pre c bs, before = pre ++ [c] ∧ encodeChar c = some bs ∧ stray <:+ bs ∧
    stray.length < bs.length

theorem encode_drop {s : PyStr} {bytes : List Byte} (h : encode s = some bytes) (n : Nat) :
    Nonempty (Cut s (bytes.drop n)) := by
  induction s generalizing bytes n with
  | nil =>
    obtain rfl : [] = bytes := Option.some.inj h
    exact ⟨⟨[], [], [], [], rfl, rfl, List.drop_nil, by simp, by simp⟩⟩
  | cons c s ih =>
    obtain ⟨bs, rest, hbs, hrest, rfl⟩ := encode_cons_some h
    by_cases h0 : n = 0
    · subst h0
      exact ⟨⟨[], [], c :: s, bs ++ rest, rfl, h, rfl, by simp, by simp⟩⟩
    by_cases hlen : n < bs.length
    · -- the cut is inside this character
      refine ⟨⟨[c], bs.drop n, s, rest, rfl, hrest, ?_, ?_, ?_⟩⟩
      · exact List.drop_append_of_le_length (Nat.le_of_lt hlen)
      · intro b hb
        apply (encodeChar_bytes hbs).2
        have hsplit : bs.drop n = bs.tail.drop (n - 1) := by
          rw [← List.drop_one, List.drop_drop]
          congr 1
          omega
        rw [hsplit] at hb
        exact List.mem_of_mem_drop hb
      · intro _
        refine ⟨[], c, bs, rfl, hbs, List.drop_suffix n bs, ?_⟩
        rw [List.length_drop]
        omega
    · -- the cut is behind this character
      obtain ⟨k⟩ := ih hrest (n - bs.length)
      refine ⟨⟨c :: k.before, k.stray, k.after, k.after_bytes, ?_, k.encoded, ?_, k.tails, ?_⟩⟩
      · rw [List.cons_append, ← k.text]
      · rw [List.drop_append, List.drop_eq_nil_of_le (Nat.le_of_not_lt hlen), List.nil_append]
        exact k.bytes_eq
      · intro hstray
        obtain ⟨pre, d, ds, hpre, hds, hsuffix, hlt⟩ := k.cut_char hstray
        exact ⟨c :: pre, d, ds, by rw [hpre]; rfl, hds, hsuffix, hlt⟩

/-- Each stray byte is read as one replacement character. -/
theorem decode_stray {stray : List Byte} (h : ∀ b ∈ stray, IsTail b) (rest : List Byte) :
    decode_replace (stray ++ rest) =
      List.replicate stray.length replacement ++ decode_replace rest := by
  induction stray with
  | nil => rfl
  | cons b stray ih =>
    obtain ⟨hlo, hhi⟩ := h b List.mem_cons_self
    -- a tail opens no sequence, so it is read alone
    have hone : decode_replace (b :: (stray ++ rest)) =
        replacement :: decode_replace (stray ++ rest) := by
      have h1 : ¬b.val < 0x80 := by omega
      have h2 : ¬b.within 0xc2 0xdf = true := by
        rw [Byte.within_iff]
        omega
      have h3 : ¬b.within 0xe0 0xef = true := by
        rw [Byte.within_iff]
        omega
      have h4 : ¬b.within 0xf0 0xf4 = true := by
        rw [Byte.within_iff]
        omega
      rw [decode_replace.eq_def]
      simp only [h1, h2, h3, h4, if_false, Bool.false_eq_true]
    rw [List.cons_append, hone, ih fun c hc => h c (List.mem_cons_of_mem b hc)]
    rfl

theorem utf8_size_replicate (n : Nat) : utf8_size (List.replicate n replacement) = 3 * n := by
  induction n with
  | zero => rfl
  | succ n ih =>
    have hlen : utf8_len replacement = 3 := by decide
    rw [List.replicate_succ, utf8_size, ih, hlen]
    omega

theorem encode_replicate (n : Nat) : (encode (List.replicate n replacement)).isSome := by
  rw [encode_isSome]
  intro c hc
  rw [List.eq_of_mem_replicate hc]
  exact Or.inr (by decide)

/-! ## Lines -/

/-- The line breaks in a text. -/
def breaks (s : PyStr) : Nat := s.countP isLineBreak

theorem length_splitlinesLoop_le (acc : PyStr) (afterCR : Bool) (s : PyStr) :
    (splitlinesLoop acc afterCR s).length ≤ breaks s + 1 := by
  induction s generalizing acc afterCR with
  | nil =>
    rw [splitlinesLoop]
    split <;> simp
  | cons c s ih =>
    have hcons : breaks s ≤ breaks (c :: s) := by
      unfold breaks
      rw [List.countP_cons]
      omega
    rw [splitlinesLoop]
    split
    · -- the newline of `\r\n` ends no line of its own
      have hrest := ih [] false
      omega
    · split
      · rename_i hbreak
        have hone : breaks (c :: s) = breaks s + 1 := by
          unfold breaks
          rw [List.countP_cons, if_pos hbreak]
        rw [List.length_cons, hone]
        exact Nat.succ_le_succ (ih _ _)
      · have hrest := ih (c :: acc) false
        omega

theorem length_splitlines_le (s : PyStr) : (splitlines s).length ≤ breaks s + 1 :=
  length_splitlinesLoop_le [] false s

/-- There is no break inside a line. -/
theorem breaks_splitlinesLoop {acc : PyStr} (hacc : breaks acc = 0) (afterCR : Bool) (s : PyStr) :
    ∀ line ∈ splitlinesLoop acc afterCR s, breaks line = 0 := by
  have hreverse : ∀ acc : PyStr, breaks acc = 0 → breaks acc.reverse = 0 := by
    intro acc h
    unfold breaks at h ⊢
    rw [List.countP_reverse, h]
  induction s generalizing acc afterCR with
  | nil =>
    intro line hline
    rw [splitlinesLoop] at hline
    split at hline
    · cases hline
    · rw [List.mem_singleton.mp hline]
      exact hreverse acc hacc
  | cons c s ih =>
    intro line hline
    rw [splitlinesLoop] at hline
    split at hline
    · exact ih rfl false line hline
    · split at hline
      · rcases List.mem_cons.mp hline with rfl | hline
        · exact hreverse acc hacc
        · exact ih rfl _ line hline
      · rename_i hbreak
        refine ih ?_ false line hline
        unfold breaks at hacc ⊢
        rw [List.countP_cons, hacc, if_neg hbreak]

theorem breaks_splitlines (s : PyStr) : ∀ line ∈ splitlines s, breaks line = 0 :=
  breaks_splitlinesLoop rfl false s

/-- A text without a break is one line. -/
theorem splitlines_of_no_break {s : PyStr} (hne : s ≠ []) (h : breaks s = 0) : splitlines s = [s] := by
  -- the loop, with what it has gathered of the line
  have hloop : ∀ (s acc : PyStr), breaks s = 0 → acc.reverse ++ s ≠ [] →
      splitlinesLoop acc false s = [acc.reverse ++ s] := by
    intro s
    induction s with
    | nil =>
      intro acc _ hne
      rw [List.append_nil] at hne ⊢
      rw [splitlinesLoop, if_neg]
      rw [List.isEmpty_iff]
      rintro rfl
      exact hne rfl
    | cons c s ih =>
      intro acc hbreaks _
      have hc : ¬isLineBreak c = true := by
        intro hc
        rw [breaks, List.countP_cons, if_pos hc] at hbreaks
        omega
      have hs : breaks s = 0 := by
        rw [breaks, List.countP_cons] at hbreaks
        unfold breaks
        omega
      rw [splitlinesLoop, Bool.false_and, if_neg Bool.false_ne_true, if_neg hc, ih _ hs (by simp)]
      simp
  exact hloop s [] h hne

/-- Lines joined by newlines: one break less than lines. -/
theorem breaks_join {lines : List PyStr} (h : ∀ line ∈ lines, breaks line = 0) :
    breaks (join (lit "\n") lines) = lines.length - 1 := by
  induction lines with
  | nil => rfl
  | cons line lines ih =>
    rw [List.forall_mem_cons] at h
    cases lines with
    | nil =>
      rw [join, List.intercalate_singleton]
      exact h.1
    | cons line' lines =>
      have hjoin : join (lit "\n") (line :: line' :: lines) =
          line ++ (lit "\n" ++ join (lit "\n") (line' :: lines)) := by
        rw [join, List.intercalate_cons_cons, List.append_assoc]
        rfl
      have hone : breaks (lit "\n") = 1 := by decide
      have hrest := ih h.2
      rw [hjoin]
      unfold breaks at h hone hrest ⊢
      rw [List.countP_append, List.countP_append, h.1, hone, hrest]
      simp only [List.length_cons]
      omega

/-- The last parts, joined, end the whole. -/
theorem join_suffix (sep : PyStr) (before after : List PyStr) :
    join sep after <:+ join sep (before ++ after) := by
  induction before with
  | nil => exact List.suffix_refl _
  | cons part before ih =>
    rw [List.cons_append]
    cases hrest : before ++ after with
    | nil =>
      obtain ⟨-, rfl⟩ := List.append_eq_nil_iff.mp hrest
      exact List.nil_suffix
    | cons part' rest =>
      rw [hrest] at ih
      rw [join, join, List.intercalate_cons_cons]
      exact ih.trans (List.suffix_append _ _)

theorem lastN_suffix {α : Type} (n : Nat) (xs : List α) : lastN n xs <:+ xs := List.drop_suffix _ _

theorem length_lastN_le {α : Type} (n : Nat) (xs : List α) : (lastN n xs).length ≤ n := by
  rw [lastN, List.length_drop]
  omega

end Syndicate.Py
