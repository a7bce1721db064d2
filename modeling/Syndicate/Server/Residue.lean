import Syndicate.Py.Residue
import Syndicate.Server.Redaction

/-! # What redaction leaves behind

    The replacement is in brackets, and no pattern but the PEM block's can
    match a bracket.  So what a pattern has removed no later one brings back;
    the PEM block is the last, and what it matches ends in a footer that was
    there before. -/

namespace Syndicate.Server

open Py Py.Re

/-- What stands between the brackets of `_REDACTED`. -/
def redacted_word : PyStr := lit "REDACTED"

theorem redacted_brackets :
    REDACTED = CodePoint.ofChar '[' :: (redacted_word ++ [CodePoint.ofChar ']']) := by decide

/-- No secret within the replacement. -/
theorem redacted_word_free : ∀ r ∈ SECRET_PATTERNS, Free r redacted_word := by
  have hall : SECRET_PATTERNS.all (fun r =>
      redacted_word.tails.all fun e => (r.matchHere e).isNone) = true := rfl
  intro r hr
  exact free_of_tails (List.all_eq_true.mp hall r hr)

/-! ## The PEM block -/

def pem_header : Re := .seqs [.text "-----BEGIN ", .star upperOrSpace, .text "PRIVATE KEY-----"]
def pem_footer : Re := .seqs [.text "-----END ", .star upperOrSpace, .text "PRIVATE KEY-----"]

/-- The last pattern. -/
def pem_block : Re :=
  .seqs [.text "-----BEGIN ", .star upperOrSpace, .text "PRIVATE KEY-----", .lazy fun _ => true,
    .text "-----END ", .star upperOrSpace, .text "PRIVATE KEY-----"]

/-- A block is a header, anything, and a footer. -/
theorem matches_pem {w : PyStr} :
    pem_block.Matches w ↔ ∃ h m f, w = h ++ (m ++ f) ∧ pem_header.Matches h ∧ pem_footer.Matches f := by
  constructor
  · rintro ⟨b, _, rfl, hb, u, _, rfl, hu, k, _, rfl, hk, m, f, rfl, -, hf⟩
    refine ⟨b ++ (u ++ k), m, f, by simp, ⟨b, u ++ k, rfl, hb, u, k, rfl, hu, hk⟩, hf⟩
  · rintro ⟨_, m, f, rfl, ⟨b, _, rfl, hb, u, k, rfl, hu, hk⟩, hf⟩
    exact ⟨b, u ++ (k ++ (m ++ f)), by simp, hb, u, k ++ (m ++ f), rfl, hu, k, m ++ f, rfl, hk, m, f,
      rfl, fun _ _ => rfl, hf⟩

theorem pem_avoids : pem_header.mentions (CodePoint.ofChar '[') = false ∧
    pem_footer.mentions (CodePoint.ofChar '[') = false ∧
    pem_footer.mentions (CodePoint.ofChar ']') = false := ⟨rfl, rfl, rfl⟩

/-- A block begins with a dash. -/
theorem pem_header_dash {h : PyStr} (hh : pem_header.Matches h) :
    ∃ h', h = CodePoint.ofChar '-' :: h' := by
  obtain ⟨_, v, rfl, ⟨_, w, rfl, ⟨c, rfl, hc⟩, -⟩, -⟩ := hh
  have hdash : c = CodePoint.ofChar '-' := eq_of_beq hc
  exact ⟨w ++ v, by rw [hdash]; rfl⟩

theorem not_mem_of_mentions {r : Re} {w : PyStr} (hw : r.Matches w) {x : CodePoint}
    (hx : r.mentions x = false) : x ∉ w := by
  intro hmem
  rw [mentions_of_mem hw hmem] at hx
  cases hx

/-- No block is left, and none is put together from what is left. -/
theorem free_pem (s : PyStr) : Free pem_block (pem_block.sub REDACTED s) := by
  intro w hw hmatch
  have hswept := swept_sub (r := pem_block) rfl REDACTED s
  rw [redacted_brackets] at hswept hw
  generalize pem_block.sub (CodePoint.ofChar '[' :: (redacted_word ++ [CodePoint.ofChar ']'])) s = t
    at hswept hw
  induction hswept with
  | nil => exact ne_nil_of_matches rfl hmatch (List.infix_nil.mp hw)
  | @kept c s t hkeep h ih =>
    rcases List.infix_cons_iff.mp hw with ⟨y, hy⟩ | hw
    · -- the scan passed the header, and the footer was there behind it
      obtain ⟨head, m, foot, rfl, hhead, hfoot⟩ := matches_pem.mp hmatch
      have hfront : Swept (fun e => pem_block.matchHere e = none) _ (c :: s) (c :: t) := .kept hkeep h
      rw [List.append_assoc] at hy
      obtain ⟨x, hx, hrest⟩ := hfront.front hy.symm (not_mem_of_mentions hhead pem_avoids.1)
      have hpart : foot <:+: m ++ foot ++ y := ⟨m, y, rfl⟩
      have hno_open := not_mem_of_mentions hfoot pem_avoids.2.1
      have hno_close := not_mem_of_mentions hfoot pem_avoids.2.2
      rcases hrest.part hpart hno_open hno_close with hin | hin
      · obtain ⟨l, z, rfl⟩ := hin
        apply matchHere_of_matches (s := z) (matches_pem.mpr ⟨head, l, foot, rfl, hhead, hfoot⟩)
        have hwhole : head ++ (l ++ foot) ++ z = c :: s := by
          rw [hx]
          simp
        rw [hwhole]
        exact hkeep
      · -- there is no dash within the replacement
        obtain ⟨_, v, rfl, ⟨_, u, rfl, ⟨d, rfl, hd⟩, -⟩, -⟩ := hfoot
        have hdash : d = CodePoint.ofChar '-' := eq_of_beq hd
        have hmem : d ∈ redacted_word := hin.subset (by simp)
        rw [hdash] at hmem
        exact absurd hmem (by decide)
    · exact ih hw
  | @replaced u s t h ih =>
    -- a block begins with a dash, which the replacement does not have
    obtain ⟨head, m, foot, rfl, hhead, hfoot⟩ := matches_pem.mp hmatch
    obtain ⟨head', rfl⟩ := pem_header_dash hhead
    have hskip : ∀ l : PyStr, CodePoint.ofChar '-' ∉ l → ∀ v y : PyStr,
        CodePoint.ofChar '-' :: v <:+: l ++ y → CodePoint.ofChar '-' :: v <:+: y := by
      intro l
      induction l with
      | nil => exact fun _ _ _ h => h
      | cons d l ihl =>
        intro hl v y hin
        rw [List.mem_cons, not_or] at hl
        rcases List.infix_cons_iff.mp hin with ⟨z, hz⟩ | hin
        · exact absurd (List.cons.inj hz).1 hl.1
        · exact ihl hl.2 v y hin
    exact ih (hskip _ (by decide) _ _ hw)

/-! ## All five patterns -/

/-- The patterns before the last avoid both brackets. -/
theorem patterns_avoid : ∀ r ∈ SECRET_PATTERNS.take 4,
    r.mentions (CodePoint.ofChar '[') = false ∧ r.mentions (CodePoint.ofChar ']') = false := by
  have hall : (SECRET_PATTERNS.take 4).all (fun r =>
      !r.mentions (CodePoint.ofChar '[') && !r.mentions (CodePoint.ofChar ']')) = true := rfl
  intro r hr
  simpa using List.all_eq_true.mp hall r hr

/-- Each of the first patterns is gone after its turn, and stays away. -/
theorem redact_free {patterns : List Re} (hpatterns : ∀ r ∈ patterns, r ∈ SECRET_PATTERNS.take 4)
    (gone : List Re) (hgone : ∀ r ∈ gone, r ∈ SECRET_PATTERNS.take 4) {s : PyStr}
    (hs : ∀ r ∈ gone, Free r s) :
    ∀ r ∈ gone ++ patterns, Free r (redact patterns s) := by
  induction patterns generalizing gone s with
  | nil =>
    intro r hr
    rw [List.append_nil] at hr
    exact hs r hr
  | cons x patterns ih =>
    have hx := hpatterns x List.mem_cons_self
    have hsub : ∀ r ∈ SECRET_PATTERNS.take 4, r ∈ SECRET_PATTERNS := fun r hr => List.mem_of_mem_take hr
    have hswept := swept_sub (patterns_nonempty x (hsub x hx)) REDACTED s
    rw [redacted_brackets] at hswept
    have hnext : ∀ r ∈ gone ++ [x], Free r (x.sub REDACTED s) := by
      intro r hr
      rw [redacted_brackets]
      rcases List.mem_append.mp hr with hr | hr
      · have hmem := hgone r hr
        obtain ⟨hopening, hclosing⟩ := patterns_avoid r hmem
        exact hswept.free (redacted_word_free r (hsub r hmem)) hopening hclosing (hs r hr)
      · rw [List.mem_singleton.mp hr]
        obtain ⟨hopening, hclosing⟩ := patterns_avoid x hx
        exact free_sub (redacted_word_free x (hsub x hx)) (patterns_nonempty x (hsub x hx)) hopening
          hclosing s
    have hall := ih (fun r hr => hpatterns r (List.mem_cons_of_mem x hr)) (gone ++ [x])
      (by
        intro r hr
        rcases List.mem_append.mp hr with hr | hr
        · exact hgone r hr
        · rw [List.mem_singleton.mp hr]
          exact hx) hnext
    rw [List.append_assoc] at hall
    exact hall

/-- No pattern matches any part of a redacted text. -/
theorem free_redact_text (text : PyStr) : ∀ r ∈ SECRET_PATTERNS, Free r (redact_text text) := by
  have hsplit : redact_text text = pem_block.sub REDACTED (redact (SECRET_PATTERNS.take 4) text) := rfl
  have hfirst := redact_free
    (show ∀ r ∈ SECRET_PATTERNS.take 4, r ∈ SECRET_PATTERNS.take 4 from fun r hr => hr) [] (by simp)
    (s := text) (by simp)
  intro r hr
  rw [hsplit]
  have hlast : SECRET_PATTERNS = SECRET_PATTERNS.take 4 ++ [pem_block] := rfl
  rw [hlast] at hr
  rcases List.mem_append.mp hr with hmem | hmem
  · -- the block's substitution brings none of the others back
    have hswept := swept_sub (r := pem_block) rfl REDACTED (redact (SECRET_PATTERNS.take 4) text)
    rw [redacted_brackets] at hswept ⊢
    obtain ⟨hopening, hclosing⟩ := patterns_avoid r hmem
    exact hswept.free (redacted_word_free r (List.mem_of_mem_take hmem)) hopening hclosing
      (hfirst r hmem)
  · rw [List.mem_singleton.mp hmem]
    exact free_pem _

/-- A text that no pattern matches is left as it is. -/
theorem redact_text_of_free {text : PyStr} (h : ∀ r ∈ SECRET_PATTERNS, Free r text) :
    redact_text text = text := by
  have key : ∀ patterns : List Re, (∀ r ∈ patterns, Free r text) → redact patterns text = text := by
    intro patterns
    induction patterns with
    | nil => exact fun _ => rfl
    | cons r patterns ih =>
      intro hfree
      show redact patterns (r.sub REDACTED text) = text
      rw [sub_of_free (hfree r List.mem_cons_self)]
      exact ih fun x hx => hfree x (List.mem_cons_of_mem r hx)
  exact key SECRET_PATTERNS h

/-- **Redaction leaves no secret-shaped text**, and changes nothing the
    second time. -/
theorem redact_text_clean (text : PyStr) :
    (∀ r ∈ SECRET_PATTERNS, ∀ w, w <:+: redact_text text → ¬r.Matches w) ∧
      redact_text (redact_text text) = redact_text text :=
  ⟨fun r hr => free_redact_text text r hr, redact_text_of_free (free_redact_text text)⟩

end Syndicate.Server
