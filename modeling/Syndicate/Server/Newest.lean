import Mathlib.Data.List.Lex
import Mathlib.Order.Fin.Basic
import Syndicate.Framework.Sorted
import Syndicate.Py.Time
import Syndicate.Server.Listing

/-! # `list_runs`: one entry a run, newest first

    The union is what it should be.  The order is that of the texts of
    `created_at`, and these come in two formats: epoch seconds for a record,
    ISO-8601 for a checkpoint. -/

namespace Syndicate.Server

open Py Framework

/-! ## When an entry was made -/

/-- The time that a `created_at` stands for, in seconds since the epoch. -/
inductive MadeAt : PyVal → Rat → Prop where
  | epoch {r : FloatRepr} {t : Rat} (h : decimal r.text = some t) : MadeAt (.float r) t
  | iso (u : UtcTime) : MadeAt (.str u.isoformat) u.timestamp

/-- `v` stands for no later time than `w`. -/
def NotLater (v w : PyVal) : Prop := ∀ t t', MadeAt v t → MadeAt w t' → t ≤ t'

/-- The entries stand in non-increasing order of their times. -/
def NewestFirst (entries : List Listed) : Prop :=
  entries.Pairwise fun a b => NotLater b.created_at a.created_at

theorem timestamp_le_iff (u v : UtcTime) : u.timestamp ≤ v.timestamp ↔ ¬v.isoformat < u.isoformat := by
  rw [UtcTime.isoformat_lt_iff, Nat.not_lt]
  unfold UtcTime.timestamp
  rw [sub_le_sub_iff_right, div_le_div_iff_of_pos_right (by norm_num), Nat.cast_le]

/-- One text stands for one time. -/
theorem MadeAt.unique {v : PyVal} {t t' : Rat} (h : MadeAt v t) (h' : MadeAt v t') : t = t' := by
  cases h with
  | epoch ht =>
    cases h' with
    | epoch ht' => exact Option.some.inj (ht.symm.trans ht')
  | iso u =>
    generalize hv : PyVal.str u.isoformat = v at h'
    cases h' with
    | epoch => cases hv
    | iso u' =>
      have htext : u.isoformat = u'.isoformat := PyVal.str.inj hv
      apply le_antisymm
      · rw [timestamp_le_iff, htext]
        exact List.lt_irrefl _
      · rw [timestamp_le_iff, htext]
        exact List.lt_irrefl _

theorem not_later_iso (u v : UtcTime) :
    NotLater (.str u.isoformat) (.str v.isoformat) ↔ ¬v.isoformat < u.isoformat := by
  rw [← timestamp_le_iff]
  constructor
  · intro h
    exact h _ _ (.iso u) (.iso v)
  · intro hle t t' ht ht'
    rw [ht.unique (.iso u), ht'.unique (.iso v)]
    exact hle

/-- The text of a number is no ISO text. -/
theorem text_ne_isoformat {r : FloatRepr} {t : Rat} (h : decimal r.text = some t) (u : UtcTime) :
    r.text ≠ u.isoformat := by
  intro heq
  have hmem : CodePoint.ofChar 'T' ∈ r.text := by
    rw [heq]
    simp [UtcTime.isoformat]
  have hnumeric := all_numeric_of_decimal h _ hmem
  exact absurd hnumeric (by decide)

/-- A `created_at` as the two sources have it. -/
def Dated (v : PyVal) : Prop :=
  (∃ r t, v = .float r ∧ decimal r.text = some t) ∨ ∃ u : UtcTime, v = .str u.isoformat

/-- Entries with the same text are of the same time. -/
theorem not_later_of_text_eq [Unicode] {v w : PyVal} (hv : Dated v) (hw : Dated w)
    (h : str v = str w) : NotLater v w := by
  rcases hv with ⟨r, t, rfl, hr⟩ | ⟨u, rfl⟩
  · rcases hw with ⟨r', t', rfl, hr'⟩ | ⟨u, rfl⟩
    · intro x x' hx hx'
      cases hx with
      | epoch hx =>
        cases hx' with
        | epoch hx' =>
          have htext : r.text = r'.text := h
          rw [htext, hx'] at hx
          exact le_of_eq (Option.some.inj hx).symm
    · exact absurd h (text_ne_isoformat hr u)
  · rcases hw with ⟨r', t', rfl, hr'⟩ | ⟨u', rfl⟩
    · exact absurd h.symm (text_ne_isoformat hr' u)
    · rw [not_later_iso]
      have htext : u.isoformat = u'.isoformat := h
      rw [htext]
      exact List.lt_irrefl _

/-! ## The union -/

/-- `c` is a checkpoint of its thread, and none of them is later. -/
structure LastOf (checkpoints : List Checkpoint) (c : Checkpoint) : Prop where
  mem : c ∈ checkpoints
  last : ∀ c' ∈ checkpoints, c'.thread_id = c.thread_id → NotLater (.str c'.ts) (.str c.ts)

/-- One entry for each run that the registry or the checkpointer knows. -/
structure Merged (known : List Known) (checkpoints : List Checkpoint) (entries : List Listed) :
    Prop where
  once : (entries.map (·.run_id)).Nodup
  complete : ∀ run_id, run_id ∈ entries.map (·.run_id) ↔
    run_id ∈ known.map (·.record.run_id) ∨ run_id ∈ checkpoints.map (·.thread_id)
  /-- A run of this process is listed by its record. -/
  live : ∀ k ∈ known, live k ∈ entries
  /-- Any other is listed by its latest checkpoint. -/
  restored : ∀ e ∈ entries, e.run_id ∉ known.map (·.record.run_id) →
    ∃ c, LastOf checkpoints c ∧ e = restored (c.thread_id, c)

/-- The loop passes over the runs of this process. -/
theorem foldl_keep_latest (known_ids : List PyStr) (checkpoints : List Checkpoint)
    (latest : List (PyStr × Checkpoint)) :
    checkpoints.foldl (keep_latest known_ids) latest =
      (checkpoints.filter (·.thread_id ∉ known_ids)).foldl (keep_latest []) latest := by
  induction checkpoints generalizing latest with
  | nil => rfl
  | cons ct checkpoints ih =>
    rw [List.foldl_cons, ih]
    by_cases hknown : ct.thread_id ∈ known_ids
    · rw [List.filter_cons_of_neg (by simpa using hknown), keep_latest, if_pos hknown]
    · rw [List.filter_cons_of_pos (by simpa using hknown), List.foldl_cons]
      unfold keep_latest
      rw [if_neg hknown, if_neg List.not_mem_nil]

/-- The loop looks at each thread by itself. -/
theorem lookup_foldl (checkpoints : List Checkpoint) (latest : List (PyStr × Checkpoint)) (t : PyStr) :
    (checkpoints.foldl (keep_latest []) latest).lookup t =
      (checkpoints.filter (·.thread_id = t)).foldl newer (latest.lookup t) := by
  induction checkpoints generalizing latest with
  | nil => rfl
  | cons ct checkpoints ih =>
    rw [List.foldl_cons, ih, lookup_keep_latest]
    by_cases ht : ct.thread_id = t
    · rw [if_pos ht.symm, List.filter_cons_of_pos (by simpa using ht), List.foldl_cons]
    · rw [if_neg (Ne.symm ht), List.filter_cons_of_neg (by simpa using ht)]

theorem nodup_foldl (checkpoints : List Checkpoint) {latest : List (PyStr × Checkpoint)}
    (h : (latest.map Prod.fst).Nodup) :
    ((checkpoints.foldl (keep_latest []) latest).map Prod.fst).Nodup := by
  induction checkpoints generalizing latest with
  | nil => exact h
  | cons ct checkpoints ih => exact ih (nodup_keep_latest h ct)

/-- Of two checkpoints the loop keeps one that neither is greater than. -/
theorem newer_spec (found : Option Checkpoint) (ct : Checkpoint) :
    ∃ e, newer found ct = some e ∧ (found = some e ∨ e = ct) ∧ ct.ts ≤ e.ts ∧
      ∀ e', found = some e' → e'.ts ≤ e.ts := by
  cases found with
  | none => exact ⟨ct, rfl, Or.inr rfl, le_refl _, by simp⟩
  | some e =>
    by_cases hlt : e.ts < ct.ts
    · refine ⟨ct, if_pos hlt, Or.inr rfl, le_refl _, ?_⟩
      intro e' he'
      rw [← Option.some.inj he']
      exact le_of_lt hlt
    · refine ⟨e, if_neg hlt, Or.inl rfl, not_lt.mp hlt, ?_⟩
      intro e' he'
      rw [Option.some.inj he']

theorem foldl_newer {checkpoints : List Checkpoint} {found : Option Checkpoint} {c : Checkpoint}
    (h : checkpoints.foldl newer found = some c) :
    (found = some c ∨ c ∈ checkpoints) ∧ (∀ e, found = some e → e.ts ≤ c.ts) ∧
      ∀ c' ∈ checkpoints, c'.ts ≤ c.ts := by
  induction checkpoints generalizing found with
  | nil =>
    obtain rfl : found = some c := h
    refine ⟨Or.inl rfl, ?_, by simp⟩
    intro e he
    rw [Option.some.inj he]
  | cons ct checkpoints ih =>
    obtain ⟨w, hw, hfrom, hct, hfound⟩ := newer_spec found ct
    rw [List.foldl_cons, hw] at h
    obtain ⟨hmem, hle, hrest⟩ := ih h
    have hwc := hle w rfl
    refine ⟨?_, fun e he => le_trans (hfound e he) hwc,
      List.forall_mem_cons.mpr ⟨le_trans hct hwc, hrest⟩⟩
    rcases hmem with hmem | hmem
    · obtain rfl : w = c := Option.some.inj hmem
      rcases hfrom with hfrom | rfl
      · exact Or.inl hfrom
      · exact Or.inr List.mem_cons_self
    · exact Or.inr (List.mem_cons_of_mem ct hmem)

theorem isSome_foldl_newer (checkpoints : List Checkpoint) (found : Option Checkpoint) :
    (checkpoints.foldl newer found).isSome = (found.isSome || !checkpoints.isEmpty) := by
  induction checkpoints generalizing found with
  | nil => simp
  | cons ct checkpoints ih =>
    obtain ⟨w, hw, -⟩ := newer_spec found ct
    rw [List.foldl_cons, hw, ih]
    simp

section entries
variable (known : List Known) (checkpoints : List Checkpoint)

/-- What the loop over `alist(None)` leaves. -/
def latest_by_thread : List (PyStr × Checkpoint) :=
  checkpoints.foldl (keep_latest (known.map (·.record.run_id))) []

/-- The entries before they are sorted. -/
def unsorted : List Listed := known.map live ++ (latest_by_thread known checkpoints).map restored

theorem list_runs_perm [Unicode] : (list_runs known checkpoints).Perm (unsorted known checkpoints) :=
  List.mergeSort_perm _ _

theorem nodup_latest : ((latest_by_thread known checkpoints).map Prod.fst).Nodup := by
  rw [latest_by_thread, foldl_keep_latest]
  exact nodup_foldl _ List.nodup_nil

variable {known checkpoints}

/-- What is listed of a thread is its greatest checkpoint. -/
theorem mem_latest {t : PyStr} {c : Checkpoint} (h : (t, c) ∈ latest_by_thread known checkpoints) :
    c ∈ checkpoints ∧ c.thread_id = t ∧ t ∉ known.map (·.record.run_id) ∧
      ∀ c' ∈ checkpoints, c'.thread_id = t → c'.ts ≤ c.ts := by
  have hlookup : (latest_by_thread known checkpoints).lookup t = some c := by
    obtain ⟨l₁, l₂, hsplit⟩ := List.append_of_mem h
    have hnodup := nodup_latest known checkpoints
    rw [hsplit] at hnodup ⊢
    rw [List.lookup_eq_some_iff]
    refine ⟨l₁, l₂, rfl, ?_⟩
    intro item hitem
    rw [bne_iff_ne]
    rintro rfl
    rw [List.map_append, List.nodup_append] at hnodup
    exact hnodup.2.2 _ (List.mem_map_of_mem hitem) _ List.mem_cons_self rfl
  rw [latest_by_thread, foldl_keep_latest, lookup_foldl] at hlookup
  obtain ⟨hmem, -, hlast⟩ := foldl_newer hlookup
  have hc := hmem.resolve_left (by simp)
  simp only [List.mem_filter, decide_eq_true_eq] at hc hlast
  obtain ⟨⟨hc, hknown⟩, ht⟩ := hc
  refine ⟨hc, ht, by rwa [ht] at hknown, ?_⟩
  intro c' hc' ht'
  exact hlast c' ⟨⟨hc', by rwa [ht', ← ht]⟩, ht'⟩

theorem mem_latest_keys {t : PyStr} : t ∈ (latest_by_thread known checkpoints).map Prod.fst ↔
    t ∉ known.map (·.record.run_id) ∧ t ∈ checkpoints.map (·.thread_id) := by
  constructor
  · intro h
    obtain ⟨⟨t', c⟩, hmem, rfl⟩ := List.mem_map.mp h
    obtain ⟨hc, ht, hknown, -⟩ := mem_latest hmem
    exact ⟨hknown, List.mem_map.mpr ⟨c, hc, ht⟩⟩
  · intro hboth
    obtain ⟨hknown, h⟩ := hboth
    obtain ⟨c, hc, rfl⟩ := List.mem_map.mp h
    have hsome : ((latest_by_thread known checkpoints).lookup c.thread_id).isSome = true := by
      rw [latest_by_thread, foldl_keep_latest, lookup_foldl, isSome_foldl_newer]
      have hmem : c ∈ (checkpoints.filter (·.thread_id ∉ known.map (·.record.run_id))).filter
          (·.thread_id = c.thread_id) := by
        simpa [hc] using hknown
      rw [List.lookup_nil, Option.isSome_none, Bool.false_or, Bool.not_eq_true',
        List.isEmpty_eq_false_iff]
      exact List.ne_nil_of_mem hmem
    obtain ⟨c', hc'⟩ := Option.isSome_iff_exists.mp hsome
    obtain ⟨l₁, l₂, hsplit, -⟩ := List.lookup_eq_some_iff.mp hc'
    rw [hsplit]
    simp

theorem unsorted_ids : (unsorted known checkpoints).map (·.run_id) =
    known.map (·.record.run_id) ++ (latest_by_thread known checkpoints).map Prod.fst := by
  rw [unsorted, List.map_append, List.map_map, List.map_map]
  rfl

variable (known checkpoints) in
/-- Records of one registry, made at a time, and checkpoints that carry a
    time in UTC. -/
structure Stamped : Prop where
  once : (known.map (·.record.run_id)).Nodup
  epochs : ∀ k ∈ known, ∃ t, 0 < t ∧ decimal k.created_at.text = some t
  utc : ∀ ct ∈ checkpoints, ∃ u : UtcTime, ct.ts = u.isoformat

/-- Of two checkpoints the one with the greater text is the later one. -/
theorem Stamped.not_later (h : Stamped known checkpoints) {c c' : Checkpoint} (hc : c ∈ checkpoints)
    (hc' : c' ∈ checkpoints) : NotLater (.str c.ts) (.str c'.ts) ↔ c.ts ≤ c'.ts := by
  obtain ⟨u, hu⟩ := h.utc c hc
  obtain ⟨u', hu'⟩ := h.utc c' hc'
  rw [hu, hu', not_later_iso]
  exact not_lt

/-- The union is right, whatever the order. -/
theorem list_runs_merged [Unicode] (h : Stamped known checkpoints) :
    Merged known checkpoints (list_runs known checkpoints) := by
  have hperm := list_runs_perm known checkpoints
  have hids := hperm.map (·.run_id)
  rw [unsorted_ids] at hids
  constructor
  · rw [hids.nodup_iff, List.nodup_append]
    refine ⟨h.once, nodup_latest known checkpoints, ?_⟩
    rintro t ht _ ht' rfl
    exact (mem_latest_keys.mp ht').1 ht
  · intro run_id
    rw [hids.mem_iff, List.mem_append, mem_latest_keys]
    tauto
  · intro k hk
    rw [hperm.mem_iff]
    exact List.mem_append_left _ (List.mem_map_of_mem hk)
  · intro e he hunknown
    rw [hperm.mem_iff, unsorted, List.mem_append] at he
    rcases he with he | he
    · obtain ⟨k, hk, rfl⟩ := List.mem_map.mp he
      exact absurd (List.mem_map_of_mem hk) hunknown
    · obtain ⟨⟨t, c⟩, hmem, rfl⟩ := List.mem_map.mp he
      obtain ⟨hc, rfl, -, hlast⟩ := mem_latest hmem
      exact ⟨c, ⟨hc, fun c' hc' ht => (h.not_later hc' hc).mpr (hlast c' hc' ht)⟩, rfl⟩

/-! ## The order -/

theorem Stamped.dated (h : Stamped known checkpoints) {e : Listed}
    (he : e ∈ unsorted known checkpoints) : Dated e.created_at := by
  rw [unsorted, List.mem_append] at he
  rcases he with he | he
  · obtain ⟨k, hk, rfl⟩ := List.mem_map.mp he
    obtain ⟨t, -, ht⟩ := h.epochs k hk
    exact Or.inl ⟨k.created_at, t, rfl, ht⟩
  · obtain ⟨⟨t, c⟩, hmem, rfl⟩ := List.mem_map.mp he
    obtain ⟨u, hu⟩ := h.utc c (mem_latest hmem).1
    exact Or.inr ⟨u, congrArg PyVal.str hu⟩

/-- The sort goes by the texts. -/
theorem newest_first_iff [Unicode] (h : Stamped known checkpoints) :
    NewestFirst (list_runs known checkpoints) ↔
      ∀ a ∈ unsorted known checkpoints, ∀ b ∈ unsorted known checkpoints,
        str a.created_at < str b.created_at → NotLater a.created_at b.created_at := by
  have hle : ∀ a b : Listed, decide (¬str a.created_at < str b.created_at) = true ↔
      str b.created_at ≤ str a.created_at := by
    intro a b
    rw [decide_eq_true_eq]
    exact not_lt
  have hties : ∀ a ∈ unsorted known checkpoints, ∀ b ∈ unsorted known checkpoints,
      str a.created_at = str b.created_at → NotLater a.created_at b.created_at :=
    fun a ha b hb => not_later_of_text_eq (h.dated ha) (h.dated hb)
  exact sorted_in_order_iff (fun e : Listed => str e.created_at)
    (fun a b => NotLater a.created_at b.created_at) hle hties

variable (known checkpoints) in
/-- A checkpoint that stands for a run of an earlier process. -/
structure Persisted (c : Checkpoint) : Prop where
  latest : LastOf checkpoints c
  unknown : c.thread_id ∉ known.map (·.record.run_id)

variable (known checkpoints) in
/-- Where a text in epoch seconds comes before another text, it is not of a
    later time; nor is a checkpoint whose text comes before it. -/
structure TextsInOrder : Prop where
  live : ∀ k ∈ known, ∀ k' ∈ known, k.created_at.text < k'.created_at.text →
    NotLater (.float k.created_at) (.float k'.created_at)
  before : ∀ k ∈ known, ∀ c, Persisted known checkpoints c → k.created_at.text < c.ts →
    NotLater (.float k.created_at) (.str c.ts)
  after : ∀ k ∈ known, ∀ c, Persisted known checkpoints c → c.ts < k.created_at.text →
    NotLater (.str c.ts) (.float k.created_at)

theorem Stamped.persisted (h : Stamped known checkpoints) {t : PyStr} {c : Checkpoint}
    (hmem : (t, c) ∈ latest_by_thread known checkpoints) : Persisted known checkpoints c := by
  obtain ⟨hc, rfl, hunknown, hlast⟩ := mem_latest hmem
  exact ⟨⟨hc, fun c' hc' ht => (h.not_later hc' hc).mpr (hlast c' hc' ht)⟩, hunknown⟩

/-- Such a checkpoint is listed, or another one with its text. -/
theorem Stamped.listed (h : Stamped known checkpoints) {c : Checkpoint}
    (hc : Persisted known checkpoints c) : ∃ c', c'.ts = c.ts ∧
      restored (c.thread_id, c') ∈ unsorted known checkpoints := by
  have hkey := mem_latest_keys.mpr ⟨hc.unknown, List.mem_map_of_mem hc.latest.mem⟩
  obtain ⟨⟨t, c'⟩, hmem, rfl⟩ := List.mem_map.mp hkey
  obtain ⟨hc', ht, -, hlast⟩ := mem_latest hmem
  refine ⟨c', le_antisymm ?_ (hlast c hc.latest.mem rfl), ?_⟩
  · exact (h.not_later hc' hc.latest.mem).mp (hc.latest.last c' hc' ht)
  · rw [unsorted, List.mem_append]
    exact Or.inr (List.mem_map_of_mem hmem)

theorem texts_in_order_iff [Unicode] (h : Stamped known checkpoints) :
    (∀ a ∈ unsorted known checkpoints, ∀ b ∈ unsorted known checkpoints,
        str a.created_at < str b.created_at → NotLater a.created_at b.created_at) ↔
      TextsInOrder known checkpoints := by
  -- every known record is listed
  have hlive : ∀ k ∈ known, live k ∈ unsorted known checkpoints := by
    intro k hk
    rw [unsorted, List.mem_append]
    exact Or.inl (List.mem_map_of_mem hk)
  constructor
  · intro horder
    refine ⟨fun k hk k' hk' => horder _ (hlive k hk) _ (hlive k' hk'), ?_, ?_⟩
    · intro k hk c hc
      obtain ⟨c', hts, hmem⟩ := h.listed hc
      rw [← hts]
      exact horder _ (hlive k hk) _ hmem
    · intro k hk c hc
      obtain ⟨c', hts, hmem⟩ := h.listed hc
      rw [← hts]
      exact horder _ hmem _ (hlive k hk)
  · intro horder a ha b hb
    rw [unsorted, List.mem_append] at ha hb
    rcases ha with ha | ha
    · obtain ⟨k, hk, rfl⟩ := List.mem_map.mp ha
      rcases hb with hb | hb
      · obtain ⟨k', hk', rfl⟩ := List.mem_map.mp hb
        exact horder.live k hk k' hk'
      · obtain ⟨⟨t, c⟩, hmem, rfl⟩ := List.mem_map.mp hb
        exact horder.before k hk c (h.persisted hmem)
    · obtain ⟨⟨t, c⟩, hmem, rfl⟩ := List.mem_map.mp ha
      rcases hb with hb | hb
      · obtain ⟨k, hk, rfl⟩ := List.mem_map.mp hb
        exact horder.after k hk c (h.persisted hmem)
      · -- of two checkpoints the texts tell the truth
        obtain ⟨⟨t', c'⟩, hmem', rfl⟩ := List.mem_map.mp hb
        intro hlt
        exact (h.not_later (mem_latest hmem).1 (mem_latest hmem').1).mpr (le_of_lt hlt)

/-- **`GET /runs`** lists each run once, by its record or else by its latest
    checkpoint; newest first exactly if the texts in epoch seconds compare
    like the times. -/
theorem list_runs_newest_first_iff [Unicode] (known : List Known) (checkpoints : List Checkpoint)
    (h : Stamped known checkpoints) :
    (Merged known checkpoints (list_runs known checkpoints) ∧
        NewestFirst (list_runs known checkpoints)) ↔ TextsInOrder known checkpoints := by
  rw [newest_first_iff h, texts_in_order_iff h]
  exact and_iff_right (list_runs_merged h)

/-- Between 2001 and 2033 the epoch seconds begin with a one: then every
    checkpoint is listed before every record, and the order is right only
    while no checkpoint is older than a record. -/
theorem texts_in_order_of_recent
    (hknown : ∀ k ∈ known, ∃ s, k.created_at.text = CodePoint.ofChar '1' :: s)
    (hts : ∀ ct ∈ checkpoints, ∃ s, ct.ts = CodePoint.ofChar '2' :: s) :
    TextsInOrder known checkpoints ↔
      (∀ k ∈ known, ∀ k' ∈ known, k.created_at.text < k'.created_at.text →
        NotLater (.float k.created_at) (.float k'.created_at)) ∧
      ∀ k ∈ known, ∀ c, Persisted known checkpoints c →
        NotLater (.float k.created_at) (.str c.ts) := by
  have hbefore : ∀ k ∈ known, ∀ c ∈ checkpoints, k.created_at.text < c.ts := by
    intro k hk c hc
    obtain ⟨s, hs⟩ := hknown k hk
    obtain ⟨s', hs'⟩ := hts c hc
    rw [hs, hs']
    exact List.Lex.rel (by decide)
  constructor
  · intro horder
    exact ⟨horder.live, fun k hk c hc => horder.before k hk c hc (hbefore k hk c hc.latest.mem)⟩
  · intro h
    obtain ⟨hlive, hold⟩ := h
    refine ⟨hlive, fun k hk c hc _ => hold k hk c hc, ?_⟩
    intro k hk c hc hlt
    exact absurd hlt (List.lt_asymm (hbefore k hk c hc.latest.mem))

end entries

section small
attribute [local instance] Unicode.ascii

/-- A run of this process, made at the beginning of 2026. -/
def new_year : Known where
  record := .new (lit "live") (lit "x")
  created_at := ⟨lit "1767225600.0", by decide, by decide⟩

theorem new_year_decimal : decimal new_year.created_at.text = some 1767225600 := by decide +kernel

/-- The first of June. -/
def first_of_june (year : Nat) (h : 1 ≤ year ∧ year < 10000) : UtcTime where
  year := year
  month := 6
  day := 1
  hour := 0
  minute := 0
  second := 0
  microsecond := 0
  year_ok := h
  month_ok := by decide
  day_ok := ⟨by decide, by simp [days_in_month]⟩
  hour_ok := by decide
  minute_ok := by decide
  second_ok := by decide
  microsecond_ok := by decide

def june_2025 : UtcTime := first_of_june 2025 (by decide)
def june_2026 : UtcTime := first_of_june 2026 (by decide)

theorem june_2025_earlier : june_2025.timestamp < 1767225600 := by decide +kernel
theorem june_2026_later : 1767225600 ≤ june_2026.timestamp := by decide +kernel

def checkpoint_at (u : UtcTime) : Checkpoint := ⟨lit "persisted", u.isoformat, []⟩

theorem one_of_each (u : UtcTime) : Stamped [new_year] [checkpoint_at u] where
  once := by decide
  epochs := by
    intro k hk
    rw [List.mem_singleton.mp hk]
    exact ⟨1767225600, by norm_num, new_year_decimal⟩
  utc := by
    intro ct hct
    rw [List.mem_singleton.mp hct]
    exact ⟨u, rfl⟩

/-- The checkpoint of a later run is listed first, as it should be. -/
theorem later_checkpoint_in_order : TextsInOrder [new_year] [checkpoint_at june_2026] := by
  have hknown : ∀ k ∈ [new_year], ∃ s, k.created_at.text = CodePoint.ofChar '1' :: s := by
    intro k hk
    rw [List.mem_singleton.mp hk]
    exact ⟨_, rfl⟩
  have hts : ∀ ct ∈ [checkpoint_at june_2026], ∃ s, ct.ts = CodePoint.ofChar '2' :: s := by
    intro ct hct
    rw [List.mem_singleton.mp hct]
    exact ⟨_, rfl⟩
  rw [texts_in_order_of_recent hknown hts]
  constructor
  · intro k hk k' hk' hlt
    rw [List.mem_singleton.mp hk, List.mem_singleton.mp hk'] at hlt
    exact absurd hlt (List.lt_irrefl _)
  · intro k hk c hc t t' ht ht'
    rw [List.mem_singleton.mp hk] at ht
    rw [List.mem_singleton.mp hc.latest.mem] at ht'
    rw [ht.unique (.epoch new_year_decimal), ht'.unique (.iso june_2026)]
    exact june_2026_later

/-- A record and the checkpoint of a later run. -/
theorem list_runs_newest_first_iff_later :
    Merged [new_year] [checkpoint_at june_2026] (list_runs [new_year] [checkpoint_at june_2026]) ∧
      NewestFirst (list_runs [new_year] [checkpoint_at june_2026]) :=
  (list_runs_newest_first_iff [new_year] [checkpoint_at june_2026] (one_of_each june_2026)).mpr
    later_checkpoint_in_order

/-- The checkpoint of an earlier run is listed first too. -/
theorem earlier_checkpoint_listed_first :
    ¬NewestFirst (list_runs [new_year] [checkpoint_at june_2025]) := by
  rw [newest_first_iff (one_of_each june_2025)]
  intro horder
  have hlt : str (live new_year).created_at <
      str (restored (lit "persisted", checkpoint_at june_2025)).created_at :=
    List.Lex.rel (by decide)
  have hmem : restored (lit "persisted", checkpoint_at june_2025) ∈
      unsorted [new_year] [checkpoint_at june_2025] := List.mem_cons_of_mem _ List.mem_cons_self
  have hle := horder (live new_year) List.mem_cons_self _ hmem hlt _ _ (.epoch new_year_decimal)
    (.iso june_2025)
  exact absurd hle (not_le_of_gt june_2025_earlier)

end small

end Syndicate.Server
