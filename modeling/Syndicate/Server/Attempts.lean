import Mathlib.Data.List.Infix
import Syndicate.Distil
import Syndicate.Server.Fanout

/-! # One attempt event per strike

    The driver looks for attempts in the text of the log: a line behind its
    cursor that contains `fast_check` is one.  The lines of fast checks are
    found that way, each with its strike number.  So are other lines that
    quote the word, and what an executor logged before it raised is never
    seen: the events are one for each attempt exactly where neither happens
    (`attempt_events_iff`). -/

namespace Syndicate.Server

open Py Framework

/-! ## Lines of the log -/

theorem contains_iff {needle s : PyStr} : contains needle s = true ↔ needle <:+: s := by
  rw [contains, List.any_eq_true, List.infix_iff_prefix_suffix]
  simp only [List.mem_tails, List.isPrefixOf_iff_prefix]
  constructor
  · intro ⟨t, hsuffix, hprefix⟩
    exact ⟨t, hprefix, hsuffix⟩
  · intro ⟨t, hprefix, hsuffix⟩
    exact ⟨t, hsuffix, hprefix⟩

/-- The first word of a text. -/
theorem split_word {w : PyStr} {c : CodePoint} (hw : ∀ d ∈ w, ¬isspace d = true) (hne : w ≠ [])
    (hc : isspace c = true) (rest : PyStr) : split (w ++ c :: rest) = w :: split rest := by
  have key : ∀ w acc : PyStr, (∀ d ∈ w, ¬isspace d = true) → acc.reverse ++ w ≠ [] →
      splitLoop acc (w ++ c :: rest) = (acc.reverse ++ w) :: splitLoop [] rest := by
    intro w
    induction w with
    | nil =>
      intro acc _ hacc
      have hempty : ¬acc.isEmpty = true := by simpa using hacc
      rw [List.nil_append, splitLoop, if_pos hc, if_neg hempty, List.append_nil]
    | cons d w ih =>
      intro acc hw _
      rw [List.cons_append, splitLoop, if_neg (hw d List.mem_cons_self),
        ih (d :: acc) (fun e he => hw e (List.mem_cons_of_mem d he)) (by simp)]
      simp
  exact key w [] hw hne

/-- `strike=<n>`. -/
def strike_word (strike : Int) : PyStr := lit "strike=" ++ str_int strike

theorem strike_word_no_space (strike : Int) : ∀ c ∈ strike_word strike, ¬isspace c = true := by
  intro c hc
  rcases List.mem_append.mp hc with hc | hc
  · have hall : ((lit "strike=").all fun c => !isspace c) = true := by decide
    simpa using List.all_eq_true.mp hall c hc
  · exact str_int_no_space hc

/-- A line that tells a fast check by its first words. -/
def is_fast_check (line : PyStr) : Bool :=
  (lit "strike=").isPrefixOf line &&
    (lit " fast_check").isPrefixOf (line.dropWhile fun c => !isspace c)

theorem is_fast_check_strike (strike : Int) (c : CodePoint) (hc : isspace c = true) (rest : PyStr) :
    is_fast_check (strike_word strike ++ c :: rest) = (lit " fast_check").isPrefixOf (c :: rest) := by
  have hprefix : (lit "strike=").isPrefixOf (strike_word strike ++ c :: rest) = true := by
    rw [List.isPrefixOf_iff_prefix, strike_word, List.append_assoc]
    exact List.prefix_append _ _
  have hdrop : (strike_word strike ++ c :: rest).dropWhile (fun c => !isspace c) = c :: rest := by
    rw [List.dropWhile_append_of_pos, List.dropWhile_cons_of_neg]
    · simp [hc]
    · intro d hd
      simpa using strike_word_no_space strike d hd
  rw [is_fast_check, hprefix, hdrop, Bool.true_and]

section lines
variable [Unicode]

theorem fast_check_line_eq (strike : Int) (check : ActionResult) :
    fast_check_line strike check = strike_word strike ++ CodePoint.ofChar ' ' ::
      (lit "fast_check" ++ (lit " exit_code=" ++ str_int check.exit_code ++ lit " output=" ++
        repr_str check.output)) := by
  have hsplit : lit " fast_check exit_code=" =
      CodePoint.ofChar ' ' :: (lit "fast_check" ++ lit " exit_code=") := by decide
  simp only [fast_check_line, strike_word, hsplit, List.append_assoc, List.cons_append]

theorem summary_line_eq (strike : Int) (summary : PyStr) :
    summary_line strike summary =
      strike_word strike ++ CodePoint.ofChar ' ' :: (lit "summary=" ++ repr_str summary) := by
  have hsplit : lit " summary=" = CodePoint.ofChar ' ' :: lit "summary=" := by decide
  simp only [summary_line, strike_word, hsplit, List.append_assoc, List.cons_append]

theorem is_fast_check_line (strike : Int) (check : ActionResult) :
    is_fast_check (fast_check_line strike check) = true := by
  rw [fast_check_line_eq, is_fast_check_strike _ _ (by decide), List.isPrefixOf_iff_prefix]
  exact List.prefix_append (lit " fast_check") _

theorem is_fast_check_summary (strike : Int) (summary : PyStr) :
    is_fast_check (summary_line strike summary) = false := by
  rw [summary_line_eq, is_fast_check_strike _ _ (by decide)]
  rfl

/-- No line of a git pass tells a fast check. -/
theorem is_fast_check_pass {W : Type} {s : AgentState} {es : List (Syndicate.Event W)} {line : PyStr}
    (h : PassLine s es line) : is_fast_check line = false := by
  have hother : (lit "strike=").isPrefixOf line = false := by
    cases h with
    | command => rfl
    | add_failed => rfl
    | commit_failed => rfl
    | head_unmoved => rfl
  rw [is_fast_check, hother, Bool.false_and]

/-- The strike number that the driver reads. -/
theorem strike_of_fast_check_line {strike : Int} (h1 : 1 ≤ strike) (h3 : strike ≤ 3)
    (check : ActionResult) : strike_of (fast_check_line strike check) = .int strike := by
  have hne : strike_word strike ≠ [] := by simp [strike_word, lit]
  have hprefix : (lit "strike=").isPrefixOf (fast_check_line strike check) = true := by
    have hfast := is_fast_check_line strike check
    rw [is_fast_check, Bool.and_eq_true] at hfast
    exact hfast.1
  rw [strike_of, if_pos hprefix, fast_check_line_eq,
    split_word (strike_word_no_space strike) hne (by decide)]
  have hsmall : strike = 1 ∨ strike = 2 ∨ strike = 3 := by omega
  rcases hsmall with rfl | rfl | rfl <;> rfl

/-! ## Attempts -/

/-- The event payload of an attempt, by its strike number and fast check. -/
def attempt_payload (strike : Int) (check : ActionResult) : Dict :=
  [(lit "strike", .int strike), (lit "fast_check_summary", .str (fast_check_line strike check))]

/-- What the driver makes of a line. -/
def read_line (line : PyStr) : Option Dict := attempt_of (.str line)

/-- A payload that was made of a fast check. -/
def from_check (attempt : Dict) : Bool :=
  match attempt.get "fast_check_summary" with
  | .str line => is_fast_check line
  | _ => false

theorem from_check_payload (strike : Int) (check : ActionResult) :
    from_check (attempt_payload strike check) = true :=
  is_fast_check_line strike check

/-- A line is read exactly if it contains `fast_check`. -/
theorem read_line_cases (line : PyStr) :
    (contains (lit "fast_check") line = false ∧ read_line line = none) ∨
      (contains (lit "fast_check") line = true ∧
        ∃ attempt, read_line line = some attempt ∧ from_check attempt = is_fast_check line) := by
  have hread : read_line line = if contains (lit "fast_check") line then
      some [(lit "strike", strike_of line), (lit "fast_check_summary", .str line)] else none := rfl
  by_cases h : contains (lit "fast_check") line = true
  · rw [if_pos h] at hread
    exact Or.inr ⟨h, _, hread, rfl⟩
  · rw [if_neg h] at hread
    exact Or.inl ⟨by simpa using h, hread⟩

/-- A fast check is read as the attempt it belongs to. -/
theorem read_fast_check_line {strike : Int} (h1 : 1 ≤ strike) (h3 : strike ≤ 3)
    (check : ActionResult) :
    read_line (fast_check_line strike check) = some (attempt_payload strike check) := by
  have hcontains : contains (lit "fast_check") (fast_check_line strike check) = true := by
    rw [contains_iff, fast_check_line_eq]
    refine ⟨strike_word strike ++ [CodePoint.ofChar ' '], lit " exit_code=" ++
      str_int check.exit_code ++ lit " output=" ++ repr_str check.output, ?_⟩
    simp only [List.append_assoc, List.cons_append, List.nil_append]
  have hread : read_line (fast_check_line strike check) =
      if contains (lit "fast_check") (fast_check_line strike check) then
        some [(lit "strike", strike_of (fast_check_line strike check)),
          (lit "fast_check_summary", .str (fast_check_line strike check))]
      else none := rfl
  rw [hread, if_pos hcontains, strike_of_fast_check_line h1 h3]
  rfl

/-- Lines that tell no fast check are read as something else, or not at
    all. -/
theorem read_others {lines : List PyStr} (h : ∀ line ∈ lines, is_fast_check line = false) :
    (lines.filterMap read_line).filter from_check = [] ∧
      ((∀ attempt ∈ lines.filterMap read_line, from_check attempt = true) ↔
        ∀ line ∈ lines, contains (lit "fast_check") line = false) := by
  induction lines with
  | nil => simp
  | cons line lines ih =>
    obtain ⟨hnone, hall⟩ := ih fun l hl => h l (List.mem_cons_of_mem line hl)
    have hline := h line List.mem_cons_self
    rcases read_line_cases line with ⟨hnot, hread⟩ | ⟨hcontains, attempt, hread, hfrom⟩
    · rw [List.filterMap_cons_none hread]
      refine ⟨hnone, ?_⟩
      rw [hall, List.forall_mem_cons]
      exact ⟨fun hl => ⟨hnot, hl⟩, fun hl => hl.2⟩
    · rw [hline] at hfrom
      rw [List.filterMap_cons_some hread]
      refine ⟨?_, ?_⟩
      · rw [List.filter_cons_of_neg (by simp [hfrom])]
        exact hnone
      · rw [List.forall_mem_cons, List.forall_mem_cons, hfrom, hcontains]
        simp

/-! ## The lines of one executor -/

/-- Each element with the strike number it has behind `strike`. -/
def by_strike {α β : Type} (f : Int → α → β) : Int → List α → List β
  | _, [] => []
  | strike, a :: as => f (strike + 1) a :: by_strike f (strike + 1) as

/-- Of an executor's lines, the fast checks are read as its attempts, and a
    summary is read where it contains `fast_check`. -/
theorem read_attempt_lines {strike : Int} {as : List Attempt} (h0 : 0 ≤ strike)
    (h3 : strike + as.length ≤ 3) :
    ((attempt_lines strike as).filterMap read_line).filter from_check =
        by_strike attempt_payload strike (as.map (·.check)) ∧
      ((∀ attempt ∈ (attempt_lines strike as).filterMap read_line, from_check attempt = true) ↔
        ∀ line ∈ by_strike summary_line strike (as.map (·.summary)),
          contains (lit "fast_check") line = false) := by
  induction as generalizing strike with
  | nil => exact ⟨rfl, by simp [attempt_lines, by_strike]⟩
  | cons a as ih =>
    rw [List.length_cons] at h3
    have hpos : 1 ≤ strike + 1 := by omega
    obtain ⟨hfilter, hall⟩ := ih (show 0 ≤ strike + 1 by omega) (by omega)
    have hcheck := read_fast_check_line hpos (by omega) a.check
    have hfrom := from_check_payload (strike + 1) a.check
    rw [attempt_lines, List.map_cons, List.map_cons, by_strike, by_strike, List.forall_mem_cons]
    rcases read_line_cases (summary_line (strike + 1) a.summary) with
      ⟨hnot, hread⟩ | ⟨hcontains, attempt, hread, hattempt⟩
    · rw [List.filterMap_cons_none hread, List.filterMap_cons_some hcheck]
      refine ⟨?_, ?_⟩
      · rw [List.filter_cons_of_pos hfrom, hfilter]
      · rw [List.forall_mem_cons, hall]
        simp [hfrom, hnot]
    · rw [is_fast_check_summary] at hattempt
      rw [List.filterMap_cons_some hread, List.filterMap_cons_some hcheck]
      refine ⟨?_, ?_⟩
      · rw [List.filter_cons_of_neg (by simp [hattempt]), List.filter_cons_of_pos hfrom, hfilter]
      · rw [List.forall_mem_cons, hattempt, hcontains]
        simp

end lines

/-! ## A run and its reader -/

variable {W : Type}

/-- Did the execution return? -/
def returned (v : Visit W) : Bool :=
  match v.result with
  | .ok _ => true
  | .error _ => false

/-- The lines a git pass has logged since the last executor returned. -/
def pending_git (h : List (Visit W)) : List PyStr :=
  h.foldl (fun pending v =>
    if v.node = .executor ∧ returned v then []
    else if v.node = .oversight_git then pending ++ v.lines_logged
    else pending) []

theorem pending_git_snoc (h : List (Visit W)) (v : Visit W) :
    pending_git (h ++ [v]) =
      if v.node = .executor ∧ returned v then []
      else if v.node = .oversight_git then pending_git h ++ v.lines_logged
      else pending_git h := by
  rw [pending_git, List.foldl_append]
  rfl

section runs
variable [Unicode]

/-- The attempts an execution completed: one for each result of its fast
    checks. -/
def completed_attempts (v : Visit W) : List Dict :=
  by_strike attempt_payload v.before.strikes (checks v.events)

/-- The attempts that executors completed. -/
def attempts_completed (h : List (Visit W)) : List Dict :=
  (h.filter (·.node = .executor)).flatMap completed_attempts

/-- Those of executors that returned. -/
def attempts_returned (h : List (Visit W)) : List Dict :=
  (h.filter fun v => v.node = .executor ∧ returned v).flatMap completed_attempts

/-- Where an executor returns, no line behind the cursor contains
    `fast_check` but its own fast checks: neither a line of a git pass, nor a
    summary of its own. -/
def OnlyFastChecks (h : List (Visit W)) : Prop :=
  Past (fun pre v => v.node = .executor → returned v = true →
    ∀ line ∈ pending_git pre ++ by_strike summary_line v.before.strikes (summaries v.events),
      contains (lit "fast_check") line = false) h

instance (h : List (Visit W)) : Decidable (OnlyFastChecks h) :=
  inferInstanceAs (Decidable (Past _ h))

theorem attempts_returned_snoc (h : List (Visit W)) (v : Visit W) :
    attempts_returned (h ++ [v]) =
      attempts_returned h ++ if v.node = .executor ∧ returned v then completed_attempts v else [] := by
  by_cases hv : v.node = .executor ∧ returned v <;> simp [attempts_returned, hv]

theorem onlyFastChecks_snoc (h : List (Visit W)) (v : Visit W) :
    OnlyFastChecks (h ++ [v]) ↔ OnlyFastChecks h ∧ (v.node = .executor → returned v = true →
      ∀ line ∈ pending_git h ++ by_strike summary_line v.before.strikes (summaries v.events),
        contains (lit "fast_check") line = false) :=
  ⟨fun hall => hall.of_snoc, fun ⟨hall, hlast⟩ => hall.snoc hlast⟩

/-- A run and what its reader has made of it. -/
structure Reading (h : List (Visit W)) (s : AgentState) : Prop where
  attempts : (attempts_reported h).filter from_check = attempts_returned h
  others : (∀ attempt ∈ attempts_reported h, from_check attempt = true) ↔ OnlyFastChecks h
  pending : executions .advance h = 0 →
    ∃ seen, s.log = seen ++ pending_git h ∧ seen.length = lines_seen h
  git : ∀ line ∈ pending_git h, is_fast_check line = false

/-- An execution that is not read. -/
theorem Reading.silent {h : List (Visit W)} {v : Visit W} {s s' : AgentState} (hP : Reading h s)
    (hnot : ¬(v.node = .executor ∧ returned v))
    (hattempts : attempts_reported (h ++ [v]) = attempts_reported h)
    (hpending : executions .advance (h ++ [v]) = 0 →
      ∃ seen, s'.log = seen ++ pending_git (h ++ [v]) ∧ seen.length = lines_seen (h ++ [v]))
    (hgit : ∀ line ∈ pending_git (h ++ [v]), is_fast_check line = false) :
    Reading (h ++ [v]) s' := by
  refine ⟨?_, ?_, hpending, hgit⟩
  · rw [hattempts, attempts_returned_snoc, if_neg hnot, List.append_nil]
    exact hP.attempts
  · rw [hattempts, onlyFastChecks_snoc, hP.others]
    constructor
    · intro hall
      exact ⟨hall, fun hn hret => absurd ⟨hn, hret⟩ hnot⟩
    · intro hall
      exact hall.1

/-- An executor that returns: the lines behind the cursor are those of the
    git passes before it, and its own. -/
theorem reading_executor {env : Env W} {c c' : Config W} {v : Visit W} {h : List (Visit W)}
    {δ : AgentState} {as : List Attempt} (hP : Reading h c.state) (hst : Stepped env c v c')
    (hn : v.node = .executor) (hr : v.result = .ok δ) (h0 : 0 ≤ v.before.strikes)
    (h3 : v.before.strikes + as.length ≤ 3) (hrec : Records v.events as)
    (hlog : δ.attempt_log = some (v.before.log ++ attempt_lines v.before.strikes as))
    (hcut : executions .advance h = 0) : Reading (h ++ [v]) c'.state := by
  obtain ⟨seen, hseen, hlen⟩ := hP.pending hcut
  rw [← hst.before] at hseen
  obtain ⟨hreported, hlines⟩ := reported_snoc_ok h v hr
  have hname : lit v.node.name = lit "executor" := by rw [name_executor, hn]
  -- what the reader has not seen: the git lines in between, then these attempts
  have hbehind : (v.before.log ++ attempt_lines v.before.strikes as).drop (lines_seen h) =
      pending_git h ++ attempt_lines v.before.strikes as := by
    rw [hseen, ← hlen, List.append_assoc, List.drop_left]
  rw [hname, read_executor hlog, hbehind] at hreported
  rw [hname, read_executor hlog] at hlines
  have hnew : attempts_reported (h ++ [v]) = attempts_reported h ++
      ((pending_git h).filterMap read_line ++
        (attempt_lines v.before.strikes as).filterMap read_line) := by
    rw [hreported, ← List.filterMap_append]
    rfl
  obtain ⟨hgit, hgit'⟩ := read_others hP.git
  obtain ⟨hown, hown'⟩ := read_attempt_lines h0 h3
  have hret : v.node = .executor ∧ returned v := by
    refine ⟨hn, ?_⟩
    rw [returned, hr]
  -- nothing is left pending once the executor has returned
  have hempty : pending_git (h ++ [v]) = [] := by
    rw [pending_git_snoc, if_pos hret]
  refine ⟨?_, ?_, ?_, ?_⟩
  · rw [hnew, List.filter_append, List.filter_append, hgit, hown, List.nil_append, hP.attempts,
      attempts_returned_snoc, if_pos hret, completed_attempts, hrec.checks]
  · rw [hnew, onlyFastChecks_snoc, ← hP.others, List.forall_mem_append, List.forall_mem_append, hgit',
      hown', hrec.summaries, List.forall_mem_append]
    constructor
    · intro ⟨hold, hnew⟩
      exact ⟨hold, fun _ _ => hnew⟩
    · intro ⟨hold, hnew⟩
      exact ⟨hold, hnew hn hret.2⟩
  · intro _
    refine ⟨_, ?_, hlines.symm⟩
    rw [(hst.ok δ hr).1, ← hst.before, AgentState.update_log, hlog, hempty, List.append_nil]
    rfl
  · rw [hempty]
    intro line hline
    cases hline

theorem reading_step {env : Env W} {api : RuntimeClient W}
    (hreal : env.get_runtime_client = .ok (.RuntimeClient api)) {c c' : Config W} {v : Visit W}
    {h : List (Visit W)} (hP : Reading h c.state) (hst : Stepped env c v c') (hex : v.Executed env)
    (hc : Control env (.at v.node) v.before)
    (hcut : v.node = .executor ∨ v.node = .oversight_git → executions .advance h = 0) :
    Reading (h ++ [v]) c'.state := by
  -- a node that raises writes nothing, so the reader stands where it stood
  cases hr : v.result with
  | error e =>
    obtain ⟨hattempts, hlines⟩ := reported_snoc_error h v hr
    have hnot : ¬(v.node = .executor ∧ returned v) := by simp [returned, hr]
    have hnone : v.lines_logged = [] := by rw [Visit.lines_logged, hr]
    have hsame : pending_git (h ++ [v]) = pending_git h := by
      rw [pending_git_snoc, if_neg hnot, hnone, List.append_nil, ite_self]
    apply hP.silent hnot hattempts
    · intro hadv
      rw [executions_append] at hadv
      rw [hsame, hlines, (hst.error e hr).1]
      exact hP.pending (by omega)
    · rw [hsame]
      exact hP.git
  | ok δ =>
    have hdoes := hst.does
    rw [hr, ← hst.before] at hdoes
    by_cases hn : v.node = .executor
    · have hzero := hcut (Or.inl hn)
      rw [hn] at hdoes hc
      obtain ⟨h0, h3⟩ := hc
      cases hdoes with
      | executor_mock hmock =>
        rw [hreal] at hmock
        cases hmock
      | executor_real _ _ hrec hend =>
        have hlen := hend.length_le
        unfold MAX_STRIKES at h3 hlen
        exact reading_executor hP hst hn hr h0 (by omega) hrec hend.attempt_log hzero
    · -- any other node is not read; a git pass adds to what is pending
      have hnot : ¬(v.node = .executor ∧ returned v) := fun hboth => hn hboth.1
      obtain ⟨hattempts, hlines⟩ := reported_snoc_ok h v hr
      rw [read_nothing (fun hexec => absurd hexec hn)] at hattempts hlines
      rw [List.append_nil] at hattempts
      by_cases hgit : v.node = .oversight_git
      · obtain ⟨w, -, hres⟩ := hex
        rw [hgit] at hres
        obtain ⟨lines, hlog, -, hpass⟩ :=
          oversight_git_node_logs env v.before w δ (hres.symm.trans hr)
        have hlogged : v.lines_logged = lines := by
          rw [Visit.lines_logged_ok hr, hlog, Option.getD_some, List.drop_left]
        have hmore : pending_git (h ++ [v]) = pending_git h ++ lines := by
          rw [pending_git_snoc, if_neg hnot, if_pos hgit, hlogged]
        apply hP.silent hnot hattempts
        · intro _
          obtain ⟨seen, hseen, hlen⟩ := hP.pending (hcut (Or.inr hgit))
          rw [← hst.before] at hseen
          refine ⟨seen, ?_, hlen.trans hlines.symm⟩
          rw [(hst.ok δ hr).1, ← hst.before, AgentState.update_log, hlog, hmore, Option.getD_some,
            hseen, List.append_assoc]
        · rw [hmore, List.forall_mem_append]
          exact ⟨hP.git, fun line hline => is_fast_check_pass (hpass line hline)⟩
      · have hsame : pending_git (h ++ [v]) = pending_git h := by
          rw [pending_git_snoc, if_neg hnot, if_neg hgit]
        apply hP.silent hnot hattempts
        · intro hzero
          rw [executions_append, executions_singleton] at hzero
          have hadv : v.node ≠ .advance := by
            intro hadv
            rw [if_pos hadv] at hzero
            omega
          -- only the three nodes already treated write to the log
          have hsilent : δ.attempt_log = none := by
            rcases hdoes.attempt_log hadv with hl | ⟨hwrites, -⟩
            · exact hl
            · exact absurd hwrites (by simp [hn, hgit])
          rw [(hst.ok δ hr).1, AgentState.update_log, hsilent, Option.getD_none, hsame, hlines]
          exact hP.pending (by omega)
        · rw [hsame]
          exact hP.git

/-- A run from an empty log, and what its reader has made of it. -/
theorem ainvoke_reading {env : Env W} {api : RuntimeClient W}
    (hreal : env.get_runtime_client = .ok (.RuntimeClient api)) {s : AgentState} (hs : Fresh s)
    (hrun : s.run_status ≠ some .HALTED_ESCALATION_BUDGET) (hlog : s.log = []) (w : W) (n : Nat) :
    Reading (ainvoke env n s w).1 (ainvoke env n s w).2.state := by
  have key : Phase (ainvoke env n s w).2.pc (ainvoke env n s w).2.state
      (executions .dispatch (ainvoke env n s w).1) (executions .escalate (ainvoke env n s w).1)
      (executions .advance (ainvoke env n s w).1) ∧
      ((∀ v ∈ (ainvoke env n s w).1, v.Executed env) →
        Reading (ainvoke env n s w).1 (ainvoke env n s w).2.state) := by
    apply fresh_invariant hs (P := fun h c => Phase c.pc c.state (executions .dispatch h)
      (executions .escalate h) (executions .advance h) ∧ ((∀ v ∈ h, v.Executed env) →
        Reading h c.state))
    · refine ⟨⟨hrun, rfl, rfl, rfl⟩, ?_⟩
      intro _
      refine ⟨rfl, ?_, ?_, ?_⟩
      · constructor
        · intro _
          exact past_nil
        · intro _ attempt ha
          cases ha
      · intro _
        exact ⟨[], hlog, rfl⟩
      · intro line hline
        cases hline
    · intro h c v c' ⟨hphase, hP⟩ hst hc hmove
      have hphase' := phase_move hmove hc (by rw [hst.before, ← hst.pc]; exact hphase)
      refine ⟨by simpa [visited] using hphase', ?_⟩
      intro hall
      have hP := hP fun u hu => hall u (List.mem_append_left _ hu)
      apply reading_step hreal hP hst (hall v (by simp)) hc
      -- the phases: behind `advance` no executor and no git pass comes
      rw [hst.pc] at hphase
      intro hn
      rcases hn with hn | hn <;> rw [hn] at hphase <;> exact hphase.2.2
  exact key.2 (ainvoke_executed env s w n)

/-! ## Raised executions -/

/-- What one execution adds to the attempts that were completed, and to
    those that were returned. -/
theorem attempts_cons (v : Visit W) (h : List (Visit W)) :
    attempts_completed (v :: h) =
        (if v.node = .executor then completed_attempts v else []) ++ attempts_completed h ∧
      attempts_returned (v :: h) =
        (if v.node = .executor ∧ returned v then completed_attempts v else []) ++
          attempts_returned h := by
  refine ⟨?_, ?_⟩
  · by_cases hv : v.node = .executor <;> simp [attempts_completed, hv]
  · by_cases hv : v.node = .executor ∧ returned v <;> simp [attempts_returned, hv]

omit [Unicode] in
theorem length_by_strike {α β : Type} (f : Int → α → β) (strike : Int) (as : List α) :
    (by_strike f strike as).length = as.length := by
  induction as generalizing strike with
  | nil => rfl
  | cons a as ih => rw [by_strike, List.length_cons, ih, List.length_cons]

/-- All that was completed is returned exactly where no executor raised
    behind an attempt it had completed. -/
theorem attempts_returned_iff (h : List (Visit W)) :
    attempts_returned h = attempts_completed h ↔
      ∀ v ∈ h, v.node = .executor → returned v = false → checks v.events = [] := by
  -- raised attempts make the one list longer than the other
  have hle : ∀ h : List (Visit W), (attempts_returned h).length ≤ (attempts_completed h).length := by
    intro h
    induction h with
    | nil => exact Nat.le_refl 0
    | cons v h ih =>
      obtain ⟨hcompleted, hreturned⟩ := attempts_cons v h
      rw [hcompleted, hreturned, List.length_append, List.length_append]
      by_cases hn : v.node = .executor
      · by_cases hret : returned v = true
        · simp only [hn, hret, and_self, if_true]
          omega
        · rw [if_pos hn, if_neg fun hboth => hret hboth.2, List.length_nil]
          omega
      · simp only [hn, false_and, if_false]
        omega
  induction h with
  | nil => simp [attempts_returned, attempts_completed]
  | cons v h ih =>
    obtain ⟨hcompleted, hreturned⟩ := attempts_cons v h
    rw [hcompleted, hreturned, List.forall_mem_cons]
    refine Iff.trans ?_ (and_congr Iff.rfl ih)
    by_cases hraised : v.node = .executor ∧ returned v = false
    · obtain ⟨hn, hret⟩ := hraised
      have hlen : (completed_attempts v).length = (checks v.events).length :=
        length_by_strike _ _ _
      simp only [hn, hret, Bool.false_eq_true, and_false, if_false, if_true, List.nil_append,
        true_implies]
      constructor
      · intro heq
        have hlength := congrArg List.length heq
        have := hle h
        rw [List.length_append, hlen] at hlength
        have hnone : (checks v.events).length = 0 := by omega
        have hempty := List.length_eq_zero_iff.mp hnone
        rw [completed_attempts, hempty] at heq
        exact ⟨hempty, heq⟩
      · intro ⟨hempty, heq⟩
        rw [completed_attempts, hempty]
        exact heq
    · have hsame : (if v.node = .executor ∧ returned v then completed_attempts v else []) =
          if v.node = .executor then completed_attempts v else [] := by
        by_cases hn : v.node = .executor
        · have hret : returned v = true := by
            by_contra hret
            exact hraised ⟨hn, by simpa using hret⟩
          simp [hn, hret]
        · simp [hn]
      rw [hsame, List.append_cancel_left_eq]
      constructor
      · intro heq
        exact ⟨fun hn hret => absurd ⟨hn, hret⟩ hraised, heq⟩
      · intro hboth
        exact hboth.2

/-- What was completed was made of fast checks. -/
theorem from_check_completed {h : List (Visit W)} {attempt : Dict}
    (ha : attempt ∈ attempts_completed h) : from_check attempt = true := by
  have key : ∀ (rs : List ActionResult) (strike : Int),
      ∀ attempt ∈ by_strike attempt_payload strike rs, from_check attempt = true := by
    intro rs
    induction rs with
    | nil =>
      intro _ attempt ha
      cases ha
    | cons r rs ih =>
      intro strike attempt ha
      rcases List.mem_cons.mp ha with rfl | ha
      · exact from_check_payload (strike + 1) r
      · exact ih (strike + 1) attempt ha
  obtain ⟨v, -, hv⟩ := List.mem_flatMap.mp ha
  exact key _ _ attempt hv

/-! ## The events of a run -/

/-- **One event per attempt.**  On a real client the attempt events of a run
    are made, in order, of what `_extract_attempts` reads off the log; and
    that is one payload for each completed attempt, with its strike number
    and its fast-check line, exactly if no other line that is read contains
    `fast_check`, and no executor raised behind an attempt it had
    completed. -/
theorem attempt_events_iff (env : Env W) (api : RuntimeClient W)
    (hreal : env.get_runtime_client = .ok (.RuntimeClient api)) (s : AgentState) (hs : Fresh s)
    (hrun : s.run_status = none) (hlog : s.log = []) (w : W) (n : Nat) (ending : Ending)
    (now : Nat → PyStr) (run_id raw_request : PyStr) :
    List.Forall₂ Reports (attempts_reported (ainvoke env n s w).1)
        (attempt_events (drive_run now (fun _ _ => astream env s w n ending)
          (RunRecord.new run_id raw_request)).events) ∧
      (attempts_reported (ainvoke env n s w).1 = attempts_completed (ainvoke env n s w).1 ↔
        OnlyFastChecks (ainvoke env n s w).1 ∧
          ∀ v ∈ (ainvoke env n s w).1, v.node = .executor → returned v = false →
            checks v.events = []) := by
  have hfan := drive_run_fanout now (fun _ _ => astream env s w n ending) run_id raw_request
  refine ⟨hfan.reported, ?_⟩
  have hreading := ainvoke_reading hreal hs (by rw [hrun]; simp) hlog w n
  rw [← hreading.others, ← attempts_returned_iff, ← hreading.attempts]
  constructor
  · intro heq
    have hall : ∀ attempt ∈ attempts_reported (ainvoke env n s w).1, from_check attempt = true := by
      rw [heq]
      exact fun attempt ha => from_check_completed ha
    refine ⟨hall, ?_⟩
    rw [List.filter_eq_self.mpr hall]
    exact heq
  · intro ⟨hall, heq⟩
    rw [List.filter_eq_self.mpr hall] at heq
    exact heq

end runs

section small
attribute [local instance] Unicode.ascii

/-- The state that a request starts on. -/
def small_request : AgentState := input_state (build_initial_state (lit "r") (lit "x"))

/-- Where every check passes, there is one event for the one attempt. -/
theorem attempt_events_iff_healthy :
    attempts_reported (ainvoke healthy 15 small_request false).1 =
      attempts_completed (ainvoke healthy 15 small_request false).1 :=
  (attempt_events_iff healthy (small_repo fun _ => false) rfl small_request ⟨rfl, rfl, rfl⟩ rfl rfl
    false 15 (.snapshot none) (fun _ => []) (lit "r") (lit "x")).2.mpr
      ⟨by decide +kernel, by decide +kernel⟩

/-- A model that says what it checked. -/
def talkative : Env Bool :=
  { healthy with
    messages_create := fun _ w =>
      (.ok ⟨[.text (lit "fast_check is green")], lit "end_turn"⟩, w) }

/-- One attempt, and two attempt events: the summary counts as one. -/
theorem attempt_event_of_a_summary :
    ¬List.Forall₂ Reports (attempts_completed (ainvoke talkative 15 small_request false).1)
      (attempt_events (drive_run (fun _ => []) (compiled_graph talkative false 15 (.snapshot none))
        (RunRecord.new (lit "r") (lit "x"))).events) := by
  intro h
  have hfan := drive_run_fanout (fun _ => []) (compiled_graph talkative false 15 (.snapshot none))
    (lit "r") (lit "x")
  have hreported : List.Forall₂ Reports
      (attempts_reported (ainvoke talkative 15 small_request false).1) _ := hfan.reported
  have hlen := hreported.length_eq.trans h.length_eq.symm
  revert hlen
  decide +kernel

end small

end Syndicate.Server
