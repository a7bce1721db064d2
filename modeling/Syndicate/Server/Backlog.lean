import Syndicate.Compression
import Syndicate.Server.Fanout
import Syndicate.Server.Replay

/-! # The backlog of a server run

    A ticket takes at most fifteen node executions, each logs at most nine
    lines, and a line is read by the cursor once: so a run emits far fewer
    envelopes than the backlog holds, whatever the texts say. -/

namespace Syndicate

open Py Framework Server

variable {W : Type}

/-! ## Lines and attempts -/

section lines
variable [Unicode]

/-- An executor logs two lines an attempt. -/
theorem length_attempt_lines (strike : Int) (as : List Attempt) :
    (attempt_lines strike as).length = 2 * as.length := by
  induction as generalizing strike with
  | nil => rfl
  | cons a as ih =>
    rw [attempt_lines, List.length_cons, List.length_cons, ih, List.length_cons]
    omega

/-- No execution of a node adds more than nine lines to the log. -/
theorem log_grows {env : Env W} {v : Visit W} {δ : AgentState}
    (hdoes : Does env v.before v.node v.events (.ok δ)) (hr : v.result = .ok δ)
    (hex : v.Executed env) (hc : Control env (.at v.node) v.before) :
    (v.before.update δ).log.length ≤ v.before.log.length + 9 := by
  rw [AgentState.update_log]
  by_cases hadv : v.node = .advance
  · rw [hadv] at hdoes
    rw [hdoes.advance_eq]
    exact Nat.zero_le _
  rcases hdoes.attempt_log hadv with hnone | ⟨hn | hn, -⟩
  · rw [hnone, Option.getD_none]
    omega
  · -- the executor: three attempts at most
    rw [hn] at hdoes hc
    cases hdoes with
    | executor_mock => simp [DUMMY_ACTIONS]
    | executor_real _ _ _ hend =>
      obtain ⟨h0, h3⟩ := hc
      have hlen := hend.length_le
      rw [hend.attempt_log, Option.getD_some, List.length_append, length_attempt_lines]
      unfold MAX_STRIKES at h3 hlen
      omega
  · -- the git pass: nine lines at most
    obtain ⟨w, -, hres⟩ := hex
    rw [hn] at hres
    obtain ⟨lines, hlog, hlen, -⟩ := oversight_git_node_logs env v.before w δ (hres.symm.trans hr)
    rw [hlog, Option.getD_some, List.length_append]
    omega

/-- Attempts were read off lines that were logged, and no line is still to be
    read twice. -/
structure Unread (h : List (Visit W)) (s : AgentState) : Prop where
  lines : (attempts_reported h).length + (s.log.length - lines_seen h) ≤ 9 * h.length
  updates : (updates h).flatten.length ≤ h.length

/-- Reading moves lines from behind the cursor to the attempts. -/
theorem read_attempts_le {n : Node} {s δ : AgentState} {cursor : Nat}
    (hlog : (s.update δ).log.length ≤ s.log.length + 9) :
    (read_attempts (lit n.name) δ.returned cursor).1.length +
      ((s.update δ).log.length - (read_attempts (lit n.name) δ.returned cursor).2) ≤
      s.log.length - cursor + 9 := by
  by_cases hread : n = .executor ∧ δ.attempt_log ≠ none
  · obtain ⟨hn, hsome⟩ := hread
    obtain ⟨log, hδ⟩ := Option.ne_none_iff_exists'.mp hsome
    have hfew := List.length_filterMap_le (fun line => attempt_of (.str line)) (log.drop cursor)
    rw [List.length_drop] at hfew
    rw [AgentState.update_log, hδ, Option.getD_some] at hlog ⊢
    have hread : read_attempts (lit Node.executor.name) δ.returned cursor = _ := read_executor hδ cursor
    rw [hn, hread]
    show (List.filterMap _ _).length + (log.length - log.length) ≤ _
    omega
  · have hnothing : n = .executor → δ.attempt_log = none := by
      intro hn
      by_contra hsome
      exact hread ⟨hn, hsome⟩
    rw [read_nothing hnothing]
    simp only [List.length_nil]
    omega

theorem unread_step {env : Env W} {c c' : Config W} {v : Visit W} {h : List (Visit W)}
    (hP : Unread h c.state) (hst : Stepped env c v c') (hex : v.Executed env)
    (hc : Control env (.at v.node) v.before) : Unread (h ++ [v]) c'.state := by
  obtain ⟨hlines, hupdates⟩ := hP
  rw [← hst.before] at hlines
  cases hr : v.result with
  | error e =>
    obtain ⟨hattempts, hseen⟩ := reported_snoc_error h v hr
    rw [(hst.error e hr).1, ← hst.before]
    refine ⟨?_, ?_⟩
    · rw [hattempts, hseen, List.length_append, List.length_singleton]
      omega
    · rw [updates_snoc_error h v hr, List.length_append]
      omega
  | ok δ =>
    obtain ⟨hattempts, hseen⟩ := reported_snoc_ok h v hr
    have hdoes := hst.does
    rw [hr, ← hst.before] at hdoes
    have hread := @read_attempts_le _ v.node _ _ (lines_seen h) (log_grows hdoes hr hex hc)
    rw [(hst.ok δ hr).1, ← hst.before]
    refine ⟨?_, ?_⟩
    · rw [hattempts, hseen, List.length_append, List.length_append, List.length_singleton]
      omega
    · rw [updates_snoc_ok h v hr, List.length_append, List.length_append, List.length_singleton,
        List.length_singleton]
      omega

/-- **The attempts of a run are few**, whatever its log says. -/
theorem ainvoke_unread (env : Env W) {s : AgentState} (hs : Fresh s) (hlog : s.log = []) (w : W)
    (n : Nat) : Unread (ainvoke env n s w).1 (ainvoke env n s w).2.state := by
  have key : (∀ v ∈ (ainvoke env n s w).1, v.Executed env) →
      Unread (ainvoke env n s w).1 (ainvoke env n s w).2.state := by
    apply fresh_invariant hs (P := fun h c => (∀ v ∈ h, v.Executed env) → Unread h c.state)
    · intro _
      refine ⟨?_, Nat.le_refl 0⟩
      show 0 + (s.log.length - 0) ≤ 0
      rw [hlog]
      exact Nat.le_refl 0
    · intro h c v c' hP hst hc _ hall
      have hP := hP fun u hu => hall u (List.mem_append_left _ hu)
      exact unread_step hP hst (hall v (by simp)) hc
  exact key (ainvoke_executed env s w n)

end lines

end Syndicate

namespace Syndicate.Server

open Py Framework

/-! ## A stream from the start -/

/-- A run that fits into the backlog loses none of its envelopes. -/
theorem evicted_nil {s : Stream} (h : s.emitted.length ≤ BACKLOG_MAXLEN) : s.evicted = [] := by
  have hzero : s.emitted.length - BACKLOG_MAXLEN = 0 := by omega
  rw [Stream.evicted, hzero, List.take_zero]

/-- A connection opened with `after=0` on such a run yields what the run
    emitted, from the first envelope on. -/
theorem stream_from_start (run_id raw_request : PyStr) {all : List Envelope} (hall : Numbered all)
    (hlen : all.length ≤ BACKLOG_MAXLEN) (pre post : List Act)
    (hd : driven (pre ++ .connect 0 :: post) <+: all) :
    ∃ c, (serve run_id raw_request (pre ++ .connect 0 :: post)).conns[
        (serve run_id raw_request pre).conns.length]? = some c ∧ c.yielded <+: all := by
  generalize hi : (serve run_id raw_request pre).conns.length = i
  have key : ∀ post, driven (pre ++ .connect 0 :: post) <+: all →
      ∃ c, (serve run_id raw_request (pre ++ .connect 0 :: post)).conns[i]? = some c ∧
        Tracks (serve run_id raw_request (pre ++ .connect 0 :: post)).emitted [] c := by
    intro post
    induction post using List.reverseRecOn with
    | nil =>
      intro _
      refine ⟨{ last_sent := 0 }, ?_, ?_⟩
      · rw [serve_snoc]
        show ((serve run_id raw_request pre).conns ++ [{ last_sent := 0 }])[i]? = _
        rw [← hi]
        simp
      · refine ⟨List.nil_prefix, ?_, fun _ => rfl⟩
        intro cur rest h
        cases h
    | append_singleton post a ih =>
      intro hd
      have hsplit : pre ++ Act.connect 0 :: (post ++ [a]) = (pre ++ .connect 0 :: post) ++ [a] := by
        simp
      rw [hsplit] at hd ⊢
      have hd' : driven (pre ++ .connect 0 :: post) <+: all := by
        rw [driven_append] at hd
        exact (List.prefix_append _ _).trans hd
      obtain ⟨c, hc, htracks⟩ := ih hd'
      rw [serve_snoc]
      have hlogged := serve_logged run_id raw_request (pre ++ .connect 0 :: post)
      have hemitted := serve_driven run_id raw_request hall hd'
      obtain ⟨c', hc'⟩ := conn_persists hc a
      refine ⟨c', hc', htracks.step hlogged hc ?_ (conn_step hc')⟩
      -- nothing is dropped, so no scan comes too late
      intro _ ⟨_, _, _, e, he, _⟩
      have hshort := hd'.length_le
      rw [← hemitted] at hshort
      rw [evicted_nil (Nat.le_trans hshort hlen)] at he
      cases he
  obtain ⟨c, hc, htracks⟩ := key post hd
  rw [serve_driven run_id raw_request hall hd] at htracks
  exact ⟨c, hc, htracks.sent.trans hd⟩

/-! ## A server run -/

variable [Unicode] {W : Type}

/-- **The backlog never evicts** in a run that the server starts on the
    compiled graph, whatever is asked for, whatever the model, the tools and
    the commands answer, and wherever the run breaks off: its envelopes are
    fewer than the backlog holds, at every moment the backlog holds all that
    were emitted so far, and a stream opened at any time with `after=0`
    yields them from `run_started` on. -/
theorem backlog_never_evicts (env : Env W) (w : W) (n : Nat) (ending : Ending) (now : Nat → PyStr)
    (run_id raw_request : PyStr) :
    let es := (drive_run now (compiled_graph env w n ending)
      (RunRecord.new run_id raw_request)).events
    es.length < BACKLOG_MAXLEN ∧
    (∀ acts, driven acts <+: es →
      (serve run_id raw_request acts).record.backlog.items = driven acts) ∧
    ∀ pre post, driven (pre ++ .connect 0 :: post) <+: es →
      ∃ c, (serve run_id raw_request (pre ++ .connect 0 :: post)).conns[
          (serve run_id raw_request pre).conns.length]? = some c ∧
        c.yielded <+: es ∧ ∀ e, c.yielded.head? = some e → e.kind = .run_started := by
  intro es
  let s := input_state (build_initial_state run_id raw_request)
  let h := (ainvoke env n s w).1
  have hfresh : Fresh s := ⟨rfl, rfl, rfl⟩
  have hunread : Unread h _ := ainvoke_unread env hfresh rfl w n
  have hlength : h.length ≤ 15 := ainvoke_length hfresh w n
  have hfan : Fanout (2 * (updates h).flatten.length + 3) (attempts_reported h) es :=
    drive_run_fanout now (compiled_graph env w n ending) run_id raw_request
  -- fifteen nodes, and the lines they log, stay below the bound
  have hlen : es.length < BACKLOG_MAXLEN := by
    have hes := hfan.length
    have hlines := hunread.lines
    have hupdates := hunread.updates
    show _ < 2000
    omega
  obtain ⟨-, hwrote, started, blocks, terminal, hes, hstarted, -⟩ :=
    drive_run_spec now (compiled_graph env w n ending) (RunRecord.new run_id raw_request)
  have hnumbered : Numbered es := hwrote.seqs
  refine ⟨hlen, ?_, ?_⟩
  · intro acts hd
    have hlogged := serve_logged run_id raw_request acts
    have hshort : (serve run_id raw_request acts).emitted.length ≤ BACKLOG_MAXLEN := by
      rw [serve_driven run_id raw_request hnumbered hd]
      exact Nat.le_trans hd.length_le (Nat.le_of_lt hlen)
    have hsplit := hlogged.split
    rw [evicted_nil hshort, List.nil_append, serve_driven run_id raw_request hnumbered hd] at hsplit
    exact hsplit.symm
  · intro pre post hd
    obtain ⟨c, hc, hyielded⟩ :=
      stream_from_start run_id raw_request hnumbered (Nat.le_of_lt hlen) pre post hd
    refine ⟨c, hc, hyielded, ?_⟩
    intro e he
    obtain ⟨rest, hrest⟩ := hyielded
    -- its first envelope is the first one emitted
    have hhead : es.head? = some e := by
      rw [← hrest, List.head?_append, he]
      rfl
    have hes : es = started :: (blocks.flatten ++ [terminal]) := hes
    rw [hes, List.head?_cons] at hhead
    rw [← Option.some.inj hhead]
    exact hstarted

end Syndicate.Server
