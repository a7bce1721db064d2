import Mathlib.Data.List.Sort
import Syndicate.Server.Protocol
import Syndicate.Server.Updates

/-! # `list_runs`: what a restart leaves of an outcome

    `GET /runs` knows a run of this process by its record, and a run from
    before a restart by its latest checkpoint.  The two classify the same
    run by themselves: `drive_run` looks at how it ended, the listing at the
    `ticket_status` that the checkpoint happens to hold. -/

namespace Syndicate.Server

open Py Framework

/-! ## `GET /runs` -/

/-- The literal of a status. -/
def RunStatusLiteral.value : RunStatusLiteral → String
  | queued => "queued"
  | running => "running"
  | completed => "completed"
  | failed => "failed"
  | escalated => "escalated"

/-- What `list_runs` reads of a checkpoint tuple. -/
structure Checkpoint where
  thread_id : PyStr
  ts : PyStr
  channel_values : Dict

/-- A record of this process, with the time it was made. -/
structure Known where
  record : RunRecord
  created_at : FloatRepr

/-- An entry of the answer. -/
structure Listed where
  run_id : PyStr
  status : PyStr
  created_at : PyVal

/-- `getattr(v, 'value', v)`. -/
def value_attr : PyVal → PyVal
  | .enum _ value => .str value
  | .dataclass cls fields => (Dict.find fields "value").getD (.dataclass cls fields)
  | v => v

/-- The status of a run that only the checkpointer knows. -/
def restored_status (values : Dict) : PyStr :=
  match values.get "ticket_status" with
  | .none => lit "unknown"
  | ticket_status =>
    if pyEq (value_attr ticket_status) (.str (lit "escalated")) then lit "escalated"
    else lit "completed"

/-- The body of the loop over `alist(None)`. -/
def keep_latest (known_ids : List PyStr) (latest_by_thread : List (PyStr × Checkpoint))
    (ct : Checkpoint) : List (PyStr × Checkpoint) :=
  if ct.thread_id ∈ known_ids then latest_by_thread
  else
    match latest_by_thread.lookup ct.thread_id with
    | none => setItem latest_by_thread ct.thread_id ct
    | some existing =>
      if existing.ts < ct.ts then setItem latest_by_thread ct.thread_id ct else latest_by_thread

def live (k : Known) : Listed := ⟨k.record.run_id, lit k.record.status.value, .float k.created_at⟩

def restored (item : PyStr × Checkpoint) : Listed :=
  ⟨item.1, restored_status item.2.channel_values, .str item.2.ts⟩

/-- `list_runs`, newest first. -/
def list_runs [Unicode] (known : List Known) (checkpoints : List Checkpoint) : List Listed :=
  let known_ids := known.map (·.record.run_id)
  let latest_by_thread := checkpoints.foldl (keep_latest known_ids) []
  let results := known.map live ++ latest_by_thread.map restored
  results.mergeSort fun a b => ¬str a.created_at < str b.created_at

/-! ## The latest checkpoint of a thread -/

/-- `c` is later than every other checkpoint of its thread. -/
structure Latest (checkpoints : List Checkpoint) (c : Checkpoint) : Prop where
  mem : c ∈ checkpoints
  later : ∀ c' ∈ checkpoints, c'.thread_id = c.thread_id → c' = c ∨ c'.ts < c.ts

/-- What the loop knows of one thread. -/
def newer (existing : Option Checkpoint) (ct : Checkpoint) : Option Checkpoint :=
  match existing with
  | none => some ct
  | some e => if e.ts < ct.ts then some ct else some e

theorem lookup_keep_latest (latest : List (PyStr × Checkpoint)) (ct : Checkpoint) (t : PyStr) :
    (keep_latest [] latest ct).lookup t =
      if t = ct.thread_id then newer (latest.lookup t) ct else latest.lookup t := by
  unfold keep_latest
  rw [if_neg List.not_mem_nil]
  by_cases ht : t = ct.thread_id
  · subst ht
    rw [if_pos rfl]
    cases hl : latest.lookup ct.thread_id with
    | none =>
      rw [newer, lookup_setItem, if_pos rfl]
    | some e =>
      by_cases hlt : e.ts < ct.ts
      · simp only [newer, hlt, if_true, lookup_setItem]
      · simp only [newer, hlt, if_false, hl]
  · rw [if_neg ht]
    split
    · rw [lookup_setItem, if_neg ht]
    · split
      · rw [lookup_setItem, if_neg ht]
      · rfl

theorem nodup_keep_latest {latest : List (PyStr × Checkpoint)} (h : (latest.map Prod.fst).Nodup)
    (ct : Checkpoint) : ((keep_latest [] latest ct).map Prod.fst).Nodup := by
  unfold keep_latest
  rw [if_neg List.not_mem_nil]
  split
  · exact nodup_setItem h _ _
  · split
    · exact nodup_setItem h _ _
    · exact h

/-- What the loop has found of the thread of `c` in `seen`. -/
structure Found (c : Checkpoint) (seen : List Checkpoint) (found : Option Checkpoint) : Prop where
  missing : found = none → ∀ ct ∈ seen, ct.thread_id ≠ c.thread_id
  kept : ∀ e, found = some e → e ∈ seen ∧ e.thread_id = c.thread_id ∧ (c ∈ seen → e = c)

theorem found_newer {checkpoints seen : List Checkpoint} {c ct : Checkpoint}
    {found : Option Checkpoint} (hlatest : Latest checkpoints c) (h : Found c seen found)
    (hsub : ∀ e ∈ seen, e ∈ checkpoints) (hct : ct ∈ checkpoints)
    (ht : ct.thread_id = c.thread_id) : Found c (seen ++ [ct]) (newer found ct) := by
  have hlast : ct ∈ seen ++ [ct] := by simp
  cases found with
  | none =>
    have hnone := h.missing rfl
    refine ⟨by simp [newer], ?_⟩
    intro e he
    obtain rfl : ct = e := by simpa [newer] using he
    refine ⟨hlast, ht, ?_⟩
    intro hc
    rcases List.mem_append.mp hc with hc | hc
    · exact absurd rfl (hnone c hc)
    · exact (List.mem_singleton.mp hc).symm
  | some e =>
    obtain ⟨hmem, hthread, hsame⟩ := h.kept e rfl
    by_cases hlt : e.ts < ct.ts
    · have hnew : newer (some e) ct = some ct := if_pos hlt
      rw [hnew]
      refine ⟨by simp, ?_⟩
      intro e' he'
      obtain rfl : ct = e' := Option.some.inj he'
      refine ⟨hlast, ht, ?_⟩
      intro hc
      rcases List.mem_append.mp hc with hc | hc
      · -- the latest one would be earlier than `ct`
        rw [hsame hc] at hlt
        rcases hlatest.later ct hct ht with heq | hlt'
        · exact heq
        · exact absurd hlt' (List.lt_asymm hlt)
      · exact (List.mem_singleton.mp hc).symm
    · have hold : newer (some e) ct = some e := if_neg hlt
      rw [hold]
      refine ⟨by simp, ?_⟩
      intro e' he'
      obtain rfl : e = e' := Option.some.inj he'
      refine ⟨List.mem_append_left _ hmem, hthread, ?_⟩
      intro hc
      rcases List.mem_append.mp hc with hc | hc
      · exact hsame hc
      · rw [← List.mem_singleton.mp hc] at hlt
        rcases hlatest.later e (hsub e hmem) hthread with heq | hlt'
        · exact heq
        · exact absurd hlt' hlt

/-- The loop finds the latest checkpoint, in whatever order they come. -/
theorem lookup_latest {checkpoints : List Checkpoint} {c : Checkpoint} (h : Latest checkpoints c) :
    (checkpoints.foldl (keep_latest []) []).lookup c.thread_id = some c := by
  have key : ∀ seen, (∀ e ∈ seen, e ∈ checkpoints) →
      Found c seen ((seen.foldl (keep_latest []) []).lookup c.thread_id) := by
    intro seen
    induction seen using List.reverseRecOn with
    | nil =>
      intro _
      exact ⟨by simp, by simp⟩
    | append_singleton seen ct ih =>
      intro hsub
      have hseen : ∀ e ∈ seen, e ∈ checkpoints := fun e he => hsub e (List.mem_append_left _ he)
      have ih := ih hseen
      rw [List.foldl_append, List.foldl_cons, List.foldl_nil, lookup_keep_latest]
      by_cases ht : c.thread_id = ct.thread_id
      · rw [if_pos ht]
        exact found_newer h ih hseen (hsub ct (by simp)) ht.symm
      · rw [if_neg ht]
        -- the checkpoint of another run does not touch the thread of `c`
        have hne : c ≠ ct := fun heq => ht (by rw [heq])
        constructor
        · intro hnone e he
          rcases List.mem_append.mp he with he | he
          · exact ih.missing hnone e he
          · rw [List.mem_singleton.mp he]
            exact Ne.symm ht
        · intro e he
          obtain ⟨hmem, hthread, hsame⟩ := ih.kept e he
          refine ⟨List.mem_append_left _ hmem, hthread, ?_⟩
          intro hc
          rcases List.mem_append.mp hc with hc | hc
          · exact hsame hc
          · exact absurd (List.mem_singleton.mp hc) hne
  have hfound := key checkpoints fun e he => he
  cases hlookup : (checkpoints.foldl (keep_latest []) []).lookup c.thread_id with
  | none => exact absurd rfl (hfound.missing hlookup c h.mem)
  | some e => rw [(hfound.kept e hlookup).2.2 h.mem]

/-- In a fresh process a run is listed once, with the status of its latest
    checkpoint. -/
theorem listed_once [Unicode] {checkpoints : List Checkpoint} {c : Checkpoint}
    (h : Latest checkpoints c) :
    ((list_runs [] checkpoints).filter (·.run_id = c.thread_id)).map (·.status) =
      [restored_status c.channel_values] := by
  have hnodup : ((checkpoints.foldl (keep_latest []) []).map Prod.fst).Nodup := by
    have key : ∀ (cs : List Checkpoint) (latest : List (PyStr × Checkpoint)),
        (latest.map Prod.fst).Nodup → ((cs.foldl (keep_latest []) latest).map Prod.fst).Nodup := by
      intro cs
      induction cs with
      | nil => exact fun _ hl => hl
      | cons ct cs ih => exact fun latest hl => ih _ (nodup_keep_latest hl ct)
    exact key checkpoints [] List.nodup_nil
  have hitem := filter_key hnodup (lookup_latest h)
  have hrows : ((checkpoints.foldl (keep_latest []) []).map restored).filter
      (·.run_id = c.thread_id) = [restored (c.thread_id, c)] := by
    rw [List.filter_map]
    show ((checkpoints.foldl (keep_latest []) []).filter (·.1 = c.thread_id)).map restored = _
    rw [hitem]
    rfl
  have hperm := (List.mergeSort_perm ((checkpoints.foldl (keep_latest []) []).map restored)
    fun a b => ¬str a.created_at < str b.created_at).filter (·.run_id = c.thread_id)
  rw [hrows] at hperm
  have hlist := List.perm_singleton.mp hperm
  show (((((checkpoints.foldl (keep_latest []) []).map restored).mergeSort _).filter _).map _) = _
  rw [hlist]
  rfl

/-! ## The status a run ends with -/

/-- The ticket status that the last snapshot shows. -/
def Ending.ticket_status : Ending → Option PyVal
  | .astream_raised _ | .aget_state_raised _ => none
  | .snapshot values => some ((values.getD []).get "ticket_status")

/-- The status `drive_run` gives a run with this ending. -/
def Ending.status (ending : Ending) : RunStatusLiteral :=
  match ending.ticket_status with
  | none => .failed
  | some v => if pyEq v ESCALATED then .escalated else .completed

section
variable [Unicode] {now : Nat → PyStr}

theorem drive_graph_status (run : GraphRun) (r : RunRecord) :
    (drive_graph now run).wp (fun res r' _ => match res with
      | .error _ => run.ending.status = .failed
      | .ok () => r'.status = run.ending.status) r := by
  rw [drive_graph, Prog.wp_bind]
  apply Prog.wp_mono (drive_updates_spec run.updates.flatten r)
  intro res r₁ _ h
  obtain ⟨hres, -⟩ := h
  rw [hres, Prog.andThen_ok]
  cases hend : run.ending with
  | astream_raised exc => exact rfl
  | aget_state_raised exc => exact rfl
  | snapshot values =>
    simp only [set_status, Prog.wp_bind, Prog.wp_update, Prog.andThen_ok]
    apply wp_emit_event
    intro _ r₂ _ _ hstatus
    exact hstatus

/-- **How a run is classified when it ends**: by the snapshot where there is
    one, as failed where there is none. -/
theorem drive_run_status (graph : Dict → PyStr → GraphRun) (r : RunRecord) :
    (drive_run now graph r).world.status =
      (graph (build_initial_state r.run_id r.raw_request) r.run_id).ending.status := by
  have hwp : (drive_run now graph).wp (fun _ r' _ => r'.status =
      (graph (build_initial_state r.run_id r.raw_request) r.run_id).ending.status) r := by
    simp only [drive_run, set_status, Prog.wp_bind, Prog.wp_update, Prog.andThen_ok]
    apply wp_emit_event
    intro _ r₁ _ _ _
    simp only [Prog.andThen_ok, Prog.wp_bind, Prog.wp_attempt]
    apply Prog.wp_mono (drive_graph_status _ r₁)
    intro res r₂ _ hres
    rw [Prog.andThen_ok]
    cases res with
    | error exc =>
      simp only [Prog.wp_bind, Prog.wp_update, Prog.andThen_ok]
      apply wp_emit_event
      intro _ r₃ _ _ hstatus
      exact hstatus.trans hres.symm
    | ok _ => exact hres
  exact hwp

/-! ## Before and after a restart -/

/-- What nodes returned, and the superstep each belongs to. -/
abbrev Steps := List (List (PyStr × AgentState))

/-- The state after the last completed node. -/
def state_after (s : AgentState) (steps : Steps) : AgentState :=
  steps.flatten.foldl (fun s u => s.update u.2) s

/-- How a run can end. -/
inductive Outcome where
  | completed
  /-- An exception out of `astream`, after the nodes that completed. -/
  | astream_raised (exc : PyExc)
  | aget_state_raised (exc : PyExc)

/-- The ending the driver sees, for the state the checkpointer holds. -/
def Outcome.ending (o : Outcome) (s : AgentState) : Ending :=
  match o with
  | .completed => .snapshot (some s.toDict)
  | .astream_raised exc => .astream_raised exc
  | .aget_state_raised exc => .aget_state_raised exc

/-- A graph whose nodes return `steps` and whose checkpointer holds the state
    after them. -/
def checkpointed (steps : Steps) (o : Outcome) : Dict → PyStr → GraphRun :=
  fun values _ => {
    updates := steps.map fun step => step.map fun (node, δ) => (node, raw_delta δ)
    ending := o.ending (state_after (input_state values) steps) }

/-- The status of a run that completed with this state. -/
def completed_status (s : AgentState) : RunStatusLiteral :=
  if s.ticket_status = some .ESCALATED then .escalated else .completed

section completed
variable (s : AgentState)

omit [Unicode] in
theorem get_ticket_status :
    s.toDict.get "ticket_status" = (s.ticket_status.map TicketStatus.toPy).getD .none := by
  rw [Dict.get, AgentState.toDict_ticket_status]

omit [Unicode] in
theorem ending_completed : (Outcome.completed.ending s).status = completed_status s := by
  show (if pyEq (s.toDict.get "ticket_status") ESCALATED then _ else _) = _
  rw [get_ticket_status, completed_status]
  cases s.ticket_status with
  | none => rfl
  | some t => cases t <;> rfl

omit [Unicode] in
/-- The checkpoint tells the same, once there is a ticket status. -/
theorem restored_ticket_status : restored_status s.toDict =
    lit (if s.ticket_status = none then "unknown" else (completed_status s).value) := by
  unfold restored_status
  rw [get_ticket_status, completed_status]
  cases s.ticket_status with
  | none => rfl
  | some t => cases t <;> rfl

omit [Unicode] in
theorem completed_status_value : (completed_status s).value ∈ ["escalated", "completed"] := by
  unfold completed_status
  split
  · exact List.mem_cons_self
  · exact List.mem_cons_of_mem _ List.mem_cons_self

end completed

/-- **An outcome survives a restart** exactly if the run did not fail and
    left a ticket status: a fresh process then lists the run once, with the
    status its record had. -/
theorem outcome_survives_iff (now : Nat → PyStr) (run_id raw_request : PyStr) (steps : Steps)
    (o : Outcome) (checkpoints : List Checkpoint) (c : Checkpoint) (hlatest : Latest checkpoints c)
    (hid : c.thread_id = run_id)
    (hvalues : c.channel_values =
      (state_after (input_state (build_initial_state run_id raw_request)) steps).toDict) :
    ((list_runs [] checkpoints).filter (·.run_id = run_id)).map (·.status) =
        [lit (drive_run now (checkpointed steps o) (RunRecord.new run_id raw_request)).world.status.value]
      ↔ o = .completed ∧
        (state_after (input_state (build_initial_state run_id raw_request)) steps).ticket_status ≠
          none := by
  rw [← hid, listed_once hlatest, hvalues, drive_run_status, hid]
  show [restored_status (state_after (input_state (build_initial_state run_id raw_request))
      steps).toDict] = [lit (Outcome.ending o (state_after (input_state (build_initial_state run_id
      raw_request)) steps)).status.value] ↔ _
  generalize state_after (input_state (build_initial_state run_id raw_request)) steps = s
  rw [List.singleton_inj, restored_ticket_status, lit_inj]
  have hvalue := completed_status_value s
  -- a run that failed is `failed` in its record, and never in a checkpoint
  have hfailed : (if s.ticket_status = none then "unknown" else (completed_status s).value) ≠
      "failed" := by
    split
    · decide
    · intro heq
      rw [heq] at hvalue
      exact absurd hvalue (by decide)
  cases o with
  | astream_raised exc | aget_state_raised exc =>
    constructor
    · intro heq
      exact absurd heq hfailed
    · intro h
      cases h.1
  | completed =>
    rw [ending_completed]
    by_cases hnone : s.ticket_status = none
    · rw [if_pos hnone]
      constructor
      · intro heq
        rw [← heq] at hvalue
        exact absurd hvalue (by decide)
      · intro h
        exact absurd hnone h.2
    · rw [if_neg hnone]
      exact ⟨fun _ => ⟨rfl, hnone⟩, fun _ => rfl⟩

end

section small
attribute [local instance] Unicode.ascii

/-- The executor's checks passed, and the next node was about to run. -/
def one_pass : Steps := [[(lit "executor", { ticket_status := some .LOCAL_PASS })]]

/-- What the checkpointer holds then. -/
def one_checkpoint : Checkpoint where
  thread_id := lit "r"
  ts := lit "2026-01-01T00:00:00"
  channel_values := (state_after (input_state (build_initial_state (lit "r") (lit "x"))) one_pass).toDict

theorem one_checkpoint_latest : Latest [one_checkpoint] one_checkpoint :=
  ⟨List.mem_singleton_self _, fun _ h _ => Or.inl (List.mem_singleton.mp h)⟩

/-- The checkpointer also holds where the run started, and a later checkpoint
    of another run. -/
def three_checkpoints : List Checkpoint :=
  [{ one_checkpoint with
      ts := lit "2025-12-31T23:59:59"
      channel_values := (input_state (build_initial_state (lit "r") (lit "x"))).toDict },
    { one_checkpoint with thread_id := lit "s", ts := lit "2026-01-02T00:00:00" },
    one_checkpoint]

theorem three_checkpoints_latest : Latest three_checkpoints one_checkpoint where
  mem := by simp [three_checkpoints]
  later := by
    intro c hc hid
    simp only [three_checkpoints, List.mem_cons, List.not_mem_nil, or_false] at hc
    obtain rfl | rfl | rfl := hc
    · exact .inr (by decide)
    · exact absurd hid (by decide)
    · exact .inl rfl

/-- The run that completes there is listed as it was: not as it started, and
    not as the other run. -/
theorem outcome_survives_iff_completed :
    ((list_runs [] three_checkpoints).filter (·.run_id = lit "r")).map (·.status) =
      [lit (drive_run (fun _ => []) (checkpointed one_pass .completed)
        (RunRecord.new (lit "r") (lit "x"))).world.status.value] :=
  (outcome_survives_iff (fun _ => []) (lit "r") (lit "x") one_pass .completed three_checkpoints
    one_checkpoint three_checkpoints_latest rfl rfl).mpr ⟨rfl, by decide⟩

/-- The run that fails there is listed as completed. -/
theorem failure_does_not_survive :
    ((list_runs [] [one_checkpoint]).filter (·.run_id = lit "r")).map (·.status) ≠
      [lit (drive_run (fun _ => []) (checkpointed one_pass (.astream_raised ⟨.RuntimeError, []⟩))
        (RunRecord.new (lit "r") (lit "x"))).world.status.value] := by
  have hlisted := listed_once one_checkpoint_latest
  have hcompleted : restored_status one_checkpoint.channel_values = lit "completed" := by decide
  rw [hcompleted] at hlisted
  have hid : one_checkpoint.thread_id = lit "r" := rfl
  rw [← hid, hlisted, drive_run_status]
  decide

end small

end Syndicate.Server
