import Syndicate.Server.App

/-! # One active run

    What the server promises its clients about the one place there is, at
    every await of every schedule of requests and tasks. -/

namespace Syndicate.Server.App

open Py Framework

section step
variable [Unicode] (now : PyStr → Nat → PyStr)

/-! ## What was accepted -/

/-- The schedule has a `POST` that the server answered with this run. -/
def Accepted (acts : List Act) (run_id raw_request : PyStr) : Prop :=
  ∃ pre, pre ++ [.post run_id raw_request] <+: acts ∧
    ((serve now pre).create_run run_id raw_request).1 = .ok run_id

theorem accepted_snoc {acts : List Act} {a : Act} {run_id raw_request : PyStr} :
    Accepted now (acts ++ [a]) run_id raw_request ↔
      Accepted now acts run_id raw_request ∨ a = .post run_id raw_request ∧
        ((serve now acts).create_run run_id raw_request).1 = .ok run_id := by
  constructor
  · intro ⟨pre, hpre, hok⟩
    rcases List.prefix_concat_iff.mp hpre with heq | hpre
    · obtain ⟨rfl, ha⟩ := List.append_inj' heq rfl
      exact Or.inr ⟨(List.singleton_inj.mp ha).symm, hok⟩
    · exact Or.inl ⟨pre, hpre, hok⟩
  · intro h
    rcases h with ⟨pre, hpre, hok⟩ | ⟨rfl, hok⟩
    · exact ⟨pre, hpre.trans (List.prefix_append acts [a]), hok⟩
    · exact ⟨acts, List.prefix_rfl, hok⟩

/-- An accepted run drew its id in the schedule. -/
theorem Accepted.drawn {acts : List Act} {run_id raw_request : PyStr}
    (h : Accepted now acts run_id raw_request) : run_id ∈ acts.filterMap Act.drawn := by
  obtain ⟨pre, hpre, -⟩ := h
  exact List.mem_filterMap.mpr ⟨.post run_id raw_request, hpre.subset (by simp), rfl⟩

/-- A run has a task exactly when it was accepted. -/
theorem known_iff_accepted (acts : List Act) (run_id : PyStr) :
    ((serve now acts).pc run_id).isSome ↔ ∃ raw_request, Accepted now acts run_id raw_request := by
  induction acts using List.reverseRecOn with
  | nil =>
    constructor
    · intro h
      cases h
    · intro ⟨_, pre, hpre, _⟩
      simp at hpre
  | append_singleton acts a ih =>
    have hst := step_stepped now (serve_inv now acts).recorded a
    -- a post that is answered is a run that is accepted
    have hpost : ∀ raw_request, a = .post run_id raw_request →
        ((serve now acts).create_run run_id raw_request).1 = .ok run_id →
        (((serve now acts).step now a).pc run_id).isSome := by
      intro raw_request ha hok
      subst ha
      rcases create_run_cases (serve now acts) run_id raw_request with ⟨hfree, -⟩ | ⟨r, -, hconflict⟩
      · simp [step, create_run, RunRegistry.try_start, hfree, pc, lookup_setItem]
      · rw [hconflict] at hok
        cases hok
    simp only [serve_snoc, accepted_snoc, exists_or]
    rw [← ih]
    have hkept : ((((serve now acts).step now a).pc run_id).isSome ↔
        ((serve now acts).pc run_id).isSome) →
        ((((serve now acts).step now a).pc run_id).isSome ↔ ((serve now acts).pc run_id).isSome ∨
          ∃ raw_request, a = .post run_id raw_request ∧
            ((serve now acts).create_run run_id raw_request).1 = .ok run_id) := by
      intro hiff
      constructor
      · exact fun h => Or.inl (hiff.mp h)
      · intro h
        rcases h with h | ⟨raw_request, ha, hok⟩
        · exact hiff.mpr h
        · exact hpost raw_request ha hok
    cases hst with
    | stays hsame => exact hkept (by rw [hsame])
    | accepted k raw_request ha hfree hmoves _ =>
      by_cases hk : run_id = k
      · subst hk
        rw [hmoves.pc run_id, if_pos rfl]
        refine ⟨fun _ => Or.inr ⟨raw_request, ha, ?_⟩, fun _ => rfl⟩
        simp [create_run, RunRegistry.try_start, hfree]
      · exact hkept (by rw [hmoves.pc run_id, if_neg hk])
    | moved k record record' p _ hrun _ _ hmoves _ _ => exact hkept (hmoves.known hrun)
    | ended k record record' _ hrun _ _ hmoves _ => exact hkept (hmoves.known hrun)

/-- The registry holds the run, under the request it was accepted with. -/
def Kept (app : App) (run_id raw_request : PyStr) : Prop :=
  ∃ record, app.registry.get run_id = some record ∧ record.run_id = run_id ∧
    record.raw_request = raw_request

omit [Unicode] in
/-- A move keeps what the registry holds, if it keeps the record's own. -/
theorem Kept.move {app app' : App} {run_id raw_request k : PyStr} {r r' : RunRecord} {pc : TaskPc}
    (h : app.Kept run_id raw_request) (hmoves : Moves app app' k r' pc)
    (hr : app.registry.get k = some r) (hid : r'.run_id = r.run_id)
    (hraw : r'.raw_request = r.raw_request) : app'.Kept run_id raw_request := by
  obtain ⟨record, hget, hown, hrequest⟩ := h
  by_cases hk : run_id = k
  · obtain rfl : record = r := Option.some.inj (hget.symm.trans (hk ▸ hr))
    refine ⟨r', ?_, hid.trans hown, hraw.trans hrequest⟩
    rw [hmoves.get run_id, if_pos hk]
  · refine ⟨record, ?_, hown, hrequest⟩
    rw [hmoves.get run_id, if_neg hk]
    exact hget

omit [Unicode] in
/-- No act but a `POST` of the same id replaces a record. -/
theorem Kept.step {app app' : App} {a : Act} {run_id raw_request : PyStr}
    (h : app.Kept run_id raw_request) (hst : Stepped app a app') (hnew : a.drawn ≠ some run_id) :
    app'.Kept run_id raw_request := by
  cases hst with
  | stays hsame =>
    rw [hsame]
    exact h
  | accepted k raw' ha _ hmoves _ =>
    have hne : run_id ≠ k := by
      intro heq
      apply hnew
      rw [ha, heq]
      rfl
    obtain ⟨record, hget, hown⟩ := h
    refine ⟨record, ?_, hown⟩
    rw [hmoves.get run_id, if_neg hne]
    exact hget
  | moved k r r' _ _ _ hr hruns hmoves _ _ => exact h.move hmoves hr hruns.run_id hruns.raw_request
  | ended k r r' _ _ hr hends hmoves _ => exact h.move hmoves hr hends.run_id hends.raw_request

/-- **Retention**: where no two `POST`s draw the same id, an accepted run is
    kept for good. -/
theorem accepted_kept {acts : List Act} (hids : (acts.filterMap Act.drawn).Nodup)
    {run_id raw_request : PyStr} (h : Accepted now acts run_id raw_request) :
    (serve now acts).Kept run_id raw_request := by
  induction acts using List.reverseRecOn with
  | nil =>
    obtain ⟨pre, hpre, -⟩ := h
    simp at hpre
  | append_singleton acts a ih =>
    rw [List.filterMap_append] at hids
    obtain ⟨hids', -, hfresh⟩ := List.nodup_append.mp hids
    rw [serve_snoc]
    rcases (accepted_snoc now).mp h with hold | ⟨rfl, hok⟩
    · refine (ih hids' hold).step (step_stepped now (serve_inv now acts).recorded a) ?_
      intro hdrawn
      exact hfresh run_id (Accepted.drawn now hold) run_id (by simp [hdrawn]) rfl
    · rcases create_run_cases (serve now acts) run_id raw_request with ⟨hfree, -⟩ | ⟨r, -, hconflict⟩
      · refine ⟨RunRecord.new run_id raw_request, ?_, rfl, rfl⟩
        simp [step, create_run, RunRegistry.try_start, hfree, RunRegistry.get, lookup_setItem]
      · rw [hconflict] at hok
        cases hok

/-! ## One active run -/

omit [Unicode] in
/-- An act of one run leaves the place with another that holds it. -/
theorem Stepped.holds {app app' : App} {a : Act} (hst : Stepped app a app') {r : PyStr}
    (hne : a.run_id ≠ r) (hactive : app.registry.active_run_id = some r) :
    app'.registry.active_run_id = some r := by
  cases hst with
  | stays hsame =>
    rw [hsame]
    exact hactive
  | accepted _ _ _ hfree _ _ =>
    rw [hfree] at hactive
    cases hactive
  | moved _ _ _ _ _ _ _ _ _ _ hsame => rw [hsame, hactive]
  | ended k _ _ ha _ _ _ _ hrelease =>
    have hother : ¬app.registry.active_run_id = some k := by
      rw [hactive]
      intro heq
      exact hne (ha.trans (Option.some.inj heq).symm)
    rw [hrelease, if_neg hother, hactive]

/-- **One active run**, whatever requests come in and however the tasks take
    turns and end: at most one run is unfinished, and it is the active one;
    a `409` changes nothing and names it; no other run gives its place
    back; accepted runs are kept; and who has seen a run end finds it no
    longer in the way. -/
theorem single_active_run (acts : List Act) (hids : (acts.filterMap Act.drawn).Nodup) :
    let app := serve now acts
    (∀ r r', app.Unfinished r → app.Unfinished r' → r = r') ∧
    (∀ r, app.registry.active_run_id = some r ↔
      (∃ raw_request, Accepted now acts r raw_request) ∧ app.pc r ≠ some .finished) ∧
    (∀ run_id raw_request shown app',
      app.create_run run_id raw_request = (.conflict shown, app') →
      app' = app ∧ ∃ r, shown = some r ∧ app.registry.active_run_id = some r) ∧
    (∀ a r, a.run_id ≠ r → app.registry.active_run_id = some r →
      (app.step now a).registry.active_run_id = some r) ∧
    (∀ run_id raw_request, Accepted now acts run_id raw_request → app.Kept run_id raw_request) ∧
    (∀ r record, app.registry.get r = some record →
      (∃ e ∈ record.backlog.items, e.kind.terminal = true) →
      app.registry.active_run_id ≠ some r) := by
  intro app
  have hinv : Inv app := serve_inv now acts
  refine ⟨?_, ?_, ?_, ?_, fun _ _ => accepted_kept now hids, ?_⟩
  · intro r r' hr hr'
    have heq := (hinv.active r).mpr hr
    rw [(hinv.active r').mpr hr'] at heq
    exact (Option.some.inj heq).symm
  · intro r
    rw [hinv.active r, ← known_iff_accepted now acts r]
    -- accepted runs are the known ones
    show (∃ pc, app.pc r = some pc ∧ pc ≠ .finished) ↔ (app.pc r).isSome ∧ app.pc r ≠ some .finished
    cases app.pc r with
    | none => simp
    | some pc => simp
  · intro run_id raw_request shown app' hconflict
    rcases create_run_cases app run_id raw_request with ⟨-, hok⟩ | ⟨r, hactive, heq⟩
    · rw [hconflict] at hok
      cases hok
    · rw [heq] at hconflict
      injection hconflict with hshown hsame
      injection hshown with hshown
      exact ⟨hsame.symm, r, hshown.symm, hactive⟩
  · intro a r hne hactive
    exact (step_stepped now hinv.recorded a).holds hne hactive
  · intro r record hget hterm hactive
    obtain ⟨pc, hpc, hne⟩ := (hinv.active r).mp hactive
    rw [hinv.terminal r record hget hterm] at hpc
    exact hne (Option.some.inj hpc).symm

end step

section small
attribute [local instance] Unicode.ascii

/-- Two clients post before the first run has started. -/
def two_clients : List Act :=
  [.post (lit "a") (lit "hello"), .post (lit "b") (lit "world"), .start (lit "a")]

/-- One `200` and one `409` that names the run of the other. -/
theorem single_active_run_two_clients :
    (serve (fun _ _ => []) two_clients).Kept (lit "a") (lit "hello") ∧
    (serve (fun _ _ => []) two_clients).registry.active_run_id = some (lit "a") ∧
    ((serve (fun _ _ => []) two_clients).create_run (lit "b") (lit "world")).1 =
      .conflict (some (lit "a")) := by
  have hone := single_active_run (fun _ _ => []) two_clients (by decide)
  have haccepted : Accepted (fun _ _ => []) two_clients (lit "a") (lit "hello") :=
    ⟨[], ⟨_, rfl⟩, rfl⟩
  have hactive : (serve (fun _ _ => []) two_clients).registry.active_run_id = some (lit "a") :=
    (hone.2.1 (lit "a")).mpr ⟨⟨_, haccepted⟩, by decide +kernel⟩
  refine ⟨hone.2.2.2.2.1 _ _ haccepted, hactive, ?_⟩
  rcases create_run_cases (serve (fun _ _ => []) two_clients) (lit "b") (lit "world") with
    ⟨hfree, -⟩ | ⟨r, heq, hconflict⟩
  · rw [hactive] at hfree
    cases hfree
  · rw [hconflict, ← heq, hactive]

end small

end Syndicate.Server.App
