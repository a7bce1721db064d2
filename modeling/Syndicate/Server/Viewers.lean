import Syndicate.Server.Site

/-! # The server, seen from one run

    A segment may emit many envelopes, and it wakes the viewers of its run
    once.  To these it is the same as emitting the envelopes one by one: from
    the request on, the server is a `Stream`. -/

namespace Syndicate.Server.Site

open Py Framework

/-- The stream shows what the viewers of the run see. -/
structure Shows (run_id : PyStr) (site : Site) (s : Stream) : Prop where
  record : ∃ record, site.app.registry.get run_id = some record ∧ record.log = s.record.log
  conns : site.viewers run_id = s.conns

/-- Two streams that show the same record, and have not filled the backlog,
    have emitted the same. -/
theorem Shows.emitted_unique {run_id : PyStr} {site : Site} {s t : Stream} (hs : Shows run_id site s)
    (ht : Shows run_id site t) (hlog : Logged s) (hlog' : Logged t)
    (hroom : t.emitted.length ≤ BACKLOG_MAXLEN) : s.emitted = t.emitted := by
  obtain ⟨record, hget, hrecord⟩ := hs.record
  obtain ⟨record', hget', hrecord'⟩ := ht.record
  obtain rfl := Option.some.inj (hget.symm.trans hget')
  have hsame : s.record.log = t.record.log := hrecord.symm.trans hrecord'
  have hlength : s.emitted.length = t.emitted.length := by
    rw [← hlog.counter, ← hlog'.counter]
    exact congrArg Log.seq_counter hsame
  have hitems : s.record.backlog.items = t.record.backlog.items :=
    congrArg (fun l : Log => l.backlog.items) hsame
  rw [hlog.backlog, hlog'.backlog, lastN, lastN, hlength, Nat.sub_eq_zero_of_le hroom] at hitems
  exact hitems

theorem foldl_new_event (es : List Envelope) (l : Log) :
    (es.foldl Log.emit_next l).new_event = (l.new_event || !es.isEmpty) := by
  induction es generalizing l with
  | nil => simp
  | cons e es ih =>
    rw [List.foldl_cons, ih]
    simp [Log.emit_next]

/-- Emissions with nothing between them wake whoever waits at the first one. -/
theorem play_emits (es : List Envelope) (s : Stream) :
    (play Server.step s (es.map .emit)).record.log = es.foldl Log.emit_next s.record.log ∧
    (play Server.step s (es.map .emit)).conns =
      if !s.record.new_event && !es.isEmpty then s.conns.map Conn.wake else s.conns := by
  induction es generalizing s with
  | nil => exact ⟨rfl, by simp [play]⟩
  | cons e es ih =>
    obtain ⟨hlog, hconns⟩ := ih (Server.step s (.emit e))
    rw [List.map_cons, play_cons]
    constructor
    · rw [hlog, List.foldl_cons, ← log_emit_next, Server.step]
    · -- after the first one the event is set
      have hset : (Server.step s (.emit e)).record.new_event = true := rfl
      have hfirst : (Server.step s (.emit e)).conns =
          if s.record.new_event then s.conns else s.conns.map Conn.wake := rfl
      rw [hset, hfirst] at hconns
      rw [hconns]
      cases s.record.new_event <;> simp

/-- A viewer's act reads and writes the log and the connections only. -/
theorem viewer_log {s t : Stream} (hlog : s.record.log = t.record.log) (hconns : s.conns = t.conns)
    (v : Viewing) : (Server.step s v.act).record.log = (Server.step t v.act).record.log ∧
      (Server.step s v.act).conns = (Server.step t v.act).conns := by
  have hbacklog : s.record.backlog = t.record.backlog := congrArg Log.backlog hlog
  have hcounter : s.record.seq_counter = t.record.seq_counter := congrArg Log.seq_counter hlog
  cases v with
  | stream after | timeout i | close i =>
    refine ⟨hlog, ?_⟩
    simp only [Viewing.act, Server.step, hconns]
  | resume i =>
    have hclears : s.clears i = t.clears i := by rw [Stream.clears, Stream.clears, hbacklog, hconns]
    constructor
    · simp only [Viewing.act, Server.step, hclears]
      split
      · simp only [RunRecord.log, hbacklog, hcounter]
      · exact hlog
    · simp only [Viewing.act, Server.step, hbacklog, hconns]

section step
variable [Unicode] (now : PyStr → Nat → PyStr) (run_id : PyStr)

/-- What an act is to the viewers of a run. -/
def seen (site : Site) : Act → List Server.Act
  | .app a => if a.run_id = run_id then (site.app.emitted now a).map .emit else []
  | .viewer k v => if k = run_id then [v.act] else []

/-- The act is no request that draws this id. -/
def Act.keeps (run_id : PyStr) : Act → Prop
  | .app a => a.drawn ≠ some run_id
  | .viewer _ _ => True

/-- An act of another run is not seen. -/
theorem get_step_other {app : App} (hrecorded : app.Recorded) {a : App.Act} (hother : a.run_id ≠ run_id) :
    (app.step now a).registry.get run_id = app.registry.get run_id :=
  ((App.step_stepped now hrecorded a).agree hother).1

theorem shows_step {site : Site} {s : Stream} (hrecorded : site.app.Recorded) {a : Act}
    (ha : a.keeps run_id) (h : Shows run_id site s) :
    Shows run_id (step now site a) (play Server.step s (seen now run_id site a)) := by
  obtain ⟨⟨record, hget, hlog⟩, hconns⟩ := h
  cases a with
  | app a =>
    by_cases hown : a.run_id = run_id
    · subst hown
      rw [seen, if_pos rfl]
      have hpost : a.drawn = none := by
        cases a with
        | post run_id raw_request => exact absurd rfl ha
        | start _ | update _ _ | exhausted _ | snapshot _ _ | raised _ _ | cancelled _ => rfl
      obtain ⟨record', hget', hlog'⟩ := App.log_step now site.app hpost hget
      obtain ⟨hplay, hwoken⟩ := play_emits (site.app.emitted now a) s
      have hshown : record'.log = (play Server.step s ((site.app.emitted now a).map .emit)).record.log := by
        rw [hplay, hlog', hlog]
      -- the event was clear, and is set
      have hset : (event_set (site.app.step now a) a.run_id && !event_set site.app a.run_id) =
          (!s.record.new_event && !(site.app.emitted now a).isEmpty) := by
        have hbefore : record.new_event = s.record.new_event := congrArg Log.new_event hlog
        have hafter : record'.new_event = (record.new_event || !(site.app.emitted now a).isEmpty) := by
          have hfold := foldl_new_event (site.app.emitted now a) record.log
          rw [← hlog'] at hfold
          exact hfold
        rw [event_set, event_set, hget, hget', Option.any_some, Option.any_some, hafter, ← hbefore]
        cases record.new_event <;> simp
      refine ⟨⟨record', hget', hshown⟩, ?_⟩
      rw [hwoken, step]
      simp only [hset]
      by_cases hwakes : (!s.record.new_event && !(site.app.emitted now a).isEmpty) = true
      · rw [if_pos hwakes, if_pos hwakes, Function.update_self, hconns]
      · rw [if_neg hwakes, if_neg hwakes]
        exact hconns
    · rw [seen, if_neg hown]
      refine ⟨⟨record, ?_, hlog⟩, ?_⟩
      · rw [← hget]
        exact get_step_other now run_id hrecorded hown
      · refine Eq.trans ?_ hconns
        rw [step]
        dsimp only
        split
        · exact Function.update_of_ne (Ne.symm hown) _ _
        · rfl
  | viewer k v =>
    by_cases hown : k = run_id
    · subst hown
      rw [seen, if_pos rfl]
      obtain ⟨hlog', hconns'⟩ :=
        viewer_log (s := view record (site.viewers k)) (t := s) hlog hconns v
      have hstep : step now site (.viewer k v) = site.viewer_step k v := rfl
      rw [hstep, viewer_step, hget]
      refine ⟨⟨_, ?_, hlog'⟩, ?_⟩
      · show (site.app.registry.write k _).get k = _
        rw [RunRegistry.get_write, if_pos rfl]
      · show Function.update site.viewers k _ k = _
        rw [Function.update_self]
        exact hconns'
    · rw [seen, if_neg hown]
      have hne : run_id ≠ k := Ne.symm hown
      have hstep : step now site (.viewer k v) = site.viewer_step k v := rfl
      rw [hstep, viewer_step]
      cases hfound : site.app.registry.get k with
      | none => exact ⟨⟨record, hget, hlog⟩, hconns⟩
      | some _ =>
        refine ⟨⟨record, ?_, hlog⟩, ?_⟩
        · show (site.app.registry.write k _).get run_id = _
          rw [RunRegistry.get_write, if_neg hne]
          exact hget
        · show Function.update site.viewers k _ run_id = _
          rw [Function.update_of_ne hne]
          exact hconns

/-- A record once made stays. -/
theorem get_of_step_none {app : App} {a : App.Act} {k : PyStr}
    (h : (app.step now a).registry.get k = none) : app.registry.get k = none := by
  by_cases hpost : a.drawn = none
  · rw [App.get_step now app hpost] at h
    by_cases hk : k = a.run_id
    · rw [if_pos hk] at h
      rw [hk]
      exact Option.map_eq_none_iff.mp h
    · rwa [if_neg hk] at h
  · cases a with
    | post run_id raw_request =>
      cases hactive : app.registry.active_run_id with
      | some r => rwa [post_busy now hactive] at h
      | none =>
        rw [post_free now hactive, RunRegistry.get, lookup_setItem] at h
        by_cases hk : k = run_id
        · rw [if_pos hk] at h
          cases h
        · rwa [if_neg hk] at h
    | start _ | update _ _ | exhausted _ | snapshot _ _ | raised _ _ | cancelled _ =>
      exact absurd rfl hpost

/-- Nobody views a run that is not there. -/
theorem viewers_of_none (acts : List Act) (k : PyStr)
    (h : (serve now acts).app.registry.get k = none) : (serve now acts).viewers k = [] := by
  revert k
  apply play_keeps (P := fun site : Site => ∀ k, site.app.registry.get k = none → site.viewers k = [])
  · intro k _
    rfl
  · intro site a hP k hnone
    cases a with
    | app a =>
      have hnil := hP k (get_of_step_none now hnone)
      rw [step]
      dsimp only
      split
      · by_cases hk : k = a.run_id
        · rw [hk] at hnil
          rw [hk, Function.update_self, hnil]
          rfl
        · rw [Function.update_of_ne hk, hnil]
      · exact hnil
    | viewer run_id v =>
      have hstep : step now site (.viewer run_id v) = site.viewer_step run_id v := rfl
      rw [hstep, viewer_step] at hnone ⊢
      cases hget : site.app.registry.get run_id with
      | none =>
        rw [hget] at hnone
        exact hP k hnone
      | some record =>
        rw [hget] at hnone
        have hwritten : (site.app.registry.write run_id
            (Server.step (view record (site.viewers run_id)) v.act).record).get k = none := hnone
        rw [RunRegistry.get_write] at hwritten
        by_cases hk : k = run_id
        · rw [if_pos hk] at hwritten
          cases hwritten
        · rw [if_neg hk] at hwritten
          show Function.update site.viewers run_id _ k = []
          rw [Function.update_of_ne hk]
          exact hP k hwritten

/-- The stream shows a state that the server can be in. -/
def ShowsServed (site : Site) (s : Stream) : Prop :=
  (∃ acts, site = serve now acts) ∧ Shows run_id site s

theorem shows_served_step {site : Site} {s : Stream} {a : Act} (ha : a.keeps run_id)
    (h : ShowsServed now run_id site s) :
    ShowsServed now run_id (step now site a) (play Server.step s (seen now run_id site a)) := by
  obtain ⟨⟨acts, rfl⟩, hshows⟩ := h
  refine ⟨⟨acts ++ [a], play_snoc.symm⟩, ?_⟩
  exact shows_step now run_id (serve_inv now acts).recorded ha hshows

theorem shows_play {pre acts : List Act} {s : Stream} (hkeeps : ∀ a ∈ acts, a.keeps run_id)
    (h : Shows run_id (serve now pre) s) : Shows run_id (play (step now) (serve now pre) acts)
      (play Server.step s (translated (step now) (seen now run_id) (serve now pre) acts)) := by
  have hserved : ShowsServed now run_id (serve now pre) s := ⟨⟨pre, rfl⟩, h⟩
  have hplayed := play_simulates (fun site s a ha hR => shows_served_step now run_id (hkeeps a ha) hR) hserved
  exact hplayed.2

/-- The acts of the run's viewers and of its driver, from the request on. -/
def stream_acts (pre : List Act) (raw_request : PyStr) (acts : List Act) : List Server.Act :=
  translated (step now) (seen now run_id) (step now (serve now pre) (.app (.post run_id raw_request))) acts

/-- **Seen from one run**: from the request on, the server is a `Stream` to
    the viewers of a run, whatever the other runs and their viewers do. -/
theorem shows_serve {pre acts : List Act} {run_id raw_request : PyStr}
    (hok : ((serve now pre).app.create_run run_id raw_request).1 = .ok run_id)
    (hnew : (serve now pre).app.registry.get run_id = none) (hkeeps : ∀ a ∈ acts, a.keeps run_id) :
    Shows run_id (serve now (pre ++ .app (.post run_id raw_request) :: acts))
      (Server.serve run_id raw_request (stream_acts now run_id pre raw_request acts)) := by
  have hfree := accepted_iff.mp hok
  have hserve : serve now (pre ++ .app (.post run_id raw_request) :: acts) =
      play (step now) (serve now (pre ++ [.app (.post run_id raw_request)])) acts := by
    rw [serve, serve, ← play_append, List.append_assoc, List.singleton_append]
  have hposted : step now (serve now pre) (.app (.post run_id raw_request)) =
      serve now (pre ++ [.app (.post run_id raw_request)]) := play_snoc.symm
  rw [hserve, stream_acts, hposted]
  apply shows_play now run_id hkeeps
  rw [← hposted]
  -- the record is new, and its event clear
  have hpost : ((serve now pre).app.step now (.post run_id raw_request)).registry.get run_id =
      some (RunRecord.new run_id raw_request) := by
    rw [post_free now hfree, RunRegistry.get, lookup_setItem, if_pos rfl]
  refine ⟨⟨_, hpost, rfl⟩, ?_⟩
  have hclear : (event_set ((serve now pre).app.step now (.post run_id raw_request)) run_id &&
      !event_set (serve now pre).app run_id) = false := by
    rw [event_set, hpost]
    rfl
  have hviewers : (step now (serve now pre) (.app (.post run_id raw_request))).viewers =
      (serve now pre).viewers := by
    rw [step]
    dsimp only
    rw [App.Act.run_id, hclear]
    rfl
  rw [hviewers]
  exact viewers_of_none now pre run_id hnew

/-! ## Whichever run it is -/

/-- The ids that the requests of a schedule drew. -/
def ids (acts : List Act) : List PyStr := (acts.flatMap Act.own).filterMap App.Act.drawn

omit [Unicode] in
theorem ids_append (acts acts' : List Act) : ids (acts ++ acts') = ids acts ++ ids acts' := by
  rw [ids, List.flatMap_append, List.filterMap_append]
  rfl

/-- A run comes to be known by a request that finds the place free. -/
theorem known_step {site : Site} {a : Act} {k : PyStr}
    (h : ((step now site a).app.registry.get k).isSome) : (site.app.registry.get k).isSome ∨
      ∃ raw_request, a = .app (.post k raw_request) ∧ site.app.registry.active_run_id = none := by
  cases a with
  | app a =>
    have happ : ((site.app.step now a).registry.get k).isSome := h
    by_cases hdrawn : a.drawn = none
    · rw [App.get_step now site.app hdrawn] at happ
      by_cases hk : k = a.run_id
      · rw [if_pos hk, Option.isSome_map, ← hk] at happ
        exact Or.inl happ
      · rw [if_neg hk] at happ
        exact Or.inl happ
    · obtain ⟨run_id, raw_request, rfl⟩ : ∃ run_id raw_request, a = .post run_id raw_request := by
        cases a with
        | post run_id raw_request => exact ⟨run_id, raw_request, rfl⟩
        | start _ | update _ _ | exhausted _ | snapshot _ _ | raised _ _ | cancelled _ =>
          exact absurd rfl hdrawn
      cases hactive : site.app.registry.active_run_id with
      | some r =>
        rw [post_busy now hactive] at happ
        exact Or.inl happ
      | none =>
        rw [post_free now hactive, RunRegistry.get, lookup_setItem] at happ
        by_cases hk : k = run_id
        · exact Or.inr ⟨raw_request, by rw [hk], rfl⟩
        · rw [if_neg hk] at happ
          exact Or.inl happ
  | viewer run_id v =>
    left
    have hviewed : ((site.viewer_step run_id v).app.registry.get k).isSome := h
    rw [viewer_step] at hviewed
    cases hget : site.app.registry.get run_id with
    | none =>
      rw [hget] at hviewed
      exact hviewed
    | some record =>
      rw [hget] at hviewed
      have hwritten : ((site.app.registry.write run_id
          (Server.step (view record (site.viewers run_id)) v.act).record).get k).isSome := hviewed
      rw [RunRegistry.get_write] at hwritten
      by_cases hk : k = run_id
      · rw [hk, hget]
        rfl
      · rwa [if_neg hk] at hwritten

theorem id_of_known {acts : List Act} {k : PyStr}
    (h : ((serve now acts).app.registry.get k).isSome) : k ∈ ids acts := by
  induction acts using List.reverseRecOn with
  | nil => exact absurd h (by simp [serve, play, RunRegistry.get])
  | append_singleton acts a ih =>
    have hsnoc : serve now (acts ++ [a]) = step now (serve now acts) a := play_snoc
    rw [hsnoc] at h
    rw [ids_append, List.mem_append]
    rcases known_step now h with hknown | ⟨raw_request, rfl, -⟩
    · exact Or.inl (ih hknown)
    · exact Or.inr List.mem_cons_self

/-- The id of a run that is known is not drawn again. -/
theorem keeps_of_known {acts : List Act} {a : Act} {k : PyStr} (hids : (ids (acts ++ [a])).Nodup)
    (h : ((serve now acts).app.registry.get k).isSome) : a.keeps k := by
  cases a with
  | viewer _ _ => trivial
  | app a =>
    intro hdrawn
    rw [ids_append] at hids
    have hmem : k ∈ ids [.app a] := List.mem_filterMap.mpr ⟨a, List.mem_cons_self, hdrawn⟩
    exact (List.nodup_append.mp hids).2.2 k (id_of_known now h) k hmem rfl

/-- To the viewers of a run that is known the server is a stream. -/
theorem streamed {acts : List Act} (hids : (ids acts).Nodup) {k : PyStr}
    (h : ((serve now acts).app.registry.get k).isSome) :
    ∃ s, Shows k (serve now acts) s ∧ Logged s := by
  induction acts using List.reverseRecOn with
  | nil => exact absurd h (by simp [serve, play, RunRegistry.get])
  | append_singleton acts a ih =>
    have hsnoc : serve now (acts ++ [a]) = step now (serve now acts) a := play_snoc
    by_cases hknown : ((serve now acts).app.registry.get k).isSome
    · have hbefore : (ids acts).Nodup := by
        rw [ids_append] at hids
        exact (List.nodup_append.mp hids).1
      obtain ⟨s, hshows, hlog⟩ := ih hbefore hknown
      rw [hsnoc]
      refine ⟨_, shows_step now k (serve_inv now acts).recorded (keeps_of_known now hids hknown) hshows, ?_⟩
      exact play_keeps hlog (fun s a h => logged_step h a)
    · rw [hsnoc] at h
      rcases known_step now h with hyes | ⟨raw_request, rfl, hfree⟩
      · exact absurd hyes hknown
      · have hnew : (serve now acts).app.registry.get k = none := by simpa using hknown
        refine ⟨Server.serve k raw_request (stream_acts now k acts raw_request []), ?_, serve_logged _ _ _⟩
        exact shows_serve now (accepted_iff.mpr hfree) hnew fun a ha => absurd ha List.not_mem_nil

end step

end Syndicate.Server.Site
