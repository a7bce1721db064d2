import Syndicate.Runtime.Adapters
import Syndicate.Runtime.AgentHttp

/-! # The adapter and the mock

    The mock keys a file by its path, the adapter by what library and server
    make of the path in a URL.  The server's files mirror the mock's as long
    as every path names a file, different paths different ones, and every text
    can be encoded. -/

namespace Syndicate

open Py Http Framework

section
variable [Unicode]

/-- What a caller sees of an answer: the value, or the kind of exception. -/
def FileAnswer.outcome (a : FileAnswer) : Except ExcKind (Option PyStr) := a.mapError (·.kind)

/-- From `s₀` and from no files on, the two adapters return the same values
    and raise the same exceptions. -/
def Agree {S : Type} (http : Transport S) (s₀ : S) (calls : List FileCall) : Prop :=
  (answers (OpenHandsRuntimeClient.serve http) s₀ calls).map FileAnswer.outcome =
    (answers MockRuntimeClient.serve [] calls).map FileAnswer.outcome

/-- A call that names a path of `paths` and brings in a text of `texts`. -/
def FileCall.Over (paths texts : Set PyStr) (call : FileCall) : Prop :=
  call.path ∈ paths ∧ ∀ text, call.text = some text → text ∈ texts

/-- Where something is written, every path names a file, to read and to write
    alike, different paths name different files, and every text has UTF-8
    bytes.  What names no file is answered 404. -/
structure Faithful {S : Type} (http : Transport S) (s₀ : S) (paths texts : Set PyStr) : Prop where
  named : texts.Nonempty → ∀ path ∈ paths,
    ∃ n, http.download_name path = some n ∧ http.upload_name path = some n
  nameless : ∀ path ∈ paths, http.download_name path = none →
    ∃ target, http.request_path (download_route ++ path) = .ok target ∧
      (http.get target s₀).1.status_code = 404
  content : ∀ _path ∈ paths, ∀ text ∈ texts, Encodable text
  apart : texts.Nonempty → Set.InjOn http.download_name paths

/-! ## Faithful calls -/

/-- The server holds the bytes of what the mock holds. -/
abbrev Holds {S : Type} (http : Transport S) (paths : Set PyStr) (mock : MockRuntimeClient.Files)
    (store : AgentFiles) : Prop :=
  Mirror paths http.download_name encode (fun path => mock.lookup path) fun name => name.bind store

omit [Unicode] in
theorem holds_empty {S : Type} {http : Transport S} {paths : Set PyStr} {store : AgentFiles}
    (hempty : ∀ n, store n = none) : Holds http paths [] store := by
  have hnone : (fun name : Option (List Byte) => name.bind store) = fun _ => none := by
    funext name
    match name with
    | none => rfl
    | some n => exact hempty n
  rw [Holds, hnone]
  exact mirror_empty

section step
variable {S : Type} {http : Transport S} {files : S → AgentFiles} (hdoc : Documented http files) {s₀ : S}
  {paths texts : Set PyStr} (h : Faithful http s₀ paths texts) {mock : MockRuntimeClient.Files} {s : S}
  {path : PyStr}
include hdoc h

omit [Unicode] in
theorem Faithful.read_file (hR : Holds http paths mock (files s)) (hpath : path ∈ paths) :
    (OpenHandsRuntimeClient.read_file http path s).1 = MockRuntimeClient.read_file path mock := by
  rw [MockRuntimeClient.read_file]
  cases hname : http.download_name path with
  | none =>
    obtain ⟨target, htarget, hstatus⟩ := h.nameless path hpath hname
    -- the server has no such route, then as now
    have hroute : route download_route target = none := (Transport.name_ok htarget).symm.trans hname
    rw [openhands_read_404 htarget ((hdoc.other_get hroute s₀ s).mp hstatus)]
    cases hlookup : mock.lookup path with
    | none => rfl
    | some content =>
      obtain ⟨bytes, -, hfile⟩ := hR.some hpath hlookup
      simp [hname] at hfile
  | some n =>
    rw [openhands_read hdoc hname]
    cases hlookup : mock.lookup path with
    | none =>
      have hfile := hR.none hpath hlookup
      rw [hname, Option.bind_some] at hfile
      rw [hfile]
    | some content =>
      obtain ⟨bytes, hbytes, hfile⟩ := hR.some hpath hlookup
      rw [hname, Option.bind_some] at hfile
      rw [hfile]
      simp only [decode_encode hbytes]

omit [Unicode] in
/-- A write of an encodable text, once there is a text at all. -/
theorem Faithful.write_file (hR : Holds http paths mock (files s)) (hpath : path ∈ paths)
    (htexts : texts.Nonempty) {content : PyStr} (hcontent : Encodable content) :
    (OpenHandsRuntimeClient.write_file http path content s).1 = .ok () ∧
      Holds http paths (MockRuntimeClient.write_file path content mock)
        (files (OpenHandsRuntimeClient.write_file http path content s).2) := by
  obtain ⟨bytes, hbytes⟩ := Option.isSome_iff_exists.mp ((encode_isSome content).mpr hcontent)
  obtain ⟨n, hread, hwrite⟩ := h.named htexts path hpath
  obtain ⟨hok, hstored⟩ := openhands_write hdoc (s := s) hwrite hbytes
  refine ⟨hok, ?_⟩
  have hupdate := hR.update (h.apart htexts) hpath hbytes
  have hmock : (fun p => (MockRuntimeClient.write_file path content mock).lookup p) =
      Function.update (fun p => mock.lookup p) path (some content) := by
    funext p
    show (setItem mock path content).lookup p = _
    rw [lookup_setItem, Function.update_apply]
  have hserver : (fun name : Option (List Byte) => name.bind (Function.update (files s) n (some bytes))) =
      Function.update (fun name => name.bind (files s)) (http.download_name path) (some bytes) := by
    funext name
    rw [hread]
    cases name with
    | none => rw [Function.update_of_ne (by simp)]; rfl
    | some m => simp only [Option.bind_some, Function.update_apply, Option.some.injEq]
  rw [hstored]
  show Mirror _ _ _ (fun p => (MockRuntimeClient.write_file path content mock).lookup p) _
  rw [hmock, hserver]
  exact hupdate

/-- One call: the same answer, and the files stay the same. -/
theorem Faithful.serve (hR : Holds http paths mock (files s)) {call : FileCall}
    (hcall : call.Over paths texts) :
    (OpenHandsRuntimeClient.serve http call s).1 = (MockRuntimeClient.serve call mock).1 ∧
      Holds http paths (MockRuntimeClient.serve call mock).2
        (files (OpenHandsRuntimeClient.serve http call s).2) := by
  obtain ⟨hpath, htext⟩ := hcall
  match call with
  | .read_file path =>
    have hpath : path ∈ paths := hpath
    have hread := h.read_file hdoc hR hpath
    constructor
    · show (OpenHandsRuntimeClient.read_file http path s).1.map some = _
      rw [hread]
      rfl
    · show Holds http paths mock (files (OpenHandsRuntimeClient.read_file http path s).2)
      rwa [openhands_read_keeps hdoc]
  | .write_file path content =>
    have hpath : path ∈ paths := hpath
    have hmem : content ∈ texts := htext content rfl
    obtain ⟨hok, hnext⟩ :=
      h.write_file hdoc hR hpath ⟨content, hmem⟩ (h.content path hpath content hmem)
    refine ⟨?_, hnext⟩
    show (OpenHandsRuntimeClient.write_file http path content s).1.map (fun _ => none) = _
    rw [hok]
    rfl
  | .edit_file path old_string new_string =>
    have hpath : path ∈ paths := hpath
    have hmem : new_string ∈ texts := htext new_string rfl
    have hread := h.read_file hdoc hR hpath
    have hkeeps : files (OpenHandsRuntimeClient.read_file http path s).2 = files s :=
      openhands_read_keeps hdoc
    have hnew := h.content path hpath new_string hmem
    -- both read the same text, so both edit it alike or refuse alike
    simp only [OpenHandsRuntimeClient.serve, MockRuntimeClient.serve,
      OpenHandsRuntimeClient.edit_file, MockRuntimeClient.edit_file, hread]
    cases hedit : (MockRuntimeClient.read_file path mock).bind fun content =>
        str_replace content old_string new_string path with
    | error e => exact ⟨rfl, by simpa only [hkeeps] using hR⟩
    | ok content' =>
      have henc : Encodable content' := by
        cases hlookup : mock.lookup path with
        | none =>
          simp only [MockRuntimeClient.read_file, hlookup] at hedit
          cases hedit
        | some content =>
          obtain ⟨bytes, hbytes, -⟩ := hR.some hpath hlookup
          have hcontent : Encodable content := (encode_isSome content).mp (by rw [hbytes]; rfl)
          simp only [MockRuntimeClient.read_file, hlookup, Except.bind, str_replace] at hedit
          split at hedit
          · cases hedit
          · rw [← Except.ok.inj hedit]
            exact encodable_replace_first hnew hcontent
      obtain ⟨hok, hnext⟩ := h.write_file hdoc (hkeeps ▸ hR) hpath ⟨new_string, hmem⟩ henc
      simp only [hok]
      exact ⟨trivial, hnext⟩

/-- **Faithful calls are answered alike**, message by message. -/
theorem Faithful.answers (hempty : ∀ n, files s₀ n = none) {calls : List FileCall}
    (hcalls : ∀ call ∈ calls, call.Over paths texts) :
    answers (OpenHandsRuntimeClient.serve http) s₀ calls =
      answers MockRuntimeClient.serve [] calls := by
  symm
  apply answers_eq (P := fun call => call.Over paths texts)
    (R := fun mock s => Holds http paths mock (files s)) ?_ (holds_empty hempty) hcalls
  intro call mock s hcall hR
  obtain ⟨hans, hnext⟩ := h.serve hdoc hR hcall
  exact ⟨hans.symm, hnext⟩

end step

omit [Unicode] in
/-- Plain paths that the library takes, and texts without surrogates, are
    faithful. -/
theorem faithful_plain {S : Type} {http : Transport S} {files : S → AgentFiles}
    (hdoc : Documented http files) (s₀ : S) {paths texts : Set PyStr} (hpaths : ∀ p ∈ paths, Plain p)
    (htaken : ∀ p ∈ paths, ∀ pre, pre = download_route ∨ pre = upload_route →
      ∃ target, http.request_path (pre ++ p) = .ok target)
    (htexts : ∀ t ∈ texts, Encodable t) : Faithful http s₀ paths texts := by
  -- a plain path goes by its own bytes
  have hname : ∀ p ∈ paths, ∀ pre, pre = download_route ∨ pre = upload_route →
      ∃ bytes, encode p = some bytes ∧ http.name pre p = some bytes := by
    intro p hp pre hpre
    obtain ⟨target, htarget⟩ := htaken p hp pre hpre
    exact hdoc.name_plain hpre (hpaths p hp) htarget
  constructor
  · intro _ p hp
    obtain ⟨bytes, hbytes, hread⟩ := hname p hp _ (Or.inl rfl)
    obtain ⟨bytes', hbytes', hwrite⟩ := hname p hp _ (Or.inr rfl)
    obtain rfl := Option.some.inj (hbytes.symm.trans hbytes')
    exact ⟨bytes, hread, hwrite⟩
  · intro p hp hnone
    obtain ⟨bytes, -, hread⟩ := hname p hp _ (Or.inl rfl)
    exact absurd (hread.symm.trans hnone) (by simp)
  · exact fun _ _ => htexts
  · intro _ p hp q hq heq
    obtain ⟨bp, hbp, hread⟩ := hname p hp _ (Or.inl rfl)
    obtain ⟨bq, hbq, hread'⟩ := hname q hq _ (Or.inl rfl)
    have hsame : bp = bq := Option.some.inj (hread.symm.trans (heq.trans hread'))
    subst hsame
    exact encode_inj hbp hbq

/-! ## Where they part -/

omit [Unicode] in
/-- No library that does as documented keeps `a?b` and `a` apart. -/
theorem not_faithful_delimiter {S : Type} {http : Transport S} {files : S → AgentFiles}
    (hdoc : Documented http files) {s₀ : S} {paths texts : Set PyStr} (htexts : texts.Nonempty)
    {d : CodePoint} (hd : d = CodePoint.ofChar '?' ∨ d = CodePoint.ofChar '#') {path rest : PyStr}
    (hpath : path ∈ paths) (hlonger : path ++ d :: rest ∈ paths) : ¬Faithful http s₀ paths texts := by
  intro h
  obtain ⟨n, hread, -⟩ := h.named htexts _ hlonger
  have hsame := (hdoc.name_delimiter hd hread).trans hread.symm
  have heq := congrArg List.length (h.apart htexts hpath hlonger hsame)
  simp at heq

section part
variable {S : Type} {http : Transport S} {files : S → AgentFiles} (hdoc : Documented http files) {s₀ : S}
  (hempty : ∀ n, files s₀ n = none) {paths texts : Set PyStr}
  (hall : ∀ calls, (∀ call ∈ calls, FileCall.Over paths texts call) → Agree http s₀ calls)
include hdoc hall

/-- Before anything is written, the mock misses every file. -/
theorem agree_nameless {path : PyStr} (hpath : path ∈ paths) :
    ∃ target, http.request_path (download_route ++ path) = .ok target ∧
      (http.get target s₀).1.status_code = 404 := by
  have hagree := hall [.read_file path] (by
    intro call hcall
    rw [List.mem_singleton.mp hcall]
    exact ⟨hpath, by simp [FileCall.text]⟩)
  simp only [Agree, answers, OpenHandsRuntimeClient.serve, MockRuntimeClient.serve,
    MockRuntimeClient.read_file, List.lookup_nil, List.map_cons, List.map_nil] at hagree
  have hhead := (List.cons.inj hagree).1
  cases hread : (OpenHandsRuntimeClient.read_file http path s₀).1 with
  | ok content =>
    rw [hread] at hhead
    cases hhead
  | error e =>
    rw [hread] at hhead
    exact openhands_read_missing hdoc hread (Except.error.inj hhead)

/-- The mock takes every text, under every path. -/
theorem agree_written {path : PyStr} (hpath : path ∈ paths) {text : PyStr} (htext : text ∈ texts) :
    ∃ n bytes, http.upload_name path = some n ∧ encode text = some bytes := by
  have hagree := hall [.write_file path text] (by
    intro call hcall
    rw [List.mem_singleton.mp hcall]
    exact ⟨hpath, fun t ht => by rwa [← Option.some.inj ht]⟩)
  simp only [Agree, answers, OpenHandsRuntimeClient.serve, MockRuntimeClient.serve,
    List.map_cons, List.map_nil] at hagree
  have hhead := (List.cons.inj hagree).1
  cases hwrite : (OpenHandsRuntimeClient.write_file http path text s₀).1 with
  | ok _ =>
    obtain ⟨⟨n, hname⟩, bytes, hbytes⟩ := openhands_write_ok hdoc hwrite
    exact ⟨n, bytes, hname, hbytes⟩
  | error e =>
    rw [hwrite] at hhead
    cases hhead

omit hdoc in
/-- What is read after a write. -/
theorem agree_read {p q : PyStr} (hp : p ∈ paths) (hq : q ∈ paths) {text : PyStr} (htext : text ∈ texts) :
    FileAnswer.outcome ((OpenHandsRuntimeClient.read_file http q
        (OpenHandsRuntimeClient.write_file http p text s₀).2).1.map some) =
      FileAnswer.outcome ((MockRuntimeClient.read_file q (setItem [] p text)).map some) := by
  have hagree := hall [.write_file p text, .read_file q] (by
    intro call hcall
    rcases List.mem_pair.mp hcall with rfl | rfl
    · exact ⟨hp, fun t ht => by rwa [← Option.some.inj ht]⟩
    · exact ⟨hq, by simp [FileCall.text]⟩)
  simp only [Agree, answers, OpenHandsRuntimeClient.serve, MockRuntimeClient.serve,
    MockRuntimeClient.write_file, List.map_cons, List.map_nil] at hagree
  exact (List.cons.inj (List.cons.inj hagree).2).1

include hempty

/-- What was written under a path is read under it. -/
theorem agree_named {path : PyStr} (hpath : path ∈ paths) {text : PyStr} (htext : text ∈ texts) :
    ∃ n, http.download_name path = some n ∧ http.upload_name path = some n := by
  obtain ⟨m, bytes, hwrite, hbytes⟩ := agree_written hdoc hall hpath htext
  obtain ⟨-, hstored⟩ := openhands_write hdoc (s := s₀) hwrite hbytes
  have hread := agree_read hall hpath hpath htext
  have hmock : MockRuntimeClient.read_file path (setItem [] path text) = .ok text := by
    rw [MockRuntimeClient.read_file, lookup_setItem, if_pos rfl]
  rw [hmock] at hread
  cases hname : http.download_name path with
  | none =>
    -- the path was answered 404 before, and is now
    obtain ⟨target, htarget, hstatus⟩ := agree_nameless hdoc hall hpath
    have hroute : route download_route target = none := (Transport.name_ok htarget).symm.trans hname
    rw [openhands_read_404 htarget ((hdoc.other_get hroute s₀ _).mp hstatus)] at hread
    cases hread
  | some n =>
    by_cases hne : n = m
    · rw [hne, hwrite]
      exact ⟨m, rfl, rfl⟩
    · rw [openhands_read hdoc hname, hstored, Function.update_of_ne hne, hempty] at hread
      cases hread

/-- Two paths of one file: what is written under the one is read under the
    other. -/
theorem agree_apart (htexts : texts.Nonempty) : Set.InjOn http.download_name paths := by
  obtain ⟨text, htext⟩ := htexts
  intro p hp q hq heq
  by_contra hne
  obtain ⟨n, hread, hwrite⟩ := agree_named hdoc hempty hall hp htext
  obtain ⟨-, bytes, -, hbytes⟩ := agree_written hdoc hall hp htext
  obtain ⟨-, hstored⟩ := openhands_write hdoc (s := s₀) hwrite hbytes
  have hmissing : (setItem ([] : MockRuntimeClient.Files) p text).lookup q = none := by
    rw [lookup_setItem, if_neg (Ne.symm hne)]
    rfl
  have houtcome := agree_read hall hp hq htext
  rw [openhands_read hdoc (heq.symm.trans hread), hstored, Function.update_self,
    MockRuntimeClient.read_file, hmissing] at houtcome
  cases houtcome

end part

/-- **The adapter refines the mock** on the calls over given paths and texts
    exactly if every path names a file, different paths different ones, and
    every text can be encoded. -/
theorem adapter_agrees_iff {S : Type} {http : Transport S} {files : S → AgentFiles}
    (hdoc : Documented http files) {s₀ : S} (hempty : ∀ n, files s₀ n = none)
    (paths texts : Set PyStr) :
    (∀ calls, (∀ call ∈ calls, FileCall.Over paths texts call) → Agree http s₀ calls) ↔
      Faithful http s₀ paths texts := by
  constructor
  · intro hall
    exact {
      named := fun ⟨_, ht⟩ _ hp => agree_named hdoc hempty hall hp ht
      nameless := fun _ hp _ => agree_nameless hdoc hall hp
      content := fun _ hp _ ht => by
        obtain ⟨-, bytes, -, hbytes⟩ := agree_written hdoc hall hp ht
        exact (encode_isSome _).mp (by rw [hbytes]; rfl)
      apart := agree_apart hdoc hempty hall }
  · intro h calls hcalls
    rw [Agree, h.answers hdoc hempty hcalls]

end

section small
attribute [local instance] Unicode.ascii

/-- Calls on two files: one of them is missing, and one edit finds nothing. -/
def two_files : List FileCall :=
  [.read_file (lit "b/c"), .write_file (lit "a") (lit "x"), .write_file (lit "b/c") (lit "x"),
    .edit_file (lit "b/c") (lit "x") (lit "y"), .edit_file (lit "b/c") (lit "x") (lit "y"),
    .read_file (lit "a"), .read_file (lit "b/c")]

theorem adapter_agrees_iff_two : Agree agent_http (fun _ => none) two_files := by
  have hplain : ∀ p ∈ ({lit "a", lit "b/c"} : Set PyStr), Plain p := by
    rintro p (rfl | rfl)
    · exact plain_of_tails (by decide) (by decide) (by decide) (by decide)
    · exact plain_of_tails (by decide) (by decide) (by decide) (by decide)
  have hempty : ∀ n, id (fun _ => none : AgentFiles) n = none := fun _ => rfl
  have hover : ∀ call ∈ two_files, call.Over {lit "a", lit "b/c"} {lit "x", lit "y"} := by
    simp [two_files, FileCall.Over, FileCall.path, FileCall.text]
  refine (adapter_agrees_iff agent_documented hempty _ _).mpr ?_ two_files hover
  apply faithful_plain agent_documented _ hplain
  · intro p hp pre hpre
    have htaken : ∀ p ∈ [lit "a", lit "b/c"], ∀ pre ∈ [download_route, upload_route],
        (agent_http.request_path (pre ++ p)).toOption.isSome = true := by decide +kernel
    have hsome := htaken p (by simpa using hp) pre (by simpa using hpre)
    cases hok : agent_http.request_path (pre ++ p) with
    | ok target => exact ⟨target, rfl⟩
    | error e => simp [hok, Except.toOption] at hsome
  · rintro t (rfl | rfl)
    all_goals exact (encode_isSome _).mp (by decide +kernel)

/-- Writing `a?b` makes `a` readable: the query never reaches the server. -/
theorem adapter_parts : ¬∀ (S : Type) (http : Transport S) (files : S → AgentFiles) (s₀ : S),
    Documented http files → (∀ n, files s₀ n = none) → ∀ calls : List FileCall, Agree http s₀ calls := by
  intro hall
  have hagree := hall AgentFiles agent_http id (fun _ => none) agent_documented (fun _ => rfl)
    [.write_file (lit "a?b") (lit "x"), .read_file (lit "a")]
  have hparts : ¬Agree agent_http (fun _ => none)
      [.write_file (lit "a?b") (lit "x"), .read_file (lit "a")] := by
    unfold Agree
    decide +kernel
  exact hparts hagree

end small

end Syndicate
