import Syndicate.Runtime.Http

/-! # The file operations of the two adapters

    `str_replace` of `runtime/base.py`, and `read_file`, `write_file` and
    `edit_file` of `MockRuntimeClient` (`runtime/mock.py`) and of
    `OpenHandsRuntimeClient` (`runtime/openhands.py`). -/

namespace Syndicate

open Py Http

/-! ## `runtime/base.py` -/

/-- The loop of `s.count(needle)`: `skip` characters still belong to the
    last occurrence. -/
def countLoop (needle : PyStr) : Nat → PyStr → Nat
  | _, [] => 0
  | skip + 1, _ :: s => countLoop needle skip s
  | 0, c :: s =>
    if needle.isPrefixOf (c :: s) then countLoop needle (needle.length - 1) s + 1
    else countLoop needle 0 s

/-- `s.count(needle)`: the empty text is found before each character and at
    the end. -/
def count (needle s : PyStr) : Nat :=
  if needle.isEmpty then s.length + 1 else countLoop needle 0 s

/-- `s.replace(old, new, 1)`. -/
def replace_first (old new : PyStr) : PyStr → PyStr
  | [] => if old.isEmpty then new else []
  | c :: s =>
    if old.isPrefixOf (c :: s) then new ++ (c :: s).drop old.length
    else c :: replace_first old new s

/-- `str_replace`. -/
def str_replace [Unicode] (content old_string new_string path : PyStr) : Except PyExc PyStr :=
  if count old_string content ≠ 1 then
    .error ⟨.ValueError, lit "expected exactly one occurrence of old_string in " ++ repr_str path ++
      lit ", found " ++ str_int (count old_string content)⟩
  else .ok (replace_first old_string new_string content)

theorem encodable_replace_first {old new s : PyStr} (hnew : Encodable new) (hs : Encodable s) :
    Encodable (replace_first old new s) := by
  induction s with
  | nil =>
    rw [replace_first]
    split
    · exact hnew
    · exact hs
  | cons c s ih =>
    rw [replace_first]
    split
    · intro d hd
      rcases List.mem_append.mp hd with hd | hd
      · exact hnew d hd
      · exact hs d (List.mem_of_mem_drop hd)
    · intro d hd
      rcases List.mem_cons.mp hd with rfl | hd
      · exact hs d List.mem_cons_self
      · exact ih (fun e he => hs e (List.mem_cons_of_mem c he)) d hd

/-! ## Requests to an adapter -/

/-- A call of one of the three file operations. -/
inductive FileCall where
  | read_file (path : PyStr)
  | write_file (path content : PyStr)
  | edit_file (path old_string new_string : PyStr)

/-- What a call returns, `none` for `None`, or raises. -/
abbrev FileAnswer := Except PyExc (Option PyStr)

def FileCall.path : FileCall → PyStr
  | read_file path | write_file path _ | edit_file path _ _ => path

/-- The text a call brings in. -/
def FileCall.text : FileCall → Option PyStr
  | read_file _ => none
  | write_file _ content => some content
  | edit_file _ _ new_string => some new_string

/-! ## `runtime/mock.py` -/

namespace MockRuntimeClient

/-- `self._files`. -/
abbrev Files := List (PyStr × PyStr)

def read_file (path : PyStr) (files : Files) : Except PyExc PyStr :=
  match files.lookup path with
  | none => .error ⟨.FileNotFoundError, path⟩
  | some content => .ok content

def write_file (path content : PyStr) (files : Files) : Files := setItem files path content

def edit_file [Unicode] (path old_string new_string : PyStr) (files : Files) :
    Except PyExc Unit × Files :=
  match (read_file path files).bind fun content => str_replace content old_string new_string path with
  | .error e => (.error e, files)
  | .ok content => (.ok (), write_file path content files)

/-- One call. -/
def serve [Unicode] : FileCall → Files → FileAnswer × Files
  | .read_file path, files => ((read_file path files).map some, files)
  | .write_file path content, files => (.ok none, write_file path content files)
  | .edit_file path old_string new_string, files =>
    ((edit_file path old_string new_string files).1.map fun _ => none,
      (edit_file path old_string new_string files).2)

end MockRuntimeClient

/-! ## `runtime/openhands.py` -/

namespace OpenHandsRuntimeClient

variable {S : Type} (http : Transport S)

def read_file (path : PyStr) (s : S) : Except PyExc PyStr × S :=
  match http.request_path (download_route ++ path) with
  | .error e => (.error e, s)
  | .ok target =>
    let response := (http.get target s).1
    let answer : Except PyExc PyStr :=
      if response.status_code = 404 then .error ⟨.FileNotFoundError, path⟩
      else response.raise_for_status.map fun _ => response.text
    (answer, (http.get target s).2)

/-- `path.rsplit('/', 1)[-1] or 'file'`. -/
def filename (path : PyStr) : PyStr :=
  let name := (path.reverse.takeWhile (· ≠ CodePoint.ofChar '/')).reverse
  if name.isEmpty then lit "file" else name

/-- The multipart form: the file's name and its bytes. -/
def upload_form (path content : PyStr) : Except PyExc (PyStr × List Byte) :=
  match encode content with
  | none => .error surrogates_not_allowed
  | some bytes => .ok (filename path, bytes)

def write_file (path content : PyStr) (s : S) : Except PyExc Unit × S :=
  match upload_form path content, http.request_path (upload_route ++ path) with
  | .error e, _ => (.error e, s)
  | _, .error e => (.error e, s)
  | .ok form, .ok target => ((http.post target form s).1.raise_for_status, (http.post target form s).2)

def edit_file [Unicode] (path old_string new_string : PyStr) (s : S) : Except PyExc Unit × S :=
  let (answer, s) := read_file http path s
  match answer.bind fun content => str_replace content old_string new_string path with
  | .error e => (.error e, s)
  | .ok content => write_file http path content s

/-- One call. -/
def serve [Unicode] : FileCall → S → FileAnswer × S
  | .read_file path, s => ((read_file http path s).1.map some, (read_file http path s).2)
  | .write_file path content, s =>
    ((write_file http path content s).1.map fun _ => none, (write_file http path content s).2)
  | .edit_file path old_string new_string, s =>
    ((edit_file http path old_string new_string s).1.map fun _ => none,
      (edit_file http path old_string new_string s).2)

end OpenHandsRuntimeClient

/-! ## What the adapter does to the server's files -/

section openhands
variable {S : Type} {http : Transport S} {files : S → AgentFiles} (h : Documented http files)
  {path : PyStr} {s : S} {n : List Byte}
include h

theorem openhands_read_keeps : files (OpenHandsRuntimeClient.read_file http path s).2 = files s := by
  unfold OpenHandsRuntimeClient.read_file
  split
  · rfl
  · exact h.get_keeps

omit h in
/-- The answer 404. -/
theorem openhands_read_404 {target : PyStr} (htarget : http.request_path (download_route ++ path) = .ok target)
    (hstatus : (http.get target s).1.status_code = 404) :
    (OpenHandsRuntimeClient.read_file http path s).1 = .error ⟨.FileNotFoundError, path⟩ := by
  rw [OpenHandsRuntimeClient.read_file, htarget]
  exact if_pos hstatus

/-- `FileNotFoundError` is raised for no other answer. -/
theorem openhands_read_missing {e : PyExc}
    (hread : (OpenHandsRuntimeClient.read_file http path s).1 = .error e)
    (hkind : e.kind = .FileNotFoundError) :
    ∃ target, http.request_path (download_route ++ path) = .ok target ∧
      (http.get target s).1.status_code = 404 := by
  unfold OpenHandsRuntimeClient.read_file at hread
  split at hread
  · rename_i e' hrefused
    obtain rfl := Except.error.inj hread
    exact absurd hkind (h.refused hrefused)
  · rename_i target htarget
    refine ⟨target, htarget, ?_⟩
    by_contra hstatus
    dsimp only at hread
    rw [if_neg hstatus, HttpResponse.raise_for_status] at hread
    split at hread
    · cases hread
    · obtain rfl := Except.error.inj hread
      cases hkind

theorem openhands_read (hname : http.download_name path = some n) :
    (OpenHandsRuntimeClient.read_file http path s).1 =
      match files s n with
      | none => .error ⟨.FileNotFoundError, path⟩
      | some bytes => .ok (decode_replace bytes) := by
  obtain ⟨target, htarget, hroute⟩ := Transport.name_some hname
  rw [OpenHandsRuntimeClient.read_file, htarget]
  dsimp only
  cases hfile : files s n with
  | none => rw [if_pos (h.missing hroute hfile)]
  | some bytes =>
    rw [h.found hroute hfile]
    rfl

theorem openhands_write (hname : http.upload_name path = some n) {content : PyStr} {bytes : List Byte}
    (hbytes : encode content = some bytes) :
    (OpenHandsRuntimeClient.write_file http path content s).1 = .ok () ∧
      files (OpenHandsRuntimeClient.write_file http path content s).2 =
        Function.update (files s) n (some bytes) := by
  obtain ⟨target, htarget, hroute⟩ := Transport.name_some hname
  have hform : OpenHandsRuntimeClient.upload_form path content =
      .ok (OpenHandsRuntimeClient.filename path, bytes) := by
    rw [OpenHandsRuntimeClient.upload_form, hbytes]
  obtain ⟨hok, hstored⟩ := h.stored hroute
  simp only [OpenHandsRuntimeClient.write_file, hform, htarget]
  exact ⟨if_pos hok, hstored⟩

/-- A write that returns has found the upload route, and a text with bytes. -/
theorem openhands_write_ok {content : PyStr}
    (hok : (OpenHandsRuntimeClient.write_file http path content s).1 = .ok ()) :
    (∃ n, http.upload_name path = some n) ∧ ∃ bytes, encode content = some bytes := by
  unfold OpenHandsRuntimeClient.write_file OpenHandsRuntimeClient.upload_form at hok
  cases hbytes : encode content with
  | none => simp [hbytes] at hok
  | some bytes =>
    refine ⟨?_, bytes, rfl⟩
    cases htarget : http.request_path (upload_route ++ path) with
    | error e => simp [hbytes, htarget] at hok
    | ok target =>
      have hname : http.upload_name path = route upload_route target := Transport.name_ok htarget
      cases hroute : route upload_route target with
      | some n => exact ⟨n, hname.trans hroute⟩
      | none =>
        simp only [hbytes, htarget, HttpResponse.raise_for_status, if_neg (h.other_post hroute)] at hok
        simp at hok

end openhands

end Syndicate
