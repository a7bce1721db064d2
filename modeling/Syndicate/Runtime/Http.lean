import Mathlib.Data.List.Infix
import Mathlib.Data.List.TakeWhile
import Syndicate.Framework.Store
import Syndicate.Py.Utf8
import Syndicate.Py.Value

/-! # HTTP between the adapter and the agent server

    The HTTP library and the agent server are outside the repository.  They
    are a parameter here, `Transport`: the path the library requests for a URL, or
    what it raises, and what the server answers and does.

    `Documented` is what the adapter relies on.  The library reads a URL as
    RFC 3986 does: the first `?` or `#` ends the path.  The server keeps
    uploaded bytes under the percent-decoded path that follows a fixed prefix,
    and answers 404 where it has none. -/

namespace Syndicate.Http

open Py Framework

/-! ## Percent-decoding -/

/-- The value of a hexadecimal digit of either case. -/
def hexValue (c : CodePoint) : Option Nat :=
  if 48 ≤ c.val ∧ c.val ≤ 57 then some (c.val - 48)
  else if 65 ≤ c.val ∧ c.val ≤ 70 then some (c.val - 55)
  else if 97 ≤ c.val ∧ c.val ≤ 102 then some (c.val - 87)
  else none

/-- The byte of the `%XX` a text begins with. -/
def escapeAt : PyStr → Option Byte
  | p :: a :: b :: _ =>
    if p = CodePoint.ofChar '%' then
      match hexValue a, hexValue b with
      | some x, some y => some (Fin.ofNat _ (16 * x + y))
      | _, _ => none
    else none
  | _ => none

/-- The loop of percent-decoding: `skip` characters still belong to the last
    escape. -/
def percentDecodeLoop : Nat → PyStr → List Byte
  | _, [] => []
  | skip + 1, _ :: s => percentDecodeLoop skip s
  | 0, c :: s =>
    match escapeAt (c :: s) with
    | some b => b :: percentDecodeLoop 2 s
    | none => Fin.ofNat _ c.val :: percentDecodeLoop 0 s

def percent_decode (s : PyStr) : List Byte := percentDecodeLoop 0 s

/-! ## Responses -/

/-- What the client reads of a response. -/
structure HttpResponse where
  status_code : Nat
  content : List Byte

/-- `response.text`. -/
def HttpResponse.text (r : HttpResponse) : PyStr := decode_replace r.content

/-- `response.is_success`. -/
abbrev HttpResponse.is_success (r : HttpResponse) : Prop := 200 ≤ r.status_code ∧ r.status_code < 300

/-- `response.raise_for_status()`. -/
def HttpResponse.raise_for_status (r : HttpResponse) : Except PyExc Unit :=
  if r.is_success then .ok ()
  else .error ⟨.Other (lit "HTTPStatusError"), str_int r.status_code⟩

/-! ## The routes of the agent server -/

/-- The files of the agent server, by percent-decoded path. -/
abbrev AgentFiles := List Byte → Option (List Byte)

/-- The path a target names behind the prefix of a route. -/
def route (pre target : PyStr) : Option (List Byte) :=
  if pre.isPrefixOf target then some (percent_decode (target.drop pre.length)) else none

def download_route : PyStr := lit "/api/file/download/"
def upload_route : PyStr := lit "/api/file/upload/"

theorem route_append (pre rest : PyStr) : route pre (pre ++ rest) = some (percent_decode rest) := by
  have hpre : pre.isPrefixOf (pre ++ rest) = true :=
    List.isPrefixOf_iff_prefix.mpr (List.prefix_append pre rest)
  rw [route, if_pos hpre, List.drop_left]

/-! ## Library and server -/

/-- The HTTP library, and an agent server with states `S`. -/
structure Transport (S : Type) where
  /-- The path component of the request made for a URL. -/
  request_path : PyStr → Except PyExc PyStr
  get : PyStr → S → HttpResponse × S
  /-- With a multipart form: the file's name and its bytes. -/
  post : PyStr → PyStr × List Byte → S → HttpResponse × S

section names
variable {S : Type} (http : Transport S)

/-- The name under which a URL asks a route for a file. -/
def Transport.name (pre path : PyStr) : Option (List Byte) :=
  match http.request_path (pre ++ path) with
  | .error _ => none
  | .ok target => route pre target

/-- The file `path` is read from. -/
def Transport.download_name (path : PyStr) : Option (List Byte) := http.name download_route path

/-- The file `path` is written to. -/
def Transport.upload_name (path : PyStr) : Option (List Byte) := http.name upload_route path

variable {http} {pre path : PyStr} {n : List Byte}

theorem Transport.name_some (h : http.name pre path = some n) :
    ∃ target, http.request_path (pre ++ path) = .ok target ∧ route pre target = some n := by
  unfold Transport.name at h
  split at h
  · simp at h
  · rename_i target htarget
    exact ⟨target, htarget, h⟩

theorem Transport.name_ok {target : PyStr} (h : http.request_path (pre ++ path) = .ok target) :
    http.name pre path = route pre target := by
  rw [Transport.name, h]

end names

/-- No delimiter, escape or dot segment in the path. -/
structure Plain (path : PyStr) : Prop where
  no_query : CodePoint.ofChar '?' ∉ path
  no_fragment : CodePoint.ofChar '#' ∉ path
  no_escape : ∀ e, e <:+ path → escapeAt e = none
  no_dots : ∀ segment ∈ path.splitOn (CodePoint.ofChar '/'), segment ≠ lit "." ∧ segment ≠ lit ".."

theorem plain_of_tails {path : PyStr} (hquery : CodePoint.ofChar '?' ∉ path)
    (hfragment : CodePoint.ofChar '#' ∉ path) (hescape : ∀ e ∈ path.tails, escapeAt e = none)
    (hdots : ∀ segment ∈ path.splitOn (CodePoint.ofChar '/'), segment ≠ lit "." ∧ segment ≠ lit "..") :
    Plain path :=
  ⟨hquery, hfragment, fun e he => hescape e ((List.mem_tails e path).mpr he), hdots⟩

/-- What is documented of the library, and of a server that keeps `files`. -/
structure Documented {S : Type} (http : Transport S) (files : S → AgentFiles) : Prop where
  /-- A URL is refused with an exception of the library, or an encoding error. -/
  refused : ∀ {url e}, http.request_path url = .error e → e.kind ≠ .FileNotFoundError
  /-- A query is not part of the path, -/
  query : ∀ {url q target}, http.request_path (url ++ CodePoint.ofChar '?' :: q) = .ok target →
    http.request_path url = .ok target
  /-- nor is a fragment. -/
  fragment : ∀ {url f target}, http.request_path (url ++ CodePoint.ofChar '#' :: f) = .ok target →
    http.request_path url = .ok target
  /-- What follows the prefix means the same behind both prefixes. -/
  alike : ∀ {path n m}, http.download_name path = some n → http.upload_name path = some m → n = m
  /-- A plain path is sent as its UTF-8 bytes, percent-encoded where needed. -/
  plain : ∀ {pre path target}, pre = download_route ∨ pre = upload_route → Plain path →
    http.request_path (pre ++ path) = .ok target →
      ∃ bytes, encode path = some bytes ∧ route pre target = some bytes
  /-- A file is served, -/
  found : ∀ {target name bytes s}, route download_route target = some name →
    files s name = some bytes → (http.get target s).1 = ⟨200, bytes⟩
  /-- and a missing one is 404. -/
  missing : ∀ {target name s}, route download_route target = some name →
    files s name = none → (http.get target s).1.status_code = 404
  get_keeps : ∀ {target s}, files (http.get target s).2 = files s
  /-- Which other routes there are does not change. -/
  other_get : ∀ {target}, route download_route target = none → ∀ s s',
    (http.get target s).1.status_code = 404 ↔ (http.get target s').1.status_code = 404
  /-- An upload is stored. -/
  stored : ∀ {target name form s}, route upload_route target = some name →
    (http.post target form s).1.is_success ∧
      files (http.post target form s).2 = Function.update (files s) name (some form.2)
  /-- No other route takes one. -/
  other_post : ∀ {target form s}, route upload_route target = none →
    ¬(http.post target form s).1.is_success

section documented
variable {S : Type} {http : Transport S} {files : S → AgentFiles} (h : Documented http files)
  {path : PyStr}
include h

theorem Documented.name_plain {pre : PyStr} (hpre : pre = download_route ∨ pre = upload_route)
    (hpath : Plain path) {target : PyStr} (hok : http.request_path (pre ++ path) = .ok target) :
    ∃ bytes, encode path = some bytes ∧ http.name pre path = some bytes := by
  obtain ⟨bytes, hbytes, hroute⟩ := h.plain hpre hpath hok
  exact ⟨bytes, hbytes, (Transport.name_ok hok).trans hroute⟩

/-- With a query or a fragment behind it, a path has the same name or none. -/
theorem Documented.name_delimiter {d : CodePoint} (hd : d = CodePoint.ofChar '?' ∨ d = CodePoint.ofChar '#')
    {pre rest : PyStr} {n : List Byte} (hname : http.name pre (path ++ d :: rest) = some n) :
    http.name pre path = some n := by
  obtain ⟨target, hok, hroute⟩ := Transport.name_some hname
  rw [← List.append_assoc] at hok
  have htaken : http.request_path (pre ++ path) = .ok target := by
    rcases hd with rfl | rfl
    · exact h.query hok
    · exact h.fragment hok
  exact (Transport.name_ok htaken).trans hroute

end documented

end Syndicate.Http
