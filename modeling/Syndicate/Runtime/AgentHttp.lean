import Syndicate.Runtime.Http

/-! # An HTTP library and an agent server

    One library and one server that do as documented.  The library refuses
    control characters and URLs that are too long, drops the dot segments, and
    writes every character that the path may not hold as the `%XX` of its
    UTF-8 bytes; an existing `%XX` stays as it is. -/

namespace Syndicate.Http

open Py Framework

/-! ## Percent-encoding -/

/-- What a path holds as it is: unreserved characters, sub-delimiters, and
    `:`, `@` and `/`. -/
def isPathChar (c : CodePoint) : Bool :=
  (48 ≤ c.val && c.val ≤ 57) || (65 ≤ c.val && c.val ≤ 90) || (97 ≤ c.val && c.val ≤ 122) ||
  (lit "-._~!$&'()*+,;=:@/").contains c

def upperHex (n : Nat) : CodePoint :=
  if n < 10 then Fin.ofNat _ (48 + n) else Fin.ofNat _ (55 + n)

/-- `%XX` of a byte. -/
def percentByte (b : Byte) : PyStr :=
  [CodePoint.ofChar '%', upperHex (b.val / 16), upperHex (b.val % 16)]

/-- The percent-encoding of a path. -/
def percent_encode : PyStr → PyStr
  | [] => []
  | c :: s =>
    if isPathChar c ∨ (escapeAt (c :: s)).isSome then c :: percent_encode s
    else ((encodeChar c).getD []).flatMap percentByte ++ percent_encode s

theorem hexValue_upperHex {n : Nat} (h : n < 16) : hexValue (upperHex n) = some n := by
  have hall : ∀ m < 16, hexValue (upperHex m) = some m := by decide
  exact hall n h

/-- An encoded byte is read back. -/
theorem percentDecode_byte (b : Byte) (rest : PyStr) :
    percent_decode (percentByte b ++ rest) = b :: percent_decode rest := by
  have hlt := b.isLt
  have hb : Fin.ofNat 256 (16 * (b.val / 16) + b.val % 16) = b := by
    apply Fin.ext
    rw [byte_val (by omega)]
    omega
  have hesc : escapeAt (percentByte b ++ rest) = some b := by
    show escapeAt (_ :: _ :: _ :: rest) = _
    rw [escapeAt, if_pos rfl, hexValue_upperHex (by omega), hexValue_upperHex (by omega)]
    show some (Fin.ofNat 256 (16 * (b.val / 16) + b.val % 16)) = _
    rw [hb]
  show percentDecodeLoop 0 (_ :: _ :: _ :: rest) = _
  rw [percentDecodeLoop]
  have hesc' : escapeAt (CodePoint.ofChar '%' :: upperHex (b.val / 16) :: upperHex (b.val % 16) ::
      rest) = some b := hesc
  rw [hesc']
  rfl

theorem percentDecode_bytes (bs : List Byte) (rest : PyStr) :
    percent_decode (bs.flatMap percentByte ++ rest) = bs ++ percent_decode rest := by
  induction bs with
  | nil => rfl
  | cons b bs ih =>
    rw [List.flatMap_cons, List.append_assoc, percentDecode_byte, ih]
    rfl

/-- A character that stands for itself is one byte. -/
theorem encodeChar_pathChar {c : CodePoint} (h : isPathChar c = true) :
    encodeChar c = some [Fin.ofNat _ c.val] := by
  have hlt : c.val < 0x80 := by
    have hall : (lit "-._~!$&'()*+,;=:@/").all (fun d => decide (d.val < 0x80)) = true := by decide
    simp only [isPathChar, Bool.or_eq_true, Bool.and_eq_true, decide_eq_true_eq] at h
    rcases h with ((h | h) | h) | h
    · omega
    · omega
    · omega
    · exact of_decide_eq_true (List.all_eq_true.mp hall c (List.contains_iff_mem.mp h))
  simp [encodeChar, hlt]

/-- What percent-encoding writes, percent-decoding reads as UTF-8. -/
theorem percent_decode_encode {path : PyStr} (hesc : ∀ e, e <:+ path → escapeAt e = none)
    {bytes : List Byte} (hbytes : encode path = some bytes) :
    percent_decode (percent_encode path) = bytes := by
  induction path generalizing bytes with
  | nil => exact Option.some.inj hbytes
  | cons c s ih =>
    rw [encode_cons] at hbytes
    obtain ⟨bs, hbs, hbytes⟩ := Option.bind_eq_some_iff.mp hbytes
    obtain ⟨rest, hrest, rfl⟩ := Option.map_eq_some_iff.mp hbytes
    have ih := ih (fun e he => hesc e (he.trans (List.suffix_cons c s))) hrest
    have hhere := hesc (c :: s) List.suffix_rfl
    by_cases hpath : isPathChar c = true
    · rw [percent_encode, if_pos (Or.inl hpath)]
      obtain rfl : [Fin.ofNat _ c.val] = bs :=
        Option.some.inj ((encodeChar_pathChar hpath).symm.trans hbs)
      -- the character is no `%`, so no escape begins at it
      have hne : c ≠ CodePoint.ofChar '%' := by
        rintro rfl
        exact absurd hpath (by decide)
      have hnone : escapeAt (c :: percent_encode s) = none := by
        unfold escapeAt
        split
        · rename_i heq
          rw [if_neg (by rw [← (List.cons.inj heq).1]; exact hne)]
        · rfl
      show percentDecodeLoop 0 (c :: percent_encode s) = _
      rw [percentDecodeLoop, hnone]
      show _ :: percent_decode (percent_encode s) = _
      rw [ih]
      rfl
    · have hno : ¬(isPathChar c = true ∨ (escapeAt (c :: s)).isSome = true) := by
        simp [hpath, hhere]
      rw [percent_encode, if_neg hno, hbs, Option.getD_some, percentDecode_bytes, ih]

theorem percent_encode_append {pre : PyStr} (hpre : pre.all isPathChar = true) (path : PyStr) :
    percent_encode (pre ++ path) = pre ++ percent_encode path := by
  induction pre with
  | nil => rfl
  | cons c pre ih =>
    rw [List.all_cons, Bool.and_eq_true] at hpre
    rw [List.cons_append, percent_encode, if_pos (Or.inl hpre.1), ih hpre.2, List.cons_append]

/-! ## The path of a URL -/

/-- The path of a URL. -/
def url_path (url : PyStr) : PyStr :=
  url.takeWhile fun c => c ≠ CodePoint.ofChar '?' && c ≠ CodePoint.ofChar '#'

/-- One component, on a stack of those before it: `.` is dropped, and `..`
    drops the one before, up to the root. -/
def drop_dots (output : List PyStr) (component : PyStr) : List PyStr :=
  if component = lit "." then output
  else if component = lit ".." then
    if output ≠ [] ∧ output ≠ [[]] then output.tail else output
  else component :: output

/-- `normalize_path`. -/
def normalize_path (path : PyStr) : PyStr :=
  join (lit "/") ((path.splitOn (CodePoint.ofChar '/')).foldl drop_dots []).reverse

def invalid_url : PyExc := ⟨.Other (lit "InvalidURL"), lit "Invalid URL"⟩

/-- An ASCII character that is not printable. -/
def isControl (c : CodePoint) : Bool := c.val < 32 || c.val = 127

/-- The path component of a request.  A lone surrogate anywhere in the URL
    cannot be encoded. -/
def request_path (url : PyStr) : Except PyExc PyStr :=
  if 65536 < url.length ∨ url.any isControl then .error invalid_url
  else match encode url with
    | none => .error surrogates_not_allowed
    | some _ => .ok (percent_encode (normalize_path (url_path url)))

/-! ## The server -/

def not_found : HttpResponse := ⟨404, []⟩

/-- `GET target`. -/
def serve_get (target : PyStr) (files : AgentFiles) : HttpResponse × AgentFiles :=
  match (route download_route target).bind files with
  | some bytes => (⟨200, bytes⟩, files)
  | none => (not_found, files)

/-- `POST target`, with an uploaded file.  The server goes by the URL and not
    by the name in the form. -/
def serve_upload (target : PyStr) (form : PyStr × List Byte) (files : AgentFiles) :
    HttpResponse × AgentFiles :=
  match route upload_route target with
  | some name => (⟨200, []⟩, Function.update files name (some form.2))
  | none => (not_found, files)

/-- This library, with this server. -/
def agent_http : Transport AgentFiles := ⟨request_path, serve_get, serve_upload⟩

example : agent_http.download_name (lit "a/../b") = agent_http.download_name (lit "b") := by
  decide +kernel

/-! ## They do as documented -/

theorem url_path_delimiter {d : CodePoint} (hd : d = CodePoint.ofChar '?' ∨ d = CodePoint.ofChar '#')
    (url q : PyStr) : url_path (url ++ d :: q) = url_path url := by
  induction url with
  | nil => rcases hd with rfl | rfl <;> rfl
  | cons c url ih =>
    simp only [url_path, List.cons_append, List.takeWhile_cons] at ih ⊢
    rw [ih]

theorem url_path_append {pre : PyStr} (hpre : pre.all isPathChar = true) (path : PyStr) :
    url_path (pre ++ path) = pre ++ url_path path := by
  have hall : ∀ c ∈ pre, (c ≠ CodePoint.ofChar '?' && c ≠ CodePoint.ofChar '#') = true := by
    intro c hc
    have hpath := List.all_eq_true.mp hpre c hc
    -- neither delimiter is a path character
    have hq : isPathChar (CodePoint.ofChar '?') = false := by decide
    have hh : isPathChar (CodePoint.ofChar '#') = false := by decide
    have hne : c ≠ CodePoint.ofChar '?' ∧ c ≠ CodePoint.ofChar '#' := by
      constructor
      · rintro rfl
        simp [hq] at hpath
      · rintro rfl
        simp [hh] at hpath
    simp [hne.1, hne.2]
  exact List.takeWhile_append_of_pos hall

theorem url_path_plain {url : PyStr} (hq : CodePoint.ofChar '?' ∉ url)
    (hf : CodePoint.ofChar '#' ∉ url) : url_path url = url := by
  rw [Http.url_path, List.takeWhile_eq_self_iff]
  intro c hc
  have hq : c ≠ CodePoint.ofChar '?' := fun heq => hq (heq ▸ hc)
  have hf : c ≠ CodePoint.ofChar '#' := fun heq => hf (heq ▸ hc)
  simp [hq, hf]

theorem request_path_ok {url target : PyStr} (h : request_path url = .ok target) :
    (¬(65536 < url.length ∨ url.any isControl = true)) ∧ Encodable url ∧
      target = percent_encode (normalize_path (url_path url)) := by
  unfold request_path at h
  split at h
  · cases h
  · rename_i hvalid
    split at h
    · cases h
    · rename_i bytes hbytes
      exact ⟨hvalid, (encode_isSome url).mp (by rw [hbytes]; rfl), (Except.ok.inj h).symm⟩

/-- Without what follows the path, a URL is taken as well. -/
theorem request_path_delimiter {d : CodePoint} (hd : d = CodePoint.ofChar '?' ∨ d = CodePoint.ofChar '#')
    {url q target : PyStr} (h : request_path (url ++ d :: q) = .ok target) :
    request_path url = .ok target := by
  obtain ⟨hvalid, henc, rfl⟩ := request_path_ok h
  have hurl : ¬(65536 < url.length ∨ url.any isControl = true) := by
    rintro (hlong | hcontrol)
    · exact hvalid (Or.inl (by rw [List.length_append]; omega))
    · exact hvalid (Or.inr (by rw [List.any_append, hcontrol, Bool.true_or]))
  obtain ⟨bytes, hbytes⟩ := Option.isSome_iff_exists.mp
    ((encode_isSome url).mpr fun c hc => henc c (List.mem_append_left _ hc))
  rw [request_path, if_neg hurl, hbytes, url_path_delimiter hd]

/-! ### Dot segments -/

/-- The components of a route, the last one first. -/
def route_stack (name : PyStr) : List PyStr := [name, lit "file", lit "api", []]

theorem drop_dots_parent (last : PyStr) {output : List PyStr} (h : output ≠ []) :
    drop_dots (last :: output) (lit "..") = output := by
  have hroot : last :: output ≠ [] ∧ last :: output ≠ [[]] := by simp [h]
  have hne : lit ".." ≠ lit "." := by decide
  rw [drop_dots, if_neg hne, if_pos rfl, if_pos hroot]
  rfl

/-- What comes behind a route: either nothing of the route is dropped, or what
    is left does not depend on its last component. -/
theorem drop_dots_route (a b : PyStr) (components output : List PyStr) :
    (∃ output', components.foldl drop_dots (output ++ route_stack a) = output' ++ route_stack a ∧
        components.foldl drop_dots (output ++ route_stack b) = output' ++ route_stack b) ∨
      components.foldl drop_dots (output ++ route_stack a) =
        components.foldl drop_dots (output ++ route_stack b) := by
  induction components generalizing output with
  | nil => exact Or.inl ⟨output, rfl, rfl⟩
  | cons component components ih =>
    rw [List.foldl_cons, List.foldl_cons]
    by_cases hone : component = lit "."
    · rw [drop_dots, if_pos hone, drop_dots, if_pos hone]
      exact ih output
    · by_cases htwo : component = lit ".."
      · subst htwo
        match output with
        | [] =>
          -- the last component of the route is dropped
          have ha := drop_dots_parent a (show [lit "file", lit "api", []] ≠ [] by simp)
          have hb := drop_dots_parent b (show [lit "file", lit "api", []] ≠ [] by simp)
          exact Or.inr (congrArg (components.foldl drop_dots) (ha.trans hb.symm))
        | last :: output =>
          rw [List.cons_append, List.cons_append, drop_dots_parent last (by simp [route_stack]),
            drop_dots_parent last (by simp [route_stack])]
          exact ih output
      · rw [drop_dots, if_neg hone, if_neg htwo, drop_dots, if_neg hone, if_neg htwo]
        exact ih (component :: output)

theorem drop_dots_plain {components : List PyStr}
    (h : ∀ c ∈ components, c ≠ lit "." ∧ c ≠ lit "..") (output : List PyStr) :
    components.foldl drop_dots output = components.reverse ++ output := by
  induction components generalizing output with
  | nil => rfl
  | cons c components ih =>
    obtain ⟨hone, htwo⟩ := h c List.mem_cons_self
    rw [List.foldl_cons, drop_dots, if_neg hone, if_neg htwo,
      ih fun d hd => h d (List.mem_cons_of_mem c hd), List.reverse_cons, List.append_assoc]
    rfl

/-- The route of the file operation `name`. -/
def file_route (name : PyStr) : PyStr := lit "/api/file" ++ CodePoint.ofChar '/' :: (name ++ lit "/")

theorem components_route {name : PyStr} (hname : CodePoint.ofChar '/' ∉ name) (path : PyStr) :
    (file_route name ++ path).splitOn (CodePoint.ofChar '/') =
      (route_stack name).reverse ++ path.splitOn (CodePoint.ofChar '/') := by
  have happend : file_route name ++ path =
      lit "/api/file" ++ CodePoint.ofChar '/' :: (name ++ CodePoint.ofChar '/' :: path) := by
    simp [file_route, lit]
  have hbefore : (lit "/api/file").splitOn (CodePoint.ofChar '/') = [[], lit "api", lit "file"] := by
    decide
  rw [happend, List.splitOn_append_cons_self, hbefore, List.splitOn_append_cons_self_of_not_mem hname]
  rfl

/-- The components written again, behind a route. -/
theorem join_route (name : PyStr) {output : List PyStr} (h : output ≠ []) :
    join (lit "/") (output ++ route_stack name).reverse =
      file_route name ++ join (lit "/") output.reverse := by
  have hne : output.reverse ≠ [] := by simpa using h
  rw [List.reverse_append]
  show List.intercalate _ ([] :: lit "api" :: lit "file" :: name :: output.reverse) = _
  rw [List.intercalate_cons_cons, List.intercalate_cons_cons, List.intercalate_cons_cons,
    List.intercalate_cons_of_ne_nil hne]
  simp [file_route, lit, join]

/-- Where a path leads behind the two routes: to the same rest behind each, to
    the first route itself, or to one and the same place. -/
theorem normalize_route (path : PyStr) :
    (∃ rest, normalize_path (download_route ++ path) = download_route ++ rest ∧
        normalize_path (upload_route ++ path) = upload_route ++ rest) ∨
      normalize_path (download_route ++ path) = lit "/api/file/download" ∨
      normalize_path (download_route ++ path) = normalize_path (upload_route ++ path) := by
  have hdown : download_route = file_route (lit "download") := by decide
  have hup : upload_route = file_route (lit "upload") := by decide
  have hstack : (route_stack (lit "download")).reverse.foldl drop_dots [] =
      [] ++ route_stack (lit "download") := by decide
  have hstack' : (route_stack (lit "upload")).reverse.foldl drop_dots [] =
      [] ++ route_stack (lit "upload") := by decide
  unfold normalize_path
  rw [hdown, hup, components_route (by decide), components_route (by decide), List.foldl_append,
    List.foldl_append, hstack, hstack']
  rcases drop_dots_route (lit "download") (lit "upload") (path.splitOn (CodePoint.ofChar '/')) []
    with ⟨output, hleft, hright⟩ | heq
  · rw [hleft, hright]
    by_cases hempty : output = []
    · subst hempty
      exact Or.inr (Or.inl (by decide))
    · exact Or.inl ⟨_, join_route _ hempty, join_route _ hempty⟩
  · exact Or.inr (Or.inr (by rw [heq]))

/-- Plain paths have no dot segments to drop. -/
theorem normalize_plain {pre path : PyStr} (hpre : pre = download_route ∨ pre = upload_route)
    (hpath : Plain path) : normalize_path (pre ++ path) = pre ++ path := by
  have hplain : ∀ c ∈ (pre ++ path).splitOn (CodePoint.ofChar '/'), c ≠ lit "." ∧ c ≠ lit ".." := by
    intro c hc
    have hsplit : ∃ name, pre = file_route name ∧ CodePoint.ofChar '/' ∉ name ∧
        ∀ c ∈ (route_stack name).reverse, c ≠ lit "." ∧ c ≠ lit ".." := by
      rcases hpre with rfl | rfl
      · exact ⟨lit "download", by decide, by decide, by decide⟩
      · exact ⟨lit "upload", by decide, by decide, by decide⟩
    obtain ⟨name, rfl, hname, hstack⟩ := hsplit
    rw [components_route hname] at hc
    rcases List.mem_append.mp hc with hc | hc
    · exact hstack c hc
    · exact hpath.no_dots c hc
  rw [normalize_path, drop_dots_plain hplain, List.append_nil, List.reverse_reverse]
  exact List.intercalate_splitOn _

/-! ### The library and the server together -/

theorem route_all {pre : PyStr} (hpre : pre = download_route ∨ pre = upload_route) :
    pre.all isPathChar = true := by
  rcases hpre with rfl | rfl
  · decide
  · decide

/-- The target of a request to a route. -/
theorem request_route {pre path target : PyStr} (hpre : pre = download_route ∨ pre = upload_route)
    (h : request_path (pre ++ path) = .ok target) :
    target = percent_encode (normalize_path (pre ++ url_path path)) := by
  obtain ⟨-, -, htarget⟩ := request_path_ok h
  rwa [url_path_append (route_all hpre)] at htarget

theorem agent_alike {path : PyStr} {n m : List Byte} (hn : agent_http.download_name path = some n)
    (hm : agent_http.upload_name path = some m) : n = m := by
  obtain ⟨target, hok, hroute⟩ := Transport.name_some hn
  obtain ⟨target', hok', hroute'⟩ := Transport.name_some hm
  rw [request_route (Or.inl rfl) hok] at hroute
  rw [request_route (Or.inr rfl) hok'] at hroute'
  rcases normalize_route (url_path path) with ⟨rest, hdown, hup⟩ | hdown | heq
  · rw [hdown, percent_encode_append (route_all (Or.inl rfl)), route_append] at hroute
    rw [hup, percent_encode_append (route_all (Or.inr rfl)), route_append] at hroute'
    exact Option.some.inj (hroute.symm.trans hroute')
  · -- `/api/file/download` lacks the last slash
    rw [hdown] at hroute
    have hnone : route download_route (percent_encode (lit "/api/file/download")) = none := by decide
    rw [hnone] at hroute
    cases hroute
  · -- no target has both prefixes
    rw [heq] at hroute
    unfold route at hroute hroute'
    split at hroute
    · rename_i hdown
      split at hroute'
      · rename_i hup
        have hboth := List.prefix_or_prefix_of_prefix (List.isPrefixOf_iff_prefix.mp hdown)
          (List.isPrefixOf_iff_prefix.mp hup)
        rw [← List.isPrefixOf_iff_prefix, ← List.isPrefixOf_iff_prefix] at hboth
        exact absurd hboth (by decide)
      · cases hroute'
    · cases hroute

theorem agent_plain {pre path target : PyStr} (hpre : pre = download_route ∨ pre = upload_route)
    (hpath : Plain path) (h : request_path (pre ++ path) = .ok target) :
    ∃ bytes, encode path = some bytes ∧ route pre target = some bytes := by
  obtain ⟨-, henc, -⟩ := request_path_ok h
  obtain ⟨bytes, hbytes⟩ := Option.isSome_iff_exists.mp
    ((encode_isSome path).mpr fun c hc => henc c (List.mem_append_right _ hc))
  refine ⟨bytes, hbytes, ?_⟩
  rw [request_route hpre h, url_path_plain hpath.no_query hpath.no_fragment, normalize_plain hpre hpath,
    percent_encode_append (route_all hpre), route_append, percent_decode_encode hpath.no_escape hbytes]

/-- **This library and this server do as documented.** -/
theorem agent_documented : Documented agent_http id where
  refused := by
    intro url e h
    change request_path url = .error e at h
    unfold request_path at h
    split at h
    · obtain rfl := Except.error.inj h
      decide
    · split at h
      · obtain rfl := Except.error.inj h
        decide
      · cases h
  query := request_path_delimiter (Or.inl rfl)
  fragment := request_path_delimiter (Or.inr rfl)
  alike := agent_alike
  plain := agent_plain
  found := by
    intro target name bytes s hroute hfile
    show (serve_get target s).1 = _
    rw [serve_get, hroute, Option.bind_some]
    rw [id] at hfile
    rw [hfile]
  missing := by
    intro target name s hroute hfile
    show (serve_get target s).1.status_code = _
    rw [serve_get, hroute, Option.bind_some]
    rw [id] at hfile
    rw [hfile]
    rfl
  get_keeps := by
    intro target s
    show (serve_get target s).2 = s
    unfold serve_get
    split
    · rfl
    · rfl
  other_get := by
    intro target hroute s s'
    show (serve_get target s).1.status_code = 404 ↔ (serve_get target s').1.status_code = 404
    rw [serve_get, serve_get, hroute]
    rfl
  stored := by
    intro target name form s hroute
    show (serve_upload target form s).1.is_success ∧ (serve_upload target form s).2 = _
    rw [serve_upload, hroute]
    exact ⟨show 200 ≤ 200 ∧ 200 < 300 by decide, rfl⟩
  other_post := by
    intro target form s hroute
    show ¬(serve_upload target form s).1.is_success
    rw [serve_upload, hroute]
    show ¬(200 ≤ 404 ∧ 404 < 300)
    decide

end Syndicate.Http
