import KasmVNC.Lib.Paths
import KasmVNC.Lib.Text

/-!
# The files of the web server

`servefile` opens what a request names below `httpdir`, and the downloads endpoint a
directory below the one for downloads. Both reject names with `"../"` in them, as they are
written and as they are decoded. Two dots at the end of a name are let through.

`httpdir` and the name fit the buffers. What `wordexp` makes of `"~/Downloads"` is a
parameter.
-/

namespace KasmVNC.Network

open KasmVNC.Lib

abbrev PATH_MAX : ℕ := 4096

abbrev slash : Byte := 0x2F

abbrev dot : Byte := 0x2E

/-! ## Decoding -/

def hexDigit (b : Byte) : Option Byte :=
  if 0x30 ≤ b ∧ b ≤ 0x39 then some (b - 0x30)
  else if 0x41 ≤ b ∧ b ≤ 0x46 then some (b - 0x41 + 10)
  else if 0x61 ≤ b ∧ b ≤ 0x66 then some (b - 0x61 + 10)
  else none

def isspace (b : Byte) : Prop := b = 0x20 ∨ 0x09 ≤ b ∧ b ≤ 0x0D

instance (b : Byte) : Decidable (isspace b) := inferInstanceAs (Decidable (_ ∨ _))

/-- `strtol(hex, NULL, 16)` of two characters, as a `char`. Blanks and a sign may stand in
front of a number. -/
def strtolHex (first second : Byte) : Byte :=
  match hexDigit first, hexDigit second with
  | some high, some low => high * 16 + low
  | some digit, none => digit
  | none, some digit =>
    if isspace first ∨ first = 0x2B then digit
    else if first = 0x2D then -digit
    else 0
  | none, none => 0

/-- `percent_decode`. With the filter no new slash appears. -/
def percentDecode (filter : Bool) : List Byte → List Byte
  | [] => []
  | b :: src =>
    if b ≠ 0x25 then b :: percentDecode filter src
    else
      match src with
      | first :: second :: src =>
        let c := strtolHex first second
        (if filter ∧ c = slash then 0x5F else c) :: percentDecode filter src
      | _ => []

/-- What is in `dst` up to the first zero. -/
def percent_decode (src : List Byte) (filter : Bool) : List Byte :=
  (percentDecode filter src).takeWhile (· ≠ 0)

/-! ## Requests -/

abbrev dotsSlash : List Byte := [dot, dot, slash]

/-- The URI of a GET request, if it is not too long and there is no `"../"` in the request.
A request without a blank behind the URI does not get here. -/
def requestedUri (request : CString) : Option (List Byte) := do
  if request.bytes.take 4 ≠ ascii "GET " then none
  else
    let (uri, _) ← cut 0x20 (request.bytes.drop 4)
    if uri.length < 1 ∨ uri.length > 1024 ∨ (strstr dotsSlash (request.bytes.drop 4)).isSome then
      none
    else some uri

/-- What is before the question mark. -/
def uriPath (uri : List Byte) : List Byte := uri.takeWhile (· ≠ 0x3F)

/-- What is behind it. -/
def uriArgs (uri : List Byte) : List Byte := (uri.dropWhile (· ≠ 0x3F)).drop 1

/-- The name `servefile` looks for in `httpdir`. -/
def servedName (request : CString) : Option (List Byte) := do
  let uri ← requestedUri request
  let path := if uriPath uri = ascii "/" then ascii "/index.html" else uriPath uri
  let buf := percent_decode path true
  if (strstr dotsSlash buf).isSome then none else some buf

/-- What `servefile` opens. -/
def servefile (httpdir : List Byte) (request : CString) : Option (List Byte) :=
  (servedName request).map fun buf => httpdir ++ slash :: buf

/-- What `parse_get` finds. -/
inductive Argument
  | absent
  | value (arg : List Byte)
  /-- The equals sign belongs to a later argument, and the length is less than zero. -/
  | negative
deriving DecidableEq

/-- The argument at the start of `s`, whose name has been compared. -/
def argumentAt (s : List Byte) : Argument :=
  match cut 0x3D s with
  | none => .absent
  | some (name, arg) => if 0x26 ∈ name then .negative else .value (arg.takeWhile (· ≠ 0x26))

/-- `parse_get`. Names are looked for at the start and behind each `'&'`. -/
def parseGet (opt : List Byte) : Bool → List Byte → Argument
  | start, [] => if start ∧ opt = [] then argumentAt [] else .absent
  | start, b :: s =>
    if start ∧ opt.isPrefixOf (b :: s) then argumentAt (b :: s) else parseGet opt (b = 0x26) s

def parse_get (args opt : List Byte) : Argument := parseGet opt true args

/-- The directory below the downloads that is asked for. A negative length is a huge one,
and the copy of the argument does not end well. -/
def downloadsSubpath (request : CString) : Option (List Byte) := do
  let uri ← requestedUri request
  if uriPath uri ≠ ascii "/api/downloads" then none
  else
    match parse_get (uriArgs uri) (ascii "path") with
    | .absent => some []
    | .negative => none
    | .value param =>
      if param = [] then some []
      else
        let subpath := percent_decode param false
        if (strstr dotsSlash subpath).isSome then none else some subpath

/-- What the downloads endpoint opens. -/
def downloads (startpath : List Byte) (request : CString) : Option (List Byte) :=
  (downloadsSubpath request).map fun subpath =>
    (startpath ++ slash :: subpath).take (PATH_MAX - 1)

/-! ## Confinement -/

/-- Where the path of a file leads to. -/
def fileAt (cwd : List (List Byte)) (path : List Byte) : List (List Byte) :=
  resolve slash dot (if path.head? = some slash then [] else cwd) path

/-- The file is the directory or below it. -/
def Inside (cwd : List (List Byte)) (dir path : List Byte) : Prop :=
  fileAt cwd dir <+: fileAt cwd path

instance (cwd : List (List Byte)) (dir path : List Byte) : Decidable (Inside cwd dir path) :=
  inferInstanceAs (Decidable (_ <+: _))

section Confined

variable {cwd : List (List Byte)} {dir name : List Byte}

theorem fileAt_append (hdir : dir ≠ []) :
    fileAt cwd (dir ++ slash :: name) = resolve slash dot (fileAt cwd dir) name := by
  unfold fileAt
  rw [List.head?_append_of_ne_nil _ hdir, resolve_append]

/-- A name without `"../"` below a directory. -/
theorem inside_iff (hdir : dir ≠ []) (hname : ¬dotsSlash <:+: name) :
    Inside cwd dir (dir ++ slash :: name) ↔
      ¬ClimbsOut slash dot name ∨ fileAt cwd dir = [] := by
  unfold Inside
  rw [fileAt_append hdir, isPrefix_resolve_iff hname]

theorem servedName_dots {request : CString} (h : servedName request = some name) :
    ¬dotsSlash <:+: name := by
  unfold servedName at h
  obtain ⟨uri, -, h⟩ := Option.bind_eq_some_iff.mp h
  dsimp only at h
  generalize percent_decode _ true = buf at h
  split at h
  · cases h
  · next hdots =>
      cases h
      exact strstr_eq_none_iff.mp (Option.not_isSome_iff_eq_none.mp hdots)

theorem downloadsSubpath_dots {request : CString} (h : downloadsSubpath request = some name) :
    ¬dotsSlash <:+: name := by
  unfold downloadsSubpath at h
  obtain ⟨uri, -, h⟩ := Option.bind_eq_some_iff.mp h
  dsimp only at h
  split at h
  · cases h
  split at h
  · cases h
    decide
  · cases h
  split at h
  · cases h
    decide
  split at h
  · cases h
  · next hdots =>
      cases h
      exact strstr_eq_none_iff.mp (Option.not_isSome_iff_eq_none.mp hdots)

/-- The path that is opened may have been cut off. -/
theorem inside_take_iff {limit : ℕ} (hdir : dir ≠ []) (hlength : dir.length ≤ limit)
    (hname : ¬dotsSlash <:+: name) :
    Inside cwd dir ((dir ++ slash :: name).take limit) ↔
      ¬ClimbsOut slash dot (name.take (limit - (dir.length + 1))) ∨ fileAt cwd dir = [] := by
  rw [List.take_append, List.take_of_length_le hlength]
  cases hroom : limit - dir.length with
  | zero =>
    have hcut : limit - (dir.length + 1) = 0 := by omega
    rw [List.take_zero, List.append_nil, hcut, List.take_zero]
    exact iff_of_true (List.prefix_refl _) (Or.inl (by decide))
  | succ room =>
    have hcut : limit - (dir.length + 1) = room := by omega
    rw [List.take_succ_cons, hcut]
    exact inside_iff hdir fun h => hname (h.trans (List.take_prefix _ _).isInfix)

end Confined

/-- **Confinement.** The file or directory that `servefile` opens is inside of `httpdir`, and
the one that the downloads endpoint opens inside of the downloads, unless the decoded name
is two dots with nothing but dots and slashes before them, and there is a directory above. -/
theorem opened_inside (cwd : List (List Byte)) :
    (∀ httpdir request, httpdir ≠ [] →
      ((∀ path, servefile httpdir request = some path → Inside cwd httpdir path) ↔
        ∀ buf, servedName request = some buf →
          ¬ClimbsOut slash dot buf ∨ fileAt cwd httpdir = [])) ∧
    ∀ startpath request, startpath ≠ [] → startpath.length < PATH_MAX →
      ((∀ path, downloads startpath request = some path → Inside cwd startpath path) ↔
        ∀ subpath, downloadsSubpath request = some subpath →
          ¬ClimbsOut slash dot (subpath.take (PATH_MAX - 1 - (startpath.length + 1))) ∨
            fileAt cwd startpath = []) := by
  constructor
  · intro httpdir request hdir
    unfold servefile
    simp only [Option.map_eq_some_iff, forall_exists_index, and_imp, forall_apply_eq_imp_iff₂]
    refine forall₂_congr fun buf hbuf => ?_
    exact inside_iff hdir (servedName_dots hbuf)
  · intro startpath request hstart hlength
    unfold downloads
    simp only [Option.map_eq_some_iff, forall_exists_index, and_imp, forall_apply_eq_imp_iff₂]
    refine forall₂_congr fun subpath hsubpath => ?_
    exact inside_take_iff hstart (Nat.le_sub_one_of_lt hlength) (downloadsSubpath_dots hsubpath)

/-- A page in a directory of `httpdir`. -/
def pageRequest : CString where
  bytes := ascii "GET /app/./vnc.html HTTP/1.1\r\n\r\n"
  no_nul := by decide +kernel

theorem opened_inside_page :
    Inside [] (ascii "/srv/www") (ascii "/srv/www//app/./vnc.html") := by
  have hname : servedName pageRequest = some (ascii "/app/./vnc.html") := by decide +kernel
  refine ((opened_inside []).1 (ascii "/srv/www") pageRequest (by decide +kernel)).mpr ?_ _
    (by decide +kernel)
  intro buf hbuf
  rw [← Option.some.inj (hname.symm.trans hbuf)]
  exact Or.inl (by decide +kernel)

/-- Two dots lead to the directory above, and their percent codes too. -/
theorem opened_outside :
    servefile (ascii "/srv/www") ⟨ascii "GET /.. HTTP/1.1\r\n\r\n", by decide +kernel⟩ =
        some (ascii "/srv/www//..") ∧
      ¬Inside [] (ascii "/srv/www") (ascii "/srv/www//..") ∧
      downloads (ascii "/home/u/Downloads")
          ⟨ascii "GET /api/downloads?path=%2e%2e HTTP/1.1\r\n\r\n", by decide +kernel⟩ =
        some (ascii "/home/u/Downloads/..") ∧
      ¬Inside [] (ascii "/home/u/Downloads") (ascii "/home/u/Downloads/..") := by
  refine ⟨by decide +kernel, ?_, by decide +kernel, ?_⟩ <;>
    rw [ascii_ofList, ascii_ofList] <;> decide +kernel

end KasmVNC.Network
