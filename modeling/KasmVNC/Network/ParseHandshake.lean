import KasmVNC.Network.HttpPaths
import Mathlib.Algebra.Order.Ring.Int

/-!
# The handshake of a WebSocket

`parse_handshake` looks for one header after the other in the text of the request and copies each
into a field of its own, of fixed size. The hybi protocol and the older hixie ones have different
headers. With hixie 76 two numbers are computed from the keys, and each is divided by the number
of its blanks.

A copy beyond the end of a field, an end that is not there and a division by zero are misuse. What
the fields hold before they are written is arbitrary, and MD5 is a parameter.
-/

namespace KasmVNC.Network

open KasmVNC.Lib

/-! ## The fields -/

/-- The fields of `headers_t`. -/
inductive Field
  | path
  | host
  | origin
  | version
  | connection
  | protocols
  | key1
  | key2
  | key3
deriving DecidableEq, Repr

def Field.size : Field → ℕ
  | key3 => 8 + 1
  | _ => 1024 + 1

/-- A string in a field, with room for the zero at its end. -/
structure FieldText (f : Field) where
  text : CString
  fits : text.bytes.length < f.size

/-- A field that has not been written holds nothing. -/
abbrev Headers := (f : Field) → Option (FieldText f)

/-- What the parser writes of `ws_ctx_t`. -/
structure WsCtx where
  headers : Headers
  hixie : ℤ
  hybi : ℤ

def WsCtx.set (ctx : WsCtx) (f : Field) (v : FieldText f) : WsCtx :=
  { ctx with headers := Function.update ctx.headers f (some v) }

/-- `headers->f[0] = '\0'` -/
def WsCtx.clear (ctx : WsCtx) (f : Field) : WsCtx :=
  ctx.set f ⟨CString.empty, by cases f <;> decide⟩

/-- The bytes of a field. -/
def WsCtx.bytes (ctx : WsCtx) (f : Field) : Option (List Byte) :=
  (ctx.headers f).map fun v => v.text.bytes

section Set

variable {ctx : WsCtx} {f g : Field} {v : FieldText f}

@[simp]
theorem WsCtx.bytes_set : (ctx.set f v).bytes f = some v.text.bytes := by
  simp [WsCtx.bytes, WsCtx.set]

theorem WsCtx.bytes_set_of_ne (h : g ≠ f) : (ctx.set f v).bytes g = ctx.bytes g := by
  simp [WsCtx.bytes, WsCtx.set, h]

theorem WsCtx.bytes_clear_of_ne (h : g ≠ f) : (ctx.clear f).bytes g = ctx.bytes g :=
  WsCtx.bytes_set_of_ne h

end Set

/-! ## The parser -/

inductive Misuse
  | overflow (f : Field)
  | unterminated (f : Field)
  | divisionByZero
deriving DecidableEq, Repr

inductive Outcome
  | misused (m : Misuse)
  /-- Zero, with what is logged. -/
  | refused (err : String) (ctx : WsCtx)
  | accepted (ctx : WsCtx)

/-- Only a request that has not been refused is parsed any further. -/
def Outcome.andThen : Outcome → (WsCtx → Outcome) → Outcome
  | .accepted ctx, k => k ctx
  | o, _ => o

abbrev crlf : List Byte := [0x0D, 0x0A]

abbrev blank : Byte := 0x20

/-- `"\r\n"`, the name of a header and `": "` -/
def headerMark (name : String) : List Byte := crlf ++ ascii name ++ [0x3A, blank]

/-- The text behind the first header of this name. -/
def findHeader (text : List Byte) (name : String) : Option (List Byte) :=
  (strcasestr (headerMark name) text).map fun start => start.drop (headerMark name).length

/-- `strncpy`, with a zero behind what it copies. -/
def copyField (f : Field) (value : List Byte) (ctx : WsCtx) : Outcome :=
  let text := CString.ofBuffer value
  if h : value.length < f.size then
    .accepted (ctx.set f ⟨text, (List.takeWhile_prefix _).length_le.trans_lt h⟩)
  else .misused (.overflow f)

/-- The rest of a line. -/
def copyLine (f : Field) (start : List Byte) (ctx : WsCtx) : Outcome :=
  match upTo crlf start with
  | none => .misused (.unterminated f)
  | some value => copyField f value ctx

/-- Headers that must not be missing, one after the other. -/
def copyHeaders (text : List Byte) : List (String × Field) → WsCtx → Outcome
  | [], ctx => .accepted ctx
  | (name, f) :: rest, ctx =>
    match findHeader text name with
    | none => .refused ("missing " ++ name ++ " header") ctx
    | some start => (copyLine f start ctx).andThen (copyHeaders text rest)

/-- `strtol` to the base of ten. -/
def strtol (s : List Byte) : ℤ :=
  let digits := fun s : List Byte =>
    (s.takeWhile fun b => 0x30 ≤ b ∧ b ≤ 0x39).foldl (fun n b => 10 * n + (b.toNat - 0x30 : ℤ)) 0
  let value :=
    match s.dropWhile fun b => isspace b with
    | [] => 0
    | b :: s => if b = 0x2D then -digits s else if b = 0x2B then digits s else digits (b :: s)
  max (-2 ^ 63) (min (2 ^ 63 - 1) value)

/-- Where the origin is looked for. -/
def originName (text : List Byte) : String :=
  if (findHeader text "Origin").isSome then "Origin" else "Sec-WebSocket-Origin"

def hybiHeaders : List (String × Field) :=
  [("Sec-WebSocket-Key", .key1), ("Connection", .connection), ("Sec-WebSocket-Protocol", .protocols)]

def hixieHeaders : List (String × Field) :=
  [("Sec-WebSocket-Key1", .key1), ("Sec-WebSocket-Key2", .key2)]

def parseHybi (text : List Byte) (ctx : WsCtx) : Outcome :=
  (copyHeaders text [("Sec-WebSocket-Version", .version)] ctx).andThen fun ctx =>
    let version := strtol ((ctx.bytes .version).getD [])
    copyHeaders text hybiHeaders { ctx with hixie := 0, hybi := (BitVec.ofInt 32 version).toInt }

/-- What is behind the empty line. -/
def bodyOf (text : List Byte) : Option (List Byte) :=
  (strstr (crlf ++ crlf) text).map fun start => start.drop 4

def parseHixie (text : List Byte) (ctx : WsCtx) : Outcome :=
  let ctx := { ctx with hybi := 0 }
  match bodyOf text with
  | none => .refused "headers too large" ctx
  | some start =>
    if start.length = 8 then
      (copyField .key3 start { ctx with hixie := 76 }).andThen (copyHeaders text hixieHeaders)
    else .accepted { ctx with hixie := 75 }

/-- Whether the text is long enough, is a GET request and asks for an upgrade. -/
def isUpgrade (text : List Byte) : Bool :=
  92 ≤ text.length ∧ text.take 4 = ascii "GET " ∧
    (strcasestr (ascii "Upgrade: websocket") text).isSome

def parse_handshake (handshake : CString) (ctx : WsCtx) : Outcome :=
  let text := handshake.bytes
  let ctx := ((ctx.clear .key1).clear .key2).clear .key3
  if !isUpgrade text then .refused "not a GET request, or missing Upgrade header" ctx
  else
    match upTo (ascii " HTTP/1.1") (text.drop 4) with
    | none => .refused "not HTTP" ctx
    | some path =>
      (copyField .path path ctx).andThen fun ctx =>
      (copyHeaders text [("Host", .host)] ctx).andThen fun ctx =>
      (copyHeaders text [(originName text, .origin)] (ctx.clear .origin)).andThen fun ctx =>
      if (findHeader text "Sec-WebSocket-Version").isSome then parseHybi text ctx
      else parseHixie text ctx

/-! ## Receiving -/

inductive Received
  | readError
  | closed
  | tooLarge
  | incomplete
  | complete (handshake : CString)
deriving DecidableEq

/-- The loop of `do_handshake`. What a call of `ws_recv` returns fits the rest of the buffer, where
one byte is left for the zero. -/
def receive : ℕ → List Byte → List (Option (List Byte)) → Received
  | _, _, [] => .closed
  | _, _, none :: _ => .readError
  | i, buf, some chunk :: more =>
    if chunk = [] then .closed
    else
      let buf := buf ++ chunk.take (16 * 1024 - (buf.length + 1))
      let handshake := CString.ofBuffer buf
      if (strstr (crlf ++ crlf) handshake.bytes).isSome then .complete handshake
      else if 16 * 1024 ≤ buf.length + 1 then .tooLarge
      else if i = 9 then .incomplete
      else receive (i + 1) buf more

/-! ## The numbers of hixie 76 -/

/-- The loop of `parse_hixie76_key`: the digits, as a number, and the blanks. -/
def hixieLoop (key : List Byte) : BitVec 64 × ℕ :=
  key.foldl (fun (num, spaces) b =>
    (if 0x30 ≤ b ∧ b ≤ 0x39 then num * 10 + (b.setWidth 64 - 0x30) else num,
      if b = blank then spaces + 1 else spaces)) (0, 0)

/-- The quotient, as an `int`. -/
def parse_hixie76_key (key : List Byte) : Except Misuse (BitVec 32) :=
  let (num, spaces) := hixieLoop key
  if spaces = 0 then .error .divisionByZero else .ok ((num / BitVec.ofNat 64 spaces).setWidth 32)

/-- The last four bytes of a word, the highest first. -/
def bigEndian (key : BitVec 64) : List Byte :=
  [(key >>> 24).setWidth 8, (key >>> 16).setWidth 8, (key >>> 8).setWidth 8, key.setWidth 8]

section Trailer

variable (md5 : List Byte → List Byte)

def gen_md5 (ctx : WsCtx) : Except Misuse (List Byte) := do
  let key1 ← parse_hixie76_key ((ctx.bytes .key1).getD [])
  let key2 ← parse_hixie76_key ((ctx.bytes .key2).getD [])
  .ok (md5 (bigEndian (key1.signExtend 64) ++ bigEndian (key2.signExtend 64) ++
    (ctx.bytes .key3).getD []))

/-- The trailer of the answer in `do_handshake`. The hybi protocols have none. -/
def serverTrailer (ctx : WsCtx) : Except Misuse (Option (List Byte)) :=
  if ctx.hybi > 0 then .ok none
  else if ctx.hixie = 76 then (gen_md5 md5 ctx).map some
  else .ok (some [])

end Trailer

/-! ## Which texts are copied -/

/-- The fields that the parser gets to, with the texts behind the names of their headers. It goes
on up to the first header that is missing. -/
def reached (text : List Byte) : List (String × Field) → List (Field × List Byte)
  | [] => []
  | (name, f) :: rest =>
    match findHeader text name with
    | none => []
    | some start => (f, start) :: reached text rest

def AllFound (text : List Byte) (headers : List (String × Field)) : Prop :=
  ∀ p ∈ headers, (findHeader text p.1).isSome

/-- What is before the end mark fits the field. -/
def EndsWithin (mark start : List Byte) (f : Field) : Prop :=
  ∃ value, value ++ mark <+: start ∧ value.length < f.size

/-- The field has exactly what is before the first end mark. -/
def Holds (mark start : List Byte) (f : Field) (ctx : WsCtx) : Prop :=
  ∃ value, ctx.bytes f = some value ∧
    value ++ mark <+: start ∧ ∀ w, w ++ mark <+: start → value.length ≤ w.length

section Reached

variable {text : List Byte} {name : String} {f : Field} {start : List Byte}
  {headers rest : List (String × Field)}

theorem reached_of_none (h : findHeader text name = none) :
    reached text ((name, f) :: rest) = [] := by
  rw [reached, h]

theorem reached_of_some (h : findHeader text name = some start) :
    reached text ((name, f) :: rest) = (f, start) :: reached text rest := by
  rw [reached, h]

theorem allFound_cons {p : String × Field} :
    AllFound text (p :: rest) ↔ (findHeader text p.1).isSome ∧ AllFound text rest :=
  List.forall_mem_cons

theorem allFound_append :
    AllFound text (headers ++ rest) ↔ AllFound text headers ∧ AllFound text rest :=
  List.forall_mem_append

theorem reached_append_of_allFound (h : AllFound text headers) :
    reached text (headers ++ rest) = reached text headers ++ reached text rest := by
  induction headers with
  | nil => rfl
  | cons p headers ih =>
    obtain ⟨hp, hheaders⟩ := allFound_cons.mp h
    obtain ⟨start, hstart⟩ := Option.isSome_iff_exists.mp hp
    rw [List.cons_append, reached_of_some hstart, reached_of_some hstart, ih hheaders]
    rfl

theorem reached_append_of_not_allFound (h : ¬AllFound text headers) :
    reached text (headers ++ rest) = reached text headers := by
  induction headers with
  | nil => exact absurd (fun _ hp => nomatch hp) h
  | cons p headers ih =>
    cases hstart : findHeader text p.1 with
    | none => rw [List.cons_append, reached_of_none hstart, reached_of_none hstart]
    | some start =>
      rw [allFound_cons, hstart, Option.isSome_some, eq_self, true_and] at h
      rw [List.cons_append, reached_of_some hstart, reached_of_some hstart, ih h]

theorem forall_reached_append {Q : Field × List Byte → Prop} :
    (∀ r ∈ reached text (headers ++ rest), Q r) ↔
      (∀ r ∈ reached text headers, Q r) ∧ (AllFound text headers → ∀ r ∈ reached text rest, Q r) := by
  by_cases h : AllFound text headers
  · rw [reached_append_of_allFound h, List.forall_mem_append, forall_prop_of_true h]
  · rw [reached_append_of_not_allFound h]
    exact (and_iff_left fun hfound => absurd hfound h).symm

/-- A field that is reached is one of those that are asked for. -/
theorem mem_of_mem_reached {r : Field × List Byte} (h : r ∈ reached text headers) :
    r.1 ∈ headers.map Prod.snd := by
  induction headers with
  | nil => cases h
  | cons p headers ih =>
    cases hstart : findHeader text p.1 with
    | none =>
      rw [reached_of_none hstart] at h
      cases h
    | some start =>
      rw [reached_of_some hstart] at h
      rcases List.mem_cons.mp h with rfl | hmem
      · exact List.mem_cons_self
      · exact List.mem_cons_of_mem _ (ih hmem)

end Reached

/-! ## What a part of the parser does -/

/-- A part of the parser is misused unless it is safe. Otherwise it is refused unless the request
is complete, and the fields are as they should be in both cases. -/
def Outcome.Spec (o : Outcome) (safe complete : Prop) (P : WsCtx → Prop) : Prop :=
  match o with
  | .misused _ => ¬safe
  | .refused _ ctx => safe ∧ ¬complete ∧ P ctx
  | .accepted ctx => safe ∧ complete ∧ P ctx

namespace Outcome.Spec

variable {o : Outcome} {safe complete safe' complete' : Prop} {P Q : WsCtx → Prop}

theorem mono (h : o.Spec safe complete P) (hsafe : safe ↔ safe') (hcomplete : complete ↔ complete')
    (hP : ∀ ctx, safe → P ctx → Q ctx) : o.Spec safe' complete' Q := by
  cases o with
  | misused m => exact fun hnot => h (hsafe.mpr hnot)
  | refused err ctx => exact ⟨hsafe.mp h.1, fun hc => h.2.1 (hcomplete.mpr hc), hP ctx h.1 h.2.2⟩
  | accepted ctx => exact ⟨hsafe.mp h.1, hcomplete.mp h.2.1, hP ctx h.1 h.2.2⟩

/-- **One part after the other.** The second one is reached with a complete first one. -/
theorem andThen {k : WsCtx → Outcome} (ho : o.Spec safe complete P)
    (hk : ∀ ctx, complete → P ctx → (k ctx).Spec safe' complete' Q)
    (hrefused : ∀ ctx, ¬complete → P ctx → Q ctx) :
    (o.andThen k).Spec (safe ∧ (complete → safe')) (complete ∧ complete') Q := by
  cases o with
  | misused m => exact fun hsafe => ho hsafe.1
  | refused err ctx =>
    obtain ⟨hsafe, hnot, hP⟩ := ho
    exact ⟨⟨hsafe, fun hc => absurd hc hnot⟩, fun hc => hnot hc.1, hrefused ctx hnot hP⟩
  | accepted ctx =>
    obtain ⟨hsafe, hc, hP⟩ := ho
    refine (hk ctx hc hP).mono ?_ ?_ fun _ _ hQ => hQ
    · exact ⟨fun h => ⟨hsafe, fun _ => h⟩, fun h => h.2 hc⟩
    · exact (and_iff_right hc).symm

end Outcome.Spec

/-- Only these fields have been written. -/
structure Keeps (fields : List Field) (ctx ctx' : WsCtx) : Prop where
  others : ∀ g ∉ fields, ctx'.bytes g = ctx.bytes g
  hixie : ctx'.hixie = ctx.hixie
  hybi : ctx'.hybi = ctx.hybi

theorem Holds.kept {mark start : List Byte} {f : Field} {ctx ctx' : WsCtx}
    (h : Holds mark start f ctx) (hsame : ctx'.bytes f = ctx.bytes f) : Holds mark start f ctx' := by
  obtain ⟨value, hvalue, hfirst⟩ := h
  exact ⟨value, hsame.trans hvalue, hfirst⟩

/-- The fields of the headers before stay as they are. -/
theorem holds_kept {text : List Byte} {headers : List (String × Field)} {ctx ctx' : WsCtx}
    (h : ∀ r ∈ reached text headers, Holds crlf r.2 r.1 ctx)
    (hsame : ∀ g ∈ headers.map Prod.snd, ctx'.bytes g = ctx.bytes g) :
    ∀ r ∈ reached text headers, Holds crlf r.2 r.1 ctx' := fun r hr =>
  (h r hr).kept (hsame r.1 (mem_of_mem_reached hr))

section Parts

variable {mark start text value : List Byte} {f : Field} {ctx : WsCtx}

theorem copyField_spec (hnul : 0 ∉ value) :
    (copyField f value ctx).Spec (value.length < f.size) True fun ctx' =>
      ctx'.bytes f = some value ∧ Keeps [f] ctx ctx' := by
  rw [copyField]
  split
  · next h =>
      refine ⟨h, trivial, ?_, fun g hg => ?_, rfl, rfl⟩
      · rw [WsCtx.bytes_set, CString.bytes_ofBuffer_of_not_mem hnul]
      · exact WsCtx.bytes_set_of_ne fun heq => hg (heq ▸ List.mem_cons_self)
  · next h => exact h

theorem copyLine_spec (hnul : 0 ∉ start) :
    (copyLine f start ctx).Spec (EndsWithin crlf start f) True fun ctx' =>
      Holds crlf start f ctx' ∧ Keeps [f] ctx ctx' := by
  rw [copyLine]
  split
  · next hnone =>
      intro hends
      obtain ⟨value, hvalue, -⟩ := exists_upTo_iff.mpr hends
      exact absurd (hnone.symm.trans hvalue) nofun
  · next value hvalue =>
      have hfirst := upTo_eq_some_iff.mp hvalue
      have hmem : 0 ∉ value := fun h => hnul (hfirst.1.subset (List.mem_append_left _ h))
      refine (copyField_spec hmem).mono ?_ Iff.rfl fun ctx' _ h => ⟨⟨value, h.1, hfirst⟩, h.2⟩
      constructor
      · exact fun h => ⟨value, hfirst.1, h⟩
      · rintro ⟨w, hw, hlt⟩
        exact (hfirst.2 w hw).trans_lt hlt

theorem notMem_findHeader (hnul : 0 ∉ text) {name : String} (h : findHeader text name = some start) :
    0 ∉ start := by
  obtain ⟨t, ht, rfl⟩ := Option.map_eq_some_iff.mp h
  exact fun hmem => hnul ((firstSuffix_eq_some_iff.mp ht).1.1.subset (List.mem_of_mem_drop hmem))

theorem copyHeaders_spec (hnul : 0 ∉ text) : ∀ {headers : List (String × Field)} (ctx : WsCtx),
    (headers.map Prod.snd).Nodup →
    (copyHeaders text headers ctx).Spec (∀ r ∈ reached text headers, EndsWithin crlf r.2 r.1)
      (AllFound text headers) fun ctx' =>
        (∀ r ∈ reached text headers, Holds crlf r.2 r.1 ctx') ∧
          Keeps (headers.map Prod.snd) ctx ctx'
  | [], ctx, _ => ⟨nofun, nofun, nofun, fun _ _ => rfl, rfl, rfl⟩
  | (name, f) :: rest, ctx, hnodup => by
    obtain ⟨hf, hrest⟩ := List.nodup_cons.mp hnodup
    rw [copyHeaders]
    split
    · next hnone =>
        rw [reached_of_none hnone]
        refine ⟨nofun, fun hall => ?_, nofun, fun _ _ => rfl, rfl, rfl⟩
        rw [allFound_cons, hnone] at hall
        exact absurd hall.1 nofun
    · next start hstart =>
        rw [reached_of_some hstart]
        refine ((copyLine_spec (notMem_findHeader hnul hstart)).andThen
          (fun ctx' _ h => (copyHeaders_spec hnul ctx' hrest).mono Iff.rfl Iff.rfl
            fun ctx'' _ h' => ?_) fun _ hnot => absurd trivial hnot).mono ?_ ?_ fun _ _ h => h
        · -- the fields behind it are other ones
          obtain ⟨hholds, hkeeps⟩ := h
          refine ⟨List.forall_mem_cons.mpr ⟨hholds.kept (h'.2.others f hf), h'.1⟩, fun g hg => ?_,
            h'.2.hixie.trans hkeeps.hixie, h'.2.hybi.trans hkeeps.hybi⟩
          obtain ⟨hgf, hg⟩ := not_or.mp (List.mem_cons.not.mp hg)
          exact (h'.2.others g hg).trans (hkeeps.others g (List.mem_singleton.not.mpr hgf))
        · rw [List.forall_mem_cons, true_imp_iff]
        · rw [allFound_cons, hstart, true_and]
          exact (and_iff_right rfl).symm

end Parts

theorem mem_reached {headers : List (String × Field)} {text start : List Byte} {p : String × Field}
    (hall : AllFound text headers) (hp : p ∈ headers) (hstart : findHeader text p.1 = some start) :
    (p.2, start) ∈ reached text headers := by
  induction headers with
  | nil => cases hp
  | cons q headers ih =>
    obtain ⟨hq, hheaders⟩ := allFound_cons.mp hall
    obtain ⟨start', hstart'⟩ := Option.isSome_iff_exists.mp hq
    rw [reached_of_some hstart']
    rcases List.mem_cons.mp hp with rfl | hmem
    · cases hstart.symm.trans hstart'
      exact List.mem_cons_self
    · exact List.mem_cons_of_mem _ (ih hheaders hmem)

/-! ## The whole text -/

def versionHeader : String × Field := ("Sec-WebSocket-Version", .version)

/-- There is no version, and eight bytes are behind the empty line. -/
def Hixie76 (text : List Byte) : Prop :=
  findHeader text versionHeader.1 = none ∧ (bodyOf text).map List.length = some 8

instance (text : List Byte) : Decidable (Hixie76 text) := inferInstanceAs (Decidable (_ ∧ _))

/-- The headers of the protocol that is asked for. -/
def variantHeaders (text : List Byte) : List (String × Field) :=
  if (findHeader text versionHeader.1).isSome then versionHeader :: hybiHeaders
  else if Hixie76 text then hixieHeaders
  else []

/-- All headers that are looked for, one after the other. -/
def wanted (text : List Byte) : List (String × Field) :=
  [("Host", .host)] ++ ([(originName text, .origin)] ++ variantHeaders text)

/-- The path of a request that is parsed. -/
def requestedPath (text : List Byte) : Option (List Byte) :=
  if isUpgrade text then upTo (ascii " HTTP/1.1") (text.drop 4) else none

/-- The keys have a blank each, if there are any. -/
def KeysHaveBlanks (text : List Byte) : Prop :=
  Hixie76 text → AllFound text (wanted text) → ∀ p ∈ hixieHeaders, ∀ start value,
    findHeader text p.1 = some start → upTo crlf start = some value → blank ∈ value

/-- Each text that is copied ends before its field does, and the keys have blanks. -/
def WithinBounds (text : List Byte) : Prop :=
  ∀ path, requestedPath text = some path →
    (path.length < Field.size .path ∧ ∀ r ∈ reached text (wanted text), EndsWithin crlf r.2 r.1) ∧
      KeysHaveBlanks text

section Variant

variable {text : List Byte} {ctx : WsCtx}

/-- The fields that are written before the protocol is known. -/
def commonFields : List Field := [.path, .host, .origin]

/-- A request that has come this far is accepted. -/
def VariantComplete (text : List Byte) : Prop :=
  AllFound text (variantHeaders text) ∧
    ((findHeader text versionHeader.1).isSome ∨ (bodyOf text).isSome)

/-- What is known of the state behind the last header. -/
structure VariantParsed (text : List Byte) (ctx ctx' : WsCtx) : Prop where
  holds : ∀ r ∈ reached text (variantHeaders text), Holds crlf r.2 r.1 ctx'
  common : ∀ g ∈ commonFields, ctx'.bytes g = ctx.bytes g
  hixie76 : VariantComplete text → Hixie76 text → ctx'.hixie = 76 ∧ ctx'.hybi = 0
  others : VariantComplete text → ¬Hixie76 text → ctx'.hixie ≠ 76

theorem parseHybi_spec (hnul : 0 ∉ text) (hversion : (findHeader text versionHeader.1).isSome) :
    (parseHybi text ctx).Spec (∀ r ∈ reached text (variantHeaders text), EndsWithin crlf r.2 r.1)
      (VariantComplete text) (VariantParsed text ctx) := by
  have hnot : ¬Hixie76 text := fun h => by
    rw [h.1] at hversion
    cases hversion
  have hfound : AllFound text [versionHeader] := allFound_cons.mpr ⟨hversion, nofun⟩
  have hvariant : variantHeaders text = [versionHeader] ++ hybiHeaders := if_pos hversion
  have hcomplete : VariantComplete text ↔ AllFound text [versionHeader] ∧ AllFound text hybiHeaders := by
    rw [VariantComplete, hvariant, allFound_append]
    exact and_iff_left (Or.inl hversion)
  rw [hcomplete, hvariant, forall_reached_append]
  refine (copyHeaders_spec hnul ctx (by decide)).andThen
    (fun ctx' _ h => (copyHeaders_spec hnul _ (by decide)).mono Iff.rfl Iff.rfl
      fun ctx'' _ h' => ?_) fun _ hnone => absurd hfound hnone
  obtain ⟨hholds, hkeeps⟩ := h
  obtain ⟨hholds', hkeeps'⟩ := h'
  refine ⟨?_, fun g hg => ?_, fun _ h => absurd h hnot, fun _ _ => ?_⟩
  · rw [hvariant, forall_reached_append]
    refine ⟨holds_kept hholds fun g hg => hkeeps'.others g ?_, fun _ => hholds'⟩
    revert g
    decide
  · have hother : g ∉ hybiHeaders.map Prod.snd ∧ g ∉ [versionHeader].map Prod.snd := by
      revert g
      decide
    exact (hkeeps'.others g hother.1).trans (hkeeps.others g hother.2)
  · rw [hkeeps'.hixie]
    exact (by decide : (0 : ℤ) ≠ 76)

theorem parseHixie_spec (hnul : 0 ∉ text) (hversion : ¬(findHeader text versionHeader.1).isSome) :
    (parseHixie text ctx).Spec (∀ r ∈ reached text (variantHeaders text), EndsWithin crlf r.2 r.1)
      (VariantComplete text) (VariantParsed text ctx) := by
  have hnone : findHeader text versionHeader.1 = none := by simpa using hversion
  have hcomplete : VariantComplete text ↔
      AllFound text (variantHeaders text) ∧ (bodyOf text).isSome :=
    and_congr_right fun _ => or_iff_right hversion
  -- neither of these has a header of its own
  have hempty : ¬Hixie76 text → ∀ {ctx' : WsCtx}, ctx'.headers = ctx.headers →
      ((bodyOf text).isSome → ctx'.hixie ≠ 76) →
      (∀ r ∈ reached text (variantHeaders text), EndsWithin crlf r.2 r.1) ∧
        AllFound text (variantHeaders text) ∧ VariantParsed text ctx ctx' := by
    intro hnot ctx' hheaders hne
    have hvariant : variantHeaders text = [] := by
      rw [variantHeaders, if_neg hversion, if_neg hnot]
    rw [hvariant]
    refine ⟨nofun, nofun, by rw [hvariant]; exact nofun, fun g _ => ?_, fun _ h => absurd h hnot,
      fun h _ => hne (hcomplete.mp h).2⟩
    rw [WsCtx.bytes, hheaders]
    rfl
  rw [parseHixie]
  dsimp only
  split
  · next hbody =>
      have hnot : ¬Hixie76 text := fun h => by
        rw [Hixie76, hbody] at h
        cases h.2
      have hsome : ¬(bodyOf text).isSome := by
        rw [hbody]
        decide
      obtain ⟨hends, -, hparsed⟩ := @hempty hnot { ctx with hybi := 0 } rfl fun h => absurd h hsome
      exact ⟨hends, fun h => hsome (hcomplete.mp h).2, hparsed⟩
  · next body hbody =>
      have hsome : (bodyOf text).isSome := by
        rw [hbody]
        rfl
      split
      · next hlength =>
          have hhixie : Hixie76 text := ⟨hnone, by rw [hbody]; exact congrArg some hlength⟩
          have hvariant : variantHeaders text = hixieHeaders := by
            rw [variantHeaders, if_neg hversion, if_pos hhixie]
          have hmem : 0 ∉ body := by
            obtain ⟨t, ht, rfl⟩ := Option.map_eq_some_iff.mp hbody
            rw [strstr_eq_firstSuffix, firstSuffix_eq_some_iff] at ht
            exact fun hzero => hnul (ht.1.1.subset (List.mem_of_mem_drop hzero))
          rw [hcomplete, hvariant]
          refine ((copyField_spec hmem).andThen
            (fun ctx' _ h => (copyHeaders_spec hnul ctx' (by decide)).mono Iff.rfl Iff.rfl
              fun ctx'' _ h' => ?_) fun _ hnot => absurd trivial hnot).mono ?_ ?_ fun _ _ h => h
          · obtain ⟨-, hkeeps⟩ := h
            obtain ⟨hholds', hkeeps'⟩ := h'
            refine ⟨by rw [hvariant]; exact hholds', fun g hg => ?_, fun _ _ => ?_,
              fun _ hnot => absurd hhixie hnot⟩
            · have hother : g ∉ hixieHeaders.map Prod.snd ∧ g ∉ [Field.key3] := by
                revert g
                decide
              exact (hkeeps'.others g hother.1).trans (hkeeps.others g hother.2)
            · rw [hkeeps'.hixie, hkeeps.hixie, hkeeps'.hybi, hkeeps.hybi]
              exact ⟨rfl, rfl⟩
          · rw [true_imp_iff]
            exact and_iff_right (by rw [hlength]; decide)
          · rw [true_and]
            exact (and_iff_left hsome).symm
      · next hlength =>
          have hnot : ¬Hixie76 text := fun h => by
            rw [Hixie76, hbody] at h
            exact hlength (Option.some.inj h.2)
          obtain ⟨hends, hfound, hparsed⟩ := @hempty hnot { ctx with hybi := 0, hixie := 75 } rfl
            fun _ => (by decide : (75 : ℤ) ≠ 76)
          exact ⟨hends, hcomplete.mpr ⟨hfound, hsome⟩, hparsed⟩

end Variant

/-! ## Soundness -/

section Sound

variable {text : List Byte} {ctx : WsCtx}

/-- No header is missing, and no empty line. -/
def IsAccepted (text : List Byte) : Prop :=
  AllFound text (wanted text) ∧ ((findHeader text versionHeader.1).isSome ∨ (bodyOf text).isSome)

/-- What is known of the state behind a request with a path. -/
structure Parsed (text : List Byte) (ctx' : WsCtx) : Prop where
  path : Holds (ascii " HTTP/1.1") (text.drop 4) .path ctx'
  headers : ∀ r ∈ reached text (wanted text), Holds crlf r.2 r.1 ctx'
  hixie76 : IsAccepted text → Hixie76 text → ctx'.hixie = 76 ∧ ctx'.hybi = 0
  others : IsAccepted text → ¬Hixie76 text → ctx'.hixie ≠ 76

theorem parseVariant_spec (hnul : 0 ∉ text) (ctx : WsCtx) :
    (if (findHeader text versionHeader.1).isSome then parseHybi text ctx
      else parseHixie text ctx).Spec
      (∀ r ∈ reached text (variantHeaders text), EndsWithin crlf r.2 r.1)
      (VariantComplete text) (VariantParsed text ctx) := by
  split
  · next h => exact parseHybi_spec hnul h
  · next h => exact parseHixie_spec hnul h

theorem isAccepted_iff : IsAccepted text ↔
    AllFound text [("Host", .host)] ∧ AllFound text [(originName text, .origin)] ∧
      VariantComplete text := by
  rw [IsAccepted, wanted, allFound_append, allFound_append, VariantComplete]
  tauto

/-- What the parser does from the path on. -/
theorem parseFields_spec {path : List Byte} (hnul : 0 ∉ text)
    (hpath : upTo (ascii " HTTP/1.1") (text.drop 4) = some path) (ctx : WsCtx) :
    ((copyField .path path ctx).andThen fun ctx =>
      (copyHeaders text [("Host", .host)] ctx).andThen fun ctx =>
      (copyHeaders text [(originName text, .origin)] (ctx.clear .origin)).andThen fun ctx =>
      if (findHeader text versionHeader.1).isSome then parseHybi text ctx
      else parseHixie text ctx).Spec
      (path.length < Field.size .path ∧ ∀ r ∈ reached text (wanted text), EndsWithin crlf r.2 r.1)
      (IsAccepted text) (Parsed text) := by
  have hfirst := upTo_eq_some_iff.mp hpath
  have hmem : 0 ∉ path := fun h =>
    hnul (List.mem_of_mem_drop (hfirst.1.subset (List.mem_append_left _ h)))
  have hsingle : ∀ {name : String} {f : Field}, ([(name, f)].map Prod.snd).Nodup :=
    fun {_ f} => List.nodup_cons.mpr ⟨List.not_mem_nil, List.nodup_nil⟩
  have hholds : ∀ {ctx₁ : WsCtx}, ctx₁.bytes .path = some path →
      Holds (ascii " HTTP/1.1") (text.drop 4) .path ctx₁ := fun h => ⟨path, h, hfirst⟩
  have hclear : ∀ {ctx₂ ctx₃ : WsCtx}, Keeps [.origin] (ctx₂.clear .origin) ctx₃ →
      ∀ g ≠ .origin, ctx₃.bytes g = ctx₂.bytes g := fun hkeeps g hg =>
    (hkeeps.others g (List.mem_singleton.not.mpr hg)).trans (WsCtx.bytes_clear_of_ne hg)
  rw [wanted, forall_reached_append, forall_reached_append, isAccepted_iff]
  refine ((copyField_spec hmem).andThen (fun ctx₁ _ h₁ =>
    (copyHeaders_spec hnul ctx₁ hsingle).andThen (fun ctx₂ hhost h₂ =>
      (copyHeaders_spec hnul (ctx₂.clear .origin) hsingle).andThen (fun ctx₃ horigin h₃ =>
        (parseVariant_spec hnul ctx₃).mono Iff.rfl Iff.rfl fun ctx₄ _ h₄ => ?_)
        fun ctx₃ hmissing h₃ => ?_)
      fun ctx₂ hmissing h₂ => ?_) fun _ hnot => absurd trivial hnot).mono ?_ ?_ fun _ _ h => h
  · -- nothing is missing
    have hpath := (hholds h₁.1).kept (h₂.2.others .path (by decide))
    have hpath := (hpath.kept (hclear h₃.2 .path (by decide))).kept (h₄.common .path (by decide))
    have hhost' : ∀ r ∈ reached text [("Host", .host)], Holds crlf r.2 r.1 ctx₄ := by
      refine holds_kept h₂.1 fun g hg => ?_
      obtain rfl := List.mem_singleton.mp hg
      exact (h₄.common .host (by decide)).trans (hclear h₃.2 .host (by decide))
    have horigin' : ∀ r ∈ reached text [(originName text, .origin)], Holds crlf r.2 r.1 ctx₄ := by
      refine holds_kept h₃.1 fun g hg => ?_
      obtain rfl := List.mem_singleton.mp hg
      exact h₄.common .origin (by decide)
    refine ⟨hpath, ?_, fun h => h₄.hixie76 (isAccepted_iff.mp h).2.2,
      fun h => h₄.others (isAccepted_iff.mp h).2.2⟩
    rw [wanted, forall_reached_append, forall_reached_append]
    exact ⟨hhost', fun _ => ⟨horigin', fun _ => h₄.holds⟩⟩
  · -- the origin is missing
    have hpath := (hholds h₁.1).kept (h₂.2.others .path (by decide))
    have hpath := hpath.kept (hclear h₃.2 .path (by decide))
    have hhost' : ∀ r ∈ reached text [("Host", .host)], Holds crlf r.2 r.1 ctx₃ := by
      refine holds_kept h₂.1 fun g hg => ?_
      obtain rfl := List.mem_singleton.mp hg
      exact hclear h₃.2 .host (by decide)
    refine ⟨hpath, ?_, fun h => absurd (isAccepted_iff.mp h).2.1 hmissing,
      fun h => absurd (isAccepted_iff.mp h).2.1 hmissing⟩
    rw [wanted, forall_reached_append, forall_reached_append]
    exact ⟨hhost', fun _ => ⟨h₃.1, fun h => absurd h hmissing⟩⟩
  · -- the host is missing
    have hpath := (hholds h₁.1).kept (h₂.2.others .path (by decide))
    refine ⟨hpath, ?_, fun h => absurd (isAccepted_iff.mp h).1 hmissing,
      fun h => absurd (isAccepted_iff.mp h).1 hmissing⟩
    rw [wanted, forall_reached_append]
    exact ⟨h₂.1, fun h => absurd h hmissing⟩
  · rw [true_imp_iff]
  · rw [true_and]

/-- The whole parser. -/
theorem parse_handshake_spec (handshake : CString) (ctx : WsCtx) :
    (parse_handshake handshake ctx).Spec
      (∀ path, requestedPath handshake.bytes = some path → path.length < Field.size .path ∧
        ∀ r ∈ reached handshake.bytes (wanted handshake.bytes), EndsWithin crlf r.2 r.1)
      ((requestedPath handshake.bytes).isSome ∧ IsAccepted handshake.bytes)
      fun ctx' => (requestedPath handshake.bytes).isSome → Parsed handshake.bytes ctx' := by
  rw [parse_handshake]
  cases hupgrade : isUpgrade handshake.bytes with
  | false =>
    have hnone : requestedPath handshake.bytes = none := by simp [requestedPath, hupgrade]
    rw [hnone]
    exact ⟨nofun, nofun, nofun⟩
  | true =>
    have hrequested : requestedPath handshake.bytes =
        upTo (ascii " HTTP/1.1") (handshake.bytes.drop 4) := by simp [requestedPath, hupgrade]
    rw [hrequested]
    cases hpath : upTo (ascii " HTTP/1.1") (handshake.bytes.drop 4) with
    | none => exact ⟨nofun, nofun, nofun⟩
    | some path =>
      refine (parseFields_spec handshake.no_nul hpath _).mono ?_ ?_ fun _ _ h _ => h
      · simp
      · simp

/-! ## Keys -/

theorem hixieLoop_spaces (key : List Byte) : (hixieLoop key).2 = key.count blank := by
  have hloop : ∀ acc : BitVec 64 × ℕ, (key.foldl (fun (num, spaces) b =>
      (if 0x30 ≤ b ∧ b ≤ 0x39 then num * 10 + (b.setWidth 64 - 0x30) else num,
        if b = blank then spaces + 1 else spaces)) acc).2 = acc.2 + key.count blank := by
    induction key with
    | nil => exact fun acc => rfl
    | cons b key ih =>
      intro acc
      rw [List.foldl_cons, ih, List.count_cons]
      dsimp only
      by_cases hb : b = blank
      · rw [if_pos hb, if_pos (beq_iff_eq.mpr hb)]
        omega
      · rw [if_neg hb, if_neg fun h => hb (beq_iff_eq.mp h)]
        rfl
  exact (hloop (0, 0)).trans (Nat.zero_add _)

theorem parse_hixie76_key_ok_iff {key : List Byte} :
    (∃ q, parse_hixie76_key key = .ok q) ↔ blank ∈ key := by
  rw [parse_hixie76_key]
  dsimp only
  rw [hixieLoop_spaces]
  split
  · next h => exact iff_of_false nofun (List.count_eq_zero.mp h)
  · next h => exact iff_of_true ⟨_, rfl⟩ (not_not.mp fun hnot => h (List.count_eq_zero.mpr hnot))

theorem gen_md5_ok_iff {md5 : List Byte → List Byte} {key1 key2 : List Byte}
    (h1 : ctx.bytes .key1 = some key1) (h2 : ctx.bytes .key2 = some key2) :
    (∃ digest, gen_md5 md5 ctx = .ok digest) ↔ blank ∈ key1 ∧ blank ∈ key2 := by
  rw [gen_md5, h1, h2, Option.getD_some, Option.getD_some, ← parse_hixie76_key_ok_iff,
    ← parse_hixie76_key_ok_iff]
  cases parse_hixie76_key key1 with
  | error m => exact iff_of_false nofun fun h => nomatch h.1
  | ok q1 =>
    cases parse_hixie76_key key2 with
    | error m => exact iff_of_false nofun fun h => nomatch h.2
    | ok q2 => exact iff_of_true ⟨_, rfl⟩ ⟨⟨q1, rfl⟩, q2, rfl⟩

/-- What the parser leaves, unless it is misused. -/
def Outcome.state : Outcome → Option WsCtx
  | .misused _ => none
  | .refused _ ctx => some ctx
  | .accepted ctx => some ctx

/-- The parser stays in its fields and writes to each what is before the end of its text, and the
trailer of the answer can be computed. -/
structure Sound (md5 : List Byte → List Byte) (handshake : CString) (ctx : WsCtx) : Prop where
  inBounds : ∀ m, parse_handshake handshake ctx ≠ .misused m
  written : ∀ ctx', (parse_handshake handshake ctx).state = some ctx' →
    (requestedPath handshake.bytes).isSome →
      Holds (ascii " HTTP/1.1") (handshake.bytes.drop 4) .path ctx' ∧
        ∀ r ∈ reached handshake.bytes (wanted handshake.bytes), Holds crlf r.2 r.1 ctx'
  divides : ∀ ctx', parse_handshake handshake ctx = .accepted ctx' →
    ∃ trailer, serverTrailer md5 ctx' = .ok trailer

/-- The trailer of an accepted request. -/
theorem serverTrailer_ok_iff {md5 : List Byte → List Byte} {ctx' : WsCtx}
    (haccepted : IsAccepted text) (hparsed : Parsed text ctx') :
    (∃ trailer, serverTrailer md5 ctx' = .ok trailer) ↔ KeysHaveBlanks text := by
  by_cases hhixie : Hixie76 text
  · obtain ⟨hhixie', hhybi⟩ := hparsed.hixie76 haccepted hhixie
    have hwanted : ∀ p ∈ hixieHeaders, p ∈ wanted text := by
      have hnone : ¬(findHeader text versionHeader.1).isSome := by
        rw [hhixie.1]
        decide
      rw [wanted, variantHeaders, if_neg hnone, if_pos hhixie]
      exact fun p hp => List.mem_append_right _ (List.mem_append_right _ hp)
    -- each key is what is in its header
    have hkey : ∀ p ∈ hixieHeaders, ∃ start key, findHeader text p.1 = some start ∧
        upTo crlf start = some key ∧ ctx'.bytes p.2 = some key := by
      intro p hp
      obtain ⟨start, hstart⟩ := Option.isSome_iff_exists.mp (haccepted.1 p (hwanted p hp))
      obtain ⟨key, hkey, hfirst⟩ :=
        hparsed.headers _ (mem_reached haccepted.1 (hwanted p hp) hstart)
      exact ⟨start, key, hstart, upTo_eq_some_iff.mpr hfirst, hkey⟩
    obtain ⟨start1, key1, hstart1, hupTo1, hkey1⟩ := hkey _ List.mem_cons_self
    obtain ⟨start2, key2, hstart2, hupTo2, hkey2⟩ :=
      hkey _ (List.mem_cons_of_mem _ List.mem_cons_self)
    have hok : (∃ trailer, serverTrailer md5 ctx' = .ok trailer) ↔ blank ∈ key1 ∧ blank ∈ key2 := by
      rw [serverTrailer, if_neg (by rw [hhybi]; decide), if_pos hhixie', ← gen_md5_ok_iff hkey1 hkey2]
      cases gen_md5 md5 ctx' with
      | error m => exact iff_of_false nofun nofun
      | ok digest => exact iff_of_true ⟨_, rfl⟩ ⟨_, rfl⟩
    rw [hok]
    constructor
    · rintro ⟨hblank1, hblank2⟩ - - p hp start value hstart hvalue
      rcases List.mem_pair.mp hp with rfl | rfl
      · cases hstart.symm.trans hstart1
        cases hvalue.symm.trans hupTo1
        exact hblank1
      · cases hstart.symm.trans hstart2
        cases hvalue.symm.trans hupTo2
        exact hblank2
    · intro h
      exact ⟨h hhixie haccepted.1 _ List.mem_cons_self _ _ hstart1 hupTo1,
        h hhixie haccepted.1 _ (List.mem_cons_of_mem _ List.mem_cons_self) _ _ hstart2 hupTo2⟩
  · refine iff_of_true ?_ fun h => absurd h hhixie
    rw [serverTrailer]
    split
    · exact ⟨_, rfl⟩
    · rw [if_neg (hparsed.others haccepted hhixie)]
      exact ⟨_, rfl⟩

/-- **The handshake is parsed within bounds**, and no key is divided by zero, if and only if each
text that is copied ends before its field does and the keys have blanks. -/
theorem parse_handshake_sound_iff (md5 : List Byte → List Byte) (handshake : CString) (ctx : WsCtx) :
    Sound md5 handshake ctx ↔ WithinBounds handshake.bytes := by
  have hspec := parse_handshake_spec handshake ctx
  constructor
  · intro h path hpath
    have hsome : (requestedPath handshake.bytes).isSome := by
      rw [hpath]
      rfl
    cases hparse : parse_handshake handshake ctx with
    | misused m => exact absurd hparse (h.inBounds m)
    | refused err ctx' =>
      rw [hparse] at hspec
      obtain ⟨hsafe, hnot, -⟩ := hspec
      refine ⟨hsafe path hpath, fun hhixie hall => absurd ⟨hsome, hall, Or.inr ?_⟩ hnot⟩
      rw [← Option.isSome_map, hhixie.2]
      rfl
    | accepted ctx' =>
      rw [hparse] at hspec
      obtain ⟨hsafe, haccepted, hparsed⟩ := hspec
      exact ⟨hsafe path hpath,
        (serverTrailer_ok_iff haccepted.2 (hparsed hsome)).mp (h.divides ctx' hparse)⟩
  · intro h
    have hsafe := fun path hpath => (h path hpath).1
    cases hparse : parse_handshake handshake ctx with
    | misused m =>
      rw [hparse] at hspec
      exact absurd hsafe hspec
    | refused err ctx' =>
      rw [hparse] at hspec
      refine ⟨fun m => by rw [hparse]; exact nofun, ?_, fun ctx'' h => ?_⟩
      · intro ctx'' hstate hsome
        rw [hparse] at hstate
        cases hstate
        exact ⟨(hspec.2.2 hsome).path, (hspec.2.2 hsome).headers⟩
      · rw [hparse] at h
        cases h
    | accepted ctx' =>
      rw [hparse] at hspec
      obtain ⟨-, ⟨hsome, haccepted⟩, hparsed⟩ := hspec
      refine ⟨fun m => by rw [hparse]; exact nofun, ?_, fun ctx'' h' => ?_⟩
      · intro ctx'' hstate _
        rw [hparse] at hstate
        cases hstate
        exact ⟨(hparsed hsome).path, (hparsed hsome).headers⟩
      · rw [hparse] at h'
        cases h'
        obtain ⟨path, hpath⟩ := Option.isSome_iff_exists.mp hsome
        exact (serverTrailer_ok_iff haccepted (hparsed hsome)).mpr (h path hpath).2

end Sound

/-- A request whose host is behind the empty line, without an end. -/
def hostInBody : List Byte :=
  ascii "GET / HTTP/1.1\r\nUpgrade: WebSocket\r\n\r\n" ++ List.replicate 60 blank ++
    ascii "\r\nHost: h"

def unwritten : WsCtx := ⟨fun _ => none, 0, 0⟩

theorem hostInBody_unterminated :
    receive 0 [] [some hostInBody] = .complete (CString.ofBuffer hostInBody) ∧
      ¬Sound id (CString.ofBuffer hostInBody) unwritten := by
  have hreceive : receive 0 [] [some hostInBody] = .complete (CString.ofBuffer hostInBody) := by
    rw [hostInBody, ascii_ofList, ascii_ofList]
    decide
  have hmisused : (parse_handshake (CString.ofBuffer hostInBody) unwritten).state.isNone := by
    rw [hostInBody, ascii_ofList, ascii_ofList]
    decide
  refine ⟨hreceive, fun h => ?_⟩
  cases hparse : parse_handshake (CString.ofBuffer hostInBody) unwritten with
  | misused m => exact h.inBounds m hparse
  | refused err ctx =>
    rw [hparse] at hmisused
    cases hmisused
  | accepted ctx =>
    rw [hparse] at hmisused
    cases hmisused

end KasmVNC.Network
