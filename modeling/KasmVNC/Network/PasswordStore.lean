import KasmVNC.Network.Kasmpasswd

/-!
# What a change does to the password file

The entries that are read back after a change are those that were there before, with what
was asked for changed, if nothing that is stored contains a separator. Nobody checks that:
a colon or the end of a line in a name moves the fields of this line, or makes another
line. A name that the file has more than once is changed in its first line only.
-/

namespace KasmVNC.Network

open KasmVNC.Lib

/-! ## Lines -/

/-- A string that can be a field of a line. -/
def Separable (s : CString) : Prop := colon ∉ s.bytes ∧ newline ∉ s.bytes

instance (s : CString) : Decidable (Separable s) := inferInstanceAs (Decidable (_ ∧ _))

namespace KasmpasswdEntry

def Clean (e : KasmpasswdEntry) : Prop := Separable e.user ∧ Separable e.password

variable {e : KasmpasswdEntry}

/-- The letters of the permissions. -/
def perms (e : KasmpasswdEntry) : List Byte :=
  (if e.read then [0x72] else []) ++ (if e.write then [0x77] else []) ++
    if e.owner then [0x6F] else []

/-- The line without its end. -/
def body (e : KasmpasswdEntry) : List Byte :=
  e.user.bytes ++ colon :: (e.password.bytes ++ colon :: e.perms)

theorem line_eq (e : KasmpasswdEntry) : e.line = e.body ++ newline :: [] := by
  simp [line, body, perms, List.append_assoc]

theorem perms_mem : ∀ b ∈ e.perms, b ≠ 0 ∧ b ≠ newline := by
  intro b hb
  have hletter : b = 0x72 ∨ b = 0x77 ∨ b = 0x6F := by
    simp only [perms, List.mem_append, List.mem_ite_nil_right, List.mem_singleton] at hb
    rcases hb with (⟨-, hb⟩ | ⟨-, hb⟩) | ⟨-, hb⟩
    · exact Or.inl hb
    · exact Or.inr (Or.inl hb)
    · exact Or.inr (Or.inr hb)
  rcases hletter with rfl | rfl | rfl <;> decide

theorem notMem_body {b : Byte} (hcolon : b ≠ colon) (huser : b ∉ e.user.bytes)
    (hpassword : b ∉ e.password.bytes) (hperms : b ∉ e.perms) : b ∉ e.body := by
  simp only [body, List.mem_append, List.mem_cons, not_or]
  exact ⟨huser, hcolon, hpassword, hcolon, hperms⟩

theorem newline_notMem_body (h : e.Clean) : newline ∉ e.body :=
  notMem_body (by decide) h.1.2 h.2.2 fun hb => (perms_mem _ hb).2 rfl

theorem nul_notMem_line (e : KasmpasswdEntry) : (0 : Byte) ∉ e.line := by
  have hbody : (0 : Byte) ∉ e.body :=
    notMem_body (by decide) e.user.no_nul e.password.no_nul fun hb => (perms_mem _ hb).1 rfl
  rw [line_eq, List.mem_append, not_or]
  exact ⟨hbody, by decide⟩

theorem length_body (e : KasmpasswdEntry) : e.body.length < 4095 := by
  have huser : e.user.bytes.length < 128 := e.user_lt
  have hpassword : e.password.bytes.length < 128 := e.password_lt
  have hperms : e.perms.length ≤ 3 := by
    unfold perms
    cases e.read <;> cases e.write <;> cases e.owner <;> decide
  simp only [body, List.length_append, List.length_cons]
  omega

/-- A written line is read back. -/
theorem parseLine_line (h : e.Clean) : parseLine e.line = some e := by
  obtain ⟨⟨huser, -⟩, hpassword, -⟩ := h
  have hbytes : (CString.ofBuffer e.line).bytes = e.user.bytes ++ colon ::
      (e.password.bytes ++ colon :: (e.perms ++ newline :: [])) := by
    rw [CString.bytes_ofBuffer_of_not_mem e.nul_notMem_line, line_eq]
    simp [body]
  have htake : (e.perms ++ newline :: []).takeWhile (· ≠ newline) = e.perms := by
    rw [List.takeWhile_append_of_pos, List.takeWhile_cons_of_neg (by decide), List.append_nil]
    exact fun b hb => decide_eq_true (perms_mem b hb).2
  have hself : ∀ s : CString, CString.ofBuffer s.bytes = s := fun s =>
    CString.ext (CString.bytes_ofBuffer_of_not_mem s.no_nul)
  have hflags : e.perms.contains 0x72 = e.read ∧ e.perms.contains 0x77 = e.write ∧
      e.perms.contains 0x6F = e.owner := by
    unfold perms
    cases e.read <;> cases e.write <;> cases e.owner <;> decide
  have hfits : ¬e.user.bytes.length + 1 > USERNAME_LEN := by
    have := e.user_lt
    omega
  have hfits' : ¬e.password.bytes.length + 1 > PASSWORD_LEN := by
    have := e.password_lt
    omega
  simp only [parseLine, hbytes, cut_append _ huser, cut_append _ hpassword, htake, hself,
    Option.bind_eq_bind, Option.bind_some, dif_neg hfits, dif_neg hfits', hflags]

end KasmpasswdEntry

/-! ## Reading back -/

/-- Whatever the file holds, the entries have no separators in them. -/
theorem clean_of_mem_read {file : List Byte} {e : KasmpasswdEntry}
    (he : e ∈ readkasmpasswd file) : e.Clean := by
  obtain ⟨buf, hbuf, hparse⟩ := List.mem_filterMap.mp he
  obtain ⟨tail, hbytes⟩ : ∃ tail, buf = (CString.ofBuffer buf).bytes ++ tail :=
    ⟨buf.dropWhile (· ≠ 0), List.takeWhile_append_dropWhile.symm⟩
  unfold parseLine at hparse
  simp only [Option.bind_eq_bind, Option.bind_eq_some_iff] at hparse
  obtain ⟨⟨user, rest⟩, hcut, ⟨pw, perms⟩, hcut', hparse⟩ := hparse
  obtain ⟨hsplit, huser⟩ := of_cut_eq_some hcut
  obtain ⟨rfl, hpw⟩ := of_cut_eq_some hcut'
  -- a newline is the last byte of what was read, and there is a colon behind both fields
  have hlast : ∀ before behind, buf = before ++ newline :: behind → behind = [] :=
    fun before behind h => eq_nil_of_mem_fgetsLines List.not_mem_nil (h ▸ hbuf)
  have hnul : (0 : Byte) ∉ user ++ colon :: (pw ++ colon :: perms) :=
    hsplit ▸ (CString.ofBuffer buf).no_nul
  simp only [List.mem_append, List.mem_cons, not_or] at hnul
  have huser' : newline ∉ user := by
    intro h
    obtain ⟨before, behind, rfl⟩ := List.append_of_mem h
    have hnil := hlast before (behind ++ colon :: (pw ++ colon :: perms) ++ tail)
      (by rw [hbytes, hsplit]; simp)
    simp at hnil
  have hpw' : newline ∉ pw := by
    intro h
    obtain ⟨before, behind, rfl⟩ := List.append_of_mem h
    have hnil := hlast (user ++ colon :: before) (behind ++ colon :: perms ++ tail)
      (by rw [hbytes, hsplit]; simp)
    simp at hnil
  dsimp only at hparse
  split at hparse
  · cases hparse
  split at hparse
  · cases hparse
  cases hparse
  unfold KasmpasswdEntry.Clean Separable
  dsimp only
  rw [CString.bytes_ofBuffer_of_not_mem hnul.1, CString.bytes_ofBuffer_of_not_mem hnul.2.2.1]
  exact ⟨⟨huser, huser'⟩, hpw, hpw'⟩

theorem read_lines : ∀ {set : List KasmpasswdEntry}, (∀ e ∈ set, e.Clean) →
    readkasmpasswd (set.flatMap KasmpasswdEntry.line) = set
  | [], _ => rfl
  | e :: set, h => by
    obtain ⟨he, hset⟩ := List.forall_mem_cons.mp h
    rw [List.flatMap_cons, e.line_eq, List.append_assoc, readkasmpasswd]
    show (fgetsLines _ _ _ (e.body ++ newline :: _)).filterMap _ = _
    rw [fgetsLines_line _ (e.newline_notMem_body he) (by simpa using e.length_body),
      List.nil_append, ← e.line_eq, List.filterMap_cons, e.parseLine_line he]
    exact congrArg (e :: ·) (read_lines hset)

/-- **Reading what was written** gives the entries that have not been deleted, if and only
if these have no separators in them and something is written at all. -/
theorem read_write_iff {file : List Byte} {set : List KasmpasswdEntry} :
    readkasmpasswd (writekasmpasswd file set) = remaining set ↔
      (set = [] → readkasmpasswd file = []) ∧ ∀ e ∈ remaining set, e.Clean := by
  by_cases hset : set = []
  · subst hset
    simp [writekasmpasswd, remaining]
  · rw [writekasmpasswd, if_neg hset]
    constructor
    · intro h
      exact ⟨fun hnil => absurd hnil hset, fun e he => clean_of_mem_read (h ▸ he)⟩
    · intro h
      exact read_lines h.2

/-! ## What is asked for -/

/-- A change that the HTTP API makes. -/
inductive UserChange
  | netAddUser (name pw : CString) (read write owner : Bool)
  | netRemoveUser (name : CString)
  | netUpdateUser (name : CString) (mask : BitVec 64) (password : CString)
      (read write owner : Bool)
  | netAddOrUpdateUser (entry : KasmpasswdEntry)

namespace UserChange

def apply : UserChange → List Byte → Changed
  | netAddUser name pw read write owner => Network.netAddUser name pw read write owner
  | netRemoveUser name => Network.netRemoveUser name
  | netUpdateUser name mask password read write owner =>
    Network.netUpdateUser name mask password read write owner
  | netAddOrUpdateUser entry => Network.netAddOrUpdateUser entry

def name : UserChange → CString
  | netAddUser name .. | netRemoveUser name | netUpdateUser name .. => name
  | netAddOrUpdateUser entry => entry.user

/-- What becomes of an entry of this name. -/
def edit : UserChange → KasmpasswdEntry → Option KasmpasswdEntry
  | netAddUser .., e => some e
  | netRemoveUser _, _ => none
  | netUpdateUser _ mask password read write owner, e =>
    if hp : password.bytes.length < PASSWORD_LEN then
      some (e.updated mask password read write owner hp)
    else some e
  | netAddOrUpdateUser entry, _ => some entry

/-- The entry to add if the name is new. -/
def addition : UserChange → Option KasmpasswdEntry
  | netAddUser name pw read write owner =>
    if h : name.bytes.length < USERNAME_LEN ∧ pw.bytes.length < PASSWORD_LEN then
      some ⟨name, pw, read, write, owner, h.1, h.2⟩
    else none
  | netAddOrUpdateUser entry => some entry
  | _ => none

variable (c : UserChange) (set : List KasmpasswdEntry)

/-- There is an entry of this name. -/
def Known : Prop := ∃ e ∈ set, e.user = c.name

instance : Decidable (c.Known set) := inferInstanceAs (Decidable (∃ e ∈ set, _))

/-- An entry of this name is edited, the others are left as they are. -/
def editNamed (e : KasmpasswdEntry) : Option KasmpasswdEntry :=
  if e.user = c.name then c.edit e else some e

/-- The entries as they are to be after the change. -/
def asked : List KasmpasswdEntry :=
  if c.Known set then set.filterMap c.editNamed else set ++ c.addition.toList

/-- Changes that cannot be made. -/
def Refused : Prop :=
  match c with
  | netAddUser name pw .. =>
    c.Known set ∨ name.bytes.length ≥ USERNAME_LEN ∨ pw.bytes.length ≥ PASSWORD_LEN
  | netRemoveUser _ => ¬c.Known set
  | netUpdateUser _ mask password .. =>
    ¬c.Known set ∨ mask = 0 ∨ password.bytes.length ≥ PASSWORD_LEN
  | netAddOrUpdateUser _ => False

/-- The strings that are stored. -/
def texts : UserChange → List CString
  | netAddUser name pw .. => [name, pw]
  | netRemoveUser _ => []
  | netUpdateUser _ mask password .. =>
    if mask &&& USER_UPDATE_PASSWORD_MASK ≠ 0 then [password] else []
  | netAddOrUpdateUser entry => [entry.user, entry.password]

/-- The strings have no separators in them, and all entries of this name but the first are
already as they are to be. -/
def Safe : Prop :=
  (∀ s ∈ c.texts, Separable s) ∧
    ∀ e ∈ (set.filter fun e => e.user = c.name).tail, c.edit e = some e

end UserChange

/-! ## What is done -/

theorem changeFirst_eq_none {name : CString} {change : KasmpasswdEntry → KasmpasswdEntry} :
    ∀ {set : List KasmpasswdEntry}, (∀ e ∈ set, e.user ≠ name) → changeFirst name change set = none
  | [], _ => rfl
  | e :: set, h => by
    obtain ⟨he, hset⟩ := List.forall_mem_cons.mp h
    rw [changeFirst, if_neg he, changeFirst_eq_none hset]
    rfl

theorem changeFirst_append {name : CString} {change : KasmpasswdEntry → KasmpasswdEntry}
    {e : KasmpasswdEntry} (he : e.user = name) (after : List KasmpasswdEntry) :
    ∀ {before : List KasmpasswdEntry}, (∀ e ∈ before, e.user ≠ name) →
      changeFirst name change (before ++ e :: after) = some (before ++ change e :: after)
  | [], _ => if_pos he
  | d :: before, h => by
    obtain ⟨hd, hbefore⟩ := List.forall_mem_cons.mp h
    rw [List.cons_append, changeFirst, if_neg hd, changeFirst_append he after hbefore]
    rfl

namespace UserChange

variable {c : UserChange} {set : List KasmpasswdEntry} {file : List Byte}

/-- The first entry of this name. -/
theorem Known.split (h : c.Known set) : ∃ before e after, set = before ++ e :: after ∧
    (∀ d ∈ before, d.user ≠ c.name) ∧ e.user = c.name := by
  unfold Known at h
  induction set with
  | nil => simp at h
  | cons d set ih =>
    by_cases hd : d.user = c.name
    · exact ⟨[], d, set, rfl, by simp, hd⟩
    · obtain ⟨before, e, after, rfl, hbefore, he⟩ := ih (by simpa [hd] using h)
      exact ⟨d :: before, e, after, rfl, List.forall_mem_cons.mpr ⟨hd, hbefore⟩, he⟩

/-- How the code changes the first entry of this name. -/
def inPlace (c : UserChange) (e : KasmpasswdEntry) : KasmpasswdEntry := (c.edit e).getD e.deleted

theorem edit_name {e e' : KasmpasswdEntry} (he : e.user = c.name) (h : c.edit e = some e') :
    e'.user = c.name := by
  cases c with
  | netAddUser => cases h; exact he
  | netRemoveUser => cases h
  | netUpdateUser =>
    simp only [edit] at h
    split at h
    · cases h
      exact he
    · cases h
      exact he
  | netAddOrUpdateUser => cases h; rfl

theorem Known.name_lt (h : c.Known set) : ¬c.name.bytes.length ≥ USERNAME_LEN := by
  obtain ⟨e, -, he⟩ := h
  rw [← he]
  exact Nat.not_le.mpr e.user_lt

theorem asked_refused (h : c.Refused set) : c.asked set = set := by
  unfold asked
  cases c with
  | netAddUser name pw =>
    split
    · refine (List.filterMap_congr fun e _ => ?_).trans List.filterMap_some
      simp [editNamed, edit]
    · next hnew =>
        have hlong := Or.resolve_left h hnew
        rw [addition, dif_neg (by omega), Option.toList_none, List.append_nil]
  | netRemoveUser => exact (if_neg h).trans (List.append_nil _)
  | netUpdateUser name mask password =>
    split
    · next hknown =>
        have hnone := Or.resolve_left h (not_not.mpr hknown)
        refine (List.filterMap_congr fun e _ => ?_).trans List.filterMap_some
        rw [editNamed, edit]
        split
        · rcases hnone with rfl | hlong
          · simp [KasmpasswdEntry.updated]
          · rw [dif_neg (Nat.not_lt.mpr hlong)]
        · rfl
    · exact List.append_nil _
  | netAddOrUpdateUser => exact h.elim

theorem apply_refused (h : c.Refused (readkasmpasswd file)) : c.apply file = (false, file) := by
  have hnone : ∀ change, ¬c.Known (readkasmpasswd file) →
      changeFirst c.name change (readkasmpasswd file) = none := fun change hnew =>
    changeFirst_eq_none fun e he hname => hnew ⟨e, he, hname⟩
  cases c with
  | netAddUser name pw =>
    rw [apply, Network.netAddUser]
    split
    · rfl
    split
    · rfl
    · have hknown := h.resolve_right (by omega)
      rw [if_pos (List.any_eq_true.mpr ?_)]
      obtain ⟨e, he, hname⟩ := hknown
      exact ⟨e, he, decide_eq_true hname⟩
  | netRemoveUser name =>
    simp only [UserChange.name] at hnone
    rw [apply, Network.netRemoveUser]
    split
    · rfl
    · rw [hnone _ h]
  | netUpdateUser name mask password =>
    simp only [UserChange.name] at hnone
    rw [apply, Network.netUpdateUser]
    split
    · rfl
    split
    · rfl
    split
    · rfl
    · have hnew := Or.resolve_right h (by simp_all)
      dsimp only
      rw [hnone _ hnew]
  | netAddOrUpdateUser => exact h.elim

theorem apply_known (hok : ¬c.Refused (readkasmpasswd file))
    {before after : List KasmpasswdEntry} {e : KasmpasswdEntry}
    (hset : readkasmpasswd file = before ++ e :: after)
    (hbefore : ∀ d ∈ before, d.user ≠ c.name) (he : e.user = c.name) :
    c.apply file = (true, writekasmpasswd file (before ++ c.inPlace e :: after)) := by
  have hknown : c.Known (readkasmpasswd file) := by
    rw [hset]
    exact ⟨e, List.mem_append_right _ List.mem_cons_self, he⟩
  have hchange : ∀ change, changeFirst c.name change (readkasmpasswd file) =
      some (before ++ change e :: after) := fun change => by
    rw [hset]
    exact changeFirst_append he after hbefore
  have hlt := hknown.name_lt
  cases c with
  | netAddUser => exact (hok (Or.inl hknown)).elim
  | netRemoveUser =>
    simp only [UserChange.name] at hlt hchange
    rw [apply, Network.netRemoveUser]
    rw [if_neg hlt, hchange]
    rfl
  | netUpdateUser name mask password read write owner =>
    simp only [UserChange.name] at hlt hchange
    simp only [Refused, not_or, not_not] at hok
    rw [apply, Network.netUpdateUser]
    rw [if_neg hlt, dif_neg hok.2.2, if_neg hok.2.1]
    dsimp only
    rw [hchange, inPlace, edit, dif_pos (by omega)]
    rfl
  | netAddOrUpdateUser entry =>
    simp only [UserChange.name] at hchange
    rw [apply, Network.netAddOrUpdateUser]
    rw [hchange]
    rfl

theorem apply_new (hok : ¬c.Refused (readkasmpasswd file)) (hnew : ¬c.Known (readkasmpasswd file)) :
    ∃ e, c.addition = some e ∧
      c.apply file = (true, writekasmpasswd file (readkasmpasswd file ++ [e])) := by
  have hnone : ∀ change, changeFirst c.name change (readkasmpasswd file) = none := fun change =>
    changeFirst_eq_none fun e he hname => hnew ⟨e, he, hname⟩
  cases c with
  | netAddUser name pw read write owner =>
    simp only [Refused, not_or] at hok
    refine ⟨⟨name, pw, read, write, owner, by omega, by omega⟩, dif_pos (by omega), ?_⟩
    rw [apply, Network.netAddUser]
    rw [dif_neg hok.2.1, dif_neg hok.2.2, if_neg]
    intro hany
    obtain ⟨e, he, hname⟩ := List.any_eq_true.mp hany
    exact hnew ⟨e, he, of_decide_eq_true hname⟩
  | netRemoveUser => exact (hok hnew).elim
  | netUpdateUser => exact (hok (Or.inl hnew)).elim
  | netAddOrUpdateUser entry =>
    simp only [UserChange.name] at hnone
    refine ⟨entry, rfl, ?_⟩
    rw [apply, Network.netAddOrUpdateUser]
    rw [hnone]
    rfl

/-! ## What remains -/

theorem remaining_append (set set' : List KasmpasswdEntry) :
    remaining (set ++ set') = remaining set ++ remaining set' :=
  List.filter_append ..

theorem remaining_singleton {e : KasmpasswdEntry} (h : e.user.bytes ≠ []) : remaining [e] = [e] :=
  List.filter_cons_of_pos (decide_eq_true h)

theorem remaining_remaining (set : List KasmpasswdEntry) :
    remaining (remaining set) = remaining set := by
  simp [remaining, List.filter_filter]

theorem remaining_inPlace {e : KasmpasswdEntry} (hname : c.name.bytes ≠ [])
    (he : e.user = c.name) : remaining [c.inPlace e] = (c.edit e).toList := by
  unfold inPlace
  cases hedit : c.edit e with
  | none => rfl
  | some e' => exact remaining_singleton (edit_name he hedit ▸ hname)

theorem filterMap_editNamed_of_ne : ∀ {set : List KasmpasswdEntry},
    (∀ e ∈ set, e.user ≠ c.name) → set.filterMap c.editNamed = set
  | [], _ => rfl
  | e :: set, h => by
    obtain ⟨he, hset⟩ := List.forall_mem_cons.mp h
    rw [List.filterMap_cons, editNamed, if_neg he, filterMap_editNamed_of_ne hset]

theorem remaining_filterMap (hname : c.name.bytes ≠ []) : ∀ set : List KasmpasswdEntry,
    remaining (set.filterMap c.editNamed) = (remaining set).filterMap c.editNamed
  | [] => rfl
  | e :: set => by
    have ih := remaining_filterMap hname set
    rw [← List.singleton_append, List.filterMap_append, remaining_append, remaining_append,
      List.filterMap_append, ih]
    congr 1
    by_cases he : e.user = c.name
    · rw [remaining_singleton (he ▸ hname)]
      show remaining ([e].filterMap c.editNamed) = [e].filterMap c.editNamed
      simp only [List.filterMap_cons, List.filterMap_nil, editNamed, if_pos he]
      cases hedit : c.edit e with
      | none => rfl
      | some e' => exact remaining_singleton (edit_name he hedit ▸ hname)
    · rw [filterMap_editNamed_of_ne (by simpa using he)]
      refine (filterMap_editNamed_of_ne fun d hd => ?_).symm
      rw [List.mem_singleton.mp (List.mem_of_mem_filter hd)]
      exact he

/-- Editing leaves a list as it is if it does so with each of its entries. -/
theorem filterMap_eq_self_iff {g : KasmpasswdEntry → Option KasmpasswdEntry} :
    ∀ {set : List KasmpasswdEntry}, set.filterMap g = set ↔ ∀ e ∈ set, g e = some e
  | [] => by simp
  | e :: set => by
    rw [List.filterMap_cons, List.forall_mem_cons, ← filterMap_eq_self_iff]
    cases hg : g e with
    | none =>
      refine iff_of_false (fun h => ?_) (fun h => by cases h.1)
      have hle := List.length_filterMap_le g set
      have hlength := congrArg List.length h
      rw [List.length_cons] at hlength
      exact absurd hlength (by dsimp only; omega)
    | some e' =>
      show e' :: set.filterMap g = e :: set ↔ some e' = some e ∧ set.filterMap g = set
      rw [List.cons.injEq, Option.some.injEq]

/-! ## What is stored -/

/-- The entry to add has no separators in it if the strings of the request have none. -/
theorem clean_addition_iff {e : KasmpasswdEntry} (h : c.addition = some e) :
    e.Clean ↔ ∀ s ∈ c.texts, Separable s := by
  cases c with
  | netAddUser name pw =>
    simp only [addition] at h
    split at h
    · cases h
      simp [texts, KasmpasswdEntry.Clean]
    · cases h
  | netAddOrUpdateUser entry =>
    cases h
    simp [texts, KasmpasswdEntry.Clean]
  | netRemoveUser => cases h
  | netUpdateUser => cases h

theorem addition_name {e : KasmpasswdEntry} (h : c.addition = some e) : e.user = c.name := by
  cases c with
  | netAddUser name pw =>
    simp only [addition] at h
    split at h
    · cases h
      rfl
    · cases h
  | netAddOrUpdateUser entry => cases h; rfl
  | netRemoveUser => cases h
  | netUpdateUser => cases h

/-- The same for an edited entry. -/
theorem clean_edit_iff {e : KasmpasswdEntry} (hok : ¬c.Refused set) (hknown : c.Known set)
    (he : e.Clean) : (∀ e' ∈ c.edit e, e'.Clean) ↔ ∀ s ∈ c.texts, Separable s := by
  cases c with
  | netAddUser => exact (hok (Or.inl hknown)).elim
  | netRemoveUser => simp [edit, texts]
  | netUpdateUser name mask password =>
    simp only [Refused, not_or] at hok
    simp only [edit, dif_pos (Nat.not_le.mp hok.2.2), Option.mem_some_iff, forall_eq', texts,
      KasmpasswdEntry.Clean, KasmpasswdEntry.updated]
    split
    · simp [he.1]
    · simp [he.1, he.2]
  | netAddOrUpdateUser entry => simp [edit, texts, KasmpasswdEntry.Clean]

/-! ## The file afterwards -/

/-- What is read back after writing is what remains, if it is clean; and it is always clean. -/
theorem remaining_read_write_iff {target : List KasmpasswdEntry} (hset : set ≠ [])
    (hclean : (∀ e ∈ target, e.Clean) → ∀ e ∈ remaining set, e.Clean) :
    remaining (readkasmpasswd (writekasmpasswd file set)) = target ↔
      (∀ e ∈ remaining set, e.Clean) ∧ remaining set = target := by
  have hback : (∀ e ∈ remaining set, e.Clean) →
      remaining (readkasmpasswd (writekasmpasswd file set)) = remaining set := fun h => by
    rw [read_write_iff.mpr ⟨fun hnil => absurd hnil hset, h⟩, remaining_remaining]
  constructor
  · intro h
    have htarget : ∀ e ∈ target, e.Clean := fun e he =>
      clean_of_mem_read (List.mem_of_mem_filter (h ▸ he))
    exact ⟨hclean htarget, (hback (hclean htarget)).symm.trans h⟩
  · intro h
    rw [hback h.1, h.2]

theorem new_iff (hname : c.name.bytes ≠ []) (hok : ¬c.Refused (readkasmpasswd file))
    (hnew : ¬c.Known (readkasmpasswd file)) :
    remaining (readkasmpasswd (c.apply file).2) = remaining (c.asked (readkasmpasswd file)) ↔
      c.Safe (readkasmpasswd file) := by
  obtain ⟨e, he, hfile⟩ := apply_new hok hnew
  have hasked : c.asked (readkasmpasswd file) = readkasmpasswd file ++ [e] := by
    rw [asked, if_neg hnew, he]
    rfl
  have hfirst : (readkasmpasswd file).filter (fun d => d.user = c.name) = [] :=
    List.filter_eq_nil_iff.mpr fun d hd hname => hnew ⟨d, hd, of_decide_eq_true hname⟩
  have hclean : (∀ d ∈ remaining (readkasmpasswd file ++ [e]), d.Clean) ↔ e.Clean := by
    rw [remaining_append, remaining_singleton (addition_name he ▸ hname)]
    constructor
    · intro h
      exact h e (List.mem_append_right _ List.mem_cons_self)
    · intro h d hd
      rcases List.mem_append.mp hd with hd | hd
      · exact clean_of_mem_read (List.mem_of_mem_filter hd)
      · rw [List.mem_singleton.mp hd]
        exact h
  rw [hfile, hasked, remaining_read_write_iff (by simp) id, hclean, clean_addition_iff he, Safe,
    hfirst]
  simp

section Split

variable {before after : List KasmpasswdEntry} {e : KasmpasswdEntry}

/-- What is asked for, in the three parts of the file. -/
theorem remaining_asked (hname : c.name.bytes ≠ []) (hset : set = before ++ e :: after)
    (hbefore : ∀ d ∈ before, d.user ≠ c.name) (he : e.user = c.name) :
    remaining (c.asked set) =
      remaining before ++ ((c.edit e).toList ++ (remaining after).filterMap c.editNamed) := by
  have hknown : c.Known set := ⟨e, by simp [hset], he⟩
  have hedit : remaining ([e].filterMap c.editNamed) = (c.edit e).toList := by
    simp only [List.filterMap_cons, List.filterMap_nil, editNamed, if_pos he]
    cases hedit : c.edit e with
    | none => rfl
    | some e' => exact remaining_singleton (edit_name he hedit ▸ hname)
  rw [asked, if_pos hknown, hset, ← List.singleton_append, List.filterMap_append,
    List.filterMap_append, filterMap_editNamed_of_ne hbefore, remaining_append, remaining_append,
    hedit, remaining_filterMap hname]

theorem filter_named (hset : set = before ++ e :: after)
    (hbefore : ∀ d ∈ before, d.user ≠ c.name) (he : e.user = c.name) :
    set.filter (fun d => d.user = c.name) = e :: after.filter (fun d => d.user = c.name) := by
  rw [hset, List.filter_append, List.filter_cons, if_pos (decide_eq_true he),
    List.filter_eq_nil_iff.mpr (by simpa using hbefore), List.nil_append]

/-- The entries behind the first one of this name are as they are to be. -/
theorem after_iff (hname : c.name.bytes ≠ []) (hset : set = before ++ e :: after)
    (hbefore : ∀ d ∈ before, d.user ≠ c.name) (he : e.user = c.name) :
    remaining after = (remaining after).filterMap c.editNamed ↔
      ∀ d ∈ (set.filter fun d => d.user = c.name).tail, c.edit d = some d := by
  rw [filter_named hset hbefore he, List.tail_cons, eq_comm, filterMap_eq_self_iff]
  constructor
  · intro h d hd
    obtain ⟨hd, hnamed⟩ := List.mem_filter.mp hd
    have hnamed := of_decide_eq_true hnamed
    have hkept := h d (List.mem_filter.mpr ⟨hd, decide_eq_true (hnamed ▸ hname)⟩)
    rw [editNamed, if_pos hnamed] at hkept
    exact hkept
  · intro h d hd
    unfold editNamed
    split
    · next hnamed =>
        exact h d (List.mem_filter.mpr ⟨List.mem_of_mem_filter hd, decide_eq_true hnamed⟩)
    · rfl

/-- Only the edited entry can have separators in it. -/
theorem clean_remaining_iff (hread : ∀ d ∈ before ++ e :: after, d.Clean)
    (edited : Option KasmpasswdEntry) :
    (∀ d ∈ remaining before ++ (edited.toList ++ remaining after), d.Clean) ↔
      ∀ e' ∈ edited, e'.Clean := by
  constructor
  · intro h e' he'
    exact h e' (by simp [Option.mem_def.mp he'])
  · intro h d hd
    simp only [List.mem_append, Option.mem_toList] at hd
    rcases hd with hd | hd | hd
    · exact hread d (List.mem_append_left _ (List.mem_of_mem_filter hd))
    · exact h d hd
    · exact hread d (List.mem_append_right _ (List.mem_cons_of_mem _ (List.mem_of_mem_filter hd)))

theorem remaining_changed (hname : c.name.bytes ≠ []) (he : e.user = c.name) :
    remaining (before ++ c.inPlace e :: after) =
      remaining before ++ ((c.edit e).toList ++ remaining after) := by
  rw [← List.singleton_append, remaining_append, remaining_append, remaining_inPlace hname he]

end Split

theorem known_iff (hname : c.name.bytes ≠ []) (hok : ¬c.Refused (readkasmpasswd file))
    (hknown : c.Known (readkasmpasswd file)) :
    remaining (readkasmpasswd (c.apply file).2) = remaining (c.asked (readkasmpasswd file)) ↔
      c.Safe (readkasmpasswd file) := by
  obtain ⟨before, e, after, hset, hbefore, he⟩ := hknown.split
  have hread : ∀ d ∈ before ++ e :: after, d.Clean := fun d hd => clean_of_mem_read (hset ▸ hd)
  have hclean : (∀ d ∈ remaining (before ++ c.inPlace e :: after), d.Clean) ↔
      ∀ s ∈ c.texts, Separable s := by
    rw [remaining_changed hname he, clean_remaining_iff hread,
      clean_edit_iff hok hknown (hread e (by simp))]
  rw [apply_known hok hset hbefore he, remaining_asked hname hset hbefore he,
    remaining_read_write_iff (by simp), hclean, remaining_changed hname he,
    List.append_cancel_left_eq, List.append_cancel_left_eq, after_iff hname hset hbefore he, Safe]
  intro h
  rw [remaining_changed hname he, clean_remaining_iff hread]
  exact fun e' he' => h e' (by simp [Option.mem_def.mp he'])

end UserChange

/-! ## The file -/

open UserChange in
/-- **Only what was asked for.** Reading the file after writing entries gives the entries
that have not been deleted, if these have no separators in them. After a change the file has
the entries that were there before, with what was asked for changed, if the change cannot be
made, or else if its strings have no separators and what it is to change is there once. -/
theorem passwords_kept (file : List Byte) :
    (∀ set, readkasmpasswd (writekasmpasswd file set) = remaining set ↔
      (set = [] → readkasmpasswd file = []) ∧ ∀ e ∈ remaining set, e.Clean) ∧
    ∀ c : UserChange, c.name.bytes ≠ [] →
      (remaining (readkasmpasswd (c.apply file).2) = remaining (c.asked (readkasmpasswd file)) ↔
        c.Refused (readkasmpasswd file) ∨ c.Safe (readkasmpasswd file)) := by
  refine ⟨fun set => read_write_iff, fun c hname => ?_⟩
  by_cases hok : c.Refused (readkasmpasswd file)
  · rw [apply_refused hok, asked_refused hok]
    exact iff_of_true rfl (Or.inl hok)
  rw [or_iff_right hok]
  by_cases hknown : c.Known (readkasmpasswd file)
  · exact known_iff hname hok hknown
  · exact new_iff hname hok hknown

/-- The user `u` with the hash `h`, who may read, and the same user after an update. -/
def readerFile : List Byte := [0x75, 0x3A, 0x68, 0x3A, 0x72, 0x0A]

def makeWriter : UserChange :=
  .netUpdateUser ⟨[0x75], by decide⟩ USER_UPDATE_WRITE_MASK CString.empty false true false

theorem passwords_kept_makeWriter :
    remaining (readkasmpasswd (makeWriter.apply readerFile).2) =
      [⟨⟨[0x75], by decide⟩, ⟨[0x68], by decide⟩, true, true, false, by decide, by decide⟩] := by
  have h := ((passwords_kept readerFile).2 makeWriter (by decide)).mpr
    (Or.inr ⟨by decide, by decide⟩)
  exact h.trans (by decide)

/-- The user `a:b` with the hash `h`. -/
def colonEntry : KasmpasswdEntry where
  user := { bytes := [0x61, 0x3A, 0x62] }
  password := { bytes := [0x68] }
  read := true
  write := false
  owner := false

/-- A user `a` is read back, with `b` for a hash. -/
theorem colon_in_name :
    let c := UserChange.netAddOrUpdateUser colonEntry
    remaining (readkasmpasswd (c.apply []).2) =
        [⟨⟨[0x61], by decide⟩, ⟨[0x62], by decide⟩, true, false, false, by decide, by decide⟩] ∧
      remaining (c.asked (readkasmpasswd [])) = [colonEntry] := by
  decide

end KasmVNC.Network
