import KasmVNC.Network.OwnerApi

/-!
# All of a request or nothing

A request is dealt with as a whole if its first entry is refused, or if none is; an entry
further behind that is refused comes too late. An entry of an update takes away the
permissions it does not mention.
-/

namespace KasmVNC.Network

open KasmVNC.Lib UserChange

/-! ## What an entry asks for -/

/-- The mask for some of the permissions. -/
def permissionMask (read write owner : Bool) : BitVec 64 :=
  (if read then USER_UPDATE_READ_MASK else 0) ||| (if write then USER_UPDATE_WRITE_MASK else 0) |||
    if owner then USER_UPDATE_OWNER_MASK else 0

namespace CJson

/-- There is a field of this name. -/
def mentions (name : String) : CJson → Bool
  | object fields => fields.any fun field => field.1.bytes = ascii name
  | _ => Bool.false

/-- The permissions that are mentioned. -/
def mask (item : CJson) : BitVec 64 :=
  permissionMask (item.mentions "read") (item.mentions "write") (item.mentions "owner")

end CJson

/-- Updating these permissions, and the password if there is one. -/
def updateOf (crypt : Crypt) (mask : BitVec 64) (e : KasmpasswdEntry) : UserChange :=
  let encrypted := decide (e.password.bytes ≠ [])
  .netUpdateUser e.user (mask ||| if encrypted then USER_UPDATE_PASSWORD_MASK else 0)
    (if encrypted then crypt.hash e.password else e.password) e.read e.write e.owner

namespace Endpoint

variable (crypt : Crypt)

def asked : Endpoint → CJson → KasmpasswdEntry → UserChange
  | create_user, _, e => .netAddOrUpdateUser (e.encrypted crypt)
  | remove_user, _, e => .netRemoveUser e.user
  | update_user, item, e => updateOf crypt item.mask e

/-- Every entry, when it is its turn, changes what it asks for and nothing else. -/
def AllApplied (endpoint : Endpoint) : List CJson → PasswordFile → Prop
  | [], _ => True
  | item :: items, file => ∀ e c, parseUser item = some e → endpoint.change crypt e = some c →
      remaining (readkasmpasswd (file.apply c).2.content) =
          remaining ((endpoint.asked crypt item e).asked (readkasmpasswd file.content)) ∧
        endpoint.AllApplied items (file.apply c).2

/-! ## When it works -/

/-- The permissions that are not mentioned are off anyway. -/
def Spared (item : CJson) (d : KasmpasswdEntry) : Prop :=
  (item.mentions "read" = false → d.read = false) ∧
    (item.mentions "write" = false → d.write = false) ∧
    (item.mentions "owner" = false → d.owner = false)

/-- The entry is not refused, its strings can be stored, and it mentions all permissions
that matter. -/
structure Smooth (endpoint : Endpoint) (item : CJson) (e : KasmpasswdEntry) (c : UserChange)
    (set : List KasmpasswdEntry) : Prop where
  accepted : ¬c.Refused set
  safe : (endpoint.asked crypt item e).Safe set
  spared : endpoint = update_user →
    ∀ d ∈ (set.filter fun d => d.user = e.user).head?, Spared item d

/-- All entries are like that, each in its turn. -/
def AllSmooth (endpoint : Endpoint) : List CJson → PasswordFile → Prop
  | [], _ => True
  | item :: items, file => ∃ e c, parseUser item = some e ∧ endpoint.change crypt e = some c ∧
      endpoint.Smooth crypt item e c (readkasmpasswd file.content) ∧
        endpoint.AllSmooth items (file.apply c).2

/-- The first entry is incomplete or refused. -/
def FirstRefused (endpoint : Endpoint) (set : List KasmpasswdEntry) (file : PasswordFile) : Prop :=
  ∃ e ∈ set.head?, ∀ c ∈ endpoint.change crypt e, c.Refused (readkasmpasswd file.content)

end Endpoint

/-! ## Parsing -/

section Parse

variable {e e' : KasmpasswdEntry} {field : CString × CJson}

/-- A field changes what it is named after. -/
theorem parseField_permissions (h : parseField e field = some e') :
    (field.1.bytes ≠ ascii "read" → e'.read = e.read) ∧
      (field.1.bytes ≠ ascii "write" → e'.write = e.write) ∧
      (field.1.bytes ≠ ascii "owner" → e'.owner = e.owner) := by
  unfold parseField at h
  split_ifs at h with huser hpassword hwrite howner hread
  · split at h
    · split_ifs at h
      cases h
      exact ⟨fun _ => rfl, fun _ => rfl, fun _ => rfl⟩
    · cases h
  · split at h
    · split_ifs at h
      cases h
      exact ⟨fun _ => rfl, fun _ => rfl, fun _ => rfl⟩
    · cases h
  · split at h
    · cases h
      exact ⟨fun _ => rfl, fun hne => absurd hwrite hne, fun _ => rfl⟩
    · cases h
      exact ⟨fun _ => rfl, fun _ => rfl, fun _ => rfl⟩
    · cases h
  · split at h
    · cases h
      exact ⟨fun _ => rfl, fun _ => rfl, fun hne => absurd howner hne⟩
    · cases h
      exact ⟨fun _ => rfl, fun _ => rfl, fun _ => rfl⟩
    · cases h
  · split at h
    · cases h
      exact ⟨fun hne => absurd hread hne, fun _ => rfl, fun _ => rfl⟩
    · cases h
      exact ⟨fun _ => rfl, fun _ => rfl, fun _ => rfl⟩
    · cases h

theorem foldlM_parseField : ∀ {fields : List (CString × CJson)} {e e' : KasmpasswdEntry},
    fields.foldlM parseField e = some e' →
      ((∀ field ∈ fields, field.1.bytes ≠ ascii "read") → e'.read = e.read) ∧
        ((∀ field ∈ fields, field.1.bytes ≠ ascii "write") → e'.write = e.write) ∧
        ((∀ field ∈ fields, field.1.bytes ≠ ascii "owner") → e'.owner = e.owner)
  | [], e, e', h => by
    cases h
    exact ⟨fun _ => rfl, fun _ => rfl, fun _ => rfl⟩
  | field :: fields, e, e', h => by
    rw [List.foldlM_cons] at h
    obtain ⟨d, hfield, hfields⟩ := Option.bind_eq_some_iff.mp h
    obtain ⟨hread, hwrite, howner⟩ := parseField_permissions hfield
    obtain ⟨hread', hwrite', howner'⟩ := foldlM_parseField hfields
    simp only [List.forall_mem_cons]
    exact ⟨fun h => (hread' h.2).trans (hread h.1), fun h => (hwrite' h.2).trans (hwrite h.1),
      fun h => (howner' h.2).trans (howner h.1)⟩

/-- Permissions that are not mentioned are off. -/
theorem spared_of_parseUser {item : CJson} (h : parseUser item = some e) :
    Endpoint.Spared item e := by
  cases item with
  | object fields =>
    have hnone : ∀ name, (CJson.object fields).mentions name = false →
        ∀ field ∈ fields, field.1.bytes ≠ ascii name := by
      intro name hname field hfield heq
      rw [CJson.mentions, List.any_eq_false] at hname
      exact hname field hfield (decide_eq_true heq)
    obtain ⟨hread, hwrite, howner⟩ := foldlM_parseField h
    exact ⟨fun h => hread (hnone _ h), fun h => hwrite (hnone _ h),
      fun h => howner (hnone _ h)⟩
  | _ => cases h

end Parse

/-! ## One entry -/

section Update

variable {crypt : Crypt} {item : CJson} {d e : KasmpasswdEntry}

theorem permissionMask_bits (read write owner password : Bool) :
    let mask := permissionMask read write owner |||
      if password then USER_UPDATE_PASSWORD_MASK else 0
    (mask &&& USER_UPDATE_READ_MASK ≠ 0 ↔ read = true) ∧
      (mask &&& USER_UPDATE_WRITE_MASK ≠ 0 ↔ write = true) ∧
      (mask &&& USER_UPDATE_OWNER_MASK ≠ 0 ↔ owner = true) ∧
      (mask &&& USER_UPDATE_PASSWORD_MASK ≠ 0 ↔ password = true) := by
  cases read <;> cases write <;> cases owner <;> cases password <;> decide

/-- An update sets all permissions. -/
theorem change_update_user (huser : e.user.bytes ≠ []) :
    Endpoint.update_user.change crypt e =
      some (updateOf crypt (permissionMask true true true) e) := by
  rw [Endpoint.change, if_neg huser]
  unfold updateOf
  by_cases hpassword : e.password.bytes = []
  · simp [hpassword, permissionMask]
  · simp [hpassword, permissionMask]

/-- What is stored of the password fits an entry. -/
theorem encrypted_lt (crypt : Crypt) (e : KasmpasswdEntry) (encrypted : Bool) :
    (if encrypted then crypt.hash e.password else e.password).bytes.length < PASSWORD_LEN := by
  cases encrypted
  · exact e.password_lt
  · exact crypt.hash_lt _

/-- Setting all permissions is setting the ones mentioned if the others are off. -/
theorem updated_eq_iff (he : Endpoint.Spared item e) (encrypted : Bool) (pw : CString)
    (hp : pw.bytes.length < PASSWORD_LEN) :
    d.updated (permissionMask true true true ||| if encrypted then USER_UPDATE_PASSWORD_MASK else 0)
        pw e.read e.write e.owner hp =
      d.updated (item.mask ||| if encrypted then USER_UPDATE_PASSWORD_MASK else 0)
        pw e.read e.write e.owner hp ↔ Endpoint.Spared item d := by
  obtain ⟨hread, hwrite, howner, hpassword⟩ := permissionMask_bits true true true encrypted
  obtain ⟨hread', hwrite', howner', hpassword'⟩ := permissionMask_bits (item.mentions "read")
    (item.mentions "write") (item.mentions "owner") encrypted
  obtain ⟨her, hew, heo⟩ := he
  unfold CJson.mask KasmpasswdEntry.updated Endpoint.Spared
  simp only [KasmpasswdEntry.mk.injEq, hread, hwrite, howner, hpassword, hread', hwrite', howner',
    hpassword', true_and, if_true]
  refine and_congr ?_ (and_congr ?_ ?_)
  · cases hm : item.mentions "read" with
    | false => simp [her hm]
    | true => simp
  · cases hm : item.mentions "write" with
    | false => simp [hew hm]
    | true => simp
  · cases hm : item.mentions "owner" with
    | false => simp [heo hm]
    | true => simp

variable (crypt e) in
theorem separable_updateOf {mask : BitVec 64} (hmask : mask &&& USER_UPDATE_PASSWORD_MASK = 0) :
    ∀ s ∈ (updateOf crypt mask e).texts, Separable s := by
  intro s hs
  unfold updateOf texts at hs
  by_cases hpassword : e.password.bytes = []
  · simp [hpassword] at hs
    exact absurd hmask hs.1
  · simp only [hpassword, ne_eq, not_false_eq_true, decide_true, if_true] at hs
    split at hs
    · rw [List.mem_singleton.mp hs]
      exact crypt.separable _
    · cases hs

end Update

section Step

variable {crypt : Crypt} {item : CJson} {e : KasmpasswdEntry} {c : UserChange}
  {file : List Byte}

theorem remaining_eq_asked_iff (hname : c.name.bytes ≠ [])
    (hok : ¬c.Refused (readkasmpasswd file)) :
    remaining (readkasmpasswd (c.apply file).2) = remaining (c.asked (readkasmpasswd file)) ↔
      c.Safe (readkasmpasswd file) := by
  by_cases hknown : c.Known (readkasmpasswd file)
  · exact known_iff hname hok hknown
  · exact new_iff hname hok hknown

/-- An update does what is asked for if the permissions it does not mention are off. -/
theorem updateOf_iff (huser : e.user.bytes ≠ []) (he : Endpoint.Spared item e)
    (hok : ¬(updateOf crypt (permissionMask true true true) e).Refused (readkasmpasswd file)) :
    remaining (readkasmpasswd ((updateOf crypt (permissionMask true true true) e).apply file).2) =
        remaining ((updateOf crypt item.mask e).asked (readkasmpasswd file)) ↔
      (updateOf crypt item.mask e).Safe (readkasmpasswd file) ∧
        ∀ d ∈ ((readkasmpasswd file).filter fun d => d.user = e.user).head?,
          Endpoint.Spared item d := by
  have hknown : (updateOf crypt (permissionMask true true true) e).Known (readkasmpasswd file) :=
    not_not.mp fun hnew => hok (Or.inl hnew)
  obtain ⟨before, d, after, hset, hbefore, hd⟩ := hknown.split
  have hread : ∀ d' ∈ before ++ d :: after, d'.Clean := fun d' hd' =>
    clean_of_mem_read (hset ▸ hd')
  have hfirst := filter_named (c := updateOf crypt item.mask e) hset hbefore hd
  have hremaining : remaining (before ++
      (updateOf crypt (permissionMask true true true) e).inPlace d :: after) = _ :=
    remaining_changed huser hd
  have hclean : ∀ d' ∈ remaining (before ++
      (updateOf crypt (permissionMask true true true) e).inPlace d :: after), d'.Clean := by
    rw [hremaining, clean_remaining_iff hread, clean_edit_iff hok hknown (hread d (by simp))]
    exact separable_updateOf crypt e (by decide)
  have hbits := (permissionMask_bits (item.mentions "read") (item.mentions "write")
    (item.mentions "owner") false).2.2.2
  have hsafe : ∀ s ∈ (updateOf crypt item.mask e).texts, Separable s :=
    separable_updateOf crypt e (by simpa [CJson.mask] using hbits)
  have hedit : ∀ mask, (updateOf crypt mask e).edit d = some (d.updated _ _ _ _ _ _) := fun mask =>
    dif_pos (encrypted_lt crypt e (decide (e.password.bytes ≠ [])))
  rw [apply_known hok hset hbefore hd,
    remaining_asked (c := updateOf crypt item.mask e) huser hset hbefore hd,
    remaining_read_write_iff (by simp) (fun _ => hclean), and_iff_right hclean,
    hremaining, List.append_cancel_left_eq, Safe, and_iff_right hsafe,
    ← after_iff (c := updateOf crypt item.mask e) huser hset hbefore hd, hedit, hedit]
  show _ :: _ = _ :: _ ↔ _
  rw [List.cons.injEq, updated_eq_iff he, and_comm]
  refine and_congr_right fun _ => ?_
  show _ ↔ ∀ d' ∈ ((readkasmpasswd file).filter _).head?, _
  rw [show (readkasmpasswd file).filter (fun d => d.user = e.user) = _ from hfirst,
    List.head?_cons]
  simp

theorem PasswordFile.apply_refused {f : PasswordFile} (h : c.Refused (readkasmpasswd f.content)) :
    f.apply c = (false, f) := by
  unfold PasswordFile.apply
  rw [UserChange.apply_refused h]
  rfl

theorem PasswordFile.apply_accepted {f : PasswordFile}
    (h : ¬c.Refused (readkasmpasswd f.content)) :
    f.apply c = (true, ⟨(c.apply f.content).2, f.writes + 1⟩) := by
  have hmade : (c.apply f.content).1 = true := by
    by_cases hknown : c.Known (readkasmpasswd f.content)
    · obtain ⟨before, e, after, hset, hbefore, he⟩ := hknown.split
      rw [apply_known h hset hbefore he]
    · obtain ⟨e, -, hfile⟩ := apply_new h hknown
      rw [hfile]
  unfold PasswordFile.apply
  dsimp only
  rw [hmade]
  rfl

theorem user_ne_nil {endpoint : Endpoint} (h : endpoint.change crypt e = some c) :
    e.user.bytes ≠ [] := by
  intro huser
  cases endpoint with
  | create_user =>
    rw [Endpoint.change, if_pos (Or.inl huser)] at h
    cases h
  | remove_user =>
    rw [Endpoint.change, if_pos huser] at h
    cases h
  | update_user =>
    rw [Endpoint.change, if_pos huser] at h
    cases h

/-- An entry that is not refused does what it asks for and nothing else under the
conditions of `Smooth`. -/
theorem smooth_iff {endpoint : Endpoint} (hparse : parseUser item = some e)
    (hchange : endpoint.change crypt e = some c) (hok : ¬c.Refused (readkasmpasswd file)) :
    remaining (readkasmpasswd (c.apply file).2) =
        remaining ((endpoint.asked crypt item e).asked (readkasmpasswd file)) ↔
      endpoint.Smooth crypt item e c (readkasmpasswd file) := by
  have huser := user_ne_nil hchange
  cases endpoint with
  | create_user =>
    rw [Endpoint.change] at hchange
    split at hchange
    · cases hchange
    cases hchange
    refine (remaining_eq_asked_iff (c := .netAddOrUpdateUser (e.encrypted crypt))
      huser hok).trans ?_
    exact ⟨fun h => ⟨hok, h, nofun⟩, fun h => h.safe⟩
  | remove_user =>
    rw [Endpoint.change, if_neg huser] at hchange
    cases hchange
    refine (remaining_eq_asked_iff (c := .netRemoveUser e.user) huser hok).trans ?_
    exact ⟨fun h => ⟨hok, h, nofun⟩, fun h => h.safe⟩
  | update_user =>
    rw [change_update_user huser] at hchange
    cases hchange
    rw [Endpoint.asked, updateOf_iff huser (spared_of_parseUser hparse) hok]
    exact ⟨fun h => ⟨hok, h.1, fun _ => h.2⟩, fun h => ⟨h.safe, h.spared rfl⟩⟩

end Step

/-! ## The loop -/

section Loop

variable {cJSON_Parse : CString → Option CJson} {crypt : Crypt} {endpoint : Endpoint}

theorem changeUsers_writes (change : KasmpasswdEntry → Option UserChange) :
    ∀ (set : List KasmpasswdEntry) (file : PasswordFile),
      file.writes ≤ (changeUsers change set file).2.writes
  | [], _ => Nat.le_refl _
  | e :: set, file => by
    rw [changeUsers]
    cases change e with
    | none => exact Nat.le_refl _
    | some c =>
      dsimp only
      by_cases hc : c.Refused (readkasmpasswd file.content)
      · rw [PasswordFile.apply_refused hc]
      · rw [PasswordFile.apply_accepted hc]
        exact (Nat.le_succ _).trans
          (changeUsers_writes change set ⟨(c.apply file.content).2, file.writes + 1⟩)

theorem allApplied_cons {item : CJson} {items : List CJson} {file : PasswordFile}
    {e : KasmpasswdEntry} {c : UserChange} (he : parseUser item = some e)
    (hchange : endpoint.change crypt e = some c) :
    endpoint.AllApplied crypt (item :: items) file ↔
      remaining (readkasmpasswd (file.apply c).2.content) =
          remaining ((endpoint.asked crypt item e).asked (readkasmpasswd file.content)) ∧
        endpoint.AllApplied crypt items (file.apply c).2 := by
  constructor
  · intro h
    exact h e c he hchange
  · intro h e' c' he' hchange'
    cases he.symm.trans he'
    cases hchange.symm.trans hchange'
    exact h

theorem allSmooth_cons {item : CJson} {items : List CJson} {file : PasswordFile}
    {e : KasmpasswdEntry} {c : UserChange} (he : parseUser item = some e)
    (hchange : endpoint.change crypt e = some c) :
    endpoint.AllSmooth crypt (item :: items) file ↔
      endpoint.Smooth crypt item e c (readkasmpasswd file.content) ∧
        endpoint.AllSmooth crypt items (file.apply c).2 := by
  constructor
  · rintro ⟨e', c', he', hchange', h⟩
    cases he.symm.trans he'
    cases hchange.symm.trans hchange'
    exact h
  · intro h
    exact ⟨e, c, he, hchange, h⟩

/-- The loop ends well and has done what the entries ask for if all of them are smooth.
Induction on the entries. -/
theorem allSmooth_iff : ∀ {items : List CJson} {set : List KasmpasswdEntry} {file : PasswordFile},
    items.mapM parseUser = some set →
      (endpoint.AllSmooth crypt items file ↔
        (changeUsers (endpoint.change crypt) set file).1 = .ok ∧
          endpoint.AllApplied crypt items file)
  | [], set, file, h => by
    cases h
    simp [changeUsers, Endpoint.AllSmooth, Endpoint.AllApplied]
  | item :: items, set, file, h => by
    rw [List.mapM_cons] at h
    obtain ⟨e, he, h⟩ := Option.bind_eq_some_iff.mp h
    obtain ⟨set, hset, h⟩ := Option.bind_eq_some_iff.mp h
    cases h
    rw [changeUsers]
    cases hchange : endpoint.change crypt e with
    | none => simp [Endpoint.AllSmooth, he, hchange]
    | some c =>
      dsimp only
      rw [allSmooth_cons he hchange, allApplied_cons he hchange]
      by_cases hc : c.Refused (readkasmpasswd file.content)
      · rw [PasswordFile.apply_refused hc]
        exact iff_of_false (fun h => h.1.accepted hc) (fun h => by cases h.1)
      · rw [PasswordFile.apply_accepted hc, smooth_iff he hchange hc, allSmooth_iff hset,
          and_left_comm]

end Loop

/-! ## The request -/

/-- What the request is about, and its entries. -/
def postedItems (cJSON_Parse : CString → Option CJson) (request : CString) :
    Option (Endpoint × List CJson) := do
  let (path, data) ← postedContent request
  let endpoint ← Endpoint.ofPath path
  match cJSON_Parse data with
  | some (.array items) => some (endpoint, items)
  | _ => none

section Request

variable {cJSON_Parse : CString → Option CJson} {crypt : Crypt} {endpoint : Endpoint}

theorem changeUsers_answer (change : KasmpasswdEntry → Option UserChange) :
    ∀ (set : List KasmpasswdEntry) (file : PasswordFile),
      (changeUsers change set file).1 = .ok ∨ (changeUsers change set file).1 = .badRequest
  | [], _ => Or.inl rfl
  | e :: set, file => by
    rw [changeUsers]
    cases change e with
    | none => exact Or.inr rfl
    | some c =>
      dsimp only
      by_cases hc : c.Refused (readkasmpasswd file.content)
      · rw [PasswordFile.apply_refused hc]
        exact Or.inr rfl
      · rw [PasswordFile.apply_accepted hc]
        exact changeUsers_answer change set ⟨(c.apply file.content).2, file.writes + 1⟩

/-- The loop. If the first entry goes through, the file has been replaced. -/
theorem changeUsers_iff {items : List CJson} {set : List KasmpasswdEntry} {file : PasswordFile}
    (hset : items.mapM parseUser = some set) :
    let r := changeUsers (endpoint.change crypt) set file
    ((r.1 = .badRequest → r.2 = file) ∧ (r.1 = .ok → endpoint.AllApplied crypt items file)) ↔
      endpoint.FirstRefused crypt set file ∨ endpoint.AllSmooth crypt items file := by
  dsimp only
  rw [allSmooth_iff hset]
  cases set with
  | nil => simp [changeUsers, Endpoint.FirstRefused]
  | cons e set =>
    have hwrites := changeUsers_writes (endpoint.change crypt) set
    have hanswer := changeUsers_answer (endpoint.change crypt) set
    unfold Endpoint.FirstRefused
    rw [changeUsers]
    cases hchange : endpoint.change crypt e with
    | none => simp [hchange]
    | some c =>
      dsimp only
      by_cases hc : c.Refused (readkasmpasswd file.content)
      · rw [PasswordFile.apply_refused hc]
        simp [hchange, hc]
      · rw [PasswordFile.apply_accepted hc]
        dsimp only
        have hne : (changeUsers (endpoint.change crypt) set
            ⟨(c.apply file.content).2, file.writes + 1⟩).2 ≠ file := fun h => by
          have hle := hwrites ⟨(c.apply file.content).2, file.writes + 1⟩
          rw [h] at hle
          exact absurd hle (Nat.not_succ_le_self _)
        rcases hanswer ⟨(c.apply file.content).2, file.writes + 1⟩ with h | h
        · simp [h, hchange, hc]
        · simp [h, hne, hchange, hc]

variable {request : CString} {file : PasswordFile}

variable (crypt file) in
/-- Without a list of users nothing is done. -/
theorem ownerapi_post_of_none (h : postedItems cJSON_Parse request = none) :
    (ownerapi_post cJSON_Parse crypt request file).1 ≠ .ok ∧
      (ownerapi_post cJSON_Parse crypt request file).2 = file := by
  unfold ownerapi_post
  unfold postedItems at h
  cases hcontent : postedContent request with
  | none => simp
  | some content =>
    obtain ⟨path, data⟩ := content
    dsimp only
    cases hpath : Endpoint.ofPath path with
    | none => simp
    | some endpoint =>
      simp only [hcontent, hpath, Option.bind_eq_bind, Option.bind_some] at h
      unfold Endpoint.post parseJsonUsers
      cases hjson : cJSON_Parse data with
      | none => simp
      | some value =>
        cases value with
        | array items => simp [hjson] at h
        | _ => simp

theorem ownerapi_post_of_some {items : List CJson}
    (h : postedItems cJSON_Parse request = some (endpoint, items)) :
    ownerapi_post cJSON_Parse crypt request file =
      match items.mapM parseUser with
      | none => (.badRequest, file)
      | some set =>
        if endpoint.present file set then changeUsers (endpoint.change crypt) set file
        else (.badRequest, file) := by
  unfold postedItems at h
  obtain ⟨⟨path, data⟩, hcontent, h⟩ := Option.bind_eq_some_iff.mp h
  obtain ⟨endpoint', hpath, h⟩ := Option.bind_eq_some_iff.mp h
  split at h
  · next items' hjson =>
      cases h
      unfold ownerapi_post Endpoint.post parseJsonUsers
      cases hset : items.mapM parseUser with
      | none => simp only [hcontent, hpath, hjson, hset]
      | some set => simp only [hcontent, hpath, hjson, hset]
  · cases h

/-- **All or nothing.** If the request is answered with an error the file is the old one,
and if it is answered with success every entry has changed what it asks for and nothing
else, if and only if the first entry is refused or none is and all are smooth. -/
theorem users_all_or_nothing (cJSON_Parse : CString → Option CJson) (crypt : Crypt)
    (request : CString) (file : PasswordFile) :
    let r := ownerapi_post cJSON_Parse crypt request file
    ((r.1 = .badRequest → r.2 = file) ∧
        (r.1 = .ok → ∀ endpoint items, postedItems cJSON_Parse request = some (endpoint, items) →
          endpoint.AllApplied crypt items file)) ↔
      ∀ endpoint items set, postedItems cJSON_Parse request = some (endpoint, items) →
        items.mapM parseUser = some set → endpoint.present file set = true →
        endpoint.FirstRefused crypt set file ∨ endpoint.AllSmooth crypt items file := by
  cases hposted : postedItems cJSON_Parse request with
  | none =>
    obtain ⟨hanswer, hfile⟩ :=
      ownerapi_post_of_none crypt file hposted
    exact iff_of_true ⟨fun _ => hfile, fun h => absurd h hanswer⟩ (fun _ _ _ h => by cases h)
  | some posted =>
    obtain ⟨endpoint, items⟩ := posted
    rw [ownerapi_post_of_some hposted]
    cases hset : items.mapM parseUser with
    | none =>
      refine iff_of_true ⟨fun _ => rfl, fun h => by cases h⟩ ?_
      rintro _ _ set' ⟨rfl, rfl⟩ hset'
      cases hset.symm.trans hset'
    | some set =>
      dsimp only
      by_cases hpresent : endpoint.present file set = true
      · rw [if_pos hpresent]
        constructor
        · rintro ⟨herror, hok⟩ _ _ set' ⟨rfl, rfl⟩ hset' -
          cases hset.symm.trans hset'
          exact (changeUsers_iff hset).mp ⟨herror, fun h => hok h _ _ rfl⟩
        · intro h
          obtain ⟨herror, hok⟩ := (changeUsers_iff hset).mpr (h _ _ _ rfl hset hpresent)
          refine ⟨herror, fun h _ _ heq => ?_⟩
          cases heq
          exact hok h
      · rw [if_neg hpresent]
        refine iff_of_true ⟨fun _ => rfl, fun h => by cases h⟩ ?_
        rintro _ _ set' ⟨rfl, rfl⟩ hset' hpresent'
        cases hset.symm.trans hset'
        exact absurd hpresent' hpresent

end Request

/-! ## A request that fails half way -/

/-- The hash of the password `x`. -/
def cryptX : Crypt where
  hash _ :=
    { bytes := ascii "$5$kasm$XUwVa0RMpCuRj51JVz8Fhoo6ygCj2O1MbHsQEQwPu13"
      no_nul := by
        rw [ascii_ofList]
        decide }
  hash_lt _ := by
    dsimp only
    rw [ascii_ofList]
    decide
  separable _ := by
    dsimp only [Separable]
    rw [ascii_ofList]
    decide

/-- A user `a` with the password `x`, and a user `b` without one. -/
def twoUsers : List CJson :=
  [.object [(⟨ascii "user", by decide⟩, .string ⟨ascii "a", by decide⟩),
      (⟨ascii "password", by decide⟩, .string ⟨ascii "x", by decide⟩)],
    .object [(⟨ascii "user", by decide⟩, .string ⟨ascii "b", by decide⟩)]]

def twoUsersRequest : CString where
  bytes := ascii "/api/create_user HTTP/1.1\r\n\r\n" ++ ascii
    "[\x7b\"user\":\"a\",\"password\":\"x\"\x7d,\x7b\"user\":\"b\"\x7d]"
  no_nul := by
    rw [ascii_ofList, ascii_ofList]
    decide

/-- The first user has been created, and the answer is an error. -/
theorem half_of_a_request :
    let r := ownerapi_post (fun _ => some (.array twoUsers)) cryptX twoUsersRequest ⟨[], 0⟩
    r.1 = .badRequest ∧ r.2.content =
      ascii "a:$5$kasm$XUwVa0RMpCuRj51JVz8Fhoo6ygCj2O1MbHsQEQwPu13:\n" := by
  have hbytes : twoUsersRequest.bytes = _ :=
    congrArg₂ (· ++ ·) (ascii_ofList _) (ascii_ofList _)
  have hposted : postedItems (fun _ => some (.array twoUsers)) twoUsersRequest =
      some (.create_user, twoUsers) := by
    rw [postedItems, postedContent, hbytes]
    rfl
  dsimp only
  rw [ownerapi_post_of_some hposted, ascii_ofList]
  decide

end KasmVNC.Network
