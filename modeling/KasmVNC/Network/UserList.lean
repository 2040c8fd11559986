import KasmVNC.Lib.Json
import KasmVNC.Network.JsonEscape
import KasmVNC.Network.Kasmpasswd
import Mathlib.Data.List.TakeDrop

/-!
# The list of users

`netGetUsers` prints a line for each user into a buffer of 80 bytes for each of them, whatever
their names are. There is no byte for the brackets, so a list without users is empty.
-/

namespace KasmVNC.Network

open KasmVNC.Lib

/-! ## Printing -/

/-- `"true" : "false"` -/
def flagText (b : Bool) : List Byte := if b then ascii "true" else ascii "false"

/-- `"    \x7b \"user\": \"%s\", \"read\": %s, \"write\": %s, \"owner\": %s \x7d"` -/
def userLine (e : KasmpasswdEntry) : List Byte :=
  ascii "    \x7b \"user\": \"" ++ (JSON_escape e.user.bytes ++
    (ascii "\", \"read\": " ++ (flagText e.read ++ (ascii ", \"write\": " ++ (flagText e.write ++
      (ascii ", \"owner\": " ++ (flagText e.owner ++ ascii " \x7d")))))))

def userLines : List KasmpasswdEntry → List Byte
  | [] => []
  | [e] => userLine e ++ [newline]
  | e :: f :: set => userLine e ++ (0x2C :: newline :: userLines (f :: set))

def userList (set : List KasmpasswdEntry) : List Byte :=
  ascii "[\n" ++ (userLines set ++ ascii "]\n")

/-- The text in a buffer of that size, after `text` has been printed to the file that
`fmemopen` makes of it. The last byte is for the zero. -/
def fmemopenText (size : ℕ) (text : List Byte) : List Byte := text.take (size - 1)

/-- The text that is returned. `none` is a write outside of `escapeduser`. The size of the buffer
is an `unsigned`. -/
def netGetUsers (file : List Byte) : Option (List Byte) :=
  let set := readkasmpasswd file
  if set.any fun e => USERNAME_LEN * 2 ≤ (JSON_escape e.user.bytes).length then none
  else some (fmemopenText (set.length * 80 % 2 ^ 32) (userList set))

/-! ## What is meant -/

def jsonKey (s : String) : List Json.Piece := Json.bytes (ascii s)

/-- The object of a user of that name. -/
def userObject (name : List Byte) (e : KasmpasswdEntry) : Json :=
  .obj [(jsonKey "user", .str (Json.bytes name)), (jsonKey "read", .bool e.read),
    (jsonKey "write", .bool e.write), (jsonKey "owner", .bool e.owner)]

/-- All users, in order. -/
def usersJson (set : List KasmpasswdEntry) : Json :=
  .arr (set.map fun e => userObject e.user.bytes e)

/-- The whole list is returned, and it is the one of the users. -/
def ListsUsers (set : List KasmpasswdEntry) (out : Option (List Byte)) : Prop :=
  out = some (userList set) ∧ Json.Denotes (userList set) (usersJson set)

/-- The length of a name with its escapes. -/
def escapedLength (name : List Byte) : ℕ :=
  name.length + (name.filter fun b => Lettered b ∨ b = quote ∨ b = backslash).length

def flagLength (b : Bool) : ℕ := if b then 4 else 5

/-- The length of a line and its end. -/
def entryLength (e : KasmpasswdEntry) : ℕ :=
  50 + escapedLength e.user.bytes + flagLength e.read + flagLength e.write + flagLength e.owner + 2

/-- All of it, with one end that has no comma. -/
def listLength (set : List KasmpasswdEntry) : ℕ := 4 + (set.map entryLength).sum - 1

/-- The names can be escaped, and the lines are short enough. -/
def Listable (set : List KasmpasswdEntry) : Prop :=
  (∀ e ∈ set, ∀ b ∈ e.user.bytes, control b → Lettered b) ∧
    listLength set < set.length * 80 % 2 ^ 32

/-! ## The lexer on a line -/

section Lines

open Json (Token Piece run)

variable {tokens : List Token} {s : List Piece} {name : List Byte}

/-- The control characters that are written as they are. -/
abbrev Raw (b : Byte) : Prop := control b ∧ b ≠ 0x0C ∧ ¬Lettered b

theorem escaped_of_unescapeChar : ∀ c ∈ letters, Json.escaped c = unescapeChar c ∧ c ≠ 0x75 := by
  simp [letters, Json.escaped, unescapeChar]

theorem run_escapeChar {b : Byte} (h : ¬Raw b) (text : List Byte) :
    run ⟨tokens, .text s⟩ (escapeChar b ++ text) =
      run ⟨tokens, .text (s ++ Json.bytes (reread b))⟩ text := by
  rcases escapeChar_cases b with ⟨hb, -, c, hmem, hc, hletter⟩ | ⟨rfl, hb⟩ |
    ⟨hb, hplain, hne, hquote, hlettered⟩
  · obtain ⟨hescaped, hu⟩ := escaped_of_unescapeChar c hmem
    rw [hc, reread, if_neg hb]
    exact Json.run_escape (hescaped.trans hletter) hu text
  · rw [hb]
    refine (Json.run_escape (d := 0x0C) (by decide) (by decide) _).trans ?_
    refine (Json.run_escape (d := 0x0A) (by decide) (by decide) _).trans ?_
    rw [List.append_assoc]
    rfl
  · rw [hplain, reread, if_neg hb]
    exact Json.run_plain hquote hne (fun hcontrol => h ⟨hcontrol, hb, hlettered⟩) text

theorem run_raw {b : Byte} (h : Raw b) (text : List Byte) :
    run ⟨tokens, .text s⟩ (escapeChar b ++ text) = none := by
  rcases escapeChar_cases b with ⟨-, hlettered, -⟩ | ⟨hb, -⟩ | ⟨-, hplain, -⟩
  · exact absurd (hlettered h.1) h.2.2
  · exact absurd hb h.2.1
  · rw [hplain]
    exact Json.run_control h.1 text

theorem run_name (h : ∀ b ∈ name, ¬Raw b) (text : List Byte) :
    run ⟨tokens, .text s⟩ (JSON_escape name ++ text) =
      run ⟨tokens, .text (s ++ Json.bytes (name.flatMap reread))⟩ text := by
  induction name generalizing s with
  | nil =>
    have hnil : s ++ Json.bytes [] = s := List.append_nil s
    rw [List.flatMap_nil, hnil]
    rfl
  | cons b name ih =>
    rw [List.forall_mem_cons] at h
    rw [JSON_escape, List.flatMap_cons, List.append_assoc, run_escapeChar h.1, ← JSON_escape,
      ih h.2, List.flatMap_cons, Json.bytes, Json.bytes, Json.bytes, List.map_append,
      List.append_assoc]

theorem run_name_raw (h : ∃ b ∈ name, Raw b) (text : List Byte) :
    run ⟨tokens, .text s⟩ (JSON_escape name ++ text) = none := by
  induction name generalizing s with
  | nil => exact absurd h (by simp)
  | cons b name ih =>
    rw [JSON_escape, List.flatMap_cons, List.append_assoc]
    by_cases hb : Raw b
    · exact run_raw hb _
    · rw [run_escapeChar hb, ← JSON_escape]
      refine ih ?_
      obtain ⟨c, hc, hraw⟩ := h
      rcases List.mem_cons.mp hc with rfl | hmem
      · exact absurd hraw hb
      · exact ⟨c, hmem, hraw⟩

/-- What stands before a name. -/
theorem run_before_name (text : List Byte) :
    run ⟨tokens, .between⟩ (ascii "    \x7b \"user\": \"" ++ text) =
      run ⟨tokens ++ [.lbrace] ++ [.str (jsonKey "user")] ++ [.colon], .text []⟩ text :=
  Json.run_append_of rfl text

theorem run_read (text : List Byte) :
    run ⟨tokens, .text s⟩ (ascii "\", \"read\": " ++ text) =
      run ⟨tokens ++ [.str s] ++ [.comma] ++ [.str (jsonKey "read")] ++ [.colon], .between⟩ text :=
  Json.run_append_of rfl text

def flagToken (b : Bool) : Token := .word (flagText b)

theorem run_write (b : Bool) (text : List Byte) :
    run ⟨tokens, .between⟩ (flagText b ++ (ascii ", \"write\": " ++ text)) =
      run ⟨tokens ++ [flagToken b] ++ [.comma] ++ [.str (jsonKey "write")] ++ [.colon], .between⟩
        text := by
  rw [← List.append_assoc]
  cases b <;> exact Json.run_append_of rfl text

theorem run_owner (b : Bool) (text : List Byte) :
    run ⟨tokens, .between⟩ (flagText b ++ (ascii ", \"owner\": " ++ text)) =
      run ⟨tokens ++ [flagToken b] ++ [.comma] ++ [.str (jsonKey "owner")] ++ [.colon], .between⟩
        text := by
  rw [← List.append_assoc]
  cases b <;> exact Json.run_append_of rfl text

theorem run_close (b : Bool) (text : List Byte) :
    run ⟨tokens, .between⟩ (flagText b ++ (ascii " \x7d" ++ text)) =
      run ⟨tokens ++ [flagToken b] ++ [.rbrace], .between⟩ text := by
  rw [← List.append_assoc]
  cases b <;> exact Json.run_append_of rfl text

theorem written_bool (b : Bool) : (Json.bool b).written = [flagToken b] := by
  cases b <;> rfl

theorem written_userObject (name : List Byte) (e : KasmpasswdEntry) :
    (userObject name e).written = [.lbrace, .str (jsonKey "user"), .colon, .str (Json.bytes name),
      .comma, .str (jsonKey "read"), .colon, flagToken e.read, .comma, .str (jsonKey "write"),
      .colon, flagToken e.write, .comma, .str (jsonKey "owner"), .colon, flagToken e.owner,
      .rbrace] := by
  simp only [userObject, Json.written, Json.writtenMembers, Json.separated, written_bool,
    List.flatMap_cons, List.flatMap_nil, List.cons_append, List.nil_append, List.append_nil]

/-- The object as it is read back. -/
def rereadObject (e : KasmpasswdEntry) : Json := userObject (e.user.bytes.flatMap reread) e

theorem run_userLine {e : KasmpasswdEntry} (h : ∀ b ∈ e.user.bytes, ¬Raw b) (text : List Byte) :
    run ⟨tokens, .between⟩ (userLine e ++ text) =
      run ⟨tokens ++ (rereadObject e).written, .between⟩ text := by
  simp only [userLine, List.append_assoc]
  rw [run_before_name, run_name h, run_read, run_write, run_owner, run_close, rereadObject,
    written_userObject]
  simp only [List.append_assoc, List.cons_append, List.nil_append]

theorem run_userLine_raw {e : KasmpasswdEntry} (h : ∃ b ∈ e.user.bytes, Raw b)
    (text : List Byte) : run ⟨tokens, .between⟩ (userLine e ++ text) = none := by
  simp only [userLine, List.append_assoc]
  rw [run_before_name, run_name_raw h]

end Lines

/-! ## The lexer on the list -/

section List_

open Json (Token run)

variable {tokens : List Token} {set : List KasmpasswdEntry} {e : KasmpasswdEntry}

/-- The lines of a list that is not empty. -/
theorem run_userLines (he : ∀ b ∈ e.user.bytes, ¬Raw b)
    (hset : ∀ f ∈ set, ∀ b ∈ f.user.bytes, ¬Raw b) (text : List Byte) :
    run ⟨tokens, .between⟩ (userLines (e :: set) ++ text) =
      run ⟨tokens ++ Json.separated (Json.writtenElements ((e :: set).map rereadObject)), .between⟩
        text := by
  induction set generalizing e tokens with
  | nil =>
    rw [userLines, List.append_assoc, run_userLine he, List.map_cons, List.map_nil,
      Json.writtenElements, Json.writtenElements, Json.separated, List.flatMap_nil,
      List.append_nil]
    exact Json.run_append_of rfl text
  | cons f set ih =>
    rw [List.forall_mem_cons] at hset
    rw [userLines, List.append_assoc, run_userLine he]
    have hcomma : ∀ ts : List Token, run ⟨ts, .between⟩ [0x2C, newline] =
        some ⟨ts ++ [.comma], .between⟩ := fun _ => rfl
    refine (Json.run_append_of (hcomma _) _).trans ((ih hset.1 hset.2).trans ?_)
    simp only [List.map_cons, Json.writtenElements, Json.separated, List.flatMap_cons,
      List.append_assoc, List.cons_append, List.nil_append]

theorem run_userLines_raw (h : ∃ e ∈ set, ∃ b ∈ e.user.bytes, Raw b) (text : List Byte) :
    run ⟨tokens, .between⟩ (userLines set ++ text) = none := by
  induction set generalizing tokens with
  | nil => exact absurd h (by simp)
  | cons e set ih =>
    have hlines : ∃ behind, userLines (e :: set) = userLine e ++ behind := by
      cases set with
      | nil => exact ⟨_, rfl⟩
      | cons f set => exact ⟨_, rfl⟩
    by_cases he : ∃ b ∈ e.user.bytes, Raw b
    · obtain ⟨behind, hbehind⟩ := hlines
      rw [hbehind, List.append_assoc]
      exact run_userLine_raw he _
    · obtain ⟨f, hf, hraw⟩ := h
      rcases List.mem_cons.mp hf with rfl | hmem
      · exact absurd hraw he
      cases set with
      | nil => exact absurd hmem List.not_mem_nil
      | cons g set =>
        have he' : ∀ b ∈ e.user.bytes, ¬Raw b := fun b hb hraw => he ⟨b, hb, hraw⟩
        rw [userLines, List.append_assoc, run_userLine he']
        have hcomma : ∀ ts : List Token, run ⟨ts, .between⟩ [0x2C, newline] =
            some ⟨ts ++ [.comma], .between⟩ := fun _ => rfl
        exact (Json.run_append_of (hcomma _) _).trans (ih ⟨f, hmem, hraw⟩)

/-- What the list stands for. -/
theorem denotes_userList (h : ∀ e ∈ set, ∀ b ∈ e.user.bytes, ¬Raw b) :
    Json.Denotes (userList set) (.arr (set.map rereadObject)) := by
  have hopen : run ⟨[], .between⟩ (ascii "[\n") = some ⟨[.lbracket], .between⟩ := rfl
  have hclose : ∀ ts : List Token, run ⟨ts, .between⟩ (ascii "]\n") =
      some ⟨ts ++ [.rbracket], .between⟩ := fun _ => rfl
  rw [Json.Denotes, Json.lex, userList, Json.run_append_of hopen, Json.written]
  cases set with
  | nil =>
    rw [userLines, List.nil_append, hclose]
    rfl
  | cons e set =>
    rw [List.forall_mem_cons] at h
    rw [run_userLines h.1 h.2, hclose]
    simp [Json.finish]

theorem not_denotes_userList (h : ∃ e ∈ set, ∃ b ∈ e.user.bytes, Raw b) (v : Json) :
    ¬Json.Denotes (userList set) v := by
  have hopen : run ⟨[], .between⟩ (ascii "[\n") = some ⟨[.lbracket], .between⟩ := rfl
  rw [Json.Denotes, Json.lex, userList, Json.run_append_of hopen, run_userLines_raw h]
  exact Option.some_ne_none _ ∘ Eq.symm

theorem bytes_injective {s t : List Byte} (h : Json.bytes s = Json.bytes t) : s = t :=
  List.map_injective_iff.mpr (fun _ _ hb => Json.Piece.byte.inj hb) h

/-- The list is that of the users if their names come back. -/
theorem denotes_usersJson_iff : Json.Denotes (userList set) (usersJson set) ↔
    ∀ e ∈ set, ∀ b ∈ e.user.bytes, control b → Lettered b := by
  by_cases hraw : ∃ e ∈ set, ∃ b ∈ e.user.bytes, Raw b
  · refine iff_of_false (not_denotes_userList hraw _) fun h => ?_
    obtain ⟨e, he, b, hb, hcontrol, -, hnot⟩ := hraw
    exact hnot (h e he b hb hcontrol)
  · have hplain : ∀ e ∈ set, ∀ b ∈ e.user.bytes, ¬Raw b := fun e he b hb h => hraw ⟨e, he, b, hb, h⟩
    have hdenotes := denotes_userList hplain
    have hsame : Json.Denotes (userList set) (usersJson set) ↔
        ∀ e ∈ set, e.user.bytes.flatMap reread = e.user.bytes := by
      constructor
      · intro h e he
        have hjson := h.unique hdenotes
        rw [usersJson, Json.arr.injEq, List.map_inj_left] at hjson
        have hobject := hjson e he
        simp only [rereadObject, userObject, Json.obj.injEq, List.cons.injEq, Prod.mk.injEq,
          Json.str.injEq, true_and, and_true] at hobject
        exact (bytes_injective hobject).symm
      · intro h
        have hlist : usersJson set = .arr (set.map rereadObject) := by
          rw [usersJson, Json.arr.injEq, List.map_inj_left]
          intro e he
          rw [rereadObject, h e he]
        rw [hlist]
        exact hdenotes
    rw [hsame]
    refine forall₂_congr fun e he => ?_
    rw [reread_iff]
    constructor
    · intro hff b hb hcontrol
      by_contra hnot
      exact hplain e he b hb ⟨hcontrol, fun heq => hff (heq ▸ hb), hnot⟩
    · intro h hff
      exact absurd (h _ hff (by decide)) (by decide)

end List_

/-! ## The buffer -/

section Buffer

variable {set : List KasmpasswdEntry}

theorem special_of_unescapeChar {b c : Byte} (hb : b ≠ 0x0C) (h : unescapeChar c = some b) :
    Lettered b ∨ b = quote ∨ b = backslash := by
  unfold unescapeChar at h
  unfold Lettered
  split_ifs at h <;> cases h <;> simp at hb ⊢

theorem length_escape_eq {name : List Byte} (h : ∀ b ∈ name, control b → Lettered b) :
    (JSON_escape name).length = escapedLength name := by
  induction name with
  | nil => rfl
  | cons b name ih =>
    rw [List.forall_mem_cons] at h
    have ih := ih h.2
    rw [JSON_escape, escapedLength] at ih
    rw [JSON_escape, escapedLength, List.flatMap_cons, List.length_append, ih, List.filter_cons,
      List.length_cons]
    have hb : (escapeChar b).length =
        if Lettered b ∨ b = quote ∨ b = backslash then 2 else 1 := by
      rcases escapeChar_cases b with ⟨hb, -, c, -, hc, hletter⟩ | ⟨rfl, -⟩ |
        ⟨-, hplain, hne, hquote, hlettered⟩
      · rw [hc, if_pos (special_of_unescapeChar hb hletter)]
        rfl
      · exact absurd (h.1 (by decide)) (by decide)
      · rw [hplain, if_neg (not_or.mpr ⟨hlettered, not_or.mpr ⟨hquote, hne⟩⟩)]
        rfl
    by_cases hletter : Lettered b ∨ b = quote ∨ b = backslash
    · rw [hb, if_pos hletter, if_pos (decide_eq_true hletter), List.length_cons]
      omega
    · rw [hb, if_neg hletter, if_neg (by simpa using hletter)]
      omega

theorem length_flagText (b : Bool) : (flagText b).length = flagLength b := by
  cases b <;> decide

theorem length_userLine {e : KasmpasswdEntry}
    (h : ∀ b ∈ e.user.bytes, control b → Lettered b) :
    (userLine e).length + 2 = entryLength e := by
  have hconst : (ascii "    \x7b \"user\": \"").length = 15 ∧ (ascii "\", \"read\": ").length = 11 ∧
      (ascii ", \"write\": ").length = 11 ∧ (ascii ", \"owner\": ").length = 11 ∧
        (ascii " \x7d").length = 2 := by decide
  simp only [userLine, List.length_append, length_escape_eq h, length_flagText, hconst]
  rw [entryLength]
  omega

theorem length_userLines {e : KasmpasswdEntry}
    (h : ∀ f ∈ e :: set, ∀ b ∈ f.user.bytes, control b → Lettered b) :
    (userLines (e :: set)).length + 1 = ((e :: set).map entryLength).sum := by
  induction set generalizing e with
  | nil =>
    have hline := length_userLine (h e List.mem_cons_self)
    rw [userLines, List.length_append, List.length_singleton, List.map_cons, List.map_nil,
      List.sum_cons, List.sum_nil]
    omega
  | cons f set ih =>
    have hline := length_userLine (h e List.mem_cons_self)
    have ih := ih fun g hg => h g (List.mem_cons_of_mem e hg)
    rw [userLines, List.length_append, List.length_cons, List.length_cons, List.map_cons,
      List.sum_cons, ← ih]
    omega

theorem length_userList {e : KasmpasswdEntry}
    (h : ∀ f ∈ e :: set, ∀ b ∈ f.user.bytes, control b → Lettered b) :
    (userList (e :: set)).length = listLength (e :: set) := by
  have hlines := length_userLines h
  have hopen : (ascii "[\n").length = 2 ∧ (ascii "]\n").length = 2 := by decide
  rw [userList, List.length_append, List.length_append, hopen.1, hopen.2, listLength, ← hlines]
  omega

/-- The text fits if a byte is left for the zero. -/
theorem fmemopenText_iff {size : ℕ} {text : List Byte} (h : text ≠ []) :
    fmemopenText size text = text ↔ text.length < size := by
  have hpos := List.length_pos_iff.mpr h
  rw [fmemopenText, List.take_eq_self_iff]
  omega

end Buffer

/-- An escaped name fits if no form feed is in it. -/
theorem escape_fits {e : KasmpasswdEntry} (h : ∀ b ∈ e.user.bytes, control b → Lettered b) :
    (JSON_escape e.user.bytes).length < USERNAME_LEN * 2 := by
  have hff : 0x0C ∉ e.user.bytes := fun hmem => absurd (h _ hmem (by decide)) (by decide)
  have hlength := length_escape hff
  have huser := e.user_lt
  omega

/-- **The list of users.** It is complete, and stands for the users in order, exactly if their
names can be escaped and all lines fit into the 80 bytes that there are for each of them. -/
theorem user_list_iff (file : List Byte) :
    ListsUsers (readkasmpasswd file) (netGetUsers file) ↔ Listable (readkasmpasswd file) := by
  unfold netGetUsers
  dsimp only
  generalize readkasmpasswd file = set
  rw [ListsUsers, denotes_usersJson_iff, Listable, and_comm]
  refine and_congr_right fun hnames => ?_
  have hfits : ¬(set.any fun e => USERNAME_LEN * 2 ≤ (JSON_escape e.user.bytes).length) := by
    rw [List.any_eq_true]
    rintro ⟨e, he, hlong⟩
    exact absurd (of_decide_eq_true hlong) (Nat.not_le.mpr (escape_fits (hnames e he)))
  rw [if_neg hfits, Option.some.injEq]
  cases set with
  | nil => exact iff_of_false (by decide) (by decide)
  | cons e set =>
    have hne : userList (e :: set) ≠ [] := List.append_ne_nil_of_left_ne_nil (by decide) _
    rw [fmemopenText_iff hne, length_userList hnames]

/-- No users, a name of twenty letters, and a form feed. -/
theorem user_list_truncated :
    netGetUsers [] = some [] ∧
      ¬ListsUsers (readkasmpasswd (ascii "abcdefghijklmnopqrst:x:rwo\n"))
        (netGetUsers (ascii "abcdefghijklmnopqrst:x:rwo\n")) ∧
      ¬ListsUsers (readkasmpasswd (ascii "a\x0c:x:\n")) (netGetUsers (ascii "a\x0c:x:\n")) := by
  rw [ascii_ofList, ascii_ofList]
  refine ⟨by decide, fun h => absurd h.1 (by decide), fun h => absurd h.2 ?_⟩
  rw [Json.Denotes]
  decide

end KasmVNC.Network
