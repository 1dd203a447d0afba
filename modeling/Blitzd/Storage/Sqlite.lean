import Blitzd.Lib.Numerals
import Blitzd.Utils.CString

/-! # The storage: SQL texts and what SQLite does with them

`StorageSqlite.cpp` builds SQL by pasting texts together; what a text means is SQLite's. Modelled of
SQLite is what the code's own texts need:

* a condition `username="…"` whose quoted token ends where the text ends: a token that names a column
  of the table (ignoring case; `rowid` and its synonyms name the primary key) is that column, any other
  token is a string, and two double quotes inside stand for one; `username` compares without case;
* a condition `userid=…` with a decimal number;
* a quote that is never closed does not compile, and a statement that does not compile changes nothing;
* `REPLACE INTO users` and `REPLACE INTO friends` with a list of literals.

Everything else (a token that ends early and what follows it, a text compared with an integer) is the
engine's, an argument (`Engine`). -/

namespace Blitzd.Storage.Sqlite

open Blitzd.Lib.Bytes Blitzd.Lib.Numerals Blitzd.Utils.CString

/-! ### The tables (`blitzd.sql`) -/

structure UserRow where
  userid : ℤ
  username : Text
  salt : List Byte
  verifier : List Byte
  passwd : List Byte
  mail : Text
  flag : ℤ
  data : List Byte
deriving DecidableEq

structure FriendRow where
  userid : ℤ
  friendlist : List Byte
deriving DecidableEq

structure Database where
  users : List UserRow
  friends : List FriendRow
deriving DecidableEq

/-- Collation `NOCASE`. -/
def nocase (s t : Text) : Bool := lower s = lower t

/-- `PRIMARY KEY(userid)` and `UNIQUE(username)`. -/
structure Database.Unique (db : Database) : Prop where
  userid : db.users.Pairwise fun r r' => r.userid ≠ r'.userid
  username : db.users.Pairwise fun r r' => nocase r.username r'.username = false

/-! ### Literals in SQL text -/

/-- The double quote. -/
def quote : Byte := 34

/-- The content of a quoted token after its opening quote, and what follows the closing quote;
`none` when it is not closed. -/
def scanQuoted : Text → Option (Text × Text)
  | [] => none
  | [c] => if c = quote then some ([], []) else none
  | c :: d :: t =>
    if c = quote then
      if d = quote then (scanQuoted t).map fun r => (quote :: r.1, r.2) else some ([], d :: t)
    else (scanQuoted (d :: t)).map fun r => (c :: r.1, r.2)

/-- The text after a fixed beginning. -/
def after (lit t : Text) : Option Text :=
  if lit.isPrefixOf t then some (t.drop lit.length) else none

/-! ### Conditions -/

inductive Column
  | userid | username | salt | verifier | passwd | mail | flag | data
deriving DecidableEq

/-- The column a token names. -/
def columnOf (tok : Text) : Option Column :=
  let t := lower tok
  if t = str "userid" ∨ t = str "rowid" ∨ t = str "oid" ∨ t = str "_rowid_" then some .userid
  else if t = str "username" then some .username
  else if t = str "salt" then some .salt
  else if t = str "verifier" then some .verifier
  else if t = str "passwd" then some .passwd
  else if t = str "mail" then some .mail
  else if t = str "flag" then some .flag
  else if t = str "data" then some .data
  else none

/-- The part of SQLite that is not modelled: a text compared with an integer, conditions on the users
and statements outside the forms above. -/
structure Engine where
  numericEq : Text → ℤ → Bool
  otherWhere : Text → List UserRow → Option (UserRow → Bool)
  otherStmt : Text → Database → Database

variable (eng : Engine)

/-- `username = ` the column: a text never equals a blob. -/
def usernameEqColumn (r : UserRow) : Column → Bool
  | .username => true
  | .mail => nocase r.username r.mail
  | .userid => eng.numericEq r.username r.userid
  | .flag => eng.numericEq r.username r.flag
  | .salt | .verifier | .passwd | .data => false

/-- `username = "tok"`. -/
def usernameEq (tok : Text) (r : UserRow) : Bool :=
  match columnOf tok with
  | some c => usernameEqColumn eng r c
  | none => nocase r.username tok

/-- The rows a condition on the users selects; `none` when it does not compile. -/
def whereUsers (users : List UserRow) (w : Text) : Option (UserRow → Bool) :=
  match after (str "username=\"") w with
  | some t =>
    match scanQuoted t with
    | none => none
    | some (tok, []) => some (usernameEq eng tok)
    | some (_, _ :: _) => eng.otherWhere w users
  | none =>
    match after (str "userid=") w with
    | some t =>
      match readDigits 0 t with
      | (n, []) => some fun r => r.userid = n
      | (_, _ :: _) => eng.otherWhere w users
    | none => eng.otherWhere w users

/-- `GetMatch("users", …)`: the rows selected, none when the query does not compile. -/
def getMatchUsers (db : Database) (w : Text) : List UserRow :=
  if w = [] then db.users
  else match whereUsers eng db.users w with
    | some p => db.users.filter p
    | none => []

/-- `RemoveMatch("users", …)`. -/
def removeMatchUsers (db : Database) (w : Text) : Database :=
  if w = [] then { db with users := [] }
  else match whereUsers eng db.users w with
    | some p => { db with users := db.users.filter fun r => !p r }
    | none => db

/-- `GetMatch("friends", …, "userid=%u")`. -/
def getMatchFriends (db : Database) (id : ℕ) : List FriendRow :=
  db.friends.filter fun r => r.userid = id

/-! ### `Set` -/

/-- `DataDef`, of the types the caches store. -/
inductive DataDef
  | int (n : ℕ)
  | string (s : Text)
  | binary (b : List Byte)
deriving DecidableEq

/-- A value in the statement. -/
def DataDef.sql : DataDef → Text
  | .int n => decimal n
  | .string s => quote :: (cstr s ++ [quote])
  | .binary b => str "X'" ++ (hex b ++ str "'")

/-- Texts separated by `", "`. -/
def commaSep : List Text → Text
  | [] => []
  | [t] => t
  | t :: ts => t ++ (str ", " ++ commaSep ts)

/-- The statement up to its values. -/
def setHead (table : Text) (cols : List Text) : Text :=
  str "REPLACE INTO " ++ table ++ str " (" ++ commaSep cols ++ str ") VALUES ("

/-- The statement after `VALUES (`. -/
def valuesText (vs : List DataDef) : Text := commaSep (vs.map DataDef.sql) ++ str ")"

/-- `StorageSqlite::Set`, the statement it builds. -/
def setText (table : Text) (cols : List Text) (data : List DataDef) : Text :=
  setHead table cols ++ valuesText data

def userCols : List Text :=
  [str "userid", str "username", str "salt", str "verifier", str "passwd", str "mail", str "flag",
    str "data"]

def friendCols : List Text := [str "userid", str "friendlist"]

/-- What reading SQL text can give. -/
inductive Scan (α : Type)
  | ok (a : α)
  | unterminated
  | outside
deriving DecidableEq

def Scan.map {α β : Type} (f : α → β) : Scan α → Scan β
  | .ok a => .ok (f a)
  | .unterminated => .unterminated
  | .outside => .outside

/-- One literal, and what follows it. -/
def readValue : Text → Scan (DataDef × Text)
  | [] => .outside
  | c :: t =>
    if c = quote then
      match scanQuoted t with
      | some (s, r) => .ok (.string s, r)
      | none => .unterminated
    else if c = 88 then
      match after (str "'") t with
      | some h =>
        match readHex 39 h with
        | some (b, r) => .ok (.binary b, r)
        | none => .outside
      | none => .outside
    else if isDigit c then .ok (.int (readDigits 0 (c :: t)).1, (readDigits 0 (c :: t)).2)
    else .outside

/-- `k` literals separated by `", "`, and a closing parenthesis that ends the text. -/
def readValues : ℕ → Text → Scan (List DataDef)
  | 0, _ => .outside
  | k + 1, t =>
    match readValue t with
    | .ok (v, r) =>
      if r = str ")" then (if k = 0 then .ok [v] else .outside)
      else match after (str ", ") r with
        | some r' => (readValues k r').map (v :: ·)
        | none => .outside
    | .unterminated => .unterminated
    | .outside => .outside

/-- `REPLACE INTO users`: rows with the same key or the same name go. -/
def replaceUser (db : Database) (row : UserRow) : Database :=
  { db with users := (db.users.filter fun r =>
      r.userid ≠ row.userid ∧ nocase r.username row.username = false) ++ [row] }

/-- `REPLACE INTO friends`. -/
def replaceFriends (db : Database) (row : FriendRow) : Database :=
  { db with friends := (db.friends.filter fun r => r.userid ≠ row.userid) ++ [row] }

/-- The row of a list of values. -/
def userRowOf : List DataDef → Option UserRow
  | [.int id, .string name, .binary salt, .binary ver, .binary pw, .string mail, .int flag,
      .binary data] => some ⟨id, name, salt, ver, pw, mail, flag, data⟩
  | _ => none

def friendRowOf : List DataDef → Option FriendRow
  | [.int id, .binary l] => some ⟨id, l⟩
  | _ => none

/-- `doExec` of a statement. -/
def doExec (db : Database) (stmt : Text) : Database :=
  match after (setHead (str "users") userCols) stmt with
  | some t =>
    match readValues 8 t with
    | .ok vs => match userRowOf vs with
      | some row => replaceUser db row
      | none => eng.otherStmt stmt db
    | .unterminated => db
    | .outside => eng.otherStmt stmt db
  | none =>
    match after (setHead (str "friends") friendCols) stmt with
    | some t =>
      match readValues 2 t with
      | .ok vs => match friendRowOf vs with
        | some row => replaceFriends db row
        | none => eng.otherStmt stmt db
      | .unterminated => db
      | .outside => eng.otherStmt stmt db
    | none => eng.otherStmt stmt db

theorem Scan.map_eq_ok {α β : Type} {f : α → β} {s : Scan α} {b : β} :
    s.map f = .ok b ↔ ∃ a, s = .ok a ∧ f a = b := by
  rcases s with a | _ | _ <;> simp [Scan.map]

/-! ### Quoted tokens -/

theorem after_append (lit t : Text) : after lit (lit ++ t) = some t := by
  unfold after
  rw [if_pos (by simp), List.drop_left]

/-- A text without quotes, closed, is scanned as it is. -/
theorem scanQuoted_plain : ∀ {t : Text} (u : Text), quote ∉ t → u.head? ≠ some quote →
    scanQuoted (t ++ quote :: u) = some (t, u)
  | [], [], _, _ => rfl
  | [], c :: u, _, hu => by
    have hc : c ≠ quote := fun h => hu (by rw [h]; rfl)
    rw [List.nil_append, scanQuoted, if_pos rfl, if_neg hc]
  | c :: t, u, ht, hu => by
    have hc : c ≠ quote := fun h => ht (by simp [h])
    have ih := scanQuoted_plain (t := t) u (fun h => ht (by simp [h])) hu
    obtain ⟨d, s, hds⟩ : ∃ d s, t ++ quote :: u = d :: s := by
      rcases t with _ | ⟨d, t⟩
      · exact ⟨quote, u, rfl⟩
      · exact ⟨d, t ++ quote :: u, rfl⟩
    rw [List.cons_append, hds, scanQuoted, if_neg hc, ← hds, ih]
    rfl

/-- The text that is scanned as `s`: each quote stands there twice. -/
def doubled : Text → Text
  | [] => []
  | c :: s => if c = quote then quote :: quote :: doubled s else c :: doubled s

/-- What was scanned stood in the text with its quotes doubled. -/
theorem scanQuoted_eq : ∀ {t s r : Text}, scanQuoted t = some (s, r) → t = doubled s ++ quote :: r
  | [], s, r, h => by cases h
  | [c], s, r, h => by
    rw [scanQuoted] at h
    split_ifs at h with hc
    cases h
    rw [hc]
    rfl
  | c :: d :: t, s, r, h => by
    rw [scanQuoted] at h
    split_ifs at h with hc hd
    · obtain ⟨⟨s', r'⟩, h', e⟩ := Option.map_eq_some_iff.mp h
      cases e
      rw [scanQuoted_eq h', hc, hd, doubled, if_pos rfl]
      rfl
    · cases h
      rw [hc]
      rfl
    · obtain ⟨⟨s', r'⟩, h', e⟩ := Option.map_eq_some_iff.mp h
      cases e
      rw [scanQuoted_eq h', doubled, if_neg hc]
      rfl

theorem length_doubled : ∀ s : Text, (doubled s).length = s.length + s.count quote
  | [] => rfl
  | c :: s => by
    rw [doubled]
    split_ifs with hc
    · rw [hc, List.count_cons_self, List.length_cons, List.length_cons, List.length_cons,
        length_doubled s]
      omega
    · rw [List.count_cons_of_ne hc, List.length_cons, List.length_cons, length_doubled s]
      omega

theorem mem_doubled {x : Byte} : ∀ {s : Text}, x ∈ s → x ∈ doubled s
  | c :: s, h => by
    rw [doubled]
    rcases List.mem_cons.mp h with rfl | h
    · split_ifs with hc
      · rw [hc]; simp
      · simp
    · have := mem_doubled h
      split_ifs <;> simp [this]

/-- **A string that holds a quote is not read back**: as many bytes as it has quotes would have to be
taken from what follows it, the last of them a quote. -/
theorem scanQuoted_self {m t r : Text} (h : scanQuoted (m ++ quote :: t) = some (m, r))
    (ht : quote ∉ t.take m.length) : quote ∉ m := by
  intro hm
  have hpos : 0 < m.count quote := List.count_pos_iff.mpr hm
  have hle : m.count quote ≤ m.length := List.count_le_length
  obtain ⟨k, hk⟩ : ∃ k, m.count quote = k + 1 := ⟨m.count quote - 1, by omega⟩
  have h1 : (doubled m ++ quote :: r)[m.length + (k + 1)]? = some quote := by
    rw [List.getElem?_append_right (by rw [length_doubled]; omega), length_doubled, hk, Nat.sub_self]
    rfl
  rw [← scanQuoted_eq h, List.getElem?_append_right (by omega), Nat.add_sub_cancel_left,
    List.getElem?_cons_succ] at h1
  have hmem : quote ∈ t.take m.length := by
    refine List.mem_of_getElem? (i := k) ?_
    rw [List.getElem?_take_of_lt (by omega), h1]
  exact ht hmem

/-! ### Values are read back -/

/-- A value that stands in the statement as it is: a string without quotes. -/
def DataDef.Plain : DataDef → Prop
  | .string s => quote ∉ s ∧ NulFree s
  | .int _ | .binary _ => True

theorem plain_int (n : ℕ) : (DataDef.int n).Plain := trivial

theorem plain_binary (b : List Byte) : (DataDef.binary b).Plain := trivial

theorem readValue_int (n : ℕ) {t : Text} (ht : ∀ c ∈ t.head?, isDigit c = false) :
    readValue (decimal n ++ t) = .ok (.int n, t) := by
  obtain ⟨c, u, hc, hu⟩ := decimal_head n
  have hread := readDigits_decimal n ht
  have h1 : c ≠ quote := by rintro rfl; exact absurd hc (by decide)
  have h2 : c ≠ 88 := by rintro rfl; exact absurd hc (by decide)
  rw [hu, List.cons_append] at hread ⊢
  rw [readValue, if_neg h1, if_neg h2, if_pos hc, hread]

theorem readValue_binary (b : List Byte) (t : Text) :
    readValue (DataDef.sql (.binary b) ++ t) = .ok (.binary b, t) := by
  have hread := readHex_hex (q := 39) (by decide) t b
  have hcons : DataDef.sql (.binary b) ++ t = 88 :: (str "'" ++ (hex b ++ 39 :: t)) := by
    have e1 : str "X'" = [88, 39] := rfl
    have e2 : str "'" = [39] := rfl
    simp [DataDef.sql, e1, e2]
  rw [hcons, readValue, if_neg (by decide), if_pos rfl, after_append]
  dsimp only
  rw [hread]

theorem readValue_string {s : Text} (hs : quote ∉ s) (hn : NulFree s) {t : Text}
    (ht : t.head? ≠ some quote) : readValue (DataDef.sql (.string s) ++ t) = .ok (.string s, t) := by
  have hcons : DataDef.sql (.string s) ++ t = quote :: (s ++ quote :: t) := by
    simp [DataDef.sql, cstr_of_nulFree hn]
  rw [hcons, readValue, if_pos rfl, scanQuoted_plain t hs ht]

/-- A plain value is read back, before a comma or a parenthesis. -/
theorem readValue_sql {v : DataDef} (hv : v.Plain) {t : Text}
    (ht : ∀ c ∈ t.head?, c ≠ quote ∧ isDigit c = false) : readValue (v.sql ++ t) = .ok (v, t) := by
  rcases v with n | s | b
  · exact readValue_int n fun c hc => (ht c hc).2
  · refine readValue_string hv.1 hv.2 fun h => ?_
    exact (ht quote (by rw [h]; rfl)).1 rfl
  · exact readValue_binary b t

theorem commaSep_cons (x : Text) {l : List Text} (h : l ≠ []) :
    commaSep (x :: l) = x ++ (str ", " ++ commaSep l) := by
  rcases l with _ | ⟨y, l⟩
  · exact absurd rfl h
  · rfl

theorem valuesText_cons (v w : DataDef) (vs : List DataDef) :
    valuesText (v :: w :: vs) = v.sql ++ (str ", " ++ valuesText (w :: vs)) := by
  unfold valuesText
  rw [List.map_cons, commaSep_cons _ (by simp), List.append_assoc, List.append_assoc]

/-- One value of the list, and the rest of the list after the comma. -/
theorem readValues_cons {v : DataDef} {x t : Text} {k : ℕ}
    (hv : readValue (x ++ (str ", " ++ t)) = .ok (v, str ", " ++ t)) :
    readValues (k + 1) (x ++ (str ", " ++ t)) = (readValues k t).map (v :: ·) := by
  have hne : str ", " ++ t ≠ str ")" := fun e => by
    have := congrArg List.head? e
    simp [str] at this
  rw [readValues, hv]
  dsimp only
  rw [if_neg hne, after_append]

theorem readValues_valuesText_cons {v : DataDef} (hv : v.Plain) (w : DataDef) (vs : List DataDef)
    (k : ℕ) : readValues (k + 1) (valuesText (v :: w :: vs)) =
      (readValues k (valuesText (w :: vs))).map (v :: ·) := by
  rw [valuesText_cons]
  refine readValues_cons (readValue_sql hv fun c hc => ?_)
  rw [List.head?_append] at hc
  have : c = 44 := by simpa [str] using hc.symm
  subst this
  decide

/-- **The values of a statement are read back.** -/
theorem readValues_valuesText : ∀ (vs : List DataDef) (v : DataDef), (∀ w ∈ v :: vs, w.Plain) →
    readValues (vs.length + 1) (valuesText (v :: vs)) = .ok (v :: vs)
  | [], v, h => by
    have hv := readValue_sql (h v (by simp)) (t := str ")") fun c hc => by
      have : c = 41 := by simpa [str] using hc.symm
      subst this
      decide
    rw [valuesText, List.map_singleton, commaSep, List.length_nil, readValues, hv]
    rfl
  | w :: ws, v, h => by
    have ih := readValues_valuesText ws w fun x hx => h x (List.mem_cons_of_mem v hx)
    rw [List.length_cons, readValues_valuesText_cons (h v (by simp)), ih]
    rfl

/-- A list of values that starts with a string was read by scanning it. -/
theorem readValues_string {s t : Text} {k : ℕ} {vs : List DataDef}
    (h : readValues (k + 1) (DataDef.sql (.string s) ++ t) = .ok vs) :
    ∃ s' r vs', scanQuoted (cstr s ++ quote :: t) = some (s', r) ∧ vs = .string s' :: vs' := by
  have hcons : DataDef.sql (.string s) ++ t = quote :: (cstr s ++ quote :: t) := by simp [DataDef.sql]
  rw [hcons, readValues, readValue, if_pos rfl] at h
  rcases hs : scanQuoted (cstr s ++ quote :: t) with _ | ⟨s', r⟩
  · rw [hs] at h; cases h
  · rw [hs] at h
    dsimp only at h
    refine ⟨s', r, ?_⟩
    split_ifs at h with hr hk
    · cases h
      exact ⟨[], rfl, rfl⟩
    · rcases ha : after (str ", ") r with _ | r'
      · rw [ha] at h; cases h
      · rw [ha] at h
        obtain ⟨vs', -, e⟩ := Scan.map_eq_ok.mp h
        exact ⟨vs', rfl, e.symm⟩

theorem nulFree_append {s t : Text} (hs : NulFree s) (ht : NulFree t) : NulFree (s ++ t) := by
  intro x hx
  rcases List.mem_append.mp hx with h | h
  · exact hs x h
  · exact ht x h

/-- A statement has no zero byte before its end. -/
theorem nulFree_sql (v : DataDef) : NulFree v.sql := by
  rcases v with n | s | b
  · rintro x hx rfl
    exact absurd (isDigit_of_mem_decimal hx) (by decide)
  · refine nulFree_append (s := [quote]) (by decide) (nulFree_append (nulFree_cstr s) (by decide))
  · refine nulFree_append (by decide) (nulFree_append ?_ (by decide))
    rintro x hx rfl
    exact hexVal_of_mem_hex hx (by decide)

theorem nulFree_valuesText : ∀ (vs : List DataDef) (v : DataDef), NulFree (valuesText (v :: vs))
  | [], v => nulFree_append (nulFree_sql v) (by decide)
  | w :: vs, v => by
    rw [valuesText_cons]
    exact nulFree_append (nulFree_sql v) (nulFree_append (by decide) (nulFree_valuesText vs w))

/-- What is scanned from a text without zero bytes has none. -/
theorem nulFree_scanQuoted {t s r : Text} (ht : NulFree t) (h : scanQuoted t = some (s, r)) :
    NulFree s := by
  intro x hx
  refine ht x ?_
  rw [scanQuoted_eq h]
  exact List.mem_append_left _ (mem_doubled hx)

end Blitzd.Storage.Sqlite
