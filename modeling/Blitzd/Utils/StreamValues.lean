import Blitzd.Utils.StreamOps

/-! # Values written to a stream and read back

Integers of four widths, byte arrays and strings, written by `operator<<` and read by `operator>>` into variables that
hold something already. A string is written by one of two operators: that for a `const char *` takes the length of the
text as an `int`.

`readsBack_iff`: all lists of values are read back, with every part of a list leaving the encodings of the rest, exactly
if no text of a `const char *` has 2^31 bytes or more and a vector can hold the encodings. -/

namespace Blitzd.Utils.StreamValues

open Blitzd.Lib.Bytes Blitzd.Utils.CString Blitzd.Utils.StreamOps Blitzd.Utils.StreamOps.Outcome

/-- The widths of integers. -/
inductive Width
  | w8
  | w16
  | w32
  | w64
deriving DecidableEq

def Width.bytes : Width → ℕ
  | w8 => 1
  | w16 => 2
  | w32 => 4
  | w64 => 8

inductive Kind
  | int (w : Width)
  | array (n : ℕ)
  | string
deriving DecidableEq

/-- What a variable holds. -/
inductive Item
  | int (w : Width) (x : Fin (256 ^ w.bytes))
  | array (n : ℕ) (v : Buf n)
  | string (v : Text)

def Item.kind : Item → Kind
  | int w _ => .int w
  | array n _ => .array n
  | string _ => .string

/-- What is written; `cstring` is a string by its `const char *`. -/
inductive Value
  | int (w : Width) (x : Fin (256 ^ w.bytes))
  | array (n : ℕ) (v : Buf n)
  | string (v : Name)
  | cstring (v : Name)

namespace Value

def item : Value → Item
  | int w x => .int w x
  | array n v => .array n v
  | string v => .string v
  | cstring v => .string v

/-- The bytes of a value in a stream. -/
def encode : Value → List Byte
  | int w x => toLE w.bytes x
  | array _ v => v.bytes
  | string v => v.1 ++ [0]
  | cstring v => v.1 ++ [0]

end Value

/-- `operator<<`. -/
def put (s : Stream) : Value → Outcome
  | .int w x => putValue s (toLE w.bytes x)
  | .array _ v => putValue s v.bytes
  | .string v => putString s v
  | .cstring v => putCString s v

/-- `operator>>` to a variable. -/
def get (s : Stream) : Item → Item × Stream
  | .int w x =>
    let r := s.readBuf (leBuf w.bytes x)
    (.int w ⟨ofLE r.1.bytes, (ofLE_lt r.1.bytes).trans_eq (by rw [r.1.len])⟩, r.2)
  | .array n a =>
    let r := s.readBuf a
    (.array n r.1, r.2)
  | .string _ =>
    let r := s.readStr
    (.string r.1, r.2)

/-- Values appended one after the other. -/
def putAll (o : Outcome) (vs : List Value) : Outcome := vs.foldl (fun o v => o.andThen (put · v)) o

/-- Variables read one after the other. -/
def getAll : Stream → List Item → List Item × Stream
  | s, [] => ([], s)
  | s, t :: ts =>
    let r := get s t
    let rs := getAll r.2 ts
    (r.1 :: rs.1, rs.2)

/-- The values are read back, each part of the list leaves the encodings of the rest. -/
def ReadsBack (vs : List Value) : Prop :=
  ∃ s, putAll (done ⟨[], 0⟩) vs = done s ∧ ∀ front rest, vs = front ++ rest →
    ∀ targets : List Item, targets.map Item.kind = front.map (·.item.kind) →
      (getAll s targets).1 = front.map Value.item ∧
        (getAll s targets).2.buf.drop (getAll s targets).2.pos = rest.flatMap Value.encode ∧
        left (getAll s targets).2 = (rest.flatMap Value.encode).length

/-! ### Reading -/

theorem get_int (l r : List Byte) (w : Width) (x y : Fin (256 ^ w.bytes)) :
    get (Stream.after l (toLE w.bytes x ++ r)) (.int w y) = (.int w x, Stream.after (l ++ toLE w.bytes x) r) := by
  have hread : (Stream.after l (toLE w.bytes x ++ r)).readBuf (leBuf w.bytes y) =
      (leBuf w.bytes x, Stream.after (l ++ toLE w.bytes x) r) := Stream.readBuf_after l r (leBuf w.bytes x) _
  have hx : ofLE (leBuf w.bytes x).bytes = x := ofLE_toLE_of_lt x.isLt
  simp only [get, hread, hx]

theorem get_array (l r : List Byte) {n : ℕ} (v a : Buf n) :
    get (Stream.after l (v.bytes ++ r)) (.array n a) = (.array n v, Stream.after (l ++ v.bytes) r) := by
  rw [get, Stream.readBuf_after]

theorem get_string (l r : List Byte) (v : Name) (a : Text) :
    get (Stream.after l (v.1 ++ [0] ++ r)) (.string a) = (.string v, Stream.after (l ++ (v.1 ++ [0])) r) := by
  rw [get, Stream.readStr_after l r v.2]

/-- **A value is read where it stands**, whatever the variable held. -/
theorem get_after (l r : List Byte) (v : Value) {t : Item} (ht : t.kind = v.item.kind) :
    get (Stream.after l (v.encode ++ r)) t = (v.item, Stream.after (l ++ v.encode) r) := by
  cases v <;> cases t <;> cases ht
  · exact get_int l r _ _ _
  · exact get_array l r _ _
  · exact get_string l r _ _
  · exact get_string l r _ _

theorem getAll_after (vs : List Value) (l r : List Byte) {ts : List Item}
    (ht : ts.map Item.kind = vs.map (·.item.kind)) :
    getAll (Stream.after l (vs.flatMap Value.encode ++ r)) ts =
      (vs.map Value.item, Stream.after (l ++ vs.flatMap Value.encode) r) := by
  induction vs generalizing l ts with
  | nil =>
    obtain rfl := List.map_eq_nil_iff.mp ht
    rw [List.flatMap_nil, List.append_nil]
    rfl
  | cons v vs ih =>
    obtain ⟨t, ts, rfl, htv, hts⟩ := List.map_eq_cons_iff.mp ht
    rw [List.flatMap_cons, List.append_assoc, getAll, get_after l _ v htv]
    dsimp only
    rw [ih _ hts, List.append_assoc, List.map_cons]

/-! ### Writing -/

/-- The bytes that are written for a value. -/
def written : Value → Option (List Byte)
  | .cstring v => cstringBytes v
  | v => some v.encode

/-- A value that is short enough is written whole. -/
theorem written_eq {v : Value} (h : ∀ t, v = .cstring t → t.1.length < 2 ^ 31) : written v = some v.encode := by
  cases v with
  | cstring t => exact cstringBytes_eq (h t rfl)
  | _ => rfl

/-- No more is written than that, and all of it only of a short text. -/
theorem length_written {v : Value} {b : List Byte} (h : written v = some b) : b.length ≤ v.encode.length ∧
    (b.length = v.encode.length → ∀ t, v = .cstring t → t.1.length < 2 ^ 31) := by
  cases v with
  | cstring t =>
    obtain ⟨hle, hint⟩ := length_of_cstringBytes h
    have hlen : (t.1 ++ [0]).length = t.1.length + 1 := List.length_append
    rw [Value.encode, hlen]
    refine ⟨hle, fun heq u hu => ?_⟩
    obtain rfl := Value.cstring.inj hu
    omega
  | _ => exact ⟨le_of_eq (congrArg List.length (Option.some_inj.mp h)).symm, fun _ _ ht => by cases ht⟩

/-- **What an insertion does**, if it ends. -/
theorem put_done {s s' : Stream} {v : Value} : put s v = done s' ↔
    ∃ b, written v = some b ∧ s.buf.length + b.length ≤ maxSize ∧ s' = ⟨s.buf ++ b, s.pos⟩ := by
  have hsome : ∀ {b : List Byte}, written v = some b → ((∃ c, written v = some c ∧ s.buf.length + c.length ≤ maxSize ∧
      s' = ⟨s.buf ++ c, s.pos⟩) ↔ s.buf.length + b.length ≤ maxSize ∧ s' = ⟨s.buf ++ b, s.pos⟩) := by
    intro b hb
    rw [hb]
    simp
  cases v with
  | int w x => rw [hsome rfl]; exact append_done
  | array n v => rw [hsome rfl]; exact append_done
  | string v => rw [hsome rfl]; exact putString_done
  | cstring v =>
    rcases hv : cstringBytes v with _ | b
    · rw [put, putCString, written, hv]
      simp
    · rw [hsome hv, put, putCString, hv]
      exact append_done

/-- After an exception nothing more is inserted. -/
theorem putAll_eq (o : Outcome) (vs : List Value) : putAll o vs = o.andThen fun s => putAll (done s) vs := by
  cases o with
  | done s => rfl
  | thrown s =>
    induction vs with
    | nil => rfl
    | cons v vs ih => exact ih
  | fault =>
    induction vs with
    | nil => rfl
    | cons v vs ih => exact ih

theorem putAll_cons_done {v : Value} {vs : List Value} {s s' : Stream} :
    putAll (done s) (v :: vs) = done s' ↔ ∃ s₁, put s v = done s₁ ∧ putAll (done s₁) vs = done s' := by
  show putAll (put s v) vs = done s' ↔ _
  rw [putAll_eq, andThen_done]

/-- **What is in the stream** when all the values were inserted. -/
theorem putAll_done {vs : List Value} {s s' : Stream} (hmax : s.buf.length ≤ maxSize) : putAll (done s) vs = done s' ↔
    ∃ bs : List (List Byte), vs.map written = bs.map some ∧ s.buf.length + bs.flatten.length ≤ maxSize ∧
      s' = ⟨s.buf ++ bs.flatten, s.pos⟩ := by
  induction vs generalizing s with
  | nil =>
    show done s = done s' ↔ _
    rw [done.injEq, eq_comm]
    constructor
    · intro h
      exact ⟨[], rfl, hmax, by rw [h, List.flatten_nil, List.append_nil]⟩
    · rintro ⟨bs, hbs, -, rfl⟩
      obtain rfl := List.map_eq_nil_iff.mp hbs.symm
      rw [List.flatten_nil, List.append_nil]
  | cons v vs ih =>
    rw [putAll_cons_done]
    constructor
    · rintro ⟨s₁, h₁, h⟩
      obtain ⟨b, hb, hle, rfl⟩ := put_done.mp h₁
      obtain ⟨bs, hbs, hle', rfl⟩ := (ih (by rw [List.length_append]; exact hle)).mp h
      rw [List.length_append] at hle'
      refine ⟨b :: bs, by rw [List.map_cons, List.map_cons, hb, hbs], ?_, ?_⟩
      · rw [List.flatten_cons, List.length_append]
        omega
      · rw [List.flatten_cons, List.append_assoc]
    · rintro ⟨bs, hbs, hle, rfl⟩
      obtain ⟨b, bs, rfl, hb, hbs⟩ := List.map_eq_cons_iff.mp hbs.symm
      rw [List.flatten_cons, List.length_append] at hle
      have hlen : (s.buf ++ b).length = s.buf.length + b.length := List.length_append
      refine ⟨_, put_done.mpr ⟨b, hb.symm, by omega, rfl⟩, (ih (by rw [hlen]; omega)).mpr ?_⟩
      exact ⟨bs, hbs.symm, by rw [hlen]; omega, by rw [List.flatten_cons, List.append_assoc]⟩

/-- If as much is written as should be, every text is a short one. -/
theorem length_writtenAll {vs : List Value} {bs : List (List Byte)} (h : vs.map written = bs.map some) :
    bs.flatten.length ≤ (vs.flatMap Value.encode).length ∧
      (bs.flatten.length = (vs.flatMap Value.encode).length → ∀ t, .cstring t ∈ vs → t.1.length < 2 ^ 31) := by
  induction vs generalizing bs with
  | nil =>
    obtain rfl := List.map_eq_nil_iff.mp h.symm
    exact ⟨le_rfl, fun _ t ht => by cases ht⟩
  | cons v vs ih =>
    obtain ⟨b, bs, rfl, hb, hbs⟩ := List.map_eq_cons_iff.mp h.symm
    obtain ⟨hv, hshort⟩ := length_written hb.symm
    obtain ⟨hvs, hshorts⟩ := ih hbs.symm
    rw [List.flatten_cons, List.flatMap_cons, List.length_append, List.length_append]
    refine ⟨by omega, fun heq t ht => ?_⟩
    rcases List.mem_cons.mp ht with rfl | ht
    · exact hshort (by omega) t rfl
    · exact hshorts (by omega) t ht

/-! ### The round trip -/

/-- **What is written is read back**, exactly if each text of a `const char *` is shorter than 2^31 bytes and a vector can
hold all the encodings. -/
theorem readsBack_iff (vs : List Value) : ReadsBack vs ↔
    (∀ t, .cstring t ∈ vs → t.1.length < 2 ^ 31) ∧ (vs.flatMap Value.encode).length ≤ maxSize := by
  constructor
  · rintro ⟨s, hs, hread⟩
    obtain ⟨bs, hbs, hle, rfl⟩ := (putAll_done (Nat.zero_le _)).mp hs
    -- before anything is read all the encodings are to be read
    have hall : bs.flatten = vs.flatMap Value.encode := (hread [] vs rfl [] rfl).2.1
    rw [← hall]
    exact ⟨(length_writtenAll hbs).2 (congrArg List.length hall), by rwa [List.length_nil, Nat.zero_add] at hle⟩
  · rintro ⟨hshort, hle⟩
    have hbs : vs.map written = (vs.map Value.encode).map some := by
      rw [List.map_map]
      exact List.map_congr_left fun v hv => written_eq fun t ht => hshort t (ht ▸ hv)
    refine ⟨Stream.after [] (vs.flatMap Value.encode), ?_, ?_⟩
    · rw [putAll_done (Nat.zero_le _)]
      exact ⟨_, hbs, by rwa [List.length_nil, Nat.zero_add], rfl⟩
    · rintro front rest rfl ts hts
      rw [List.flatMap_append] at hle ⊢
      rw [getAll_after front [] _ hts]
      exact ⟨rfl, List.drop_left, left_after hle⟩

/-- A text of `n` letters. -/
def letters (n : ℕ) : Name := ⟨List.replicate n 97, fun x hx => by rw [List.eq_of_mem_replicate hx]; decide⟩

theorem cstringBytes_letters : cstringBytes (letters (2 ^ 31)) = none := by
  have hlen : (letters (2 ^ 31)).1.length = 2 ^ 31 := List.length_replicate
  have hstrlen : strlen (letters (2 ^ 31)).1 = -2 ^ 31 := by
    unfold strlen
    rw [hlen]
    decide
  rw [cstringBytes, hstrlen]
  exact if_pos (by decide)

/-- The `int` is negative, and the range that is inserted ends before it starts. -/
theorem not_readsBack_letters : ¬ ReadsBack [.cstring (letters (2 ^ 31))] := by
  rintro ⟨s, hs, -⟩
  obtain ⟨bs, hbs, -⟩ := (putAll_done (Nat.zero_le _)).mp hs
  obtain ⟨b, -, -, hb, -⟩ := List.map_eq_cons_iff.mp hbs.symm
  rw [written, cstringBytes_letters] at hb
  cases hb

end Blitzd.Utils.StreamValues
