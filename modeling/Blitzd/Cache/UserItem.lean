import Blitzd.Lib.Heap
import Blitzd.Lib.KeyMap
import Blitzd.Utils.CString

/-! # Accounts (`UserCacheItem`)

An account lives on the heap and is shared by pointer: the cache's maps, the clients and the friend
lists of other accounts point to it. Every setter marks the account dirty when it changes something.
`AddFriend` may change two accounts, so it works on the heap; nothing of an account but its friend
list is touched by it (`core`, `addFriend_extends`). -/

namespace Blitzd.Cache

open Blitzd.Lib Blitzd.Lib.Bytes Blitzd.Lib.KeyMap Blitzd.Utils.CString

abbrev Ptr := ℕ

def UCF_OLSAUTH : UInt32 := 0x10000000
def UCF_NLSAUTH : UInt32 := 0x20000000

structure Friend where
  isMutual : Bool
  user : Ptr
deriving DecidableEq

structure UserCacheItem where
  dirty : Bool
  id : UInt32
  username : Text
  mail : Text
  salt : Buf 32
  verifier : Buf 32
  passwd : Buf 20
  flag : UInt32
  friendDirty : Bool
  friendList : List Friend
  dataMap : List (Text × Text)
deriving DecidableEq

namespace UserCacheItem

/-- The constructor; it does not initialise `_passwd`. -/
def new (username : Text) (passwd : Buf 20) : UserCacheItem where
  dirty := false
  id := 0
  username := username
  mail := []
  salt := Buf.zero 32
  verifier := Buf.zero 32
  passwd := passwd
  flag := 0
  friendDirty := false
  friendList := []
  dataMap := []

instance : Inhabited UserCacheItem := ⟨new [] (Buf.zero 20)⟩

def isExist (u : UserCacheItem) : Bool := u.id > 0

def setUserId (u : UserCacheItem) (id : UInt32) : UserCacheItem := { u with id := id }

def setSalt (u : UserCacheItem) (s : Buf 32) : UserCacheItem :=
  if u.salt = s then u else { u with dirty := true, salt := s }

def setVerifier (u : UserCacheItem) (s : Buf 32) : UserCacheItem :=
  if u.verifier = s then u else { u with dirty := true, verifier := s }

def setPasswd (u : UserCacheItem) (p : Buf 20) : UserCacheItem :=
  if u.passwd = p then u else { u with dirty := true, passwd := p }

def setMail (u : UserCacheItem) (m : Text) : UserCacheItem :=
  if u.mail = m then u else { u with mail := m, dirty := true }

def setFlag (u : UserCacheItem) (f : UInt32) : UserCacheItem :=
  if u.flag = f then u else { u with flag := f, dirty := true }

def addFlag (u : UserCacheItem) (f : UInt32) : UserCacheItem := u.setFlag (u.flag ||| f)

def setDirty (u : UserCacheItem) (d : Bool) : UserCacheItem := { u with dirty := d }

def setFriendDirty (u : UserCacheItem) (d : Bool) : UserCacheItem := { u with friendDirty := d }

/-! ### The data map -/

/-- One `key=value` of the stored data; a piece without `=` is skipped. -/
def setDataEntry (m : List (Text × Text)) (piece : Text) : List (Text × Text) :=
  if 61 ∈ piece then
    insertLt strcmpiLt m (piece.takeWhile (· ≠ 61)) ((piece.dropWhile (· ≠ 61)).drop 1)
  else m

/-- The loop of `SetDataMap` over the pieces between zero bytes; it runs at most once for each byte. -/
def setDataLoop : ℕ → List Byte → List (Text × Text) → List (Text × Text)
  | 0, _, m => m
  | k + 1, d, m =>
    if d = [] then m
    else
      let piece := cstr d
      setDataLoop k (d.drop (piece.length + 1)) (setDataEntry m piece)

def setDataMap (u : UserCacheItem) (data : List Byte) : UserCacheItem :=
  { u with dataMap := setDataLoop data.length data u.dataMap }

def buildDataMap (u : UserCacheItem) : List Byte :=
  u.dataMap.flatMap fun e => if e.2 = [] then [] else e.1 ++ 61 :: (e.2 ++ [0])

/-! ### Friends -/

/-- `FindFriend`, `none` for `-1`. -/
def findFriend (u : UserCacheItem) (p : Ptr) : Option ℕ := u.friendList.findIdx? fun f => f.user = p

/-- `GetFriend(idx)->mutual = true`. -/
def setMutual (u : UserCacheItem) (idx : ℕ) : UserCacheItem :=
  { u with friendList := u.friendList.modify idx fun f => { f with isMutual := true } }

def pushFriend (u : UserCacheItem) (f : Friend) : UserCacheItem :=
  { u with friendList := u.friendList ++ [f], friendDirty := true }

/-- All of an account but its friend list. -/
def core (u : UserCacheItem) : UserCacheItem := { u with friendList := [], friendDirty := false }

/-! ### What the setters change -/

section Fields

variable (u : UserCacheItem)

/-- `SetSalt` changes the salt and the dirty mark only; so do the others below with their field. -/
theorem setSalt_eq (s : Buf 32) : ∃ d, u.setSalt s = { u with salt := s, dirty := d } := by
  unfold setSalt; split_ifs with h
  · exact ⟨u.dirty, by subst h; rfl⟩
  · exact ⟨true, rfl⟩

theorem setVerifier_eq (s : Buf 32) : ∃ d, u.setVerifier s = { u with verifier := s, dirty := d } := by
  unfold setVerifier; split_ifs with h
  · exact ⟨u.dirty, by subst h; rfl⟩
  · exact ⟨true, rfl⟩

theorem setPasswd_eq (p : Buf 20) : ∃ d, u.setPasswd p = { u with passwd := p, dirty := d } := by
  unfold setPasswd; split_ifs with h
  · exact ⟨u.dirty, by subst h; rfl⟩
  · exact ⟨true, rfl⟩

theorem setMail_eq (m : Text) : ∃ d, u.setMail m = { u with mail := m, dirty := d } := by
  unfold setMail; split_ifs with h
  · exact ⟨u.dirty, by subst h; rfl⟩
  · exact ⟨true, rfl⟩

theorem setFlag_eq (f : UInt32) : ∃ d, u.setFlag f = { u with flag := f, dirty := d } := by
  unfold setFlag; split_ifs with h
  · exact ⟨u.dirty, by subst h; rfl⟩
  · exact ⟨true, rfl⟩

@[simp] theorem core_setMutual (i : ℕ) : (u.setMutual i).core = u.core := rfl

@[simp] theorem core_pushFriend (f : Friend) : (u.pushFriend f).core = u.core := rfl

end Fields

end UserCacheItem

/-- `self->AddFriend(user, NULL)`: the heap, and the index of the friend (`none` for `-1`). -/
def addFriend (h : Heap UserCacheItem) (self : Ptr) (user : Option Ptr) :
    Heap UserCacheItem × Option ℕ :=
  match user with
  | none => (h, none)
  | some u =>
    if u = self then (h, none)
    else match (h.cell self).findFriend u with
      | some i => (h, some i)
      | none =>
        if (h.cell self).friendList.length > 20 then (h, none)
        else
          let back := (h.cell u).findFriend self
          let h1 := match back with
            | some j => h.modify u fun x => x.setMutual j
            | none => h
          (h1.modify self fun x => x.pushFriend ⟨back.isSome, u⟩,
            some (h.cell self).friendList.length)

/-- Nothing, or an entry in `self`'s list, and perhaps a mark in the friend's. -/
theorem addFriend_cases (h : Heap UserCacheItem) (self : Ptr) (user : Option Ptr) :
    (addFriend h self user).1 = h ∨
    (∃ f, (addFriend h self user).1 = h.modify self fun x => x.pushFriend f) ∨
    ∃ u j f, (addFriend h self user).1 =
      (h.modify u fun x => x.setMutual j).modify self fun x => x.pushFriend f := by
  unfold addFriend
  rcases user with _ | u
  · exact Or.inl rfl
  by_cases hs : u = self
  · simp [hs]
  rcases hf : (h.cell self).findFriend u with _ | i
  · by_cases hl : (h.cell self).friendList.length > 20
    · simp [hs, hf, hl]
    · rcases hb : (h.cell u).findFriend self with _ | j
      · exact Or.inr (Or.inl ⟨⟨false, u⟩, by simp [hs, hf, hl, hb]⟩)
      · exact Or.inr (Or.inr ⟨u, j, ⟨true, u⟩, by simp [hs, hf, hl, hb]⟩)
  · simp [hs, hf]

/-- Befriending changes friend lists only. -/
theorem addFriend_extends (h : Heap UserCacheItem) (self : Ptr) (user : Option Ptr) :
    Heap.Extends UserCacheItem.core h (addFriend h self user).1 := by
  rcases addFriend_cases h self user with e | ⟨f, e⟩ | ⟨u, j, f, e⟩
  · rw [e]; exact .refl _ h
  · rw [e]; exact .modify h self fun a => a.core_pushFriend f
  · rw [e]
    exact (Heap.Extends.modify h u fun a => a.core_setMutual j).trans
      (.modify _ self fun a => a.core_pushFriend f)

@[simp] theorem addFriend_brk (h : Heap UserCacheItem) (self : Ptr) (user : Option Ptr) :
    (addFriend h self user).1.brk = h.brk := by
  rcases addFriend_cases h self user with e | ⟨f, e⟩ | ⟨u, j, f, e⟩
  all_goals simp [e]

end Blitzd.Cache
