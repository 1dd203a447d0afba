import Blitzd.Cache.UserCache

/-! # Connections (`Client`, `ClientPool`)

A client keeps the account it has named (`_user`), the two proofs of its last SRP exchange and its
stage; the constructor does not initialise the proofs. The pool finds clients by the name of their
account and by token. `Server` is the state the handlers work on: the clients, the pool, the account
cache and the database. -/

namespace Blitzd.Core

open Blitzd.Lib Blitzd.Lib.Bytes Blitzd.Lib.KeyMap Blitzd.Cache

inductive Stage
  | connected | bnet | bnetLoggedIn | fileTrans | fileRaw | baal
deriving DecidableEq

abbrev ConnId := ℕ

structure Client where
  stage : Stage
  gameid : UInt32
  session : UInt32
  token : UInt32
  user : Option Ptr
  stats : List Byte
  serverProof : Buf 20
  clientProof : Buf 20
deriving DecidableEq

/-- A new connection; the proofs are what the memory held. -/
def Client.new (session token : UInt32) (serverProof clientProof : Buf 20) : Client where
  stage := .connected
  gameid := 0
  session := session
  token := token
  user := none
  stats := []
  serverProof := serverProof
  clientProof := clientProof

instance : Inhabited Client := ⟨.new 0 0 (Buf.zero 20) (Buf.zero 20)⟩

structure ClientPool where
  clientMap : List (Text × ConnId)
  tokenMap : List (UInt32 × ConnId)

structure Server where
  clients : Heap Client
  pool : ClientPool
  store : Store

namespace ClientPool

/-- `clientPool[name]`. -/
def findName (p : ClientPool) (name : Text) : Option ConnId := find nameEq p.clientMap name

/-- `clientPool[token]`. -/
def findToken (p : ClientPool) (token : UInt32) : Option ConnId := find KeyEq.ofEq p.tokenMap token

/-- `Add`, of a client with an account of that name. -/
def add (p : ClientPool) (name : Text) (c : ConnId) : ClientPool :=
  { p with clientMap := insert nameEq p.clientMap name c }

/-- `Remove(name)`; the token of the client found under the name goes too. -/
def remove (p : ClientPool) (clients : Heap Client) (name : Text) : ClientPool :=
  match find nameEq p.clientMap name with
  | none => p
  | some c =>
    { clientMap := erase nameEq p.clientMap name
      tokenMap := erase KeyEq.ofEq p.tokenMap (clients.cell c).token }

/-- `AddByToken`. -/
def addByToken (p : ClientPool) (token : UInt32) (c : ConnId) : ClientPool :=
  { p with tokenMap := insert KeyEq.ofEq p.tokenMap token c }

/-- `Remove(s)`, of a number. -/
def removeToken (p : ClientPool) (s : UInt32) : ClientPool := { p with tokenMap := erase KeyEq.ofEq p.tokenMap s }

end ClientPool

namespace Server

def client (w : Server) (c : ConnId) : Client := w.clients.cell c

def item (w : Server) (p : Ptr) : UserCacheItem := w.store.cache.get p

def modifyClient (w : Server) (c : ConnId) (f : Client → Client) : Server :=
  { w with clients := w.clients.modify c f }

def modifyItem (w : Server) (p : Ptr) (f : UserCacheItem → UserCacheItem) : Server :=
  { w with store := { w.store with cache := w.store.cache.modify p f } }

/-- `SetUser`. -/
def setUser (w : Server) (c : ConnId) (u : Option Ptr) : Server :=
  let w1 : Server := match (w.client c).user with
    | some old => { w with pool := w.pool.remove w.clients (w.item old).username }
    | none => w
  let w2 := w1.modifyClient c fun cl => { cl with user := u }
  match u with
  | some p => { w2 with pool := w2.pool.add (w2.item p).username c }
  | none => w2

/-- `SetStage`; logging in builds the stats. -/
def setStage (w : Server) (c : ConnId) (s : Stage) : Server :=
  w.modifyClient c fun cl =>
    { cl with
      stage := s
      stats := if s = .bnetLoggedIn then toLE 4 cl.gameid.toNat else cl.stats }

/-- `SetProof`. -/
def setProof (w : Server) (c : ConnId) (s m : Buf 20) : Server :=
  w.modifyClient c fun cl => { cl with serverProof := s, clientProof := m }

section Frame

variable (w : Server) (c d : ConnId)

@[simp] theorem modifyClient_self (f : Client → Client) :
    (w.modifyClient c f).client c = f (w.client c) := Heap.modify_self _ _ _

theorem modifyClient_ne (f : Client → Client) {c d : ConnId} (h : d ≠ c) :
    (w.modifyClient c f).client d = w.client d := Heap.modify_ne _ f h

@[simp] theorem setUser_store (u : Option Ptr) : (w.setUser c u).store = w.store := by
  unfold setUser
  rcases (w.client c).user with _ | old <;> rcases u with _ | p <;> rfl

theorem setUser_clients (u : Option Ptr) :
    (w.setUser c u).clients = w.clients.modify c fun cl => { cl with user := u } := by
  unfold setUser
  rcases (w.client c).user with _ | old <;> rcases u with _ | p <;> rfl

@[simp] theorem setUser_client_self (u : Option Ptr) :
    (w.setUser c u).client c = { w.client c with user := u } := by
  unfold client
  rw [setUser_clients, Heap.modify_self]

theorem setUser_client_ne (u : Option Ptr) {c d : ConnId} (h : d ≠ c) :
    (w.setUser c u).client d = w.client d := by
  unfold client
  rw [setUser_clients, Heap.modify_ne _ _ h]

@[simp] theorem setStage_store (s : Stage) : (w.setStage c s).store = w.store := rfl

@[simp] theorem setProof_store (s m : Buf 20) : (w.setProof c s m).store = w.store := rfl

@[simp] theorem setStage_client_self (s : Stage) : (w.setStage c s).client c =
    { w.client c with
      stage := s
      stats := if s = .bnetLoggedIn then toLE 4 (w.client c).gameid.toNat else (w.client c).stats } :=
  modifyClient_self _ _ _

@[simp] theorem setProof_client_self (s m : Buf 20) : (w.setProof c s m).client c =
    { w.client c with serverProof := s, clientProof := m } := modifyClient_self _ _ _

theorem modifyItem_item_self (p : Ptr) (f : UserCacheItem → UserCacheItem) :
    (w.modifyItem p f).item p = f (w.item p) := Heap.modify_self _ _ _

theorem modifyItem_item_ne (f : UserCacheItem → UserCacheItem) {p q : Ptr} (h : q ≠ p) :
    (w.modifyItem p f).item q = w.item q := Heap.modify_ne _ f h

end Frame

end Server

end Blitzd.Core
