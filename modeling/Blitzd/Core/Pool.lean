import Mathlib.Data.Finset.Basic
import Blitzd.Lib.Run
import Blitzd.Core.Client

/-! # The client pool

Connections come and go and change their account (`PoolMove`). The pool erases by name: the entry of the name,
whoever it belongs to, with the token of the client found there. So a change of account or the end of a
connection may take another client out of the pool, and the end of a connection that never had an account takes
out nobody, for it erases the session number among the tokens.

An entry under a name always leads to a live client of that name (`NameIndex`). `tokens_iff` and `names_iff`
give the moves that keep the two indexes complete. -/

namespace Blitzd.Core

open Blitzd.Lib Blitzd.Lib.Bytes Blitzd.Lib.KeyMap Blitzd.Utils.CString Blitzd.Cache

/-! ### The indexes -/

namespace ClientPool

variable (p : ClientPool) (clients : Heap Client) (c : ConnId) (name n : Text) (t token : UInt32)

theorem findName_add : (p.add name c).findName n = if strcmpiEq name n then some c else p.findName n :=
  find_insert (e := nameEq) _ _ _ _

theorem findName_remove :
    (p.remove clients name).findName n = if strcmpiEq name n then none else p.findName n := by
  unfold remove findName
  rcases hf : find nameEq p.clientMap name with _ | d
  · dsimp only
    split_ifs with hn
    · rw [← find_congr (e := nameEq) hn, hf]
    · rfl
  · exact find_erase (e := nameEq) _ _ _

theorem findToken_remove : (p.remove clients name).findToken t =
    if (p.findName name).any (fun d => (clients.cell d).token = t) then none else p.findToken t := by
  unfold remove findName
  rcases hf : find nameEq p.clientMap name with _ | d
  · rfl
  · exact find_erase (e := KeyEq.ofEq) _ _ _

theorem findToken_addByToken :
    (p.addByToken token c).findToken t = if token = t then some c else p.findToken t := by
  unfold addByToken findToken
  rw [find_insert]
  simp

theorem findToken_removeToken :
    (p.removeToken token).findToken t = if token = t then none else p.findToken t := by
  unfold removeToken findToken
  rw [find_erase]
  simp

end ClientPool

namespace Server

variable (w : Server) (c d : ConnId) (u : Option Ptr) (n : Text) (t : UInt32)

/-- The account has the name, ignoring case. -/
def isNamed : Option Ptr → Text → Bool
  | some p, n => strcmpiEq (w.item p).username n
  | none, _ => false

/-- The client `clientPool` has under the name of the account of `c`. -/
def holder : Option ConnId := (w.client c).user.bind fun p => w.pool.findName (w.item p).username

/-- The pool once `c` has been removed by name. -/
def released : ClientPool :=
  match (w.client c).user with
  | some p => w.pool.remove w.clients (w.item p).username
  | none => w.pool

theorem findName_released : (w.released c).findName n =
    if w.isNamed (w.client c).user n then none else w.pool.findName n := by
  unfold released
  rcases (w.client c).user with _ | p
  · rfl
  · exact w.pool.findName_remove w.clients (w.item p).username n

theorem findToken_released : (w.released c).findToken t =
    if (w.holder c).any (fun d => (w.client d).token = t) then none else w.pool.findToken t := by
  unfold released holder
  rcases (w.client c).user with _ | p
  · rfl
  · exact w.pool.findToken_remove w.clients (w.item p).username t

theorem pool_setUser : (w.setUser c u).pool =
    match u with
    | some p => (w.released c).add (w.item p).username c
    | none => w.released c := by
  unfold setUser released
  rcases (w.client c).user with _ | old <;> rcases u with _ | p <;> rfl

theorem findName_setUser : (w.setUser c u).pool.findName n =
    if w.isNamed u n then some c
    else if w.isNamed (w.client c).user n then none else w.pool.findName n := by
  rw [pool_setUser, ← findName_released]
  rcases u with _ | p
  · rfl
  · exact (w.released c).findName_add c (w.item p).username n

theorem findToken_setUser : (w.setUser c u).pool.findToken t =
    if (w.holder c).any (fun d => (w.client d).token = t) then none else w.pool.findToken t := by
  rw [pool_setUser, ← findToken_released]
  rcases u with _ | p <;> rfl

end Server

/-! ### Connections -/

/-- The live connections, the last session number given, and the rest. -/
structure Net where
  live : Finset ConnId
  session : UInt32
  server : Server

namespace Net

def client (n : Net) (c : ConnId) : Client := n.server.client c

/-- `Client::Client`; the token is a random number. -/
def connect (n : Net) (c : ConnId) (token : UInt32) (serverProof clientProof : Buf 20) : Net where
  live := insert c n.live
  session := n.session + 1
  server := { n.server.modifyClient c fun _ => Client.new (n.session + 1) token serverProof clientProof with
    pool := n.server.pool.addByToken token c }

def setUser (n : Net) (c : ConnId) (u : Option Ptr) : Net := { n with server := n.server.setUser c u }

/-- `Client::~Client`. -/
def disconnect (n : Net) (c : ConnId) : Net :=
  { n with
    live := n.live.erase c
    server := { n.server with
      pool := match (n.client c).user with
        | some p => n.server.pool.remove n.server.clients (n.server.item p).username
        | none => n.server.pool.removeToken (n.client c).session } }

end Net

inductive PoolMove
  | connect (c : ConnId) (token : UInt32) (serverProof clientProof : Buf 20)
  | setUser (c : ConnId) (u : Option Ptr)
  | disconnect (c : ConnId)

def PoolMove.apply (n : Net) : PoolMove → Net
  | .connect c token sp cp => n.connect c token sp cp
  | .setUser c u => n.setUser c u
  | .disconnect c => n.disconnect c

/-- A connection is opened once, and what happens happens to live ones. -/
def PoolMove.Enabled (n : Net) : PoolMove → Prop
  | .connect c .. => c ∉ n.live
  | .setUser c _ => c ∈ n.live
  | .disconnect c => c ∈ n.live

namespace Net

def Step (n : Net) (m : PoolMove) (n' : Net) : Prop := m.Enabled n ∧ n' = m.apply n

/-- No connections yet, over any accounts. -/
structure Start (n : Net) : Prop where
  live : n.live = ∅
  clientMap : n.server.pool.clientMap = []
  tokenMap : n.server.pool.tokenMap = []

/-- `c` is live and its account has the name. -/
def Online (n : Net) (name : Text) (c : ConnId) : Prop :=
  c ∈ n.live ∧ n.server.isNamed (n.client c).user name = true

/-- Entries lead to live clients of their name. -/
def NameIndex (n : Net) : Prop := ∀ name c, n.server.pool.findName name = some c → n.Online name c

variable {n n' n₀ : Net} {c d : ConnId} {token : UInt32} {sp cp : Buf 20} {u : Option Ptr} {name : Text}
  {hist : List (Entry Net PoolMove)}

theorem client_connect_self (n : Net) (c : ConnId) (token : UInt32) (sp cp : Buf 20) :
    (n.connect c token sp cp).client c = Client.new (n.session + 1) token sp cp :=
  Server.modifyClient_self n.server c fun _ => Client.new (n.session + 1) token sp cp

theorem client_connect_ne (n : Net) (token : UInt32) (sp cp : Buf 20) (h : d ≠ c) :
    (n.connect c token sp cp).client d = n.client d :=
  Server.modifyClient_ne n.server (fun _ => Client.new (n.session + 1) token sp cp) h

theorem client_setUser_self (n : Net) (c : ConnId) (u : Option Ptr) :
    (n.setUser c u).client c = { n.client c with user := u } := n.server.setUser_client_self c u

theorem client_setUser_ne (n : Net) (u : Option Ptr) (h : d ≠ c) : (n.setUser c u).client d = n.client d :=
  n.server.setUser_client_ne u h

theorem isNamed_setUser (n : Net) (c : ConnId) (u v : Option Ptr) (name : Text) :
    (n.setUser c u).server.isNamed v name = n.server.isNamed v name := by
  rcases v with _ | p
  · rfl
  · unfold Server.isNamed Server.item setUser
    rw [Server.setUser_store]

theorem findName_disconnect (n : Net) (c : ConnId) (name : Text) : (n.disconnect c).server.pool.findName name =
    if n.server.isNamed (n.client c).user name then none else n.server.pool.findName name := by
  unfold disconnect
  dsimp only
  rcases (n.client c).user with _ | p
  · rfl
  · exact n.server.pool.findName_remove n.server.clients (n.server.item p).username name

/-- The end of a connection with an account. -/
theorem findToken_disconnect_some {p : Ptr} (hu : (n.client c).user = some p) (t : UInt32) :
    (n.disconnect c).server.pool.findToken t =
      if (n.server.holder c).any (fun d => (n.client d).token = t) then none
      else n.server.pool.findToken t := by
  unfold disconnect Server.holder
  rw [show (n.server.client c).user = some p from hu, hu]
  exact n.server.pool.findToken_remove n.server.clients (n.server.item p).username t

/-- The end of a connection without an account. -/
theorem findToken_disconnect_none (hu : (n.client c).user = none) (t : UInt32) :
    (n.disconnect c).server.pool.findToken t =
      if (n.client c).session = t then none else n.server.pool.findToken t := by
  unfold disconnect
  rw [hu]
  exact n.server.pool.findToken_removeToken t (n.client c).session

/-! ### Names -/

theorem NameIndex.connect (h : NameIndex n) (hc : c ∉ n.live) (token : UInt32) (sp cp : Buf 20) :
    NameIndex (n.connect c token sp cp) := by
  intro name d hd
  obtain ⟨hlive, hname⟩ := h name d hd
  have hdc : d ≠ c := fun he => hc (he ▸ hlive)
  refine ⟨Finset.mem_insert_of_mem hlive, ?_⟩
  rw [client_connect_ne n token sp cp hdc]
  exact hname

theorem NameIndex.setUser (h : NameIndex n) (hc : c ∈ n.live) (u : Option Ptr) : NameIndex (n.setUser c u) := by
  intro name d hd
  have hd : (n.server.setUser c u).pool.findName name = some d := hd
  rw [Server.findName_setUser] at hd
  split_ifs at hd with hu hold
  · obtain rfl := Option.some.inj hd
    refine ⟨hc, ?_⟩
    rw [isNamed_setUser, client_setUser_self]
    exact hu
  · obtain ⟨hlive, hname⟩ := h name d hd
    have hdc : d ≠ c := fun he => hold (he ▸ hname)
    refine ⟨hlive, ?_⟩
    rw [isNamed_setUser, client_setUser_ne n u hdc]
    exact hname

theorem NameIndex.disconnect (h : NameIndex n) (c : ConnId) : NameIndex (n.disconnect c) := by
  intro name d hd
  rw [findName_disconnect] at hd
  split_ifs at hd with hn
  obtain ⟨hlive, hname⟩ := h name d hd
  have hdc : d ≠ c := fun he => hn (he ▸ hname)
  exact ⟨Finset.mem_erase.mpr ⟨hdc, hlive⟩, hname⟩

theorem Start.nameIndex (h : Start n) : NameIndex n := by
  intro name c hc
  rw [ClientPool.findName, h.clientMap] at hc
  cases hc

theorem NameIndex.step {m : PoolMove} (h : NameIndex n) (hs : Step n m n') : NameIndex n' := by
  obtain ⟨hen, rfl⟩ := hs
  rcases m with ⟨c, token, sp, cp⟩ | ⟨c, u⟩ | c
  · exact h.connect hen token sp cp
  · exact h.setUser hen u
  · exact h.disconnect c

/-- Whoever is online under a name is found, or another client with it; and nobody else is. -/
def NamesFound (n : Net) : Prop := ∀ name,
  match n.server.pool.findName name with
  | some c => n.Online name c
  | none => ∀ c, ¬ n.Online name c

/-- No other client has the name that is given up, unless it is taken again. -/
def Alone (n : Net) : PoolMove → Prop
  | .connect .. => True
  | .setUser c u => ∀ p, (n.client c).user = some p →
      n.server.isNamed u (n.server.item p).username = true ∨
        ∀ d, d ≠ c → ¬ n.Online (n.server.item p).username d
  | .disconnect c => ∀ p, (n.client c).user = some p → ∀ d, d ≠ c → ¬ n.Online (n.server.item p).username d

theorem namesFound_iff (h : NameIndex n) :
    NamesFound n ↔ ∀ name c, n.Online name c → n.server.pool.findName name ≠ none := by
  constructor
  · intro hf name c hc hnone
    have := hf name
    rw [hnone] at this
    exact this c hc
  · intro hall name
    rcases hn : n.server.pool.findName name with _ | c
    · exact fun c hc => hall name c hc hn
    · exact h name c hn

theorem isNamed_congr (w : Server) {name name' : Text} (h : strcmpiEq name name' = true) (v : Option Ptr) :
    w.isNamed v name = w.isNamed v name' := by
  rcases v with _ | p
  · rfl
  · exact eqv_congr (e := nameEq) h _

/-- The name of the account of `c`, in another spelling. -/
theorem spelling (h : n.server.isNamed (n.client c).user name = true) :
    ∃ p, (n.client c).user = some p ∧ strcmpiEq (n.server.item p).username name = true := by
  rcases hu : (n.client c).user with _ | p
  · rw [hu] at h
    cases h
  · rw [hu] at h
    exact ⟨p, rfl, h⟩

theorem isNamed_self {p : Ptr} (hp : (n.client c).user = some p) :
    n.server.isNamed (n.client c).user (n.server.item p).username = true := by
  rw [hp]
  exact strcmpiEq_refl _

theorem Online.congr {name' : Text} (h : n.Online name c) (hn : strcmpiEq name' name = true) : n.Online name' c :=
  ⟨h.1, (isNamed_congr n.server hn _).trans h.2⟩

theorem names_connect (hf : ∀ name c, n.Online name c → n.server.pool.findName name ≠ none)
    (ho : (n.connect c token sp cp).Online name d) :
    (n.connect c token sp cp).server.pool.findName name ≠ none := by
  obtain ⟨hlive, hname⟩ := ho
  by_cases hdc : d = c
  · -- the new client has no account
    rw [hdc, client_connect_self] at hname
    cases hname
  · rw [client_connect_ne n token sp cp hdc] at hname
    exact hf name d ⟨Finset.mem_of_mem_insert_of_ne hlive hdc, hname⟩

theorem names_setUser (hf : ∀ name c, n.Online name c → n.server.pool.findName name ≠ none) (c : ConnId)
    (u : Option Ptr) :
    (∀ name d, (n.setUser c u).Online name d → (n.setUser c u).server.pool.findName name ≠ none) ↔
      Alone n (.setUser c u) := by
  have hfind : ∀ name, (n.setUser c u).server.pool.findName name =
      if n.server.isNamed u name then some c
      else if n.server.isNamed (n.client c).user name then none else n.server.pool.findName name :=
    fun name => n.server.findName_setUser c u name
  have honline : ∀ name d, d ≠ c → ((n.setUser c u).Online name d ↔ n.Online name d) := by
    intro name d hd
    unfold Online
    rw [isNamed_setUser, client_setUser_ne n u hd]
    rfl
  have hother : ∀ name d, (n.setUser c u).Online name d → ¬ n.server.isNamed u name = true → d ≠ c := by
    rintro name d ⟨-, hname⟩ hu rfl
    rw [isNamed_setUser, client_setUser_self] at hname
    exact hu hname
  constructor
  · intro hall p hp
    by_contra hno
    push Not at hno
    obtain ⟨hu, d, hd, ho⟩ := hno
    refine hall _ d ((honline _ d hd).mpr ho) ?_
    rw [hfind, if_neg hu, if_pos (isNamed_self hp)]
  · intro halone name d ho
    rw [hfind]
    split_ifs with hu hold
    · simp
    · have hd := hother name d ho hu
      obtain ⟨p, hp, hsp⟩ := spelling hold
      rcases halone p hp with ht | ht
      · exact absurd ((isNamed_congr n.server hsp u).symm.trans ht) hu
      · exact absurd (((honline name d hd).mp ho).congr hsp) (ht d hd)
    · exact hf name d ((honline name d (hother name d ho hu)).mp ho)

theorem names_disconnect (hf : ∀ name c, n.Online name c → n.server.pool.findName name ≠ none) (c : ConnId) :
    (∀ name d, (n.disconnect c).Online name d → (n.disconnect c).server.pool.findName name ≠ none) ↔
      Alone n (.disconnect c) := by
  have honline : ∀ name d, (n.disconnect c).Online name d ↔ d ≠ c ∧ n.Online name d := by
    intro name d
    unfold Online
    rw [← and_assoc, ← Finset.mem_erase]
    rfl
  constructor
  · intro hall p hp d hd ho
    refine hall _ d ((honline _ d).mpr ⟨hd, ho⟩) ?_
    rw [findName_disconnect, if_pos (isNamed_self hp)]
  · intro halone name d ho
    obtain ⟨hd, ho⟩ := (honline name d).mp ho
    rw [findName_disconnect]
    split_ifs with hold
    · obtain ⟨p, hp, hsp⟩ := spelling hold
      exact absurd (ho.congr hsp) (halone p hp d hd)
    · exact hf name d ho

theorem names_step {m : PoolMove} (h : NameIndex n) (hf : NamesFound n) (hs : Step n m n') :
    NameIndex n' ∧ (NamesFound n' ↔ Alone n m) := by
  have h' := h.step hs
  refine ⟨h', ?_⟩
  rw [namesFound_iff h']
  rw [namesFound_iff h] at hf
  obtain ⟨hen, rfl⟩ := hs
  rcases m with ⟨c, token, sp, cp⟩ | ⟨c, u⟩ | c
  · exact iff_of_true (fun name d ho => names_connect hf ho) trivial
  · exact names_setUser hf c u
  · exact names_disconnect hf c

/-- **The name index is complete** through a run exactly when every name given up is nobody else's. -/
theorem names_iff (hs : Start n₀) (hr : Run Step n₀ hist n) :
    (∀ x ∈ hist, NamesFound x.after) ↔ Allowed (fun _ => Alone) hist := by
  refine Run.good_iff (I := NameIndex) (P := NamesFound) hs.nameIndex ?_
    (fun h hf hstep => names_step h hf hstep) hr
  rw [namesFound_iff hs.nameIndex]
  rintro name c ⟨hlive, -⟩
  rw [hs.live] at hlive
  exact absurd hlive (Finset.notMem_empty c)

/-! ### Tokens -/

/-- A token leads to the live client that has it. -/
def TokensFound (n : Net) : Prop :=
  ∀ t c, n.server.pool.findToken t = some c ↔ c ∈ n.live ∧ (n.client c).token = t

/-- Tokens of live clients are different from each other and from session numbers. -/
structure Distinct (n : Net) : Prop where
  token : ∀ c ∈ n.live, ∀ d ∈ n.live, (n.client c).token = (n.client d).token → c = d
  session : ∀ c ∈ n.live, ∀ d ∈ n.live, (n.client c).token ≠ (n.client d).session

/-- A new client's token is nobody's token or session number, and its session number is nobody's token. -/
def FreshToken (n : Net) : PoolMove → Prop
  | .connect _ token _ _ => token ≠ n.session + 1 ∧ ∀ d ∈ n.live, (n.client d).token ≠ token ∧
      (n.client d).session ≠ token ∧ (n.client d).token ≠ n.session + 1
  | _ => True

/-- An account is given up only where nobody is found under its name, and a connection ends with an account and
is the one found under its name. -/
def Tidy (n : Net) : PoolMove → Prop
  | .connect .. => True
  | .setUser c _ => n.server.holder c = none
  | .disconnect c => n.server.holder c = some c

theorem token_setUser (n : Net) (c d : ConnId) (u : Option Ptr) :
    ((n.setUser c u).client d).token = (n.client d).token ∧
      ((n.setUser c u).client d).session = (n.client d).session := by
  by_cases hd : d = c
  · rw [hd, client_setUser_self]
    exact ⟨rfl, rfl⟩
  · rw [client_setUser_ne n u hd]
    exact ⟨rfl, rfl⟩

theorem Distinct.connect (h : Distinct n) (hc : c ∉ n.live) (hm : FreshToken n (.connect c token sp cp)) :
    Distinct (n.connect c token sp cp) := by
  obtain ⟨hnew, hold⟩ := hm
  have hne : ∀ {d}, d ∈ n.live → d ≠ c := fun hd he => hc (he ▸ hd)
  have hcl : ∀ {d}, d ∈ n.live → (n.connect c token sp cp).client d = n.client d :=
    fun hd => client_connect_ne n token sp cp (hne hd)
  have hself := client_connect_self n c token sp cp
  constructor
  · intro d hd d' hd' he
    rcases Finset.mem_insert.mp hd with rfl | h1
    · rcases Finset.mem_insert.mp hd' with rfl | h2
      · rfl
      · rw [hself, hcl h2] at he
        exact absurd he.symm (hold d' h2).1
    · rcases Finset.mem_insert.mp hd' with rfl | h2
      · rw [hself, hcl h1] at he
        exact absurd he (hold d h1).1
      · rw [hcl h1, hcl h2] at he
        exact h.token d h1 d' h2 he
  · intro d hd d' hd'
    rcases Finset.mem_insert.mp hd with rfl | h1
    · rcases Finset.mem_insert.mp hd' with rfl | h2
      · rw [hself]
        exact hnew
      · rw [hself, hcl h2]
        exact (hold d' h2).2.1.symm
    · rcases Finset.mem_insert.mp hd' with rfl | h2
      · rw [hself, hcl h1]
        exact (hold d h1).2.2
      · rw [hcl h1, hcl h2]
        exact h.session d h1 d' h2

theorem Distinct.step {m : PoolMove} (h : Distinct n) (hm : FreshToken n m) (hs : Step n m n') : Distinct n' := by
  obtain ⟨hen, rfl⟩ := hs
  rcases m with ⟨c, token, sp, cp⟩ | ⟨c, u⟩ | c
  · exact h.connect hen hm
  · refine ⟨fun d hd d' hd' => ?_, fun d hd d' hd' => ?_⟩
    · rw [PoolMove.apply, (token_setUser n c d u).1, (token_setUser n c d' u).1]
      exact h.token d hd d' hd'
    · rw [PoolMove.apply, (token_setUser n c d u).1, (token_setUser n c d' u).2]
      exact h.session d hd d' hd'
  · exact ⟨fun d hd d' hd' => h.token d (Finset.mem_of_mem_erase hd) d' (Finset.mem_of_mem_erase hd'),
      fun d hd d' hd' => h.session d (Finset.mem_of_mem_erase hd) d' (Finset.mem_of_mem_erase hd')⟩

/-- Whoever is found under the name of the account of `c` is live. -/
theorem NameIndex.holder (h : NameIndex n) (hd : n.server.holder c = some d) : d ∈ n.live := by
  obtain ⟨p, -, hp⟩ := Option.bind_eq_some_iff.mp hd
  exact (h _ d hp).1

theorem tokens_connect (ht : TokensFound n) (hc : c ∉ n.live) (hm : FreshToken n (.connect c token sp cp)) :
    TokensFound (n.connect c token sp cp) := by
  intro t d
  have hfind : (n.connect c token sp cp).server.pool.findToken t =
      if token = t then some c else n.server.pool.findToken t := n.server.pool.findToken_addByToken c t token
  have hlive : d ∈ (n.connect c token sp cp).live ↔ d = c ∨ d ∈ n.live := Finset.mem_insert
  rw [hfind, hlive]
  by_cases hd : d = c
  · subst hd
    rw [client_connect_self]
    split_ifs with htk
    · exact iff_of_true rfl ⟨.inl rfl, htk⟩
    · rw [ht]
      exact iff_of_false (fun hx => hc hx.1) fun hx => htk hx.2
  · rw [client_connect_ne n token sp cp hd, or_iff_right hd]
    split_ifs with htk
    · refine iff_of_false (fun hx => hd (Option.some.inj hx).symm) ?_
      rintro ⟨hdl, he⟩
      exact (hm.2 d hdl).1 (he.trans htk.symm)
    · exact ht t d

theorem tokens_setUser (h : NameIndex n) (ht : TokensFound n) (c : ConnId) (u : Option Ptr) :
    TokensFound (n.setUser c u) ↔ n.server.holder c = none := by
  have hfind : ∀ t, (n.setUser c u).server.pool.findToken t =
      if (n.server.holder c).any (fun d => (n.client d).token = t) then none
      else n.server.pool.findToken t := fun t => n.server.findToken_setUser c u t
  constructor
  · intro ht'
    by_contra hne
    obtain ⟨d, hd⟩ := Option.ne_none_iff_exists'.mp hne
    -- the client found loses its token
    have := (ht' (n.client d).token d).mpr ⟨h.holder hd, (token_setUser n c d u).1⟩
    rw [hfind, hd, Option.any_some, if_pos (decide_eq_true rfl)] at this
    cases this
  · intro hno t d
    rw [hfind, hno, (token_setUser n c d u).1]
    exact ht t d

theorem tokens_disconnect (h : NameIndex n) (hd : Distinct n) (ht : TokensFound n) (hc : c ∈ n.live) :
    TokensFound (n.disconnect c) ↔ n.server.holder c = some c := by
  -- the token of `c` must go
  have hgone : TokensFound (n.disconnect c) →
      (n.disconnect c).server.pool.findToken (n.client c).token ≠ some c := by
    intro ht' hx
    exact Finset.notMem_erase c _ ((ht' _ c).mp hx).1
  have hmine : n.server.pool.findToken (n.client c).token = some c := (ht _ c).mpr ⟨hc, rfl⟩
  rcases hu : (n.client c).user with _ | p
  · have hno : n.server.holder c = none := by
      unfold Server.holder
      rw [show (n.server.client c).user = none from hu]
      rfl
    refine iff_of_false (fun ht' => hgone ht' ?_) (by rw [hno]; simp)
    rw [findToken_disconnect_none hu, if_neg (hd.session c hc c hc).symm, hmine]
  · rcases hh : n.server.holder c with _ | d
    · refine iff_of_false (fun ht' => hgone ht' ?_) (by simp)
      rw [findToken_disconnect_some hu, hh, Option.any_none, if_neg Bool.false_ne_true, hmine]
    · rw [Option.some.injEq]
      constructor
      · intro ht'
        by_contra hdc
        refine hgone ht' ?_
        have hne : (n.client d).token ≠ (n.client c).token := fun he => hdc (hd.token d (h.holder hh) c hc he)
        rw [findToken_disconnect_some hu, hh, Option.any_some, if_neg (by simpa using hne), hmine]
      · rintro rfl t c'
        have hlive : c' ∈ (n.disconnect d).live ↔ c' ≠ d ∧ c' ∈ n.live := Finset.mem_erase
        have hcl : (n.disconnect d).client c' = n.client c' := rfl
        rw [findToken_disconnect_some hu, hh, Option.any_some, hlive, hcl]
        by_cases htk : (n.client d).token = t
        · rw [if_pos (decide_eq_true htk)]
          refine iff_of_false (by simp) ?_
          rintro ⟨⟨hne, hl⟩, he⟩
          exact hne (hd.token c' hl d hc (he.trans htk.symm))
        · rw [if_neg (by simpa using htk), ht, and_assoc]
          refine (and_iff_right_of_imp ?_).symm
          rintro ⟨-, he⟩ rfl
          exact htk he

/-- **The token index is complete** through a run exactly when every move is tidy. -/
theorem tokens_iff (hs : Start n₀) (hr : Run (fun n m n' => Step n m n' ∧ FreshToken n m) n₀ hist n) :
    (∀ x ∈ hist, TokensFound x.after) ↔ Allowed (fun _ => Tidy) hist := by
  refine Run.good_iff (I := fun n => NameIndex n ∧ Distinct n) (P := TokensFound) ⟨hs.nameIndex, ?_⟩ ?_ ?_ hr
  · constructor
    · intro c hc
      rw [hs.live] at hc
      exact absurd hc (Finset.notMem_empty c)
    · intro c hc
      rw [hs.live] at hc
      exact absurd hc (Finset.notMem_empty c)
  · intro t c
    rw [ClientPool.findToken, hs.tokenMap, hs.live]
    exact iff_of_false (by simp [find]) fun hx => Finset.notMem_empty c hx.1
  · rintro n m n' ⟨h, hd⟩ ht ⟨hstep, hm⟩
    refine ⟨⟨h.step hstep, hd.step hm hstep⟩, ?_⟩
    obtain ⟨hen, rfl⟩ := hstep
    rcases m with ⟨c, token, sp, cp⟩ | ⟨c, u⟩ | c
    · exact iff_of_true (tokens_connect ht hen hm) trivial
    · exact tokens_setUser h ht c u
    · exact tokens_disconnect h hd ht hen

/-! ### One account -/

/-- Nobody is connected; `alice` has an account. -/
def calm : Net where
  live := ∅
  session := 0
  server := ⟨Heap.empty, ⟨[], []⟩,
    ⟨⟨⟨fun _ => UserCacheItem.new (str "alice") (Buf.zero 20), 1⟩, 2, 1, [(str "alice", 0)], [(1, 0)]⟩, ⟨[], []⟩⟩⟩

theorem start_calm : Start calm := ⟨rfl, rfl, rfl⟩

/-- A first connection, with token `7`. -/
def joined : Net := calm.connect 1 7 (Buf.zero 20) (Buf.zero 20)

theorem step_joined : Step calm (.connect 1 7 (Buf.zero 20) (Buf.zero 20)) joined :=
  ⟨Finset.notMem_empty 1, rfl⟩

theorem fresh_joined : FreshToken calm (.connect 1 7 (Buf.zero 20) (Buf.zero 20)) :=
  ⟨by decide, fun d hd => absurd hd (Finset.notMem_empty d)⟩

theorem step_setUser {n : Net} {c : ConnId} (hc : c ∈ n.live) (u : Option Ptr) :
    Step n (.setUser c u) (n.setUser c u) := ⟨hc, rfl⟩

theorem step_disconnect {n : Net} {c : ConnId} (hc : c ∈ n.live) : Step n (.disconnect c) (n.disconnect c) :=
  ⟨hc, rfl⟩

/-- A connection that never logs in leaves its token in the pool. -/
theorem token_outlives_client : Start calm ∧ ∃ hist n,
    Run (fun n m n' => Step n m n' ∧ FreshToken n m) calm hist n ∧ ¬ ∀ x ∈ hist, TokensFound x.after := by
  have h2 : Step joined (.disconnect 1) (joined.disconnect 1) := step_disconnect (by decide)
  refine ⟨start_calm, _, _, .snoc (.snoc .nil ⟨step_joined, fresh_joined⟩) ⟨h2, trivial⟩, fun h => ?_⟩
  have hfound := h _ List.mem_cons_self 7 1
  have hgone : (1 : ConnId) ∉ (joined.disconnect 1).live := by decide
  exact hgone (hfound.mp (by decide)).1

/-- A login between them. -/
theorem tokens_found_login : Start calm ∧ ∃ hist n,
    Run (fun n m n' => Step n m n' ∧ FreshToken n m) calm hist n ∧ hist.length = 3 ∧
      ∀ x ∈ hist, TokensFound x.after := by
  have h2 : Step joined (.setUser 1 (some 0)) (joined.setUser 1 (some 0)) := step_setUser (by decide) _
  have h3 : Step (joined.setUser 1 (some 0)) (.disconnect 1) ((joined.setUser 1 (some 0)).disconnect 1) :=
    step_disconnect (by decide)
  have hfirst : joined.server.holder 1 = none := by decide
  have hlast : (joined.setUser 1 (some 0)).server.holder 1 = some 1 := by decide
  have hr1 : Run (fun n m n' => Step n m n' ∧ FreshToken n m) calm _ joined :=
    .snoc .nil ⟨step_joined, fresh_joined⟩
  have hr := Run.snoc (Run.snoc hr1 ⟨h2, trivial⟩) ⟨h3, trivial⟩
  exact ⟨start_calm, _, _, hr, rfl, (tokens_iff start_calm hr).mpr ⟨hlast, hfirst, trivial, trivial⟩⟩

/-- Two connections of one account. -/
def shared : Net :=
  ((joined.connect 2 8 (Buf.zero 20) (Buf.zero 20)).setUser 1 (some 0)).setUser 2 (some 0)

/-- One of two connections of an account ends, and the other is not found any more. -/
theorem name_lost_with_other : Start calm ∧ ∃ hist n, Run Step calm hist n ∧ ¬ ∀ x ∈ hist, NamesFound x.after := by
  have hnew : (2 : ConnId) ∉ joined.live := by decide
  have h2 : Step joined (.connect 2 8 (Buf.zero 20) (Buf.zero 20)) _ := ⟨hnew, rfl⟩
  have h3 := step_setUser (n := joined.connect 2 8 (Buf.zero 20) (Buf.zero 20)) (c := 1) (by decide) (some 0)
  have h4 := step_setUser (n := (joined.connect 2 8 (Buf.zero 20) (Buf.zero 20)).setUser 1 (some 0)) (c := 2)
    (by decide) (some 0)
  have h5 : Step shared (.disconnect 1) (shared.disconnect 1) := step_disconnect (by decide)
  refine ⟨start_calm, _, _, .snoc (.snoc (.snoc (.snoc (.snoc .nil step_joined) h2) h3) h4) h5, fun h => ?_⟩
  have hfound : NamesFound (shared.disconnect 1) := h _ List.mem_cons_self
  have hnone : (shared.disconnect 1).server.pool.findName (str "alice") = none := by decide
  have hlost := hfound (str "alice")
  rw [hnone] at hlost
  exact hlost 2 ⟨by decide, by decide⟩

/-- One connection, from login to end. -/
theorem names_found_login : Start calm ∧ ∃ hist n, Run Step calm hist n ∧ hist.length = 3 ∧
    ∀ x ∈ hist, NamesFound x.after := by
  have h2 : Step joined (.setUser 1 (some 0)) (joined.setUser 1 (some 0)) := step_setUser (by decide) _
  have h3 : Step (joined.setUser 1 (some 0)) (.disconnect 1) ((joined.setUser 1 (some 0)).disconnect 1) :=
    step_disconnect (by decide)
  have hr := Run.snoc (Run.snoc (Run.snoc Run.nil step_joined) h2) h3
  refine ⟨start_calm, _, _, hr, rfl, (names_iff start_calm hr).mpr ⟨?_, ?_, trivial, trivial⟩⟩
  · rintro p - d hd ⟨hlive, -⟩
    have honly : (joined.setUser 1 (some 0)).live = {1} := by decide
    exact hd (Finset.mem_singleton.mp (honly ▸ hlive))
  · intro p hp
    cases hp

end Net

end Blitzd.Core
