import Blitzd.Plugins.Acts
import Blitzd.Plugins.Suites

/-! # Every packet is an act

`process_does`: a call of any of the plugins is one act of its connection, and one that its suite can make (`Suited`).
Most handlers make plain acts, which is a lemma for each of them. -/

namespace Blitzd.Plugins.SuitesActs

open Blitzd.Lib Blitzd.Lib.Bytes Blitzd.Lib.KeyMap Blitzd.Utils Blitzd.Utils.CString Blitzd.Cache Blitzd.Core
open Blitzd.Packets Blitzd.Plugins.LogonPool Blitzd.Plugins.Acts Blitzd.Plugins.Suites

variable {st : Settings} {am : Ambient} {c d : ConnId} {payload : List Byte} {w w' : World}

/-! ### Accounts that are looked up -/

theorem sameAccounts_lookup {env : Env} {k : ℕ} {s s' : Store} {key : Key} {p : Option Ptr} (hb : Bounded s.cache)
    (h : lookup env k s key = some (p, s')) : SameAccounts s s' := .of_keeps (lookup_keeps hb h).1

theorem identity_getData (u : UserCacheItem) (k : Text) : identity (u.getData k).2 = identity u := by
  unfold UserCacheItem.getData
  split <;> rfl

theorem identity_setData (u : UserCacheItem) (k v : Text) : identity (u.setData k v) = identity u := by
  unfold UserCacheItem.setData
  dsimp only
  split_ifs
  · exact identity_getData u k
  · exact identity_getData u k

theorem identity_setMail (u : UserCacheItem) (m : Text) : identity (u.setMail m) = identity u := by
  obtain ⟨_, he⟩ := u.setMail_eq m
  rw [he]
  rfl

theorem sameAccounts_readRow (p : Ptr) (keys : List Text) {s : Store} (hb : Bounded s.cache) :
    SameAccounts s (ReadUserData.readRow p keys s).2 := by
  induction keys generalizing s with
  | nil => exact .refl hb
  | cons k keys ih =>
    rw [ReadUserData.readRow]
    split_ifs
    · exact ih hb
    · have hone := SameAccounts.modify hb p (f := fun _ => ((s.cache.get p).getData k).2) (identity_getData _ k)
      exact hone.trans (ih hone.bounded)

/-- The account of a name in a request; an empty one stands for the client's own. -/
theorem sameAccounts_resolve {env : Env} {user : Option Ptr} {a : Text} {s s' : Store} {p : Option Ptr}
    (hb : Bounded s.cache)
    (h : (if a = [] then some (user, s) else lookup env env.depth s (.name a)) = some (p, s')) : SameAccounts s s' := by
  split_ifs at h
  · cases h
    exact .refl hb
  · exact sameAccounts_lookup hb h

theorem sameAccounts_readRows {env : Env} {user : Option Ptr} {keys : List Text} (names : List Text) {s : Store}
    (hb : Bounded s.cache) {r : ReadUserData.Rows keys names.length × Store}
    (h : ReadUserData.readRows env user keys names s = some r) : SameAccounts s r.2 := by
  induction names generalizing s with
  | nil =>
    cases h
    exact .refl hb
  | cons a names ih =>
    rw [ReadUserData.readRows] at h
    split at h
    · cases h
    · next heq =>
      obtain ⟨r', hr', rfl⟩ := Option.map_eq_some_iff.mp h
      have hfound := sameAccounts_resolve hb heq
      exact hfound.trans (ih hfound.bounded hr')
    · next p s1 heq =>
      obtain ⟨r', hr', rfl⟩ := Option.map_eq_some_iff.mp h
      have hfound := sameAccounts_resolve hb heq
      have hrow := hfound.trans (sameAccounts_readRow p keys hfound.bounded)
      exact hrow.trans (ih hrow.bounded hr')

theorem sameAccounts_writeEntry (keys : List Text) (i : ℕ) (p : Ptr) (g : WriteUserData.Progress) (e : Text × Text)
    (hb : Bounded g.store.cache) : SameAccounts g.store (WriteUserData.writeEntry keys i p g e).store := by
  unfold WriteUserData.writeEntry
  split
  · exact .refl hb
  · split_ifs
    · exact .refl hb
    · exact .modify hb p (identity_setData _ e.1 e.2)

theorem sameAccounts_writeEntries (keys : List Text) (i : ℕ) (p : Ptr) (entries : List (Text × Text))
    {g : WriteUserData.Progress} (hb : Bounded g.store.cache) :
    SameAccounts g.store (entries.foldl (WriteUserData.writeEntry keys i p) g).store := by
  induction entries generalizing g with
  | nil => exact .refl hb
  | cons e entries ih =>
    have hone := sameAccounts_writeEntry keys i p g e hb
    exact hone.trans (ih hone.bounded)

theorem sameAccounts_writeRows {env : Env} {user : Option Ptr} {keys : List Text} {entries : List (Text × Text)}
    (names : List Text) {i : ℕ} {g g' : WriteUserData.Progress} (hb : Bounded g.store.cache)
    (h : WriteUserData.writeRows env user keys entries i names g = some g') : SameAccounts g.store g'.store := by
  induction names generalizing i g with
  | nil =>
    cases h
    exact .refl hb
  | cons a names ih =>
    rw [WriteUserData.writeRows] at h
    split at h
    · cases h
    · next s heq =>
      have hfound := sameAccounts_resolve hb heq
      exact hfound.trans (ih hfound.bounded h)
    · next p s heq =>
      have hfound := sameAccounts_resolve hb heq
      have hrow := hfound.trans (sameAccounts_writeEntries keys i p entries
        (g := { g with found := g.found ++ [some p], store := s }) hfound.bounded)
      exact hrow.trans (ih hrow.bounded h)

/-! ### Handlers of both suites -/

section Plain

variable (hb : Bounded w.server.store.cache)
include hb

theorem reply_self {p : Packet} (hp : event (.bnet p) = none) : Plain c w (w.reply c p) := .reply hb (.inl rfl) (.inl hp)

theorem deliver_self {x : Wire} (hx : event x = none) : Plain c w (w.deliver c [x]) := by
  refine .deliver hb (.inl rfl) fun y hy => ?_
  rw [List.mem_singleton.mp hy]
  exact .inl hx

theorem plain_openFile (name : Text) : Plain c w (openFile st am w name).2 := .of_same hb rfl rfl rfl rfl

theorem plain_setAuthInfo (product ver : UInt32) (country : Name) : Plain c w (setAuthInfo c w product ver country) := by
  have hgame : Plain c w (w.setServer (w.server.modifyClient c fun cl => { cl with gameid := product })) :=
    .setGameid hb c _
  unfold setAuthInfo
  exact hgame.andThen fun hb => .modifyPersona hb c rfl

theorem plain_sendPing : Plain c w (sendPing am c w) :=
  (Plain.modifyPersona hb c rfl).andThen fun hb => reply_self hb rfl

theorem plain_authInfo : Plain c w (authInfo st am c payload w) :=
  (((plain_setAuthInfo hb _ _ _).andThen plain_sendPing).andThen fun hb => plain_openFile hb _).andThen
    fun hb => reply_self hb rfl

theorem plain_authCheck : Plain c w (authCheck st am c payload w) := by
  refine reply_self hb ?_
  unfold AuthCheck.process
  dsimp only
  split <;> rfl

theorem plain_setMail (p : Ptr) (mail : Text) :
    Plain c w (w.setServer (w.server.modifyItem p fun u => u.setMail mail)) :=
  .modifyItem hb c p (identity_setMail _ mail)

theorem plain_changeEmail (h : changeEmail st payload w = some w') : Plain c w w' := by
  obtain ⟨⟨user, store⟩, hl, rfl⟩ := Option.map_eq_some_iff.mp h
  have hlook := Plain.setStore c (sameAccounts_lookup hb hl)
  rcases user with _ | p
  · exact hlook
  · dsimp only
    split_ifs
    · exact hlook.andThen fun hb => plain_setMail hb p _
    · exact hlook

theorem plain_ping : Plain c w (ping am c payload w) := by
  unfold ping
  dsimp only
  split_ifs
  · exact .refl c hb
  · exact .modifyPersona hb c rfl

theorem plain_fileRequest {kind : FileReq.Kind} (h : fileRequest st am c payload w kind = some w') : Plain c w w' := by
  have hcache : ∀ files, Plain c w { w with files := files } := fun files => .of_same hb rfl rfl rfl rfl
  unfold fileRequest at h
  dsimp only at h
  split_ifs at h
  split at h
  · cases h
    exact hcache _
  · cases h
    exact (hcache _).andThen fun hb => deliver_self hb rfl
  · next p hsent =>
    cases h
    refine (hcache _).andThen fun hb => reply_self hb ?_
    -- the only packet of the three handlers is `ReplyFileInfo`
    unfold FileReq.process at hsent
    split at hsent
    · dsimp only at hsent
      split at hsent <;> cases hsent
    · dsimp only at hsent
      split at hsent <;> cases hsent
      rfl

theorem plain_queryIcon : Plain c w (queryIcon st am c w) := by
  unfold queryIcon
  dsimp only
  split
  · exact plain_openFile hb _
  · exact (plain_openFile hb _).andThen fun hb => reply_self hb rfl

theorem plain_readUserData (h : readUserData st am c payload w = some w') : Plain c w w' := by
  obtain ⟨⟨data, s⟩, hr, rfl⟩ := Option.map_eq_some_iff.mp h
  have hstore : Plain c w (w.setServer s) := by
    unfold ReadUserData.readUserData at hr
    split at hr
    · cases hr
      exact .setStore c (.refl hb)
    · obtain ⟨r, hrows, he⟩ := Option.map_eq_some_iff.mp hr
      cases he
      exact .setStore c (sameAccounts_readRows _ hb hrows)
  rcases data with _ | data
  · exact hstore
  · exact hstore.andThen fun hb => reply_self hb rfl

theorem plain_setEmail : Plain c w (setEmail c payload w) := by
  unfold setEmail
  split
  · exact .refl c hb
  · exact plain_setMail hb _ _

theorem plain_udpResponse : Plain c w (udpResponse c w) := .modifyPersona hb c rfl

/-! ### Handlers behind login -/

theorem plain_enterChat : Plain c w (enterChat c payload w) := by
  unfold enterChat
  split
  · exact .refl c hb
  · exact reply_self hb rfl

theorem plain_listChannel : Plain c w (listChannel c w) := by
  have hlists : ∀ lists, Plain c w { w with lists := lists } := fun lists => .of_same hb rfl rfl rfl rfl
  exact (hlists _).andThen fun hb => reply_self hb rfl

theorem plain_netGamePort : Plain c w (netGamePort am c payload w) := by
  unfold netGamePort
  exact .modifyPersona hb c rfl

theorem plain_getData (p : Ptr) (k : Text) : Plain c w (getData w p k).2 :=
  .modifyItem hb c p (identity_getData _ k)

theorem plain_profile (h : profile st am c payload w = some w') : Plain c w w' := by
  obtain ⟨⟨user, store⟩, hl, rfl⟩ := Option.map_eq_some_iff.mp h
  have hlook := Plain.setStore c (sameAccounts_lookup hb hl)
  rcases user with _ | p
  · exact hlook
  · exact ((hlook.andThen fun hb => plain_getData hb p _).andThen fun hb => plain_getData hb p _).andThen
      fun hb => reply_self hb rfl

omit hb in
theorem plain_war3Tags (cookie : UInt32) : ∀ (count i : ℕ) (s : Stream) {w : World}, Bounded w.server.store.cache →
    Plain c w (war3Tags st am c cookie count i s w) := by
  intro count
  induction count with
  | zero => exact fun _ _ _ hb => .refl c hb
  | succ count ih => exact fun i s _ hb => (reply_self hb rfl).andThen fun hb => ih _ _ hb

theorem plain_queryWar3Info : Plain c w (queryWar3Info st am c payload w) := by
  unfold queryWar3Info
  dsimp only
  split_ifs
  · exact plain_war3Tags _ _ _ _ hb
  · exact .refl c hb

theorem plain_writeUserData (h : writeUserData st am c payload w = some w') : Plain c w w' := by
  obtain ⟨⟨g, s⟩, hr, hg⟩ := Option.bind_eq_some_iff.mp h
  split_ifs at hg
  cases hg
  unfold WriteUserData.writeUserData at hr
  split at hr
  · cases hr
    exact .setStore c (.refl hb)
  · obtain ⟨g', hrows, he⟩ := Option.map_eq_some_iff.mp hr
    cases he
    exact .setStore c (sameAccounts_writeRows _ (g := ⟨[], [], false, w.server.store⟩) hb hrows)

/-! ### The other suites -/

theorem plain_realmAuth : Plain c w (realmAuth am c payload w) := by
  have hclosing : ∀ {w : World} (s : Finset ConnId), Bounded w.server.store.cache → Plain c w { w with closing := s } :=
    fun s hb => .of_same hb rfl rfl rfl rfl
  have hrefused : ∀ (x : Wire) s, event x = none → Plain c w { w.deliver c [x] with closing := s } := fun x s hx =>
    (deliver_self hb hx).andThen fun hb => hclosing s hb
  unfold realmAuth
  dsimp only
  split_ifs
  · split
    · have hadd : ∀ r, Plain c w (addRealm w r) := fun r => .of_same hb rfl rfl rfl rfl
      exact (hadd _).andThen fun hb => deliver_self hb rfl
    · exact hrefused _ _ rfl
  · exact hrefused _ _ rfl

theorem plain_baal (op : ℕ) : Plain c w (baal am c payload w op) := by
  unfold baal
  split
  · exact plain_realmAuth hb
  · exact deliver_self hb rfl
  · exact .refl c hb

/-! ### Chat commands -/

theorem plain_setStatusText (old arg1 : Text) {f : Persona → Persona} (word : Text)
    (hf : (f (w.persona c)).lastWhisper = (w.persona c).lastWhisper) :
    Plain c w (w.setStatusText c old arg1 f word) := by
  have hset := Plain.modifyPersona hb c hf
  unfold World.setStatusText
  dsimp only
  split_ifs
  · exact hset.andThen fun hb => .info hb c _
  · exact hset
  · exact hset.andThen fun hb => .info hb c _

theorem plain_commandChannels : Plain c w (w.commandChannels c) :=
  (Plain.info hb c _).andThen fun hb => .foldl hb _ fun hb _ _ => .info hb c _

theorem plain_commandStatus : Plain c w (w.commandStatus c) := (Plain.info hb c _).andThen fun hb => .info hb c _

theorem plain_commandWhoIs (arg1 : Text) : Plain c w (w.commandWhoIs c arg1) := by
  unfold World.commandWhoIs
  split_ifs
  · exact .refl c hb
  · split
    · exact .info hb c _
    · split <;> exact .info hb c _

theorem plain_listFriends (h : w.listFriends c = some w') : Plain c w w' := by
  have hloop : ∀ (l : List Friend) {w w' : World}, Bounded w.server.store.cache →
      l.foldlM (fun w f => (w.whereIs f).map fun t =>
        w.info c ((w.server.item f.user).username ++ str ", " ++ t)) w = some w' → Plain c w w' := by
    intro l
    induction l with
    | nil =>
      intro w w' hb h
      cases h
      exact .refl c hb
    | cons f l ih =>
      intro w w' hb h
      rw [List.foldlM_cons] at h
      obtain ⟨w1, h1, h2⟩ := Option.bind_eq_some_iff.mp h
      obtain ⟨t, -, rfl⟩ := Option.map_eq_some_iff.mp h1
      exact (Plain.info hb c _).andThen fun hb => ih hb h2
  unfold World.listFriends at h
  dsimp only at h
  split at h
  · cases h
    exact .info hb c _
  · exact (Plain.info hb c _).andThen fun hb => hloop _ hb h

end Plain

/-- For the client or for somebody online, and nothing that is said. -/
def Discreet (pool : ClientPool) (c : ConnId) (x : Command.Sent) : Prop :=
  Mute (.bnet x.packet) ∧ (x.conn = c ∨ ∃ name, pool.findName name = some x.conn)

section Friends

variable {look : ConnId → ClientView} {s s' : Server} {p u : Ptr} {out : List Command.Sent}

theorem discreet_info (pool : ClientPool) (c : ConnId) (text : Text) :
    ∀ x ∈ [Command.info c text], Discreet pool c x := by
  intro x hx
  rw [List.mem_singleton.mp hx]
  exact ⟨.inr rfl, .inl rfl⟩

theorem discreet_announce (look : ConnId → ClientView) (c : ConnId) (p u : Ptr) (i : ℕ) (back : Option ℕ) (s : Server) :
    ∀ x ∈ Command.announce look c p u i back s, Discreet s.pool c x := by
  intro x hx
  rcases List.mem_append.mp hx with hx | hx
  · rcases hcl : s.pool.findName (s.item u).username with _ | d
    · rw [hcl] at hx
      cases hx
    · rw [hcl] at hx
      have hconn : x.conn = d ∧ Mute (.bnet x.packet) := by
        rcases List.mem_append.mp hx with hx | hx
        · rcases back with _ | j
          · cases hx
          · rw [List.mem_singleton.mp hx]
            exact ⟨rfl, .inl rfl⟩
        · rw [List.mem_singleton.mp hx]
          exact ⟨rfl, .inr rfl⟩
      exact ⟨hconn.2, .inr ⟨_, hconn.1 ▸ hcl⟩⟩
  · simp only [List.mem_cons, List.not_mem_nil, or_false] at hx
    rcases hx with rfl | rfl
    · exact ⟨.inl rfl, .inl rfl⟩
    · exact ⟨.inr rfl, .inl rfl⟩

theorem discreet_addCommand : ∀ x ∈ (Command.addCommand look c u s).2, Discreet s.pool c x := by
  unfold Command.addCommand
  split_ifs
  · exact discreet_info _ c _
  · split
    · simp
    · dsimp only
      split
      · exact discreet_info _ c _
      · split_ifs
        · exact discreet_info _ c _
        · exact discreet_announce look c _ _ _ _ _

theorem discreet_withFriend {k : Ptr → ℕ → Server × List Command.Sent}
    (hk : ∀ p i, ∀ x ∈ (k p i).2, Discreet s.pool c x) : ∀ x ∈ (Command.withFriend c u s k).2, Discreet s.pool c x := by
  unfold Command.withFriend
  split
  · simp
  · split
    · exact discreet_info _ c _
    · exact hk _ _

/-- What `/f` sends. -/
theorem discreet_commandFriend {env : Env} {v : Command.FriendVerb} {argr : Text}
    (h : Command.commandFriend look c env v argr s = some (s', out)) : ∀ x ∈ out, Discreet s.pool c x := by
  obtain ⟨user, store, -, ⟨-, -, text, rfl⟩ | ⟨u, -, hu⟩⟩ := Command.commandFriend_cases h
  · exact discreet_info _ c text
  · have hout : out = (Command.onUser look c v u { s with store := store }).2 := by rw [hu]
    rw [hout]
    cases v with
    | add => exact discreet_addCommand
    | remove =>
      refine discreet_withFriend fun p i x hx => ?_
      simp only [List.mem_cons, List.not_mem_nil, or_false] at hx
      rcases hx with rfl | rfl
      · exact ⟨.inl rfl, .inl rfl⟩
      · exact ⟨.inr rfl, .inl rfl⟩
    | demote =>
      refine discreet_withFriend fun p i x hx => ?_
      split_ifs at hx
      · rw [List.mem_singleton.mp hx]
        exact ⟨.inl rfl, .inl rfl⟩
      · cases hx
    | promote =>
      refine discreet_withFriend fun p i x hx => ?_
      split_ifs at hx
      · rw [List.mem_singleton.mp hx]
        exact ⟨.inl rfl, .inl rfl⟩
      · cases hx

end Friends

theorem plain_friendVerb (hb : Bounded w.server.store.cache) {env : Env} {v : Command.FriendVerb} {argr : Text}
    {r : Server × List Command.Sent} (h : Command.commandFriend w.clientView c env v argr w.server = some r) :
    Plain c w ((w.setServer r.1).replyAll r.2) := by
  obtain ⟨s, out⟩ := r
  have hframe := Command.commandFriend_frame hb h
  have hclient : ∀ d, s.client d = w.client d := by
    intro d
    unfold Server.client
    rw [hframe.clients]
    rfl
  have hset : Plain c w (w.setServer s) :=
    .setServer hframe.pool (.of_keeps hframe.keeps) (fun d _ => hclient d) ⟨_, hclient c⟩
  have hsend : ∀ (out : List Command.Sent) {w1 : World}, (∀ x ∈ out, Discreet w1.server.pool c x) →
      Bounded w1.server.store.cache → Plain c w1 (w1.replyAll out) := by
    intro out
    induction out with
    | nil => exact fun _ hb => .refl c hb
    | cons x out ih =>
      intro w1 hout hb
      have hx := hout x List.mem_cons_self
      have hone : Plain c w1 (w1.reply x.conn x.packet) := .reply hb hx.2 hx.1
      refine hone.andThen fun hb => ih (fun y hy => ?_) hb
      rw [hone.pool]
      exact hout y (List.mem_cons_of_mem x hy)
  refine hset.andThen fun hb => hsend out (fun x hx => ?_) hb
  have hx := discreet_commandFriend h x hx
  rwa [← hframe.pool] at hx

/-! ### The suites -/

/-- The acts of a client that is logged in. -/
def ByMember (c : ConnId) : Act → Prop
  | .plain d | .whisper d .. | .friendWhisper d _ | .talk d _ => d = c
  | .move m => m.who = c
  | _ => False

/-- The acts of each suite. -/
def Suited (sc : Logon.Scratch) (c : ConnId) (call : PluginCall) (a : Act) : Prop :=
  match call.suite with
  | .init => (a = .plain c ∧ ∀ b s, stageAfter call b s = s) ∨
      ∃ s, a = .enter c s ∧ (Stage.connected, s) ∈ entrances ∧ ∀ b s', stageAfter call b s' = s
  | .bnet => a = .plain c ∨ a = .move (.stopAdv c) ∨
      ∃ op, Dispatch.bnetOps.lookup call.op = some op ∧ a = .account c ⟨op, call.payload, sc⟩
  | .bnetLoggedIn => ByMember c a
  | .file => (a = .plain c ∧ call.op ≠ 0x0200) ∨ (a = .enter c .fileRaw ∧ call.op = 0x0200)
  | .baal => a = .plain c

variable {sc : Logon.Scratch}

/-- The call of an account handler that a packet makes. -/
def Account (sc : Logon.Scratch) (call : PluginCall) (k : Logon.Call) : Prop :=
  call.suite = .bnet ∧ ∃ op, Dispatch.bnetOps.lookup call.op = some op ∧ k = ⟨op, call.payload, sc⟩

theorem account_of_suited {call : PluginCall} {e : ConnId} {k : Logon.Call} (hs : Suited sc c call (.account e k)) :
    Account sc call k := by
  obtain ⟨suite, n, payload⟩ := call
  cases suite with
  | bnet =>
    obtain h | h | ⟨op, hop, h⟩ := hs
    · cases h
    · cases h
    · cases h
      exact ⟨rfl, op, hop, rfl⟩
  | _ => simp [Suited, ByMember] at hs

/-- What happens to a connection from outside: it is opened or closed, or heard of by UDP. -/
def Outer : Act → Prop
  | .connect .. | .address .. | .disconnect _ => True
  | _ => False

theorem not_outer {call : PluginCall} {a : Act} (hs : Suited sc c call a) : ¬ Outer a := by
  obtain ⟨suite, op, payload⟩ := call
  cases suite with
  | init => rcases hs with ⟨rfl, -⟩ | ⟨s, rfl, -⟩ <;> exact id
  | bnet => rcases hs with rfl | rfl | ⟨op, -, rfl⟩ <;> exact id
  | bnetLoggedIn => cases a <;> first | exact id | exact hs.elim
  | file => rcases hs with ⟨rfl, -⟩ | ⟨rfl, -⟩ <;> exact id
  | baal => rw [show a = .plain c from hs]; exact id

theorem does_plain {env : Env} (h : Plain c w w') : ∃ a, Does env w a w' ∧ ByMember c a := ⟨.plain c, h, rfl⟩

theorem does_sendWhisper {env : Env} (hb : Bounded w.server.store.cache) (name text : Text) :
    ∃ a, Does env w a (w.sendWhisper name c text true) ∧ ByMember c a := by
  unfold World.sendWhisper World.findOnlineUser
  rcases hf : w.server.pool.findName name with _ | d
  · exact does_plain (.info hb c _)
  · simp only [↓reduceIte]
    split_ifs with hself hdnd
    · exact does_plain (.info hb c _)
    · exact does_plain (.info hb c _)
    · exact ⟨.whisper c d text, ⟨hself, ⟨name, hf⟩, not_not.mp hdnd, rfl⟩, rfl⟩

theorem does_commandFriend {env : Env} (hb : Bounded w.server.store.cache) {arg1 argr : Text}
    (h : World.commandFriend env w c arg1 argr = some w') : ∃ a, Does env w a w' ∧ ByMember c a := by
  unfold World.commandFriend at h
  split at h
  · cases h
    exact does_plain (.refl c hb)
  · cases h
    exact does_plain (.foldl hb _ fun hb _ _ => .info hb c _)
  · exact does_plain (plain_listFriends hb h)
  · split_ifs at h
    · cases h
      exact does_plain (.refl c hb)
    · split at h
      · cases h
        exact does_plain (.refl c hb)
      · next p hp =>
        cases h
        exact ⟨.friendWhisper c argr, ⟨p, hp, rfl⟩, rfl⟩
  · obtain ⟨r, hr, rfl⟩ := Option.map_eq_some_iff.mp h
    exact does_plain (plain_friendVerb hb hr)

theorem does_joinChannel {env : Env} (w : World) (c : ConnId) (name : Name) :
    ∃ a, Does env w a (w.joinChannel c name) ∧ ByMember c a :=
  ⟨.move (.move (.joinChannel c name (w.client c).gameid (w.persona c).countryab)), ⟨trivial, rfl⟩, rfl⟩

theorem does_command {env : Env} (hb : Bounded w.server.store.cache) {k : Command.Call}
    (h : w.command env c k = some w') : ∃ a, Does env w a w' ∧ ByMember c a := by
  unfold World.command at h
  split at h
  · exact does_commandFriend hb h
  · cases h
    unfold World.commandWhisper
    split_ifs
    · exact does_plain (.refl c hb)
    · exact does_sendWhisper hb _ _
  · cases h
    unfold World.commandReply
    split_ifs
    · exact does_plain (.refl c hb)
    · exact does_sendWhisper hb _ _
  · cases h
    exact does_plain (plain_commandChannels hb)
  · cases h
    exact does_plain (plain_setStatusText hb _ _ _ rfl)
  · cases h
    exact does_plain (plain_setStatusText hb _ _ _ rfl)
  · cases h
    exact does_plain (plain_commandStatus hb)
  · cases h
    exact does_joinChannel w c _
  · cases h
    exact does_plain (plain_commandWhoIs hb _)

theorem does_sendChat {env : Env} (hb : Bounded w.server.store.cache) (h : w.sendChat env c payload = some w') :
    ∃ a, Does env w a w' ∧ ByMember c a := by
  obtain ⟨⟨ok, acts⟩, hs, hrest⟩ := Option.bind_eq_some_iff.mp h
  obtain ⟨ok', acts', hs', hlen⟩ :=
    Command.sendChat_returns Command.cmdMap (w.lobby.member c).channel.isSome (Stream.ofBytes payload)
  obtain ⟨rfl, rfl⟩ := Prod.mk.inj (Option.some.inj (hs.symm.trans hs'))
  rcases acts with _ | ⟨x, _ | ⟨y, acts⟩⟩
  · cases hrest
    exact does_plain (.refl c hb)
  · obtain ⟨w1, h1, h2⟩ := Option.bind_eq_some_iff.mp hrest
    cases h2
    rcases x with k | text
    · exact does_command hb h1
    · cases h1
      exact ⟨.talk c text, rfl, rfl⟩
  · simp only [List.length_cons] at hlen
    omega

theorem replies_eq (ps : List Packet) (hps : ∀ p ∈ ps, event (.bnet p) = none) (w : World) :
    ∃ xs, (∀ x ∈ xs, event x = none) ∧ ps.foldl (fun w p => w.reply c p) w = w.deliver c xs := by
  have hnil : w.deliver c [] = w := by simp [World.deliver]
  induction ps generalizing w with
  | nil => exact ⟨[], by simp, hnil.symm⟩
  | cons p ps ih =>
    obtain ⟨xs, hxs, he⟩ := ih (fun q hq => hps q (List.mem_cons_of_mem p hq)) (w.reply c p) (by simp [World.deliver])
    rw [List.foldl_cons, he]
    unfold World.reply
    split_ifs
    · refine ⟨.bnet p :: xs, ?_, ?_⟩
      · rw [List.forall_mem_cons]
        exact ⟨hps p List.mem_cons_self, hxs⟩
      · simp [World.deliver]
    · exact ⟨xs, hxs, rfl⟩

/-- The replies of an account packet are no chat events. -/
theorem answers_eq (rs : List Logon.Reply) (w : World) : ∃ xs, (∀ x ∈ xs, event x = none) ∧
    (rs.map packetOf).foldl (fun w p => w.reply c p) w = w.deliver c xs := by
  refine replies_eq (rs.map packetOf) (fun p hp => ?_) w
  obtain ⟨r, -, rfl⟩ := List.mem_map.mp hp
  cases r <;> rfl

theorem does_bnet (hb : Bounded w.server.store.cache) {op : ℕ} (h : bnet st am c payload w op = some w') :
    ∃ a, Does st.env w a w' ∧ Suited am.scratch c ⟨.bnet, op, payload⟩ a := by
  have hplain : Plain c w w' → ∃ a, Does st.env w a w' ∧ Suited am.scratch c ⟨.bnet, op, payload⟩ a :=
    fun hp => ⟨.plain c, hp, .inl rfl⟩
  unfold bnet at h
  split at h
  · next k hk =>
    obtain ⟨⟨s, rs⟩, hh, rfl⟩ := Option.map_eq_some_iff.mp h
    obtain ⟨xs, hxs, he⟩ := answers_eq (c := c) rs (w.setServer s)
    exact ⟨.account c _, ⟨s, rs, xs, hh, hxs, he⟩, .inr (.inr ⟨k, hk, rfl⟩)⟩
  · split at h
    · cases h
      exact hplain (plain_authInfo hb)
    · cases h
      exact hplain (plain_authCheck hb)
    · exact hplain (plain_changeEmail hb h)
    · cases h
      exact hplain (plain_ping hb)
    · exact hplain (plain_fileRequest hb h)
    · cases h
      exact hplain (plain_queryIcon hb)
    · exact hplain (plain_readUserData hb h)
    · cases h
      exact hplain (plain_setEmail hb)
    · cases h
      exact ⟨.move (.stopAdv c), ⟨trivial, rfl⟩, .inr (.inl rfl)⟩
    · cases h
      exact hplain (plain_udpResponse hb)
    · cases h
      exact hplain (.refl c hb)

theorem does_bnetLoggedIn (hb : Bounded w.server.store.cache) {op : ℕ}
    (h : bnetLoggedIn st am c payload w op = some w') : ∃ a, Does st.env w a w' ∧ ByMember c a := by
  have hmove : ∀ m : AdMove, m.Stays → m.who = c → w' = w.move (m.apply w.lobby) →
      ∃ a, Does st.env w a w' ∧ ByMember c a := fun m hm hc he => ⟨.move m, ⟨hm, he⟩, hc⟩
  unfold bnetLoggedIn at h
  split at h
  · cases h
    exact does_plain (plain_enterChat hb)
  · cases h
    exact does_plain (reply_self hb rfl)
  · cases h
    exact does_plain (reply_self hb rfl)
  · cases h
    exact does_joinChannel w c _
  · cases h
    exact hmove (.move (.leaveChat c)) trivial rfl rfl
  · cases h
    exact hmove (.move (.leaveGame c)) trivial rfl rfl
  · cases h
    exact does_plain (plain_listChannel hb)
  · cases h
    exact does_plain (plain_netGamePort hb)
  · cases h
    exact hmove (.move (.notifyJoin c _)) trivial rfl rfl
  · cases h
    exact does_plain (reply_self hb rfl)
  · cases h
    exact does_plain (plain_ping hb)
  · exact does_plain (plain_profile hb h)
  · exact does_plain (plain_fileRequest hb h)
  · cases h
    exact does_plain (plain_queryIcon hb)
  · cases h
    exact does_plain (reply_self hb rfl)
  · cases h
    exact does_plain (reply_self hb rfl)
  · cases h
    exact does_plain (plain_queryWar3Info hb)
  · exact does_plain (plain_readUserData hb h)
  · cases h
    exact does_plain (reply_self hb rfl)
  · exact does_sendChat hb h
  · cases h
    exact does_plain (plain_setEmail hb)
  · cases h
    exact hmove (.move (.startAdvEx3 c _ _)) trivial rfl rfl
  · cases h
    exact hmove (.stopAdv c) trivial rfl rfl
  · cases h
    exact does_plain (.setGameid hb c _)
  · cases h
    exact does_plain (plain_udpResponse hb)
  · exact does_plain (plain_writeUserData hb h)
  · cases h
    exact does_plain (.refl c hb)

theorem does_file (hb : Bounded w.server.store.cache) {op : ℕ} (h : file st am c payload w op = some w') :
    ∃ a, Does st.env w a w' ∧ ((a = .plain c ∧ op ≠ 0x0200) ∨ (a = .enter c .fileRaw ∧ op = 0x0200)) := by
  unfold file at h
  split at h
  · exact ⟨.plain c, plain_fileRequest hb h, .inl ⟨rfl, by decide⟩⟩
  · cases h
    exact ⟨.enter c .fileRaw, ⟨_, by simp [event], rfl⟩, .inr ⟨rfl, rfl⟩⟩
  · exact ⟨.plain c, plain_fileRequest hb h, .inl ⟨rfl, by decide⟩⟩
  · next hop _ =>
    cases h
    exact ⟨.plain c, Plain.refl c hb, .inl ⟨rfl, hop⟩⟩

theorem does_init (hb : Bounded w.server.store.cache) (env : Env) (op : ℕ) (payload : List Byte) :
    ∃ a, Does env w a (init c w op) ∧ Suited sc c ⟨.init, op, payload⟩ a := by
  have hdeliver : ∀ w : World, w.deliver c [] = w := fun w => by simp [World.deliver]
  unfold init
  split_ifs with h1 h2 h3
  · exact ⟨.enter c .bnet, ⟨[], by simp, (hdeliver _).symm⟩, .inr ⟨.bnet, rfl, by decide, by simp [stageAfter, h1]⟩⟩
  · exact ⟨.enter c .fileTrans, ⟨[], by simp, (hdeliver _).symm⟩,
      .inr ⟨.fileTrans, rfl, by decide, by simp [stageAfter, h2]⟩⟩
  · exact ⟨.enter c .baal, ⟨_, by simp [event], rfl⟩, .inr ⟨.baal, rfl, by decide, by simp [stageAfter, h3]⟩⟩
  · exact ⟨.plain c, Plain.refl c hb, .inl ⟨rfl, by simp [stageAfter, h1, h2, h3]⟩⟩

/-- **A call of a plugin is one act of its suite.** -/
theorem process_does (hb : Bounded w.server.store.cache) {call : PluginCall}
    (h : process st am c call w = some w') : ∃ a, Does st.env w a w' ∧ Suited am.scratch c call a := by
  obtain ⟨suite, op, payload⟩ := call
  cases suite with
  | init =>
    cases h
    exact does_init hb st.env op payload
  | bnet => exact does_bnet hb h
  | bnetLoggedIn => exact does_bnetLoggedIn hb h
  | file => exact does_file hb h
  | baal =>
    cases h
    exact ⟨.plain c, plain_baal hb op, rfl⟩

/-- The stages at which a suite is called. -/
def Fits (stage : Stage) (call : PluginCall) : Prop :=
  match call.suite with
  | .init => stage = .connected
  | .bnet => stage ∈ [Stage.bnet, .bnetLoggedIn]
  | .bnetLoggedIn => stage = .bnetLoggedIn
  | .file => stage = .fileTrans ∨ stage = .fileRaw ∧ call.op = 0
  | .baal => stage = .baal

theorem ready_of_fits {call : PluginCall} {a : Act} (hc : c ∈ w.net.live) (hf : Fits (w.client c).stage call)
    (hs : Suited sc c call a) : Ready w a := by
  obtain ⟨suite, op, payload⟩ := call
  cases suite with
  | init =>
    have hst : (w.client c).stage = .connected := hf
    rcases hs with ⟨rfl, -⟩ | ⟨s, rfl, hin, -⟩
    · exact hc
    · exact ⟨hc, hst ▸ hin⟩
  | bnet =>
    rcases hs with rfl | rfl | ⟨op, sc, -, rfl⟩
    · exact hc
    · exact ⟨hc, .inl rfl⟩
    · exact ⟨hc, hf⟩
  | bnetLoggedIn =>
    have hlog : LoggedIn w c := ⟨hc, hf⟩
    cases a with
    | plain d => exact (show d = c from hs) ▸ hc
    | move m =>
      have hwho : m.who = c := hs
      exact ⟨hwho ▸ hc, .inr (hwho ▸ hlog)⟩
    | whisper d e text => exact (show d = c from hs) ▸ hlog
    | friendWhisper d text => exact (show d = c from hs) ▸ hlog
    | talk d text => exact (show d = c from hs) ▸ hlog
    | _ => exact hs.elim
  | file =>
    rcases hs with ⟨rfl, -⟩ | ⟨rfl, hop⟩
    · exact hc
    · refine ⟨hc, ?_⟩
      rcases hf with hst | ⟨-, hop'⟩
      · rw [hst]
        decide
      · have hop' : op = 0 := hop'
        have hop : op = 0x0200 := hop
        omega
  | baal =>
    rw [show a = .plain c from hs]
    exact hc

/-- **A call at a stage of its suite is a step.** -/
theorem process_step (hi : Inv w) (hc : c ∈ w.net.live) {call : PluginCall} (hf : Fits (w.client c).stage call)
    (h : process st am c call w = some w') : ∃ a, Step st.env w a w' ∧ Suited am.scratch c call a := by
  obtain ⟨a, hd, hs⟩ := process_does hi.pool.bounded h
  exact ⟨a, ⟨ready_of_fits hc hf hs, hd⟩, hs⟩

end Blitzd.Plugins.SuitesActs
