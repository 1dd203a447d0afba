import Blitzd.Plugins.Admission

/-! # The realms

A realm server registers its realm with `RealmAuth`, and has to bring the session number it was told. Nothing else that
happens to the server touches the realms (`registry_process`, with a frame lemma for each handler), so that they are
exactly what was registered: `realms_registered`. A realm is never replaced and never removed, also when its server is
gone. The only connections the server closes are those whose registration it refused (`closed_refused`). -/

namespace Blitzd.Plugins.Realms

open Blitzd.Lib Blitzd.Lib.Bytes Blitzd.Lib.KeyMap Blitzd.Utils.CString Blitzd.Utils Blitzd.Cache
open Blitzd.Core Blitzd.Packets
open Blitzd.Plugins.Acts Blitzd.Plugins.Suites Blitzd.Plugins.SuitesActs Blitzd.Plugins.Daemon
open Blitzd.Plugins.Admission (Opens)

variable {st : Settings} {am : Ambient} {c d : ConnId} {w w' w₀ : World} {payload : List Byte}

/-! ### What leaves the realms alone -/

/-- The realms, and the connections that are to be closed. -/
def registry (w : World) : List (Text × RealmCacheItem) × Finset ConnId := (w.realms, w.closing)

section Frame

variable (w : World) (c : ConnId)

@[simp] theorem registry_setServer (s : Server) : registry (w.setServer s) = registry w := rfl

@[simp] theorem registry_modifyPersona (f : Persona → Persona) : registry (w.modifyPersona c f) = registry w := rfl

@[simp] theorem registry_deliver (xs : List Wire) : registry (w.deliver c xs) = registry w := rfl

@[simp] theorem registry_move (l : Lobby) : registry (w.move l) = registry w := rfl

@[simp] theorem registry_reply (p : Packet) : registry (w.reply c p) = registry w := by
  unfold World.reply
  split_ifs <;> rfl

theorem registry_foldl {α : Type*} {f : World → α → World} (hf : ∀ w x, registry (f w x) = registry w) (xs : List α) :
    registry (xs.foldl f w) = registry w := by
  induction xs generalizing w with
  | nil => rfl
  | cons x xs ih => rw [List.foldl_cons, ih, hf]

@[simp] theorem registry_replyAll (out : List Command.Sent) : registry (w.replyAll out) = registry w := by
  unfold World.replyAll
  exact registry_foldl w (fun w x => registry_reply w x.conn x.packet) out

@[simp] theorem registry_send (conn : Option ConnId) (type : MessageType) (msg : Text) :
    registry (w.send c conn type msg) = registry w := by
  unfold World.send
  dsimp only
  split <;> rfl

@[simp] theorem registry_info (msg : Text) : registry (w.info c msg) = registry w := registry_send w c none .info msg

@[simp] theorem registry_sendSet (toset : Finset ConnId) (conn : Option ConnId) (type : MessageType) (msg : Text)
    (ignoreSelf : Bool) : registry (w.sendSet toset conn type msg ignoreSelf) = registry w := by
  unfold World.sendSet
  dsimp only
  split <;> rfl

end Frame

/-! ### Chat -/

theorem registry_whisperTo (w : World) (d c : ConnId) (msg : Text) (ack : Bool) :
    registry (w.whisperTo d c msg ack) = registry w := by
  unfold World.whisperTo
  dsimp only
  split_ifs <;> simp

theorem registry_sendWhisper (w : World) (name : Text) (c : ConnId) (msg : Text) (ack : Bool) :
    registry (w.sendWhisper name c msg ack) = registry w := by
  unfold World.sendWhisper World.findOnlineUser
  rcases w.server.pool.findName name with _ | d
  · dsimp only
    split_ifs
    · exact registry_info ..
    · rfl
  · dsimp only
    split_ifs
    · exact registry_info ..
    · rfl
    · exact registry_info ..
    · rfl
    · exact registry_whisperTo ..

theorem registry_listFriends (h : w.listFriends c = some w') : registry w' = registry w := by
  have hloop : ∀ (fs : List Friend) {w w' : World}, fs.foldlM (fun w f => (w.whereIs f).map fun t =>
      w.info c ((w.server.item f.user).username ++ str ", " ++ t)) w = some w' → registry w' = registry w := by
    intro fs
    induction fs with
    | nil =>
      rintro w w' ⟨⟩
      rfl
    | cons f fs ih =>
      intro w w' h
      rw [List.foldlM_cons] at h
      obtain ⟨w₁, h₁, h₂⟩ := Option.bind_eq_some_iff.mp h
      obtain ⟨t, -, rfl⟩ := Option.map_eq_some_iff.mp h₁
      rw [ih h₂, registry_info]
  unfold World.listFriends at h
  dsimp only at h
  split at h
  · cases h
    exact registry_info ..
  · rw [hloop _ h, registry_info]

theorem registry_commandFriend {env : Env} {arg1 argr : Text} (h : w.commandFriend env c arg1 argr = some w') :
    registry w' = registry w := by
  unfold World.commandFriend at h
  split at h
  · cases h
    rfl
  · cases h
    exact registry_foldl w (fun w s => registry_info w c (str s)) _
  · exact registry_listFriends h
  · split_ifs at h
    · cases h
      rfl
    · split at h
      · cases h
        rfl
      · cases h
        unfold World.friendWhisper
        split_ifs <;> simp
  · obtain ⟨r, -, rfl⟩ := Option.map_eq_some_iff.mp h
    simp

theorem registry_command {env : Env} {k : Command.Call} (h : w.command env c k = some w') : registry w' = registry w := by
  unfold World.command at h
  split at h
  · exact registry_commandFriend h
  all_goals cases h
  · unfold World.commandWhisper
    split_ifs
    · rfl
    · exact registry_sendWhisper ..
  · unfold World.commandReply
    split_ifs
    · rfl
    · exact registry_sendWhisper ..
  · exact (registry_foldl _ (fun w _ => registry_info w c _) _).trans (registry_info ..)
  · unfold World.commandDND World.setStatusText
    dsimp only
    split_ifs <;> simp
  · unfold World.commandAway World.setStatusText
    dsimp only
    split_ifs <;> simp
  · simp [World.commandStatus]
  · rfl
  · unfold World.commandWhoIs
    split_ifs
    · rfl
    · split
      · simp
      · split <;> simp

theorem registry_sendChat {env : Env} (h : w.sendChat env c payload = some w') : registry w' = registry w := by
  obtain ⟨⟨s, actions⟩, -, hrun⟩ := Option.bind_eq_some_iff.mp h
  have hloop : ∀ (xs : List Command.ChatAction) {w : World}, xs.foldlM (World.chatAction env c) w = some w' →
      registry w' = registry w := by
    intro xs
    induction xs with
    | nil =>
      rintro w ⟨⟩
      rfl
    | cons x xs ih =>
      intro w h
      rw [List.foldlM_cons] at h
      obtain ⟨w₁, h₁, h₂⟩ := Option.bind_eq_some_iff.mp h
      rw [ih h₂]
      rcases x with k | text
      · exact registry_command h₁
      · cases h₁
        unfold World.talk
        split <;> simp
  exact hloop _ hrun

/-! ### The other handlers -/

theorem registry_fileRequest {kind : FileReq.Kind} (h : fileRequest st am c payload w kind = some w') :
    registry w' = registry w := by
  unfold fileRequest at h
  dsimp only at h
  split_ifs at h
  split at h
  all_goals cases h
  · rfl
  · rfl
  · exact registry_reply ..

theorem registry_queryIcon : registry (queryIcon st am c w) = registry w := by
  unfold queryIcon
  dsimp only
  split
  · rfl
  · exact registry_reply ..

theorem registry_readUserData (h : readUserData st am c payload w = some w') : registry w' = registry w := by
  obtain ⟨r, -, rfl⟩ := Option.map_eq_some_iff.mp h
  dsimp only
  split <;> simp

theorem registry_setEmail : registry (setEmail c payload w) = registry w := by
  unfold setEmail
  split <;> rfl

theorem registry_ping : registry (ping am c payload w) = registry w := by
  unfold ping
  dsimp only
  split_ifs <;> rfl

theorem registry_bnet {op : ℕ} (h : bnet st am c payload w op = some w') : registry w' = registry w := by
  unfold bnet at h
  split at h
  · obtain ⟨r, -, rfl⟩ := Option.map_eq_some_iff.mp h
    exact registry_foldl _ (fun w p => registry_reply w c p) _
  · split at h
    · cases h
      exact registry_reply ..
    · cases h
      exact registry_reply ..
    · obtain ⟨r, -, rfl⟩ := Option.map_eq_some_iff.mp h
      dsimp only
      split
      · rfl
      · split_ifs <;> rfl
    · cases h
      exact registry_ping
    · exact registry_fileRequest h
    · cases h
      exact registry_queryIcon
    · exact registry_readUserData h
    · cases h
      exact registry_setEmail
    all_goals
      cases h
      rfl

theorem registry_war3Tags (cookie : UInt32) (count : ℕ) :
    ∀ (i : ℕ) (s : Stream) (w : World), registry (war3Tags st am c cookie count i s w) = registry w := by
  induction count with
  | zero => exact fun _ _ _ => rfl
  | succ count ih =>
    intro i s w
    unfold war3Tags
    exact (ih _ _ _).trans (registry_reply ..)

theorem registry_bnetLoggedIn {op : ℕ} (h : bnetLoggedIn st am c payload w op = some w') :
    registry w' = registry w := by
  unfold bnetLoggedIn at h
  split at h
  · cases h
    unfold enterChat
    split
    · rfl
    · exact registry_reply ..
  · cases h
    exact registry_reply ..
  · cases h
    exact registry_reply ..
  · cases h
    rfl
  · cases h
    rfl
  · cases h
    rfl
  · cases h
    exact registry_reply ..
  · cases h
    rfl
  · cases h
    rfl
  · cases h
    exact registry_reply ..
  · cases h
    exact registry_ping
  · obtain ⟨r, -, rfl⟩ := Option.map_eq_some_iff.mp h
    dsimp only
    split
    · rfl
    · exact registry_reply ..
  · exact registry_fileRequest h
  · cases h
    exact registry_queryIcon
  · cases h
    exact registry_reply ..
  · cases h
    exact registry_reply ..
  · cases h
    unfold queryWar3Info
    dsimp only
    split_ifs
    · exact registry_war3Tags ..
    · rfl
  · exact registry_readUserData h
  · cases h
    exact registry_reply ..
  · exact registry_sendChat h
  · cases h
    exact registry_setEmail
  · cases h
    rfl
  · cases h
    rfl
  · cases h
    rfl
  · cases h
    rfl
  · obtain ⟨r, -, hr⟩ := Option.bind_eq_some_iff.mp h
    split_ifs at hr
    cases hr
    rfl
  · cases h
    rfl

/-! ### Registration -/

/-- What `RealmAuth` reads, but for the token. -/
structure Request where
  session : UInt32
  port : UInt16
  name : Text
  desc : Text

def readRequest (am : Ambient) (payload : List Byte) : Request :=
  let token := ReadUserData.readUInt (Stream.ofBytes payload) (am.uints 0)
  let session := ReadUserData.readUInt token.2 (am.uints 1)
  let port := session.2.readBuf am.ushort
  let name := port.2.readStr
  ⟨session.1, UInt16.ofNat (ofLE port.1.bytes), name.1, name.2.readStr.1⟩

/-- The realm that a packet of `c` registers. -/
def registered (am : Ambient) (c : ConnId) (payload : List Byte) (w : World) : Option RealmCacheItem :=
  let q := readRequest am payload
  if q.session = (w.client c).session ∧ find KeyEq.ofEq w.realms q.name = none then
    am.peer.map fun ip => ⟨q.name, q.desc, q.port, ip⟩
  else none

theorem registry_realmAuth (am : Ambient) (c : ConnId) (payload : List Byte) (w : World) :
    registry (realmAuth am c payload w) = match registered am c payload w with
      | some r => (insertLt bytesLt w.realms r.name r, w.closing)
      | none => (w.realms, insert c w.closing) := by
  unfold realmAuth registered readRequest
  dsimp only
  split_ifs
  · rcases am.peer with _ | ip <;> rfl
  · rfl

/-- Only `RealmAuth` registers, and only it has a connection closed. -/
theorem registry_process {call : PluginCall} (h : process st am c call w = some w') :
    registry w' = registry w ∨ (call.suite = .baal ∧ call.op = 0x02 ∧ w' = realmAuth am c call.payload w) := by
  obtain ⟨suite, op, payload⟩ := call
  cases suite with
  | init =>
    cases h
    left
    unfold init
    split_ifs <;> rfl
  | bnet => exact .inl (registry_bnet h)
  | bnetLoggedIn => exact .inl (registry_bnetLoggedIn h)
  | file =>
    have hfile : file st am c payload w op = some w' := h
    left
    unfold file at hfile
    split at hfile
    · exact registry_fileRequest hfile
    · cases hfile
      rfl
    · exact registry_fileRequest hfile
    · cases hfile
      rfl
  | baal =>
    obtain rfl : baal am c payload w op = w' := Option.some.inj h
    unfold baal
    split
    · exact .inr ⟨rfl, rfl, rfl⟩
    · exact .inl rfl
    · exact .inl rfl

/-! ### Runs -/

variable {e : Event} {evs : List (Entry World Event)}

/-- The entry is a `RealmAuth` packet of `c`. -/
def Requests (c : ConnId) (am : Ambient) (payload : List Byte) (x : Entry World Event) : Prop :=
  x.event = .call c ⟨.baal, 0x02, payload⟩ am

/-- The packet registers the realm `r`. -/
def Registers (r : RealmCacheItem) (x : Entry World Event) : Prop :=
  ∃ c am payload, Requests c am payload x ∧ registered am c payload x.before = some r

/-- The packet is answered with a refusal. -/
def Refuses (c : ConnId) (x : Entry World Event) : Prop :=
  ∃ am payload, Requests c am payload x ∧ registered am c payload x.before = none

theorem registered_new {r : RealmCacheItem} (h : registered am c payload w = some r) :
    find KeyEq.ofEq w.realms r.name = none := by
  unfold registered at h
  generalize readRequest am payload = q at h
  dsimp only at h
  split_ifs at h with hreg
  obtain ⟨ip, -, rfl⟩ := Option.map_eq_some_iff.mp h
  exact hreg.2

/-- What happens to the realms and to the connections to be closed. -/
inductive Change (w w' : World) (x : Entry World Event) : Prop
  | none (hno : ∀ r, ¬ Registers r x) (hrealms : w'.realms = w.realms) (hclosing : w'.closing ⊆ w.closing)
      (hopen : ∀ c ∈ w'.closing, ¬ Opens c x)
  | registers {r : RealmCacheItem} (hr : Registers r x) (honly : ∀ r', Registers r' x → r' = r)
      (hrealms : w'.realms = insertLt bytesLt w.realms r.name r) (hclosing : w'.closing = w.closing)
      (hopen : ∀ c, ¬ Opens c x)
  | refuses {c : ConnId} (hc : Refuses c x) (hno : ∀ r, ¬ Registers r x) (hrealms : w'.realms = w.realms)
      (hclosing : w'.closing = insert c w.closing) (hopen : ∀ c, ¬ Opens c x)

theorem change_of_registry (hreg : registry w' = registry w) (hno : ∀ c am payload, e ≠ .call c ⟨.baal, 0x02, payload⟩ am)
    (hopen : ∀ c token sp cp ip, e ≠ .connect c token sp cp ip) : Change w w' ⟨w, e, w'⟩ := by
  obtain ⟨hrealms, hclosing⟩ := Prod.mk.inj hreg
  refine .none ?_ hrealms hclosing.subset ?_
  · rintro r ⟨c, am, payload, he, -⟩
    exact hno c am payload he
  · rintro c - ⟨token, sp, cp, ip, he⟩
    exact hopen c token sp cp ip he

theorem change_request (hw : w' = realmAuth am c payload w) :
    Change w w' ⟨w, .call c ⟨.baal, 0x02, payload⟩ am, w'⟩ := by
  have hreg := registry_realmAuth am c payload w
  rw [← hw] at hreg
  have hopen : ∀ d, ¬ Opens d ⟨w, .call c ⟨.baal, 0x02, payload⟩ am, w'⟩ := by
    rintro d ⟨t, sp, cp, ip, he⟩
    cases he
  have honly : ∀ r, Registers r ⟨w, .call c ⟨.baal, 0x02, payload⟩ am, w'⟩ → registered am c payload w = some r := by
    rintro r ⟨d, am', payload', he, hr⟩
    cases he
    exact hr
  rcases hr : registered am c payload w with _ | r
  · rw [hr] at hreg honly
    obtain ⟨hrealms, hclosing⟩ := Prod.mk.inj hreg
    exact .refuses ⟨am, payload, rfl, hr⟩ (fun r h => absurd (honly r h) (by simp)) hrealms hclosing hopen
  · rw [hr] at hreg honly
    obtain ⟨hrealms, hclosing⟩ := Prod.mk.inj hreg
    exact .registers ⟨c, am, payload, rfl, hr⟩ (fun r' h => (Option.some.inj (honly r' h)).symm) hrealms hclosing hopen

theorem serve_change (hs : Serve st w e w') : Change w w' ⟨w, e, w'⟩ := by
  cases e with
  | connect c token sp cp ip =>
    obtain ⟨-, rfl⟩ := hs
    refine .none ?_ rfl (Finset.erase_subset _ _) ?_
    · rintro r ⟨d, am, payload, he, -⟩
      cases he
    · rintro d hd ⟨t, sp', cp', ip', he⟩
      cases he
      exact Finset.notMem_erase _ _ hd
  | call c call am =>
    obtain ⟨-, -, h⟩ := hs
    obtain ⟨suite, op, payload⟩ := call
    by_cases hauth : suite = .baal ∧ op = 0x02
    · obtain ⟨rfl, rfl⟩ := hauth
      exact change_request (Option.some.inj h).symm
    · refine change_of_registry ((registry_process h).resolve_right fun h => hauth ⟨h.1, h.2.1⟩) ?_ ?_
      · rintro d am' payload' ⟨⟩
        exact hauth ⟨rfl, rfl⟩
      · rintro d t sp cp ip ⟨⟩
  | datagram ip port b am =>
    have hreg : registry w' = registry w := by
      rcases datagram_cases hs with rfl | ⟨d, -, rfl⟩
      · rfl
      · rfl
    refine change_of_registry hreg ?_ ?_
    · rintro d am' payload' ⟨⟩
    · rintro d t sp cp ip ⟨⟩
  | close c =>
    obtain ⟨-, rfl⟩ := hs
    refine change_of_registry rfl ?_ ?_
    · rintro d am' payload' ⟨⟩
    · rintro d t sp cp ip ⟨⟩

theorem realm_order : KeyOrder (KeyEq.ofEq : KeyEq Text) bytesLt where
  eqv_iff := by
    intro s t
    rw [KeyEq.ofEq_eqv, decide_eq_true_eq]
    exact eq_iff_bytesLt s t
  trans := bytesLt_trans

theorem find_realm (m : List (Text × RealmCacheItem)) (r : RealmCacheItem) (name : Text) :
    find KeyEq.ofEq (insertLt bytesLt m r.name r) name = if r.name = name then some r else find KeyEq.ofEq m name := by
  have h := find_insertLt realm_order m r.name name r
  simp only [KeyEq.ofEq_eqv, decide_eq_true_eq] at h
  exact h

/-! ### A realm -/

/-- A realm server has connected, and was told its session number. -/
def greeted : World := (hall.joined 0 7).world.setServer ((hall.joined 0 7).world.server.setStage 0 .baal) |>.deliver 0
  [.baal (Baal.build 0x01 0 [.u32 1])]

/-- It registers the realm `Baal`. -/
def baalRequest : List Byte := toLE 4 0 ++ (toLE 4 1 ++ (toLE 2 6113 ++ (str "Baal" ++ (0 :: (str "Realm" ++ [0])))))

def nearby : Ambient := { blank with peer := some 0x7F000001 }

theorem run_baal : ∃ evs, Run (Serve bare) hall.world evs (realmAuth nearby 0 baalRequest greeted) := by
  have h₁ : Serve bare hall.world (.connect 0 7 (Buf.zero 20) (Buf.zero 20) 0) (hall.joined 0 7).world :=
    ⟨Finset.notMem_empty 0, rfl⟩
  have h₂ : Serve bare (hall.joined 0 7).world (.call 0 ⟨.init, 0x65, []⟩ blank) greeted := ⟨by decide, rfl, rfl⟩
  have h₃ : Serve bare greeted (.call 0 ⟨.baal, 0x02, baalRequest⟩ nearby) (realmAuth nearby 0 baalRequest greeted) :=
    ⟨by decide, rfl, rfl⟩
  exact ⟨_, .snoc (.snoc (.snoc .nil h₁) h₂) h₃⟩

/-! ### The results -/

/-- **The realms are what was registered.** After any packets of any connections, a name belongs to a realm exactly if
some realm server has registered it: with the session number it was told, at a time when the name was not taken, under
the address it was connected from. Nobody replaces or removes a realm. The list is in the order of the names, and has
every name once. -/
theorem realms_registered (h0 : w₀.realms = []) (hr : Run (Serve st) w₀ evs w) : Ordered bytesLt w.realms ∧
    ∀ name r, find KeyEq.ofEq w.realms name = some r ↔ r.name = name ∧ ∃ x ∈ evs, Registers r x := by
  induction hr with
  | nil =>
    rw [h0]
    refine ⟨List.Pairwise.nil, fun name r => iff_of_false (by simp [find]) ?_⟩
    rintro ⟨-, x, hx, -⟩
    cases hx
  | @snoc h w w' e hr hs ih =>
    obtain ⟨hord, hiff⟩ := ih
    have hkeep : w'.realms = w.realms → (∀ r, ¬ Registers r ⟨w, e, w'⟩) → Ordered bytesLt w'.realms ∧
        ∀ name r, find KeyEq.ofEq w'.realms name = some r ↔ r.name = name ∧ ∃ x ∈ ⟨w, e, w'⟩ :: h, Registers r x := by
      intro he hno
      rw [he]
      refine ⟨hord, fun name r => (hiff name r).trans (and_congr_right fun _ => ?_)⟩
      simp [hno r]
    rcases serve_change hs with ⟨hno, he, -, -⟩ | ⟨hreg, honly, he, -, -⟩ | ⟨-, hno, he, -, -⟩
    · exact hkeep he hno
    · rename_i r
      rw [he]
      refine ⟨hord.insertLt realm_order r.name r, fun name r' => ?_⟩
      rw [find_realm]
      have hnew : find KeyEq.ofEq w.realms r.name = none := by
        obtain ⟨c, am, payload, -, hr⟩ := hreg
        exact registered_new hr
      split_ifs with hname
      · constructor
        · rintro ⟨⟩
          exact ⟨hname, _, List.mem_cons_self, hreg⟩
        · rintro ⟨hname', x, hx, hreg'⟩
          rcases List.mem_cons.mp hx with rfl | hx
          · rw [honly r' hreg']
          · have hold := (hiff name r').mpr ⟨hname', x, hx, hreg'⟩
            rw [← hname, hnew] at hold
            cases hold
      · rw [hiff]
        refine and_congr_right fun hname' => ?_
        constructor
        · rintro ⟨x, hx, hreg'⟩
          exact ⟨x, List.mem_cons_of_mem _ hx, hreg'⟩
        · rintro ⟨x, hx, hreg'⟩
          rcases List.mem_cons.mp hx with rfl | hx
          · exact absurd ((honly r' hreg') ▸ hname') hname
          · exact ⟨x, hx, hreg'⟩
    · exact hkeep he hno

theorem realms_registered_baal : ∃ evs w, Run (Serve bare) hall.world evs w ∧ Ordered bytesLt w.realms ∧
    ∃ r, find KeyEq.ofEq w.realms (str "Baal") = some r ∧ r.port = 6113 ∧ ∃ x ∈ evs, Registers r x := by
  obtain ⟨evs, hr⟩ := run_baal
  obtain ⟨hord, hiff⟩ := realms_registered rfl hr
  have hfind : find KeyEq.ofEq (realmAuth nearby 0 baalRequest greeted).realms (str "Baal") =
      some ⟨str "Baal", str "Realm", 6113, 0x7F000001⟩ := rfl
  exact ⟨evs, _, hr, hord, _, hfind, rfl, ((hiff _ _).mp hfind).2⟩

/-- The connections that the server is about to close have asked, since they were opened, for a realm that was refused. -/
theorem closed_refused (h0 : w₀.closing = ∅) (hr : Run (Serve st) w₀ evs w) (hc : c ∈ w.closing) :
    Since (Opens c) (fun x _ => Refuses c x) evs := by
  refine Run.since (P := fun w (_ : Unit) => c ∈ w.closing) (A := fun _ x _ => Refuses c x) (fun _ h => ?_) ?_ (b := ())
    hr hc
  · rw [h0] at h
    exact Finset.notMem_empty c h
  · intro h w e w' _ _ hs hc
    rcases serve_change hs with ⟨-, -, hsub, hopen⟩ | ⟨-, -, -, he, hopen⟩ | ⟨hd, -, -, he, hopen⟩
    · exact .inr ⟨hsub hc, hopen c hc⟩
    · rw [he] at hc
      exact .inr ⟨hc, hopen c⟩
    · rw [he] at hc
      rcases Finset.mem_insert.mp hc with rfl | hc
      · exact .inl hd
      · exact .inr ⟨hc, hopen c⟩

end Blitzd.Plugins.Realms
