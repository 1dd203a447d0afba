import Blitzd.Baald.Realm
import Blitzd.Lib.Run

/-! # The realm handshake

A client of blitzd that wants to play on a realm gets a hash in `BNetRealmLogonEx`, connects to baald and shows what it
got; baald asks blitzd. `Link` is the realm server with the packets on their way in both directions, which arrive in any
order, while clients of baald come and go.

`handshake`: what blitzd gave out it accepts, and no other hash; and an answer goes to the client that asked or, once that
one is gone, to nobody. A client is the number of its connection, counted over all of them: the address of one that is gone
may be in use again. That an answer does not reach the wrong one rests on the session numbers being distinct. -/

namespace Blitzd.Baald

open Blitzd.Lib Blitzd.Lib.Bytes Blitzd.Lib.KeyMap Blitzd.Utils.CString Blitzd.Cache Blitzd.Core Blitzd.Packets
open Blitzd.Plugins

/-! ### What the client shows -/

/-- What `BNetRealmLogonEx` reads for a client with that account. -/
def logonOf (w : Server) (c : ConnId) (p : Ptr) (cookie : UInt32) (realm : Endpoint) (version : UInt32) : RealmLogon where
  cookie := cookie
  realm := some realm
  user := some ((w.item p).passwd, (w.item p).username)
  session := (w.client c).session
  token := (w.client c).token
  gameid := (w.client c).gameid
  version := version

/-- The reply without its header as the client forwards it: four words, and what follows the ip and the port. -/
def forward (reply : List Byte) : List Byte := reply.take 16 ++ reply.drop 24

/-- The bytes of a request between the cookie and the hash. -/
def skipped (w : Server) (c : ConnId) (version : UInt32) : List Byte :=
  toLE 4 0 ++ (toLE 4 0 ++ (toLE 4 (w.client c).session.toNat ++ (List.replicate 12 0 ++
    (toLE 4 (w.client c).gameid.toNat ++ (toLE 4 version.toNat ++ List.replicate 8 0)))))

/-- A request with any hash in it. -/
def request (w : Server) (c : ConnId) (p : Ptr) (cookie version : UInt32) (hash : Buf 20) : List Byte :=
  toLE 4 cookie.toNat ++ skipped w c version ++ hash.bytes ++ ((w.item p).username ++ [0])

theorem length_skipped (w : Server) (c : ConnId) (version : UInt32) : (skipped w c version).length = 40 := by
  simp only [skipped, List.length_append, length_toLE, List.length_replicate]

theorem forward_append {a b r : List Byte} (ha : a.length = 16) (hb : b.length = 8) : forward (a ++ (b ++ r)) = a ++ r := by
  have hdrop : (a ++ (b ++ r)).drop 24 = r := by
    rw [← List.append_assoc]
    exact List.drop_left' (by rw [List.length_append, ha, hb])
  rw [forward, hdrop, List.take_left' ha]

theorem forward_logonOf (w : Server) (c : ConnId) (p : Ptr) (cookie : UInt32) (realm : Endpoint) (version : UInt32) :
    forward (fieldBytes (packRealmLogonEx (logonOf w c p cookie realm version))) =
      request w c p cookie version (UserCheck.secret w c p cookie) := by
  have hfields : fieldBytes (packRealmLogonEx (logonOf w c p cookie realm version)) =
      (toLE 4 cookie.toNat ++ (toLE 4 0 ++ (toLE 4 0 ++ toLE 4 (w.client c).session.toNat))) ++
        ((toLE 4 (htonl realm.ip).toNat ++ toLE 4 (UInt32.ofNat (htons realm.port).toNat).toNat) ++
          (List.replicate 12 0 ++ (toLE 4 (w.client c).gameid.toNat ++ (toLE 4 version.toNat ++ (List.replicate 8 0 ++
            ((UserCheck.secret w c p cookie).bytes ++ ((w.item p).username ++ [0]))))))) := by
    simp only [packRealmLogonEx, logonOf, fieldBytes, List.flatMap_cons, List.flatMap_nil, Field.bytes, UserCheck.secret,
      List.append_assoc, List.append_nil]
    rfl
  rw [hfields, forward_append (by simp only [List.length_append, length_toLE])
    (by simp only [List.length_append, length_toLE]), request, skipped]
  simp only [List.append_assoc]

/-- **blitzd accepts the hash it gave out, and no other.** -/
theorem process_request {w : Server} {c : ConnId} {p : Ptr} (huser : (w.client c).user = some p)
    (hname : NulFree (w.item p).username) (hheld : w.pool.findName (w.item p).username = some c) (cookie version : UInt32)
    (session : UInt32) (junk : Realm.Junk) (junk' : UserCheck.Junk) (hash : Buf 20) :
    UserCheck.process w junk' ((Realm.startupConn session junk (request w c p cookie version hash)).drop 4) =
      Baal.checkReply session (if hash = UserCheck.secret w c p cookie then 0 else 0x0C) := by
  have hresult : UserCheck.result w cookie hash (w.item p).username =
      if UserCheck.secret w c p cookie = hash then 0 else 0x0C := by
    simp only [UserCheck.result, hheld, huser]
  rw [request, Realm.startupConn_eq session junk cookie (length_skipped w c version) hash hname,
    UserCheck.process_userCheck w junk' session cookie hash hname, hresult]
  simp only [eq_comm]

/-! ### Packets on their way -/

/-- The realm server and the packets that have not arrived, each with the number of the connection that asked. `owner`
keeps the connection that got a session number; the code has no such table, nor the numbers. -/
structure Link where
  realm : Realm
  serial : ConnId → ℕ
  accepted : ℕ
  owner : UInt32 → Option ℕ
  asked : List (ℕ × List Byte)
  answered : List (ℕ × List Byte)

namespace Link

/-- Nobody has connected yet. -/
def start : Link := ⟨⟨∅, fun _ => 0, [], 0⟩, fun _ => 0, 0, fun _ => none, [], []⟩

inductive Act
  | connect (c : ConnId)
  | disconnect (c : ConnId)
  | startup (c : ConnId) (junk : Realm.Junk) (payload : List Byte)
  /-- blitzd answers a request, in the state it has by then. -/
  | answer (i : ℕ) (w : Server) (junk : UserCheck.Junk)
  /-- baald gets an answer. -/
  | arrive (i : ℕ) (token result : Buf 4)

/-- A new client has an address of its own and a session number nobody had before. -/
def Step (k : Link) : Act → Link → Prop
  | .connect c, k' => c ∉ k.realm.live ∧ k.owner (k.realm.current + 1) = none ∧ k' =
      { k with
        realm := k.realm.connect c
        serial := Function.update k.serial c k.accepted
        accepted := k.accepted + 1
        owner := Function.update k.owner (k.realm.current + 1) (some k.accepted) }
  | .disconnect c, k' => c ∈ k.realm.live ∧ k' = { k with realm := k.realm.disconnect c }
  | .startup c junk payload, k' => c ∈ k.realm.live ∧ k' =
      { k with asked := k.asked ++ [(k.serial c, Realm.startupConn (k.realm.session c) junk payload)] }
  | .answer i w junk, k' => ∃ m, k.asked[i]? = some m ∧ k' =
      { k with
        asked := k.asked.eraseIdx i
        answered := k.answered ++ [(m.1, UserCheck.process w junk (m.2.drop 4))] }
  | .arrive i _ _, k' => ∃ m, k.answered[i]? = some m ∧ k' = { k with answered := k.answered.eraseIdx i }

/-- An answer that arrives is passed on to the client of the connection that asked, or else to nobody. -/
def Routed (x : Entry Link Act) : Prop :=
  match x.event with
  | .arrive i token result => ∀ m, x.before.answered[i]? = some m → ∃ t r, m.2 = Baal.checkReply t r ∧
      (∀ c ∈ x.before.realm.live, x.before.serial c = m.1 →
        x.before.realm.userCheck token result (m.2.drop 4) = some (c, Baal.startupConn r)) ∧
      ((∀ c ∈ x.before.realm.live, x.before.serial c ≠ m.1) →
        x.before.realm.userCheck token result (m.2.drop 4) = none)
  | _ => True

/-- The pool has the live clients by their sessions, sessions have one connection each, and the packets on their way have
the session of the connection that asked. -/
structure Inv (k : Link) : Prop where
  pool : ∀ {s c}, k.realm.find s = some c ↔ c ∈ k.realm.live ∧ k.realm.session c = s
  mine : ∀ {c}, c ∈ k.realm.live → k.owner (k.realm.session c) = some (k.serial c)
  bounded : ∀ {s n}, k.owner s = some n → n < k.accepted
  once : ∀ {s s' n}, k.owner s = some n → k.owner s' = some n → s = s'
  asked : ∀ m ∈ k.asked, ∃ (s : UInt32) (rest : List Byte),
    m.2.drop 4 = toLE 4 s.toNat ++ rest ∧ k.owner s = some m.1
  answered : ∀ m ∈ k.answered, ∃ s r, m.2 = Baal.checkReply s r ∧ k.owner s = some m.1

variable {k k' : Link}

theorem inv_start : Inv start where
  pool := by simp [start, Realm.find, KeyMap.find]
  mine h := by simp [start] at h
  bounded h := by simp [start] at h
  once h := by simp [start] at h
  asked _ h := by simp [start] at h
  answered _ h := by simp [start] at h

section

variable {owner : UInt32 → Option ℕ} {s₀ s : UInt32} {n a : ℕ}

/-- What had an owner still has it. -/
theorem owner_kept (hnew : owner s₀ = none) (hs : owner s = some n) : Function.update owner s₀ (some a) s = some n := by
  have hne : s ≠ s₀ := fun he => by rw [he, hnew] at hs; cases hs
  rw [Function.update_of_ne hne, hs]

theorem owner_cases (hs : Function.update owner s₀ (some a) s = some n) : (s = s₀ ∧ n = a) ∨ owner s = some n := by
  by_cases he : s = s₀
  · rw [he, Function.update_self] at hs
    exact .inl ⟨he, (Option.some.inj hs).symm⟩
  · rw [Function.update_of_ne he] at hs
    exact .inr hs

end

theorem Inv.connect (h : Inv k) {c : ConnId} (hc : c ∉ k.realm.live) (hnew : k.owner (k.realm.current + 1) = none) :
    Inv { k with
      realm := k.realm.connect c
      serial := Function.update k.serial c k.accepted
      accepted := k.accepted + 1
      owner := Function.update k.owner (k.realm.current + 1) (some k.accepted) } := by
  have hfresh : ∀ d ∈ k.realm.live, k.realm.session d ≠ k.realm.current + 1 := by
    intro d hd he
    have := h.mine hd
    rw [he, hnew] at this
    cases this
  refine ⟨Realm.Pooled.connect h.pool hc hfresh, fun {d} hd => ?_, fun {s n} hs => ?_, fun {s s' n} hs hs' => ?_,
    fun m hm => ?_, fun m hm => ?_⟩
  · have hd' : d ∈ insert c k.realm.live := hd
    show Function.update k.owner _ (some k.accepted) ((k.realm.connect c).session d) =
      some (Function.update k.serial c k.accepted d)
    rcases Finset.mem_insert.mp hd' with rfl | hd'
    · rw [k.realm.session_connect_self, Function.update_self, Function.update_self]
    · have hne : d ≠ c := fun he => hc (he ▸ hd')
      rw [k.realm.session_connect_ne hne, Function.update_of_ne hne]
      exact owner_kept hnew (h.mine hd')
  · show n < k.accepted + 1
    rcases owner_cases hs with ⟨-, rfl⟩ | hs
    · omega
    · have := h.bounded hs
      omega
  · rcases owner_cases hs with ⟨rfl, rfl⟩ | hs <;> rcases owner_cases hs' with ⟨rfl, he⟩ | hs'
    · rfl
    · exact absurd (h.bounded hs') (by omega)
    · exact absurd (h.bounded hs) (by omega)
    · exact h.once hs hs'
  · obtain ⟨s, rest, hm', hs⟩ := h.asked m hm
    exact ⟨s, rest, hm', owner_kept hnew hs⟩
  · obtain ⟨s, r, hm', hs⟩ := h.answered m hm
    exact ⟨s, r, hm', owner_kept hnew hs⟩

theorem Inv.disconnect (h : Inv k) {c : ConnId} (hc : c ∈ k.realm.live) :
    Inv { k with realm := k.realm.disconnect c } :=
  ⟨Realm.Pooled.disconnect h.pool hc, fun {_} hd => h.mine (Finset.mem_of_mem_erase hd), h.bounded, h.once, h.asked,
    h.answered⟩

theorem Inv.step {e : Act} (h : Inv k) (hs : Step k e k') : Inv k' := by
  cases e with
  | connect c =>
    obtain ⟨hc, hnew, rfl⟩ := hs
    exact h.connect hc hnew
  | disconnect c =>
    obtain ⟨hc, rfl⟩ := hs
    exact h.disconnect hc
  | startup c junk payload =>
    obtain ⟨hc, rfl⟩ := hs
    refine ⟨h.pool, h.mine, h.bounded, h.once, fun m hm => ?_, h.answered⟩
    rcases List.mem_append.mp hm with hm | hm
    · exact h.asked m hm
    · rw [List.mem_singleton.mp hm]
      exact ⟨k.realm.session c, _, Baal.payload_build _ _ _, h.mine hc⟩
  | answer i w junk =>
    obtain ⟨m, hm, rfl⟩ := hs
    refine ⟨h.pool, h.mine, h.bounded, h.once, fun m' hm' => h.asked m' (List.mem_of_mem_eraseIdx hm'), fun m' hm' => ?_⟩
    rcases List.mem_append.mp hm' with hm' | hm'
    · exact h.answered m' hm'
    · obtain ⟨s, rest, hpay, hs⟩ := h.asked m (List.mem_of_getElem? hm)
      obtain ⟨r, hr⟩ := UserCheck.process_token w junk s rest
      rw [List.mem_singleton.mp hm', hpay]
      exact ⟨s, r, hr, hs⟩
  | arrive i token result =>
    obtain ⟨m, -, rfl⟩ := hs
    exact ⟨h.pool, h.mine, h.bounded, h.once, h.asked, fun m' hm' => h.answered m' (List.mem_of_mem_eraseIdx hm')⟩

/-- An answer goes where it belongs. -/
theorem Inv.routed (h : Inv k) (e : Act) : Routed ⟨k, e, k'⟩ := by
  cases e with
  | arrive i token result =>
    intro m hm
    obtain ⟨s, r, hpkt, hs⟩ := h.answered m (List.mem_of_getElem? hm)
    refine ⟨s, r, hpkt, fun c hc hn => ?_, fun hgone => ?_⟩
    · have hmine := h.mine hc
      have hsession : k.realm.session c = s := h.once hmine (hs.trans (congrArg some hn.symm))
      rw [hpkt, Realm.userCheck_eq, h.pool.mpr ⟨hc, hsession⟩]
      rfl
    · have hnone : k.realm.find s = none := by
        rcases hf : k.realm.find s with _ | c
        · rfl
        · obtain ⟨hc, hsc⟩ := h.pool.mp hf
          have hmine := h.mine hc
          rw [hsc, hs] at hmine
          exact absurd (Option.some.inj hmine).symm (hgone c hc)
      rw [hpkt, Realm.userCheck_eq, hnone]
      rfl
  | _ => trivial

theorem routed_run {hist : List (Entry Link Act)} (hr : Run Step start hist k) : ∀ x ∈ hist, Routed x := by
  have hboth : Inv k ∧ ∀ x ∈ hist, Routed x := by
    induction hr with
    | nil => exact ⟨inv_start, fun x hx => by cases hx⟩
    | snoc _ hs ih =>
      refine ⟨ih.1.step hs, fun x hx => ?_⟩
      rcases List.mem_cons.mp hx with rfl | hx
      · exact ih.1.routed _
      · exact ih.2 x hx
  exact hboth.2

end Link

/-! ### The handshake -/

/-- **The realm handshake.** The client found under its name is accepted with what `BNetRealmLogonEx` gave it and refused
with any other hash. Packets to blitzd have room for what a client can send, and answers are cut out of the stream as they
were packed. In every run each answer goes to the connection that asked, or to nobody. -/
theorem handshake {w : Server} {c : ConnId} {p : Ptr} (huser : (w.client c).user = some p)
    (hname : NulFree (w.item p).username) (hheld : w.pool.findName (w.item p).username = some c)
    {hist : List (Entry Link Link.Act)} {k : Link} (hr : Run Link.Step Link.start hist k) :
    (∀ (cookie : UInt32) (realm : Endpoint) (version session : UInt32) (junk : Realm.Junk) (junk' : UserCheck.Junk),
      UserCheck.process w junk' ((Realm.startupConn session junk
          (forward (fieldBytes (packRealmLogonEx (logonOf w c p cookie realm version))))).drop 4) =
        Baal.checkReply session 0 ∧
      ∀ hash, hash ≠ UserCheck.secret w c p cookie →
        UserCheck.process w junk' ((Realm.startupConn session junk (request w c p cookie version hash)).drop 4) =
          Baal.checkReply session 0x0C) ∧
    (∀ session junk payload mem b, payload.length ≤ 65532 →
      packetCall mem .baal (Realm.startupConn session junk payload ++ b) =
          ⟨.baal, 0x10, (Realm.startupConn session junk payload).drop 4⟩ ∧
        behind .baal (Realm.startupConn session junk payload ++ b) = b) ∧
    (∀ replies : List (UInt32 × UInt32),
      Realm.processBaal (replies.length + 1) (replies.flatMap fun x => Baal.checkReply x.1 x.2) =
        some (replies.map fun x => (0x10, (Baal.checkReply x.1 x.2).drop 4), [])) ∧
    ∀ x ∈ hist, Link.Routed x := by
  refine ⟨fun cookie realm version session junk junk' => ⟨?_, fun hash hne => ?_⟩, ?_, Realm.processBaal_checkReply,
    Link.routed_run hr⟩
  · rw [forward_logonOf, process_request huser hname hheld, if_pos rfl]
  · rw [process_request huser hname hheld, if_neg hne]
  · intro session junk payload mem b hlen
    exact (Baal.build_front 0x10 session _ (Realm.length_startupConn session junk hlen) mem b).2

/-- `alice` is connected to blitzd. -/
def aliceOnline : Server where
  clients := ⟨fun _ => { Client.new 5 6 (Buf.zero 20) (Buf.zero 20) with user := some 0 }, 1⟩
  pool := ⟨[(str "alice", 0)], []⟩
  store := ⟨⟨⟨fun _ => UserCacheItem.new (str "alice") (Buf.zero 20), 1⟩, 2, 1, [(str "alice", 0)], [(1, 0)]⟩, ⟨[], []⟩⟩

/-- `alice` shows what it got and is gone when the answer comes, with another client at its address. -/
theorem handshake_alice : ∃ hist k, Run Link.Step Link.start hist k ∧ hist.length = 6 ∧ (∀ x ∈ hist, Link.Routed x) ∧
    ∀ junk junk', UserCheck.process aliceOnline junk' ((Realm.startupConn 1 junk
      (forward (fieldBytes (packRealmLogonEx (logonOf aliceOnline 0 0 3 ⟨6112, 0x7F000001⟩ 26))))).drop 4) =
        Baal.checkReply 1 0 := by
  obtain ⟨hist, k, hr, hlen⟩ : ∃ hist k, Run Link.Step Link.start hist k ∧ hist.length = 6 := by
    have h₁ : Run Link.Step Link.start _ _ := .snoc .nil
      (show Link.Step _ (.connect 7) _ from ⟨by decide, rfl, rfl⟩)
    have h₂ := h₁.snoc (show Link.Step _ (.startup 7 ⟨Buf.zero 4, Buf.zero 20⟩ []) _ from ⟨by decide, rfl⟩)
    have h₃ := h₂.snoc (show Link.Step _ (.disconnect 7) _ from ⟨by decide, rfl⟩)
    have h₄ := h₃.snoc (show Link.Step _ (.connect 7) _ from ⟨by decide, rfl, rfl⟩)
    have h₅ := h₄.snoc (show Link.Step _ (.answer 0 aliceOnline ⟨Buf.zero 4, Buf.zero 4, Buf.zero 20⟩) _ from
      ⟨_, rfl, rfl⟩)
    have h₆ := h₅.snoc (show Link.Step _ (.arrive 0 (Buf.zero 4) (Buf.zero 4)) _ from ⟨_, rfl, rfl⟩)
    exact ⟨_, _, h₆, rfl⟩
  have h := handshake (w := aliceOnline) (c := 0) (p := 0) rfl (by decide) (by decide) hr
  exact ⟨hist, k, hr, hlen, h.2.2.2, fun junk junk' => (h.1 3 ⟨6112, 0x7F000001⟩ 26 1 junk junk').1⟩

end Blitzd.Baald
