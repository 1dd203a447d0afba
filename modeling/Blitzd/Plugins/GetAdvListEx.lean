import Blitzd.Core.Advertised
import Blitzd.Packets.AdvListEx
import Blitzd.Plugins.ReadUserData

/-! # Asking for games (`GetAdvListEx`)

The handler reads the request into a packet, which looks into the game cache. The passwords are compared as pointers: a
game with a password is not shown to anybody, whatever password the request has.

`private_game_iff`: over all runs of the lobby, the answers to requests that name a game are right exactly when the game
has no password, or the request has another one. -/

namespace Blitzd.Plugins.GetAdvListEx

open Blitzd.Lib Blitzd.Lib.Bytes Blitzd.Lib.KeyMap Blitzd.Utils Blitzd.Utils.CString Blitzd.Cache Blitzd.Core
open Blitzd.Core.Lobby Blitzd.Packets
open Blitzd.Plugins.ReadUserData (readUInt readUInt_after)

/-! ### The handler -/

/-- What the members of the packet held. -/
structure Junk where
  cond : Buf 4
  mask : Buf 4
  startidx : Buf 4
  maxcount : Buf 4

/-- The request in a payload. -/
def readQuery (junk : Junk) (payload : List Byte) : AdvQuery :=
  let cond := readUInt (Stream.ofBytes payload) junk.cond
  let mask := readUInt cond.2 junk.mask
  let startidx := readUInt mask.2 junk.startidx
  let maxcount := readUInt startidx.2 junk.maxcount
  let gamename := maxcount.2.readStr
  let gamepass := gamename.2.readStr
  let gamestat := gamepass.2.readStr
  ⟨gamename.1, gamepass.1, gamestat.1, startidx.1, maxcount.1, cond.1, mask.1⟩

/-- What the packet reads of a game; the endpoint is that of the host's client. -/
def gameView (endpoint : ConnId → Endpoint) (x : Game) : GameView where
  name := x.name
  flag := x.status.flag
  elapsed := x.status.elapsed
  type := x.status.type
  option := x.status.option
  passwd := x.status.passwd
  stat := x.status.stat
  broadcast := x.broadcast
  host := x.host.map endpoint

/-- The games of the cache. -/
def gameViews (endpoint : ConnId → Endpoint) (l : Lobby) : List GameView :=
  l.gameMap.map fun e => gameView endpoint (l.game e.2)

/-- `GetAdvListEx::Process`: the body of the packet that is sent. -/
def process (endpoint : ConnId → Endpoint) (l : Lobby) (junk : Junk) (payload : List Byte) : Option (List Byte) :=
  (Packet.advListEx (readQuery junk payload) (gameViews endpoint l)).pack.map fieldBytes

/-! ### Requests as they are sent -/

def packQuery (q : AdvQuery) : List Byte :=
  toLE 4 q.cond.toNat ++ toLE 4 q.mask.toNat ++ toLE 4 q.startidx.toNat ++ toLE 4 q.maxcount.toNat ++
    (q.gamename ++ [0]) ++ (q.gamepass ++ [0]) ++ (q.gamestat ++ [0])

/-- **A request is read as it was packed.** -/
theorem readQuery_packQuery (junk : Junk) {q : AdvQuery} (hname : NulFree q.gamename) (hpass : NulFree q.gamepass)
    (hstat : NulFree q.gamestat) : readQuery junk (packQuery q) = q := by
  have hpack : Stream.ofBytes (packQuery q) = .after [] (toLE 4 q.cond.toNat ++ (toLE 4 q.mask.toNat ++
      (toLE 4 q.startidx.toNat ++ (toLE 4 q.maxcount.toNat ++ (q.gamename ++ [0] ++
        (q.gamepass ++ [0] ++ (q.gamestat ++ [0] ++ []))))))) := by
    simp only [Stream.ofBytes_eq, packQuery, List.append_assoc, List.append_nil]
  unfold readQuery
  simp only [hpack, readUInt_after, Stream.readStr_after _ _ hname, Stream.readStr_after _ _ hpass,
    Stream.readStr_after _ _ hstat]

/-! ### The game that is named -/

section

variable {l l₀ : Lobby} {hist : List (Entry Lobby AdMove)} {name : Name} {g : GameId}

theorem find_gameViews (endpoint : ConnId → Endpoint) (hu : KeyUnique keyEq l.gameMap) (hok : GamesOk none none l)
    (hg : l.findGame name = some g) {t : Text} (ht : strcmpiEq name t = true) :
    (gameViews endpoint l).find? (fun v => strcmpiEq v.name t) = some (gameView endpoint (l.game g)) := by
  have hname : strcmpiEq (l.game g).name t = true := strcmpiEq_trans (strcmpiEq_symm (hok.key hg).1) ht
  rw [gameViews, List.find?_map]
  obtain ⟨k, hk, -⟩ := find_some hg
  have hsome : (l.gameMap.find? ((fun v : GameView => strcmpiEq v.name t) ∘
      fun e => gameView endpoint (l.game e.2))).isSome := List.find?_isSome.mpr ⟨(k, g), hk, hname⟩
  obtain ⟨e, he⟩ := Option.isSome_iff_exists.mp hsome
  -- an entry whose game has the name is that of the name
  have hfound := hu.find_of_mem (List.mem_of_find?_eq_some he)
  have het := List.find?_some he
  have hkey : keyEq.eqv e.1 name = true :=
    strcmpiEq_trans (hok.key hfound).1 (strcmpiEq_trans het (strcmpiEq_symm ht))
  rw [find_congr hkey] at hfound
  have heg : e.2 = g := Option.some.inj (hfound.symm.trans hg)
  rw [he, Option.map_some, heg]

/-- A game that is open, is asked for by its name and has a password, or none. -/
theorem named_eq {q : AdvQuery} {games : List GameView} {v : GameView} {h : Endpoint}
    (hfind : games.find? (fun v => strcmpiEq v.name q.gamename) = some v) (hhost : v.host = some h)
    (hfull : v.flag &&& 0x02 = 0) (hstarted : v.flag &&& 0x08 = 0) :
    q.named games = if v.passwd = [] then .ok (v, h) else .error 2 := by
  have hzero : ¬(0 : UInt32) > 0 := by decide
  rw [AdvQuery.named, hfind]
  dsimp only
  rw [hhost]
  dsimp only
  rw [hfull, hstarted, if_neg hzero, if_neg hzero, ite_not]

/-- **Who is shown a game**, over all runs: the requests that name a game which is neither full nor started are
answered by its password, exactly if it has none, or they have another one. -/
theorem private_game_iff (h₀ : l₀.Start) (hr : Run AdStep l₀ hist l) {st : GameStatus}
    (hadv : lastAdvert name hist = some st) (hfull : st.flag &&& 0x02 = 0) (hstarted : st.flag &&& 0x08 = 0)
    (hg : l.findGame name = some g) {h : ConnId} (hhost : (l.game g).host = some h) (endpoint : ConnId → Endpoint)
    (junk : Junk) (payload : List Byte) (hnamed : strcmpiEq name (readQuery junk payload).gamename = true) :
    process endpoint l junk payload =
        some (if st.passwd = [] ∨ (readQuery junk payload).gamepass = st.passwd then
          gameBytes (gameView endpoint { l.game g with status := st }, endpoint h) else toLE 4 0 ++ toLE 4 2) ↔
      (readQuery junk payload).gamename ≠ [] ∧ (st.passwd = [] ∨ (readQuery junk payload).gamepass ≠ st.passwd) := by
  obtain rfl : (l.game g).status = st := Option.some.inj ((status_eq_lastAdvert h₀ hr hg).symm.trans hadv)
  set q := readQuery junk payload
  have hprocess : process endpoint l junk payload = some (fieldBytes (packAdvListEx q (gameViews endpoint l))) := rfl
  rw [hprocess, Option.some_inj]
  by_cases hname : q.gamename = []
  · -- without a name, games are listed
    obtain ⟨hgame, hrefusal⟩ := unnamed_ne (gameViews endpoint l) hname
      (gameView endpoint (l.game g), endpoint h) (by decide : toLE 4 2 ≠ toLE 4 0)
    refine iff_of_false (fun hbody => ?_) fun h => h.1 hname
    split_ifs at hbody
    · exact hgame hbody
    · exact hrefusal hbody
  · have hfind := find_gameViews endpoint (unique_run h₀ hr) (inv_adRun h₀ hr).games hg hnamed
    have hnamed := named_eq (q := q) hfind (h := endpoint h) (by rw [gameView, hhost]; rfl) hfull hstarted
    rw [packAdvListEx, if_neg hname, hnamed]
    by_cases hp : (l.game g).status.passwd = []
    · have hshown : (gameView endpoint (l.game g)).passwd = [] := hp
      rw [if_pos hshown, if_pos (.inl hp)]
      exact iff_of_true rfl ⟨hname, .inl hp⟩
    · have hhidden : (gameView endpoint (l.game g)).passwd ≠ [] := hp
      rw [if_neg hhidden]
      by_cases hq : q.gamepass = (l.game g).status.passwd
      · rw [if_pos (.inr hq)]
        exact iff_of_false (refusal_ne_gameBytes 2 _) fun h => h.2.elim hp fun hne => hne hq
      · rw [if_neg (not_or.mpr ⟨hp, hq⟩)]
        exact iff_of_true rfl ⟨hname, .inr hq⟩

/-! ### A game with a password -/

/-- The status of a game with the password "pw". -/
def locked : GameStatus := { (default : GameStatus) with passwd := str "pw" }

/-- Client `1` has made such a game. -/
def lockedMelee : Lobby := (quiet.connect 1).startAdvEx3 1 melee locked

theorem run_lockedMelee : ∃ hist, Run AdStep quiet hist lockedMelee ∧ lastAdvert melee hist = some locked := by
  have hconnect : AdStep quiet (.move (.connect 1)) (quiet.connect 1) :=
    ⟨by simp [AdMove.Enabled, Move.Enabled, quiet], rfl⟩
  have hadvertise : AdStep (quiet.connect 1) (.move (.startAdvEx3 1 melee locked)) lockedMelee :=
    ⟨show (1 : ConnId) ∈ (quiet.connect 1).live by decide, rfl⟩
  exact ⟨_, .snoc (.snoc .nil hconnect) hadvertise, rfl⟩

def noJunk : Junk := ⟨Buf.zero 4, Buf.zero 4, Buf.zero 4, Buf.zero 4⟩

/-- A request that names the game, with that password. -/
def askMelee (pass : Text) : AdvQuery := ⟨str "MELEE", pass, [], 0, 20, 0, 0⟩

/-- Another password is refused. -/
theorem other_password_refused : lockedMelee.findGame melee = some 0 ∧ (lockedMelee.game 0).host = some 1 ∧
    process (fun _ => ⟨6112, 1⟩) lockedMelee noJunk (packQuery (askMelee (str "qw"))) =
      some (toLE 4 0 ++ toLE 4 2) := by
  obtain ⟨hist, hr, hadv⟩ := run_lockedMelee
  have hq : readQuery noJunk (packQuery (askMelee (str "qw"))) = askMelee (str "qw") :=
    readQuery_packQuery noJunk (by decide) (by decide) (by decide)
  have hiff := private_game_iff start_quiet hr hadv (by decide) (by decide) (g := 0) (by decide) (h := 1) (by decide)
    (fun _ => ⟨6112, 1⟩) noJunk (packQuery (askMelee (str "qw"))) (by rw [hq]; decide)
  rw [hq] at hiff
  exact ⟨by decide, by decide, hiff.mpr ⟨by decide, .inr (by decide)⟩⟩

/-- So is the game's own. -/
theorem own_password_refused : quiet.Start ∧
    (∃ hist, Run AdStep quiet hist lockedMelee ∧ lastAdvert melee hist = some locked) ∧
    locked.flag &&& 0x02 = 0 ∧ locked.flag &&& 0x08 = 0 ∧ (lockedMelee.game 0).host = some 1 ∧
    (readQuery noJunk (packQuery (askMelee locked.passwd))).gamepass = locked.passwd ∧
    process (fun _ => ⟨6112, 1⟩) lockedMelee noJunk (packQuery (askMelee locked.passwd)) =
      some (toLE 4 0 ++ toLE 4 2) :=
  ⟨start_quiet, run_lockedMelee, by decide, by decide, by decide, by decide, by decide +kernel⟩

end

end Blitzd.Plugins.GetAdvListEx
