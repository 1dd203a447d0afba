import Blitzd.Cache.CheckRevision
import Blitzd.Packets.BNet
import Blitzd.Plugins.ReadUserData

/-! # Checking a client's version (`AuthCheck`)

The client sends the checksum it has computed and the version of its program. `findRev` gives the first revision with
that checksum and version, and only this one is compared with the client's game: when several games share their files,
the revision of another game can hide the one that the client has.

`accepted_iff_of_request`: what the answer to one request needs to be right; `accepted_iff_always`: when a list of
revisions answers all of them right. -/

namespace Blitzd.Plugins.AuthCheck

open Blitzd.Lib.Bytes Blitzd.Utils Blitzd.Utils.CString Blitzd.Packets
open Blitzd.Cache.CheckRevision (Revision findRev checksum)
open Blitzd.Plugins.ReadUserData (readUInt readUInt_after)

/-! ### The handler -/

structure Request where
  ticks : UInt32
  exever : UInt32
  exechksum : UInt32
  count : UInt32
  spawn : UInt32
  exeinfo : Text
  owner : Text

/-- What the local variables held. -/
structure Junk where
  ticks : Buf 4
  exever : Buf 4
  exechksum : Buf 4
  count : Buf 4
  spawn : Buf 4

/-- The request in a payload; the keys between the numbers and the strings are skipped. -/
def readRequest (junk : Junk) (payload : List Byte) : Request :=
  let ticks := readUInt (Stream.ofBytes payload) junk.ticks
  let exever := readUInt ticks.2 junk.exever
  let exechksum := readUInt exever.2 junk.exechksum
  let count := readUInt exechksum.2 junk.count
  let spawn := readUInt count.2 junk.spawn
  let exeinfo := (spawn.2.skip (count.1 * 36).toNat).readStr
  let owner := exeinfo.2.readStr
  ⟨ticks.1, exever.1, exechksum.1, count.1, spawn.1, exeinfo.1, owner.1⟩

/-- `GetToken() % 8`. -/
def verIndex (token : UInt32) : Fin 8 := Fin.ofNat 8 token.toNat

/-- `AuthCheck::Process` for a client with that game and token; the packet it sends. -/
def process (revlist : List Revision) (gameId token : UInt32) (junk : Junk) (payload : List Byte) : Packet :=
  let q := readRequest junk payload
  match findRev revlist (verIndex token) q.exechksum q.exever with
  | none => .authCheck 0x101 []
  | some rev => .authCheck (if rev.gameId ≠ gameId then 0x101 else 0) []

/-! ### Requests as they are sent -/

/-- A request with the bytes of its keys. -/
def Request.pack (q : Request) (keys : List Byte) : List Byte :=
  toLE 4 q.ticks.toNat ++ toLE 4 q.exever.toNat ++ toLE 4 q.exechksum.toNat ++ toLE 4 q.count.toNat ++
    toLE 4 q.spawn.toNat ++ keys ++ (q.exeinfo ++ [0]) ++ (q.owner ++ [0])

/-- **A request is read as it was packed.** -/
theorem readRequest_pack (junk : Junk) {q : Request} {keys : List Byte} (hkeys : keys.length = (q.count * 36).toNat)
    (hexeinfo : NulFree q.exeinfo) (howner : NulFree q.owner) : readRequest junk (q.pack keys) = q := by
  have hpack : Stream.ofBytes (q.pack keys) = .after [] (toLE 4 q.ticks.toNat ++ (toLE 4 q.exever.toNat ++
      (toLE 4 q.exechksum.toNat ++ (toLE 4 q.count.toNat ++ (toLE 4 q.spawn.toNat ++ (keys ++
        (q.exeinfo ++ [0] ++ (q.owner ++ [0] ++ [])))))))) := by
    simp only [Stream.ofBytes_eq, Request.pack, List.append_assoc, List.append_nil]
  unfold readRequest
  simp only [hpack, readUInt_after, Stream.skip_after _ _ hkeys, Stream.readStr_after _ _ hexeinfo,
    Stream.readStr_after _ _ howner]

/-! ### Who is accepted -/

/-- Some revision is of the client's game and has what the client sent. -/
def Loaded (revlist : List Revision) (gameId token : UInt32) (q : Request) : Prop :=
  ∃ rev ∈ revlist, rev.gameId = gameId ∧ rev.chksum (verIndex token) = q.exechksum ∧
    (rev.exeVer = 0 ∨ rev.exeVer = q.exever)

/-- The first revision with what the client sent is of another game, and behind it there is one of the client's. -/
def Shadowed (revlist : List Revision) (gameId token : UInt32) (q : Request) : Prop :=
  ∃ pre rev post, revlist = pre ++ rev :: post ∧
    (∀ p ∈ pre, ¬p.fits (verIndex token) q.exechksum q.exever) ∧ rev.fits (verIndex token) q.exechksum q.exever ∧
    rev.gameId ≠ gameId ∧ Loaded post gameId token q

section

variable {revlist : List Revision} {gameId token : UInt32} {junk : Junk} {payload : List Byte} {q : Request}

theorem process_eq_zero_iff : process revlist gameId token junk payload = .authCheck 0 [] ↔
    ∃ rev, findRev revlist (verIndex token) (readRequest junk payload).exechksum (readRequest junk payload).exever =
      some rev ∧ rev.gameId = gameId := by
  unfold process
  cases hfind : findRev revlist (verIndex token) (readRequest junk payload).exechksum (readRequest junk payload).exever with
  | none => simp [hfind]
  | some rev =>
    simp only [hfind]
    split_ifs with h
    · simp [h]
    · simp [not_not.mp h]

theorem mem_of_findRev {rev : Revision} (h : findRev revlist (verIndex token) q.exechksum q.exever = some rev) :
    rev ∈ revlist ∧ rev.chksum (verIndex token) = q.exechksum ∧ (rev.exeVer = 0 ∨ rev.exeVer = q.exever) :=
  ⟨List.mem_of_find?_eq_some h, Revision.fits_iff.mp (List.find?_some h)⟩

theorem exists_findRev (h : Loaded revlist gameId token q) :
    ∃ rev, findRev revlist (verIndex token) q.exechksum q.exever = some rev := by
  obtain ⟨own, hmem, -, hown⟩ := h
  exact Option.isSome_iff_exists.mp (List.find?_isSome.mpr ⟨own, hmem, Revision.fits_iff.mpr hown⟩)

/-- Who is accepted has a revision that is loaded. -/
theorem loaded_of_accepted (h : process revlist gameId token junk payload = .authCheck 0 []) :
    Loaded revlist gameId token (readRequest junk payload) := by
  obtain ⟨rev, hfind, hgame⟩ := process_eq_zero_iff.mp h
  obtain ⟨hmem, hown⟩ := mem_of_findRev hfind
  exact ⟨rev, hmem, hgame, hown⟩

/-- **A request is answered right exactly when the client's revision is not behind one of another game.** -/
theorem accepted_iff_of_request : (process revlist gameId token junk payload = .authCheck 0 [] ↔
    Loaded revlist gameId token (readRequest junk payload)) ↔
      ¬Shadowed revlist gameId token (readRequest junk payload) := by
  constructor
  · rintro hiff ⟨pre, rev, post, rfl, hpre, hfits, hgame, own, hown, hloaded⟩
    obtain ⟨first, hfirst, hfirstGame⟩ := process_eq_zero_iff.mp (hiff.mpr ⟨own, by simp [hown], hloaded⟩)
    rw [findRev, List.find?_append, List.find?_eq_none.mpr hpre, Option.none_or, List.find?_cons_of_pos hfits] at hfirst
    cases hfirst
    exact hgame hfirstGame
  · refine fun hno => ⟨loaded_of_accepted, fun hloaded => ?_⟩
    obtain ⟨rev, hrev⟩ := exists_findRev hloaded
    refine process_eq_zero_iff.mpr ⟨rev, hrev, by_contra fun hne => hno ?_⟩
    obtain ⟨hfits, pre, post, rfl, hpre⟩ := List.find?_eq_some_iff_append.mp hrev
    have hpre : ∀ p ∈ pre, ¬p.fits (verIndex token) _ _ := fun p hp => by simpa using hpre p hp
    obtain ⟨own, hmem, hgame, hown⟩ := hloaded
    refine ⟨pre, rev, post, rfl, hpre, hfits, hne, own, ?_, hgame, hown⟩
    -- the client's revision is not among those before the first one that fits, nor is it that one
    rcases List.mem_append.mp hmem with h | h
    · exact absurd (Revision.fits_iff.mpr hown) (hpre own h)
    · exact (List.mem_cons.mp h).resolve_left fun e => hne (e ▸ hgame)

/-- **A list of revisions answers every request right exactly when revisions that fit the same request are of the
same game.** -/
theorem accepted_iff_always :
    (∀ gameId token junk payload, process revlist gameId token junk payload = .authCheck 0 [] ↔
        Loaded revlist gameId token (readRequest junk payload)) ↔
      ∀ r₁ ∈ revlist, ∀ r₂ ∈ revlist, ∀ (k : Fin 8) (v : UInt32), r₁.chksum k = r₂.chksum k →
        (r₁.exeVer = 0 ∨ r₁.exeVer = v) → (r₂.exeVer = 0 ∨ r₂.exeVer = v) → r₁.gameId = r₂.gameId := by
  have hindex : ∀ k : Fin 8, verIndex (UInt32.ofNat k) = k := by decide
  constructor
  · intro hiff r₁ h₁ r₂ h₂ k v hsum hv₁ hv₂
    have hk : verIndex (UInt32.ofNat k) = k := hindex k
    let junk : Junk := ⟨Buf.zero 4, Buf.zero 4, Buf.zero 4, Buf.zero 4, Buf.zero 4⟩
    let q : Request := ⟨0, v, r₁.chksum k, 0, 0, [], []⟩
    have hq : readRequest junk (q.pack []) = q := readRequest_pack junk rfl nulFree_nil nulFree_nil
    -- the request that both fit is answered by one revision, to the clients of both games
    have hgame : ∀ r ∈ revlist, r.chksum k = q.exechksum → (r.exeVer = 0 ∨ r.exeVer = v) →
        ∃ rev, findRev revlist k q.exechksum v = some rev ∧ rev.gameId = r.gameId := by
      intro r hr hrsum hrver
      have hloaded : Loaded revlist r.gameId (UInt32.ofNat k) q := ⟨r, hr, rfl, hk.symm ▸ hrsum, hrver⟩
      rw [← hq] at hloaded
      obtain ⟨rev, hrev, hrevGame⟩ := process_eq_zero_iff.mp ((hiff _ _ _ _).mpr hloaded)
      rw [hq, hk] at hrev
      exact ⟨rev, hrev, hrevGame⟩
    obtain ⟨rev, hrev, hrev₁⟩ := hgame r₁ h₁ rfl hv₁
    obtain ⟨rev', hrev', hrev₂⟩ := hgame r₂ h₂ hsum.symm hv₂
    rw [hrev] at hrev'
    cases hrev'
    exact hrev₁.symm.trans hrev₂
  · intro hsame gameId token junk payload
    refine ⟨loaded_of_accepted, fun hloaded => ?_⟩
    obtain ⟨rev, hrev⟩ := exists_findRev hloaded
    obtain ⟨hmem, hsum, hver⟩ := mem_of_findRev hrev
    obtain ⟨own, hown, rfl, hownSum, hownVer⟩ := hloaded
    exact process_eq_zero_iff.mpr ⟨rev, hrev, hsame rev hmem own hown _ _ (hsum.trans hownSum.symm) hver hownVer⟩

end

/-- Two games with the same files: the client of the second one has a revision, and is refused. -/
theorem shared_files_refused :
    let sums := checksum 1 2 3 (fun _ => .add) (fun _ => [7])
    let revlist : List Revision := [⟨0x57415233, sums, 0⟩, ⟨0x57335850, sums, 0⟩]
    let junk : Junk := ⟨Buf.zero 4, Buf.zero 4, Buf.zero 4, Buf.zero 4, Buf.zero 4⟩
    let q : Request := ⟨0, 1, sums 0, 0, 0, str "war3.exe", str "me"⟩
    process revlist 0x57335850 8 junk (q.pack []) = .authCheck 0x101 [] ∧
      Loaded revlist 0x57335850 8 (readRequest junk (q.pack [])) := by
  intro sums revlist junk q
  have hq : readRequest junk (q.pack []) = q := readRequest_pack junk rfl (by decide) (by decide)
  have hindex : verIndex 8 = 0 := rfl
  constructor
  · simp [process, hq, findRev, revlist, Revision.fits, hindex, q]
  · exact ⟨⟨0x57335850, sums, 0⟩, by simp [revlist], rfl, by rw [hq, hindex], .inl rfl⟩

end Blitzd.Plugins.AuthCheck
