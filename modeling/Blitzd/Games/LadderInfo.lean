import Blitzd.Games.LadderTables
import Blitzd.Packets.BNet

/-! # Compressed ladder data (`LadderInfo`)

`BuildData` compresses a table for the client, behind its size and its compressed size. The buffer it gives to zlib is a
sixteenth larger than the data, the result of the compressor is not looked at, and both sizes are written as 16-bit
numbers. Of zlib it is only used what its manual says (`Zlib`): a stream that did not fit is cut off.

`buildData_iff`: what is built can be inflated exactly if the compressor came to an end and the stream has less than
65536 bytes; never for a table of fewer than 8 bytes, such as the addresses when no page is configured
(`unpaged_undecodable`). -/

namespace Blitzd.Games

open Blitzd.Lib.Bytes LadderData

/-- The compressor, and the streams it writes. -/
structure Zlib where
  /-- `deflate(&stream, Z_FINISH)` with room for so many bytes: whether it returned `Z_STREAM_END`, and what it
  wrote. -/
  deflate : List Byte → ℕ → Bool × List Byte
  /-- The first is a complete stream that inflates to the second. -/
  Inflates : List Byte → List Byte → Prop
  fits : ∀ d k, (deflate d k).1 = true → (deflate d k).2.length ≤ k ∧ Inflates (deflate d k).2 d
  cut : ∀ d k, (deflate d k).1 = false → (deflate d k).2.length = k ∧
    ∃ s, Inflates s d ∧ (deflate d k).2 <+: s ∧ (deflate d k).2 ≠ s
  /-- No complete stream is shorter than 8 bytes. -/
  eight_le : ∀ s d, Inflates s d → 8 ≤ s.length
  /-- No complete stream goes on as another one. -/
  delimited : ∀ s s' d d', Inflates s d → Inflates s' d' → s <+: s' → s = s'

/-- `tzcompress` on a buffer of `destLen` zero bytes: the buffer, and the length it leaves in `destLen`; its result is
not used. -/
def tzcompress (z : Zlib) (destLen : ℕ) (source : List Byte) : List Byte × ℕ :=
  if destLen % 2 ^ 32 ≠ destLen then (List.replicate destLen 0, destLen)
  else
    let r := z.deflate (source.take (source.length % 2 ^ 32)) destLen
    let dest := r.2 ++ List.replicate (destLen - r.2.length) 0
    if r.1 then (dest, r.2.length) else (dest, destLen)

/-- `BuildData`; the address of the first byte is taken, so there must be one. -/
def buildData (z : Zlib) (data : List Byte) : Option (List Byte) :=
  if data = [] then none
  else
    let len := data.length + data.length / 16
    let r := tzcompress z len data
    some (toLE 2 data.length ++ toLE 2 r.2 ++ r.1.take r.2)

/-- `Init`: the data that the packets are packed from. -/
def initLadderInfo (z : Zlib) (s : LadderData) (c : Config) : Option Packets.LadderInfo := do
  let s := s.load c
  let urlData ← buildData z s.getUrlData
  let mapName ← buildData z s.getMapName
  let mapInfo ← buildData z s.getMapInfo
  let mapDesc ← buildData z s.getMapDesc
  let ladderData ← buildData z s.getLadderData
  return { urlData, mapName, mapInfo, mapDesc, ladderData }

/-- A client can use what it got: the size of the data, the number of bytes that follow, and a stream that inflates to
the data. -/
def Decodable (z : Zlib) (out data : List Byte) : Prop :=
  4 ≤ out.length ∧ ofLE (out.take 2) = data.length ∧ ofLE ((out.drop 2).take 2) = (out.drop 4).length ∧
    z.Inflates (out.drop 4) data

variable {z : Zlib} {data : List Byte}

/-- What is built, by the compressor's result. -/
theorem buildData_eq (hne : data ≠ []) (hlen : data.length < 65536) :
    ∃ r, r = z.deflate data (data.length + data.length / 16) ∧
      buildData z data = some (toLE 2 data.length ++ (toLE 2 r.2.length ++ r.2)) := by
  refine ⟨_, rfl, ?_⟩
  have hroom : (data.length + data.length / 16) % 2 ^ 32 = data.length + data.length / 16 :=
    Nat.mod_eq_of_lt (by omega)
  have hsource : data.take (data.length % 2 ^ 32) = data := by
    rw [Nat.mod_eq_of_lt (by omega), List.take_length]
  rw [buildData, if_neg hne]
  dsimp only
  rw [tzcompress, if_neg (not_not_intro hroom), hsource]
  dsimp only
  rcases hend : (z.deflate data (data.length + data.length / 16)).1 with _ | _
  · -- the buffer is full, and its length is what it was
    have hfull := (z.cut _ _ hend).1
    rw [if_neg Bool.false_ne_true, hfull, Nat.sub_self, List.replicate_zero, List.append_nil,
      List.take_of_length_le hfull.le, List.append_assoc]
  · rw [if_pos rfl, List.take_left, List.append_assoc]

theorem decodable_iff {stream : List Byte} (hlen : data.length < 65536) :
    Decodable z (toLE 2 data.length ++ (toLE 2 stream.length ++ stream)) data ↔
      stream.length < 65536 ∧ z.Inflates stream data := by
  have h2 : ∀ n, (toLE 2 n).length = 2 := length_toLE 2
  have hsize : (toLE 2 data.length ++ (toLE 2 stream.length ++ stream)).take 2 = toLE 2 data.length :=
    List.take_left' (h2 _)
  have hdrop : (toLE 2 data.length ++ (toLE 2 stream.length ++ stream)).drop 2 = toLE 2 stream.length ++ stream :=
    List.drop_left' (h2 _)
  have hrest : (toLE 2 data.length ++ (toLE 2 stream.length ++ stream)).drop 4 = stream := by
    rw [show 4 = 2 + 2 from rfl, ← List.drop_drop, hdrop, List.drop_left' (h2 _)]
  rw [Decodable, hsize, hdrop, hrest, List.take_left' (h2 _), ofLE_toLE_of_lt (by omega)]
  constructor
  · rintro ⟨-, -, hcount, hinf⟩
    refine ⟨?_, hinf⟩
    have := ofLE_lt (toLE 2 stream.length)
    rw [hcount, h2] at this
    exact this
  · rintro ⟨hshort, hinf⟩
    refine ⟨?_, rfl, ofLE_toLE_of_lt (by omega), hinf⟩
    rw [List.length_append, List.length_append, h2, h2]
    omega

/-- A table of fewer than 8 bytes has no room for its stream. -/
theorem not_decodable_of_short (hsmall : data.length < 8) {out : List Byte} (hout : buildData z data = some out) :
    ¬ Decodable z out data := by
  intro hdec
  have hne : data ≠ [] := fun h => by
    rw [buildData, if_pos h] at hout
    cases hout
  obtain ⟨r, hr, hbuild⟩ := buildData_eq (z := z) hne (by omega)
  rw [hbuild] at hout
  cases hout
  have hlong := z.eight_le _ _ ((decodable_iff (by omega)).mp hdec).2
  have hroom : r.2.length ≤ data.length + data.length / 16 := by
    rw [hr]
    rcases hend : (z.deflate data (data.length + data.length / 16)).1 with _ | _
    · exact (z.cut _ _ hend).1.le
    · exact (z.fits _ _ hend).1
  omega

/-- **What is built can be decoded** exactly if the compressor came to an end and its stream is short enough for its
16-bit size; never if there are fewer than 8 bytes. -/
theorem buildData_iff (z : Zlib) (data : List Byte) (hne : data ≠ []) (hlen : data.length < 65536) :
    ((∃ out, buildData z data = some out ∧ Decodable z out data) ↔
      (z.deflate data (data.length + data.length / 16)).1 = true ∧
        (z.deflate data (data.length + data.length / 16)).2.length < 65536) ∧
    (data.length < 8 → ¬ ∃ out, buildData z data = some out ∧ Decodable z out data) := by
  refine ⟨?_, fun hsmall ⟨out, hout, hdec⟩ => not_decodable_of_short hsmall hout hdec⟩
  obtain ⟨r, hr, hbuild⟩ := buildData_eq (z := z) hne hlen
  have hout : (∃ out, buildData z data = some out ∧ Decodable z out data) ↔
      Decodable z (toLE 2 data.length ++ (toLE 2 r.2.length ++ r.2)) data := by
    rw [hbuild]
    simp only [Option.some.injEq, exists_eq_left']
  rw [hout, decodable_iff hlen, hr]
  constructor
  · rintro ⟨hshort, hinf⟩
    refine ⟨?_, hshort⟩
    rcases hend : (z.deflate data (data.length + data.length / 16)).1 with _ | _
    · -- a stream that is cut off is not complete
      obtain ⟨-, s, hs, hcut, hne⟩ := z.cut _ _ hend
      exact absurd (z.delimited _ _ _ _ hinf hs hcut) hne
    · rfl
  · rintro ⟨hend, hshort⟩
    exact ⟨hshort, (z.fits _ _ hend).2⟩

/-! ### A compressor -/

/-- Each byte behind a `1`, and a `0` at the end. -/
def literals (d : List Byte) : List Byte := d.flatMap (fun b => [1, b]) ++ [0]

theorem eq_of_prefix_literals : ∀ {d d' : List Byte}, literals d <+: literals d' → d = d'
  | [], [], _ => rfl
  | [], b :: d', h => absurd (List.cons_prefix_cons.mp h).1 (by decide)
  | b :: d, [], h => absurd (List.cons_prefix_cons.mp h).1 (by decide)
  | b :: d, b' :: d', h => by
    obtain ⟨-, h₁⟩ := List.cons_prefix_cons.mp h
    obtain ⟨rfl, h₂⟩ := List.cons_prefix_cons.mp h₁
    rw [eq_of_prefix_literals h₂]

/-- A stream for sixteen zero bytes that is shorter than they are, and one for anything else. -/
def toyStream (d : List Byte) : List Byte :=
  if d = List.replicate 16 0 then List.replicate 8 1 else List.replicate 7 0 ++ literals d

theorem eight_le_toyStream (d : List Byte) : 8 ≤ (toyStream d).length := by
  rw [toyStream]
  split_ifs
  · exact le_rfl
  · rw [literals, List.length_append, List.length_append, List.length_replicate, List.length_singleton]
    omega

theorem toyStream_delimited {d d' : List Byte} (h : toyStream d <+: toyStream d') : toyStream d = toyStream d' := by
  rw [toyStream, toyStream] at h ⊢
  split_ifs at h ⊢ with h₁ h₂ h₂
  · rfl
  · exact absurd (List.cons_prefix_cons.mp h).1 (by decide)
  · exact absurd (List.cons_prefix_cons.mp h).1 (by decide)
  · rw [eq_of_prefix_literals ((List.prefix_append_right_inj _).mp h)]

/-- A compressor with these streams. -/
def toyZlib : Zlib where
  deflate d k := if (toyStream d).length ≤ k then (true, toyStream d) else (false, (toyStream d).take k)
  Inflates s d := s = toyStream d
  fits d k h := by
    split_ifs at h ⊢ with hk
    exact ⟨hk, rfl⟩
  cut d k h := by
    split_ifs at h ⊢ with hk
    refine ⟨List.length_take_of_le (by omega), toyStream d, rfl, List.take_prefix _ _, fun he => hk ?_⟩
    rw [← he, List.length_take]
    omega
  eight_le s d h := h ▸ eight_le_toyStream d
  delimited s s' d d' h h' hp := by
    subst h h'
    exact toyStream_delimited hp

/-- Sixteen zero bytes are compressed and can be decoded. -/
theorem buildData_zeros : ∃ out, buildData toyZlib (List.replicate 16 0) = some out ∧
    Decodable toyZlib out (List.replicate 16 0) :=
  (buildData_iff toyZlib (List.replicate 16 0) (by decide) (by decide)).1.mpr (by decide)

/-- **One byte cannot be decoded**, whatever the compressor does: its stream has no room, and what fits is sent. -/
theorem one_byte_undecodable : buildData toyZlib [0] = some [1, 0, 1, 0, 0] ∧
    ¬ ∃ (z : Zlib) (out : List Byte), buildData z [0] = some out ∧ Decodable z out [0] := by
  refine ⟨by decide, ?_⟩
  rintro ⟨z, out, hout, hdec⟩
  exact not_decodable_of_short (by decide) hout hdec

/-! ### The tables of a configuration -/

/-- **Every table is built**: none is empty. -/
theorem initLadderInfo_returns (z : Zlib) (s : LadderData) (c : Config) : ∃ l, initLadderInfo z s c = some l := by
  have hbuild : ∀ data : List Byte, data ≠ [] → ∃ out, buildData z data = some out := fun _ h => ⟨_, if_neg h⟩
  have hurl : (s.load c).getUrlData ≠ [] := by
    rw [getUrlData, Ne, List.flatMap_eq_nil_iff]
    exact fun h => absurd (h 0 (List.mem_finRange 0)) (by simp [putStr])
  obtain ⟨u, hu⟩ := hbuild _ hurl
  obtain ⟨n, hn⟩ := hbuild (s.load c).getMapName (List.cons_ne_nil _ _)
  obtain ⟨i, hi⟩ := hbuild (s.load c).getMapInfo (by rw [getMapInfo_eq]; exact List.cons_ne_nil _ _)
  obtain ⟨d, hd⟩ := hbuild (s.load c).getMapDesc (by rw [getMapDesc_eq]; exact List.cons_ne_nil _ _)
  obtain ⟨l, hl⟩ := hbuild (s.load c).getLadderData (List.cons_ne_nil _ _)
  exact ⟨⟨u, n, i, d, l⟩, by rw [initLadderInfo, hu, hn, hi, hd, hl]; rfl⟩

theorem pageUrl_addMaps (s : LadderData) (calls : List (Text × UInt8)) : (s.addMaps calls).pageUrl = s.pageUrl := by
  refine List.foldlRecOn (motive := fun t : LadderData => t.pageUrl = s.pageUrl) _ _ rfl fun t ht c _ => ?_
  by_cases hfull : t.maplist.length ≥ 100
  · rw [addMap, if_pos hfull]
    exact ht
  · rw [addMap, if_neg hfull]
    exact ht

/-- Maps and ladders leave the addresses alone. -/
theorem pageUrl_load (s : LadderData) {c : Config} (hpages : c.pages = []) : (s.load c).pageUrl = s.pageUrl := by
  have hmaps : (c.mapsets.foldl loadMapset s).pageUrl = s.pageUrl := by
    refine List.foldlRecOn (motive := fun t : LadderData => t.pageUrl = s.pageUrl) _ _ rfl fun t ht m _ => ?_
    rw [loadMapset]
    split
    · exact ht
    · refine List.foldlRecOn (motive := fun t : LadderData => t.pageUrl = s.pageUrl) _ _ ht fun t ht c _ => ?_
      rw [loadMaps]
      split
      · exact ht
      · exact (pageUrl_addMaps _ _).trans ht
  rw [load, hpages, List.foldl_nil]
  refine List.foldlRecOn (motive := fun t : LadderData => t.pageUrl = s.pageUrl) _ _ hmaps fun t ht r _ => ?_
  rw [loadLadder]
  split
  · exact ht
  · exact ht

/-- **Without a page in the configuration the addresses cannot be decoded**: they are four empty strings. -/
theorem unpaged_undecodable (z : Zlib) (c : Config) (hpages : c.pages = []) {l : Packets.LadderInfo}
    (h : initLadderInfo z new c = some l) : ¬ Decodable z l.urlData (new.load c).getUrlData := by
  have hurls : (new.load c).getUrlData = [0, 0, 0, 0] := by
    rw [getUrlData, pageUrl_load new hpages]
    rfl
  obtain ⟨u, hu, h⟩ := Option.bind_eq_some_iff.mp h
  obtain ⟨n, -, h⟩ := Option.bind_eq_some_iff.mp h
  obtain ⟨i, -, h⟩ := Option.bind_eq_some_iff.mp h
  obtain ⟨d, -, h⟩ := Option.bind_eq_some_iff.mp h
  obtain ⟨a, -, h⟩ := Option.bind_eq_some_iff.mp h
  cases h
  exact not_decodable_of_short (by rw [hurls]; decide) hu

end Blitzd.Games
