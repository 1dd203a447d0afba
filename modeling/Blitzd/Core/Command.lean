import Blitzd.Lib.KeyMap
import Blitzd.Lib.Scan
import Blitzd.Utils.CString
import Blitzd.Utils.Stream

/-! # Chat commands (`Command::Process`)

A chat line that starts with `/` names a command and its arguments, separated by any number of spaces. `process` is
the code's own splitting, by positions in the line; a read or a cut outside of the line is `none`. `process_splits`
gives its meaning in terms of words: the handler of the first word is called once, with the rest of the line or with
the next word and what follows it, and no line makes the splitting read past its end (`process_eq`).

`sendChat` is the handler of the packet that carries the line (`sendChat_returns`). -/

namespace Blitzd.Core.Command

open Blitzd.Lib.Bytes Blitzd.Lib.KeyMap Blitzd.Lib.Scan Blitzd.Utils Blitzd.Utils.CString

/-! ### The registered commands -/

/-- The singletons of `COMMAND_HANDLER_BEGIN`. -/
inductive CommandHandler
  | commandFriend | commandWhisper | commandReply | commandChannels | commandDND | commandAway | commandStatus
  | commandJoin | commandWhoIs
deriving DecidableEq, Repr

/-- `IsSingle`: the handler takes the whole rest of the line as one argument. -/
def CommandHandler.isSingle : CommandHandler → Bool
  | .commandFriend | .commandWhisper => false
  | .commandReply | .commandChannels | .commandDND | .commandAway | .commandStatus | .commandJoin
  | .commandWhoIs => true

/-- `_cmd_map`. -/
abbrev CmdMap := List (Text × CommandHandler)

/-- `Register`. -/
def register (m : CmdMap) (cmd : Text) (ptr : CommandHandler) : CmdMap := insert KeyEq.ofEq m cmd ptr

/-- The calls of `Register` in the constructor. -/
def registered : List (String × CommandHandler) :=
  [("f", .commandFriend), ("friend", .commandFriend),
    ("w", .commandWhisper), ("whisper", .commandWhisper), ("m", .commandWhisper), ("msg", .commandWhisper),
    ("message", .commandWhisper),
    ("r", .commandReply), ("reply", .commandReply),
    ("channels", .commandChannels),
    ("dnd", .commandDND), ("away", .commandAway),
    ("status", .commandStatus), ("users", .commandStatus),
    ("channel", .commandJoin), ("join", .commandJoin),
    ("whois", .commandWhoIs), ("where", .commandWhoIs), ("whereis", .commandWhoIs)]

/-- `Command::Command`. -/
def cmdMap : CmdMap := registered.foldl (fun m c => register m (str c.1) c.2) []

/-! ### Splitting a line -/

/-- The byte `' '`. -/
def space : Byte := 32

/-- The byte `'/'`. -/
def slash : Byte := 47

/-- `it->second->Process(cl, arg1, argr)`. -/
structure Call where
  handler : CommandHandler
  arg1 : Text
  argr : Text
deriving DecidableEq

/-- `do { ++ pos; } while(pos < len && text[pos] == ' ')`. -/
def skipSpaces (text : Text) (pos : ℕ) : Option ℕ :=
  skipWhile (· = space) text (text.length + 1) (pos + 1)

/-- The arguments, after the first space at `pos`. -/
def arguments (single : Bool) (text : Text) (pos : ℕ) : Option (Text × Text) := do
  let len := text.length
  let pos ← skipSpaces text pos
  if pos < len then
    if single then
      let arg1 ← slice text pos len
      return (arg1, [])
    else
      match findFrom space text pos with
      | some posend =>
        let arg1 ← slice text pos posend
        let pos ← skipSpaces text posend
        if pos < len then
          let argr ← slice text pos len
          return (arg1, argr)
        else return (arg1, [])
      | none =>
        let arg1 ← slice text pos len
        return (arg1, [])
  else return ([], [])

/-- `Process`: the handlers it calls. -/
def process (m : CmdMap) (text : Text) : Option (List Call) := do
  let pos := findFrom space text 0
  let cmd ← match pos with
    | none => slice text 1 text.length
    | some pos => slice text 1 pos
  match find KeyEq.ofEq m (lower cmd) with
  | none => return []
  | some handler =>
    let args ← match pos with
      | none => some ([], [])
      | some pos => arguments handler.isSingle text pos
    return [⟨handler, args.1, args.2⟩]

/-! ### Words -/

/-- The characters before the first space. -/
def word (t : Text) : Text := t.takeWhile (· ≠ space)

/-- What follows them. -/
def pastWord (t : Text) : Text := t.dropWhile (· ≠ space)

/-- The text from its first character that is no space on. -/
def pastSpaces (t : Text) : Text := t.dropWhile (· = space)

/-- The arguments a handler is to get from what follows the command. -/
def meantArguments (single : Bool) (t : Text) : Text × Text :=
  if single then (pastSpaces t, [])
  else (word (pastSpaces t), pastSpaces (pastWord (pastSpaces t)))

variable {text rest t : Text} {pos : ℕ}

/-- A text with a space goes on with it behind its first word. -/
theorem pastWord_of_mem : ∀ {t : Text}, space ∈ t → ∃ r, pastWord t = space :: r
  | [], h => absurd h List.not_mem_nil
  | x :: t, h => by
    by_cases hx : x = space
    · subst hx
      exact ⟨t, List.dropWhile_cons_of_neg (by simp)⟩
    · obtain ⟨r, hr⟩ := pastWord_of_mem ((List.mem_cons.mp h).resolve_left (Ne.symm hx))
      refine ⟨r, ?_⟩
      rw [pastWord, List.dropWhile_cons_of_pos (by simpa using hx)]
      exact hr

theorem pastWord_of_not_mem (h : space ∉ t) : word t = t ∧ pastWord t = [] := by
  have hall : ∀ x ∈ t, decide (x ≠ space) = true := fun x hx => decide_eq_true fun e => h (e ▸ hx)
  exact ⟨List.takeWhile_eq_self_iff.mpr hall, List.dropWhile_eq_nil_iff.mpr hall⟩

/-- The loop that skips spaces, started at one. -/
theorem skipSpaces_at {r : Text} (h : At text pos (space :: r)) :
    ∃ q, skipSpaces text pos = some q ∧ At text q (pastSpaces r) := by
  refine ⟨_, At.skipWhile _ h.succ ?_, At.dropWhile _ h.succ⟩
  have := h.length
  rw [List.length_cons] at this
  omega

theorem arguments_at (single : Bool) {r : Text} (h : At text pos (space :: r)) :
    arguments single text pos = some (meantArguments single (space :: r)) := by
  obtain ⟨q, hq, hat⟩ := skipSpaces_at h
  have hskip : pastSpaces (space :: r) = pastSpaces r := List.dropWhile_cons_of_pos rfl
  rw [arguments, hq, meantArguments, hskip]
  dsimp only [Option.bind_eq_bind, Option.bind_some]
  by_cases hlt : q < text.length
  · rw [if_pos hlt]
    rcases single with _ | _
    · rw [if_neg Bool.false_ne_true, if_neg Bool.false_ne_true, hat.findFrom]
      by_cases hmem : space ∈ pastSpaces r
      · -- a second word, and what comes behind it
        obtain ⟨r', hr'⟩ := pastWord_of_mem hmem
        have hword : pastSpaces r = word (pastSpaces r) ++ (space :: r') := by
          rw [← hr', word, pastWord, List.takeWhile_append_dropWhile]
        have hat' : At text q (word (pastSpaces r) ++ (space :: r')) := hword ▸ hat
        obtain ⟨q', hq', hend⟩ := skipSpaces_at (At.add hat')
        have hpast : pastSpaces (pastWord (pastSpaces r)) = pastSpaces r' := by
          rw [hr']
          exact List.dropWhile_cons_of_pos rfl
        rw [if_pos hmem, ← word]
        dsimp only
        rw [hat'.slice, Option.bind_some, hq', Option.bind_some, hpast]
        by_cases hlt' : q' < text.length
        · rw [if_pos hlt', hend.slice_end]
          rfl
        · rw [if_neg hlt', not_not.mp (mt hend.lt_iff.mpr hlt')]
          rfl
      · obtain ⟨hword, hpast⟩ := pastWord_of_not_mem hmem
        rw [if_neg hmem, hat.slice_end, hword, hpast]
        rfl
    · rw [if_pos rfl, if_pos rfl, hat.slice_end]
      rfl
  · have hnil : pastSpaces r = [] := not_not.mp (mt hat.lt_iff.mpr hlt)
    rw [if_neg hlt, hnil]
    rcases single with _ | _ <;> rfl

/-- **What a line that starts with a slash does**: the splitting returns for every line. -/
theorem process_eq (m : CmdMap) (t : Text) : process m (slash :: t) =
    some ((find KeyEq.ofEq m (lower (word t))).toList.map fun h =>
      ⟨h, (meantArguments h.isSingle (pastWord t)).1, (meantArguments h.isSingle (pastWord t)).2⟩) := by
  have hat : At (slash :: t) 0 (slash :: t) := At.start _
  have hne : ¬ space = slash := by decide
  rw [process, hat.findFrom, List.takeWhile_cons_of_pos (by decide), ← word]
  by_cases hmem : space ∈ t
  · obtain ⟨r, hr⟩ := pastWord_of_mem hmem
    have hsplit : t = word t ++ (space :: r) := by
      rw [← hr, word, pastWord, List.takeWhile_append_dropWhile]
    have hat1 : At (slash :: t) 1 (word t ++ (space :: r)) := hsplit ▸ hat.succ
    have hpos : 0 + (slash :: word t).length = 1 + (word t).length := by
      rw [List.length_cons]
      omega
    rw [if_pos (List.mem_cons_of_mem _ hmem), hpos]
    dsimp only
    rw [hat1.slice, hr]
    dsimp only [Option.bind_eq_bind, Option.bind_some]
    rcases find KeyEq.ofEq m (lower (word t)) with _ | h
    · rfl
    · dsimp only
      rw [arguments_at _ hat1.add]
      rfl
  · obtain ⟨hword, hpast⟩ := pastWord_of_not_mem hmem
    have hcons : space ∉ slash :: t := by
      rw [List.mem_cons, not_or]
      exact ⟨hne, hmem⟩
    rw [if_neg hcons]
    dsimp only
    rw [hat.succ.slice_end, hword, hpast]
    dsimp only [Option.bind_eq_bind, Option.bind_some]
    rcases find KeyEq.ofEq m (lower t) with _ | h
    · rfl
    · rcases h with _ | _ <;> rfl

/-- **A command gets its arguments**: the handler of the first word, in whatever case, is called once, with the rest
of the line from its first character that is no space on, or with the next word and the rest behind it. -/
theorem process_splits (m : CmdMap) (t : Text) (h : CommandHandler)
    (hreg : find KeyEq.ofEq m (lower (word t)) = some h) : process m (slash :: t) = some [⟨h,
      if h.isSingle then pastSpaces (pastWord t) else word (pastSpaces (pastWord t)),
      if h.isSingle then [] else pastSpaces (pastWord (pastSpaces (pastWord t)))⟩] := by
  rw [process_eq, hreg, Option.toList_some, List.map_singleton, meantArguments]
  rcases h.isSingle with _ | _ <;> rfl

/-- Spaces in front of, between and behind the arguments of a friend command. -/
theorem process_splits_friend : find KeyEq.ofEq cmdMap (lower (word (str "F  add   bob  "))) = some .commandFriend ∧
    process cmdMap (slash :: str "F  add   bob  ") = some [⟨.commandFriend, str "add", str "bob  "⟩] :=
  ⟨by decide +kernel, process_splits cmdMap _ .commandFriend (by decide +kernel)⟩

/-! ### The chat packet -/

/-- What a chat line makes the server do. -/
inductive ChatAction
  | call (c : Call)
  | talk (text : Text)
deriving DecidableEq

/-- `SendChat::Process`: whether it succeeded, and what it did; `channel` says that the client is in one. -/
def sendChat (m : CmdMap) (channel : Bool) (inp : Stream) : Option (Bool × List ChatAction) :=
  let text := inp.readStr.1
  match text with
  | [] => some (false, [])
  | c :: _ =>
    if c = slash then do
      let calls ← process m text
      return (true, calls.map .call)
    else if !channel then some (false, [])
    else some (true, [.talk text])

/-- **A chat packet is never read past its end**, and at most one handler is called or one line said. -/
theorem sendChat_returns (m : CmdMap) (channel : Bool) (inp : Stream) :
    ∃ ok acts, sendChat m channel inp = some (ok, acts) ∧ acts.length ≤ 1 := by
  rcases ht : inp.readStr.1 with _ | ⟨c, t⟩
  · exact ⟨false, [], by rw [sendChat, ht], Nat.zero_le _⟩
  · rw [sendChat, ht]
    dsimp only
    by_cases hc : c = slash
    · subst hc
      rw [if_pos rfl, process_eq]
      refine ⟨_, _, rfl, ?_⟩
      rw [List.length_map, List.length_map, Option.length_toList]
      split_ifs <;> decide
    · rw [if_neg hc]
      rcases channel with _ | _
      · exact ⟨false, [], rfl, Nat.zero_le _⟩
      · exact ⟨true, [.talk (c :: t)], rfl, le_rfl⟩

end Blitzd.Core.Command
