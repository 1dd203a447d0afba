import Blitzd.Lib.Bytes
import Blitzd.Lib.Scan

/-! # The news (`NewsCache`)

`Load` reads the news file: what stands in front of the first `{{` is skipped, then a date up to `}}`, line ends, and
a body up to the next `{{`, without the line ends behind it, and so on. The file is scanned by a `uint` position whose
successor is compared with the length, and a scan that finds no pair stops in front of the last character. At the end
of the file that character belongs to the last body: it is kept only if a line end follows it (`load_iff`). -/

namespace Blitzd.Cache.NewsCache

open Blitzd.Lib.Bytes Blitzd.Lib.Scan

/-! ### Reading the file -/

/-- `i + 1` for the `uint i`. -/
def next (i : ℕ) : ℕ := (i + 1) % 2 ^ 32

def lbrace : Byte := 123

def rbrace : Byte := 125

/-- `'\r'` or `'\n'`. -/
def isNewline (b : Byte) : Bool := b = 13 || b = 10

/-- The second half of a pass of `Load`'s loop: the body at `start` is added, and the loop goes on with `more`. -/
def addBody (content : Text) (more : ℕ → Option (List (Text × Text))) (date : Text) (start : ℕ) :
    Option (List (Text × Text)) := do
  let len := content.length
  let i ← findPair next lbrace content (len + 1) start
  let stop ← trimBack isNewline content start i
  let body ← slice content start stop
  if next i < len then
    let calls ← more ((i + 2) % 2 ^ 32)
    return (date, body) :: calls
  else return [(date, body)]

/-- The loop of `Load`: the calls of `Add` from the position behind a `{{` on. -/
def loadLoop (content : Text) : ℕ → ℕ → Option (List (Text × Text))
  | 0, _ => none
  | n + 1, i => do
    let len := content.length
    if next i < len then
      let start := i
      let i ← findPair next rbrace content (len + 1) i
      if next i ≥ len then return []
      let date ← slice content start i
      let i ← skipWhile isNewline content (len + 1) ((i + 2) % 2 ^ 32)
      if i ≥ len then return []
      addBody content (loadLoop content n) date i
    else return []

/-- `Load` of the news file: its calls of `Add`. -/
def load (file : Text) : Option (List (Text × Text)) := do
  let size := file.length % 2 ^ 32
  let content := file.take size
  let i ← findPair next lbrace content (size + 1) 0
  loadLoop content (size + 1) (if next i < size then (i + 2) % 2 ^ 32 else i)

/-! ### The format -/

/-- An item of the file with the line ends around its body. -/
structure Article where
  date : Text
  lead : Text
  body : Text
  gap : Text
  date_ok : rbrace ∉ date
  lead_ok : ∀ x ∈ lead, isNewline x = true
  body_ne : body ≠ []
  body_ok : lbrace ∉ body
  head_ok : isNewline (body.head body_ne) = false
  last_ok : isNewline (body.getLast body_ne) = false
  gap_ok : ∀ x ∈ gap, isNewline x = true

/-- What is added for it. -/
def Article.item (a : Article) : Text × Text := (a.date, a.body)

/-- The text behind a `{{`, when `t` follows the article. -/
def Article.text (a : Article) (t : Text) : Text :=
  a.date ++ (rbrace :: rbrace :: (a.lead ++ (a.body ++ (a.gap ++ t))))

def articlesText : List Article → Text
  | [] => []
  | a :: as => lbrace :: lbrace :: a.text (articlesText as)

/-- A news file. -/
def newsText (preamble : Text) (as : List Article) : Text := preamble ++ articlesText as

/-- The line ends at the end of the file. -/
def lastGap : List Article → Text
  | [] => []
  | [a] => a.gap
  | _ :: as => lastGap as

/-! ### One article -/

variable {content : Text} {i n : ℕ}

theorem next_eq (hlen : content.length < 2 ^ 32) (i : ℕ) (hi : i < content.length) : next i = i + 1 :=
  Nat.mod_eq_of_lt (by omega)

/-- The position behind a pair. -/
theorem skip_pair {c : Byte} {u v : Text} (hlen : content.length < 2 ^ 32) (h : At content i (u ++ c :: c :: v)) :
    next (i + u.length) < content.length ∧ At content ((i + u.length + 2) % 2 ^ 32) v := by
  have h1 := (At.add h).succ
  have h2 := h1.succ
  have hlt := (At.add h).lt_iff.mpr (List.cons_ne_nil _ _)
  refine ⟨?_, ?_⟩
  · rw [next_eq hlen _ hlt]
    exact h1.lt_iff.mpr (List.cons_ne_nil _ _)
  · rw [Nat.mod_eq_of_lt (by have := h2.1; omega)]
    exact h2

/-- The position in front of the last character. -/
theorem at_last {u : Text} {x : Byte} (hlen : content.length < 2 ^ 32) (h : At content i (u ++ [x])) :
    ¬ next (i + u.length) < content.length := by
  rw [next_eq hlen _ ((At.add h).lt_iff.mpr (List.cons_ne_nil _ _))]
  exact fun hlt => (At.add h).succ.lt_iff.mp hlt rfl

/-- There is a next character unless the rest is at most one. -/
theorem next_lt {x y : Byte} {v : Text} (hlen : content.length < 2 ^ 32) (h : At content i (x :: y :: v)) :
    next i < content.length := by
  rw [next_eq hlen _ (h.lt_iff.mpr (List.cons_ne_nil _ _))]
  exact h.succ.lt_iff.mpr (List.cons_ne_nil _ _)

/-- Nothing left: nothing is added, or the position has wrapped around and is outside of the content. -/
theorem loadLoop_nil (h : At content i []) {calls : List (Text × Text)}
    (hc : loadLoop content n i = some calls) : calls = [] := by
  rcases n with _ | n
  · cases hc
  · have hget : content[i]? = none := h.get
    rw [loadLoop] at hc
    split_ifs at hc with hnext
    · rw [findPair, if_pos hnext, hget] at hc
      cases hc
    · exact (Option.some.inj hc).symm

theorem lt_passes {u v : Text} (h : At content i (u ++ v)) : u.length < content.length + 1 := by
  have := h.length
  rw [List.length_append] at this
  omega

/-- The file ends before the date does. -/
theorem loadLoop_cut_date (hlen : content.length < 2 ^ 32) {w : Text} {x : Byte} (h : At content i (w ++ [x]))
    (hw : rbrace ∉ w) : loadLoop content (n + 1) i = some [] := by
  rw [loadLoop]
  dsimp only
  split_ifs with hnext
  · rw [At.findPair_end (next_eq hlen) h hw (lt_passes h)]
    dsimp only [Option.bind_eq_bind, Option.bind_some]
    rw [if_pos (not_lt.mp (at_last hlen h))]
    rfl
  · rfl

/-- The loop has read a date and the line ends behind it. -/
theorem loadLoop_date (hlen : content.length < 2 ^ 32) {date lead s : Text} (hd : rbrace ∉ date)
    (hl : ∀ x ∈ lead, isNewline x = true) (hs : ∀ x ∈ s.head?, isNewline x = false)
    (h : At content i (date ++ rbrace :: rbrace :: (lead ++ s))) : ∃ k, At content k s ∧
      loadLoop content (n + 1) i =
        if s = [] then some [] else addBody content (loadLoop content n) date k := by
  obtain ⟨hnext, hk⟩ := skip_pair hlen h
  have hfirst : next i < content.length := by
    rcases date with _ | ⟨x, _ | ⟨y, d⟩⟩
    · exact hnext
    · exact next_lt hlen h
    · exact next_lt hlen h
  have hstop : (lead ++ s).takeWhile isNewline = lead := by
    rcases s with _ | ⟨x, s⟩
    · rw [List.append_nil, List.takeWhile_eq_self_iff.mpr hl]
    · have hx : ¬ isNewline x = true := by simp [hs x rfl]
      rw [List.takeWhile_append_of_pos hl, List.takeWhile_cons_of_neg hx, List.append_nil]
  have hat := At.add hk
  refine ⟨_, hat, ?_⟩
  rw [loadLoop]
  dsimp only
  rw [if_pos hfirst, At.findPair_found (next_eq hlen) h hd (lt_passes h)]
  dsimp only [Option.bind_eq_bind, Option.bind_some]
  rw [if_neg (not_le.mpr hnext), At.slice h, Option.bind_some, At.skipWhile _ hk, hstop, Option.bind_some]
  · by_cases hnil : s = []
    · rw [if_pos hnil, if_pos (not_lt.mp fun hlt => hat.lt_iff.mp hlt hnil)]
      rfl
    · rw [if_neg hnil, if_neg (not_le.mpr (hat.lt_iff.mpr hnil))]
  · have := hk.length
    omega

variable {more : ℕ → Option (List (Text × Text))} {date : Text}

/-- The last body: the character in front of which the scan stopped is lost. -/
theorem addBody_end (hlen : content.length < 2 ^ 32) {w : Text} {x : Byte} (h : At content i (w ++ [x]))
    (hw : lbrace ∉ w) : addBody content more date i = some [(date, w.rdropWhile isNewline)] := by
  rw [addBody, At.findPair_end (next_eq hlen) h hw (lt_passes h)]
  dsimp only [Option.bind_eq_bind, Option.bind_some]
  obtain ⟨v, hv⟩ := w.rdropWhile_prefix isNewline
  have hcut : At content i (w.rdropWhile isNewline ++ (v ++ [x])) := by rwa [← List.append_assoc, hv]
  rw [At.trimBack _ w h, Option.bind_some, hcut.slice, Option.bind_some, if_neg (at_last hlen h)]
  rfl

/-- A body in front of another article. -/
theorem addBody_more (more : ℕ → Option (List (Text × Text))) (date : Text) (hlen : content.length < 2 ^ 32)
    {u v : Text} (h : At content i (u ++ lbrace :: lbrace :: v))
    (hu : lbrace ∉ u) : ∃ k, At content k v ∧
      addBody content more date i = (more k).map ((date, u.rdropWhile isNewline) :: ·) := by
  obtain ⟨hnext, hk⟩ := skip_pair hlen h
  refine ⟨_, hk, ?_⟩
  rw [addBody, At.findPair_found (next_eq hlen) h hu (lt_passes h)]
  dsimp only [Option.bind_eq_bind, Option.bind_some]
  obtain ⟨w, hw⟩ := u.rdropWhile_prefix isNewline
  have hcut : At content i (u.rdropWhile isNewline ++ (w ++ lbrace :: lbrace :: v)) := by
    rwa [← List.append_assoc, hw]
  rw [At.trimBack _ u h, Option.bind_some, hcut.slice, Option.bind_some, if_pos hnext]
  rcases more ((i + u.length + 2) % 2 ^ 32) with _ | calls <;> rfl

/-! ### A file that is cut off -/

namespace Article

variable (a : Article)

theorem length_text (t : Text) : (a.text t).length =
    a.date.length + 2 + a.lead.length + a.body.length + a.gap.length + t.length := by
  simp only [text, List.length_append, List.length_cons]
  omega

theorem trim_body : a.body.rdropWhile isNewline = a.body :=
  List.rdropWhile_eq_self_iff.mpr fun _ => by simp [a.last_ok]

theorem trim_gap {g : Text} (hg : ∀ x ∈ g, isNewline x = true) : (a.body ++ g).rdropWhile isNewline = a.body := by
  induction g using List.reverseRecOn with
  | nil => rw [List.append_nil, a.trim_body]
  | append_singleton g x ih =>
    rw [← List.append_assoc, List.rdropWhile_concat_pos _ _ _ (hg x (by simp))]
    exact ih fun y hy => hg y (by simp [hy])

theorem lbrace_not_mem_gap : lbrace ∉ a.gap := fun h => absurd (a.gap_ok _ h) (by decide)

/-- The gap and what is in front of it, in a file that ends in the gap or behind it. -/
theorem gap_of_prefix {w : Text} (hw : w <+: a.gap) :
    lbrace ∉ a.body ++ w ∧ (a.body ++ w).rdropWhile isNewline = a.body := by
  refine ⟨?_, a.trim_gap fun x hx => a.gap_ok x (hw.subset hx)⟩
  rw [List.mem_append, not_or]
  exact ⟨a.body_ok, fun h => a.lbrace_not_mem_gap (hw.subset h)⟩

end Article

theorem lastGap_cons_cons (a b : Article) (as : List Article) : lastGap (a :: b :: as) = lastGap (b :: as) := rfl

/-- The first body ends in front of the last gap. -/
theorem length_lastGap : ∀ (as : List Article) (a : Article), a.date.length + 2 + a.lead.length + a.body.length +
    (lastGap (a :: as)).length ≤ (a.text (articlesText as)).length
  | [], a => by
    rw [a.length_text, lastGap]
    omega
  | b :: as, a => by
    have ih := length_lastGap as b
    rw [a.length_text, lastGap_cons_cons, articlesText, List.length_cons, List.length_cons]
    omega

/-- The number of characters from the body of `a` to the last one. -/
theorem length_body_lastGap (as : List Article) (a : Article) :
    a.body.length + (lastGap (a :: as)).length ≤ (a.body ++ (a.gap ++ articlesText as)).length := by
  have := length_lastGap as a
  rw [a.length_text] at this
  simp only [List.length_append]
  omega

/-- The file ends in the body, which loses a character. -/
theorem addBody_cut_body (hlen : content.length < 2 ^ 32) (a : Article) {s : Text} (hs : s <+: a.body)
    (hat : At content i s) (hne : s ≠ []) (as : List Article) :
    addBody content more a.date i ≠ some ((a :: as).map Article.item) := by
  obtain ⟨w, x, rfl⟩ := (List.eq_nil_or_concat s).resolve_left hne
  rw [List.concat_eq_append] at hat hs
  have hle := hs.length_le
  have hw : lbrace ∉ w := fun h => a.body_ok (hs.subset (List.mem_append_left _ h))
  rw [addBody_end hlen hat hw]
  intro h
  have hbody : w.rdropWhile isNewline = a.body := congrArg Prod.snd (List.cons.inj (Option.some.inj h)).1
  have := (w.rdropWhile_prefix isNewline).length_le
  rw [List.length_append, List.length_singleton] at hle
  rw [hbody] at this
  omega

/-- The file ends in the gap or one character behind it: the body is whole and the last one. -/
theorem addBody_cut_gap (hlen : content.length < 2 ^ 32) (a : Article) {w : Text} {x : Byte} (hw : w <+: a.gap)
    (hat : At content i (a.body ++ (w ++ [x]))) : addBody content more a.date i = some [a.item] := by
  obtain ⟨hbrace, htrim⟩ := a.gap_of_prefix hw
  rw [addBody_end (w := a.body ++ w) hlen (by rwa [List.append_assoc]) hbrace, htrim]
  rfl

/-- Another article begins. -/
theorem addBody_next (more : ℕ → Option (List (Text × Text))) (hlen : content.length < 2 ^ 32) (a : Article) {l : Text}
    (hat : At content i (a.body ++ (a.gap ++ [lbrace] ++ lbrace :: l))) :
    ∃ k, At content k l ∧
      ∀ items, addBody content more a.date i = some (a.item :: items) ↔ more k = some items := by
  obtain ⟨hbrace, htrim⟩ := a.gap_of_prefix List.prefix_rfl
  have hat' : At content i ((a.body ++ a.gap) ++ lbrace :: lbrace :: l) := by
    simpa only [List.append_assoc, List.singleton_append] using hat
  obtain ⟨k, hk, hadd⟩ := addBody_more more a.date hlen hat' hbrace
  refine ⟨k, hk, fun items => ?_⟩
  rw [hadd, htrim, Option.map_eq_some_iff]
  constructor
  · rintro ⟨calls, hc, he⟩
    rw [hc, (List.cons.inj he).2]
  · exact fun hc => ⟨_, hc, rfl⟩

/-- A body in a file that may be cut off, when the loop does as it should with what follows. -/
theorem addBody_iff (hlen : content.length < 2 ^ 32) (as : List Article) (a : Article) {s : Text}
    (hs : s <+: a.body ++ (a.gap ++ articlesText as)) (hat : At content i s) (hne : s ≠ [])
    (hmore : ∀ b bs, as = b :: bs → ∀ {k l}, l <+: b.text (articlesText bs) → At content k l →
      l.length < s.length → (more k = some (as.map Article.item) ↔
        (b.text (articlesText bs)).length < l.length + (lastGap as).length)) :
    addBody content more a.date i = some ((a :: as).map Article.item) ↔
      (a.body ++ (a.gap ++ articlesText as)).length < s.length + (lastGap (a :: as)).length := by
  have hgap := length_body_lastGap as a
  rcases prefix_append_cases hs with hcut | ⟨y, r, rfl, hr⟩
  · have hle := hcut.length_le
    exact iff_of_false (addBody_cut_body hlen a hcut hat hne as) (by omega)
  · rcases as with _ | ⟨b, bs⟩
    · -- the last article, cut off in its gap
      rw [articlesText, List.append_nil] at hr
      obtain ⟨w, x, hw⟩ := (List.eq_nil_or_concat (y :: r)).resolve_left (List.cons_ne_nil _ _)
      rw [List.concat_eq_append] at hw
      rw [hw] at hat hr ⊢
      refine iff_of_true (addBody_cut_gap hlen a ((List.prefix_append w [x]).trans hr) hat) ?_
      simp only [articlesText, lastGap, List.length_append, List.length_nil, List.length_singleton]
      omega
    · rw [articlesText, show a.gap ++ lbrace :: lbrace :: b.text (articlesText bs) =
        (a.gap ++ [lbrace]) ++ lbrace :: b.text (articlesText bs) by rw [List.append_assoc]; rfl] at hr
      rcases prefix_append_cases hr with hcut | ⟨z, l, hyr, hl⟩
      · -- the file ends before the next article begins
        obtain ⟨w, x, hwx, hw⟩ := exists_concat_of_prefix hcut (List.cons_ne_nil _ _)
        rw [hwx] at hat ⊢
        rw [addBody_cut_gap hlen a hw hat]
        refine iff_of_false (fun h => ?_) (fun h => ?_)
        · cases (List.cons.inj (Option.some.inj h)).2
        · have hlong := length_lastGap bs b
          have hle := hcut.length_le
          rw [hwx] at hle
          simp only [articlesText, lastGap_cons_cons, List.length_append, List.length_cons, List.length_nil] at *
          omega
      · obtain ⟨rfl, hl'⟩ := List.cons_prefix_cons.mp hl
        rw [hyr] at hat hmore ⊢
        obtain ⟨k, hk, hadd⟩ := addBody_next more hlen a hat
        have hlt : l.length < (a.body ++ (a.gap ++ [lbrace] ++ lbrace :: l)).length := by
          simp only [List.length_append, List.length_cons]
          omega
        rw [List.map_cons, hadd, hmore b bs rfl hl' hk hlt]
        simp only [articlesText, lastGap_cons_cons, List.length_append, List.length_cons, List.length_nil]
        omega

/-- The file ends in the date: nothing is added. -/
theorem loadLoop_ne_of_cut_date (hlen : content.length < 2 ^ 32) (a : Article) {l : Text} (hl : l <+: a.date ++ [rbrace])
    (hat : At content i l) (items : List (Text × Text)) : loadLoop content (n + 1) i ≠ some (a.item :: items) := by
  intro h
  rcases eq_or_ne l [] with rfl | hne
  · exact absurd (loadLoop_nil hat h) (List.cons_ne_nil _ _)
  · obtain ⟨w, x, rfl, hw⟩ := exists_concat_of_prefix hl hne
    rw [loadLoop_cut_date hlen hat fun hmem => a.date_ok (hw.subset hmem)] at h
    cases h

/-- A body begins with no line end, as far as the file has it. -/
theorem Article.head_of_prefix (a : Article) {s t : Text} (hs : s <+: a.body ++ t) :
    ∀ x ∈ s.head?, isNewline x = false := by
  obtain ⟨z, b, hb⟩ := List.exists_cons_of_ne_nil a.body_ne
  have hz := a.head_ok
  simp only [hb, List.head_cons] at hz
  rw [hb] at hs
  rcases s with _ | ⟨y, s⟩
  · rintro x ⟨⟩
  · rintro x ⟨rfl⟩
    rwa [(List.cons_prefix_cons.mp hs).1]

/-- **The loop on a file that may be cut off**: it adds the articles exactly if the file goes on behind the last
body. -/
theorem loadLoop_iff (hlen : content.length < 2 ^ 32) : ∀ (as : List Article) (a : Article) {n i : ℕ} {l : Text},
    l <+: a.text (articlesText as) → At content i l → l.length < n →
    (loadLoop content n i = some ((a :: as).map Article.item) ↔
      (a.text (articlesText as)).length < l.length + (lastGap (a :: as)).length)
  | _, _, 0, _, _, _, _, hn => absurd hn (Nat.not_lt_zero _)
  | as, a, n + 1, i, l, hl, hat, hn => by
    have hgap := length_lastGap as a
    have htext : a.text (articlesText as) =
        (a.date ++ [rbrace]) ++ rbrace :: (a.lead ++ (a.body ++ (a.gap ++ articlesText as))) := by
      rw [Article.text, List.append_assoc]
      rfl
    rw [htext] at hl
    rcases prefix_append_cases hl with hcut | ⟨x, l₁, rfl, hl₁⟩
    · -- the file ends in the date
      refine iff_of_false (loadLoop_ne_of_cut_date hlen a hcut hat _) (fun h => ?_)
      have := hcut.length_le
      rw [List.length_append, List.length_singleton] at this
      omega
    · obtain ⟨rfl, hl₂⟩ := List.cons_prefix_cons.mp hl₁
      rw [List.append_assoc] at hat
      rcases prefix_append_cases hl₂ with hcut | ⟨y, s, rfl, hs⟩
      · -- in the line ends behind it
        obtain ⟨k, -, hload⟩ := loadLoop_date (n := n) (s := []) hlen a.date_ok
          (fun x hx => a.lead_ok x (hcut.subset hx)) (by simp) (by rwa [List.append_nil])
        rw [hload, if_pos rfl]
        refine iff_of_false (fun h => ?_) (fun h => ?_)
        · cases h
        · have := hcut.length_le
          simp only [List.length_append, List.length_cons, List.length_nil] at h
          omega
      · obtain ⟨k, hk, hload⟩ := loadLoop_date (n := n) hlen a.date_ok a.lead_ok (a.head_of_prefix hs) hat
        simp only [List.length_append, List.length_cons, List.length_nil] at hn
        rw [hload, if_neg (List.cons_ne_nil _ _), addBody_iff hlen as a hs hk (List.cons_ne_nil _ _)]
        · simp only [a.length_text, List.length_append, List.length_cons, List.length_nil]
          omega
        · rintro b bs rfl k l hl hk hlt
          rw [List.length_cons] at hlt
          exact loadLoop_iff hlen bs b hl hk (by omega)

/-! ### The whole file -/

/-- What `Load` makes of the file, from the first pair on. -/
theorem load_eq {file content : Text} (hc : content = file.take (file.length % 2 ^ 32)) :
    content.length < 2 ^ 32 ∧ content.length = file.length % 2 ^ 32 ∧
    load file = (findPair next lbrace content (content.length + 1) 0).bind fun i =>
      loadLoop content (content.length + 1) (if next i < content.length then (i + 2) % 2 ^ 32 else i) := by
  have hsize : content.length = file.length % 2 ^ 32 := by
    rw [hc, List.length_take_of_le (Nat.mod_le _ _)]
  refine ⟨hsize ▸ Nat.mod_lt _ (by decide), hsize, ?_⟩
  rw [hsize, load, ← hc]
  rfl

/-- No pair of braces in what is read: nothing is added. -/
theorem load_no_pair {file content preamble : Text} (hc : content = file.take (file.length % 2 ^ 32))
    (hpre : lbrace ∉ preamble) (hcut : content <+: preamble ++ [lbrace]) : load file = some [] := by
  obtain ⟨hlen, -, hload⟩ := load_eq hc
  rw [hload]
  obtain ⟨i, hi, hstop⟩ : ∃ i, findPair next lbrace content (content.length + 1) 0 = some i ∧
      ¬ next i < content.length := by
    rcases eq_or_ne content [] with hnil | hne
    · rw [hnil]
      exact ⟨0, rfl, Nat.not_lt_zero _⟩
    · obtain ⟨w, x, hwx, hw⟩ := exists_concat_of_prefix hcut hne
      have hat : At content 0 (w ++ [x]) := hwx ▸ At.start content
      have hnot : lbrace ∉ w := fun h => hpre (hw.subset h)
      exact ⟨_, At.findPair_end (next_eq hlen) hat hnot (lt_passes hat), at_last hlen hat⟩
  rw [hi, Option.bind_some, if_neg hstop, loadLoop]
  dsimp only
  rw [if_neg hstop]
  rfl

/-- **The parser inverts the format** exactly if there is nothing to add or the file, as far as it is read, goes on
behind the last body. -/
theorem load_iff (preamble : Text) (as : List Article) (hpre : lbrace ∉ preamble) :
    load (newsText preamble as) = some (as.map Article.item) ↔
      as = [] ∨ (newsText preamble as).length <
        (newsText preamble as).length % 2 ^ 32 + (lastGap as).length := by
  obtain ⟨content, hc⟩ : ∃ content, content =
      (newsText preamble as).take ((newsText preamble as).length % 2 ^ 32) := ⟨_, rfl⟩
  obtain ⟨hlen, hsize, hload⟩ := load_eq hc
  have hread : content <+: newsText preamble as := hc ▸ List.take_prefix _ _
  rcases as with _ | ⟨a, as⟩
  · refine iff_of_true ?_ (.inl rfl)
    rw [newsText, articlesText, List.append_nil] at hread
    exact load_no_pair hc hpre (hread.trans (List.prefix_append _ _))
  · rw [or_iff_right (List.cons_ne_nil _ _), ← hsize]
    have htext : newsText preamble (a :: as) = (preamble ++ [lbrace]) ++ lbrace :: a.text (articlesText as) := by
      rw [newsText, articlesText, List.append_assoc]
      rfl
    have htotal : (newsText preamble (a :: as)).length =
        preamble.length + 2 + (a.text (articlesText as)).length := by
      rw [htext]
      simp only [List.length_append, List.length_cons, List.length_nil]
      omega
    rw [htext] at hread
    rcases prefix_append_cases hread with hcut | ⟨x, l, hl, hx⟩
    · rw [load_no_pair hc hpre hcut]
      refine iff_of_false (fun h => by cases h) (fun h => ?_)
      have hgap := length_lastGap as a
      have hle := hcut.length_le
      rw [List.length_append, List.length_singleton] at hle
      omega
    · obtain ⟨rfl, hl'⟩ := List.cons_prefix_cons.mp hx
      rw [hload]
      have hat : At content 0 (preamble ++ lbrace :: lbrace :: l) := by
        rw [List.append_assoc] at hl
        exact hl ▸ At.start content
      obtain ⟨hnext, hk⟩ := skip_pair hlen hat
      rw [At.findPair_found (next_eq hlen) hat hpre (lt_passes hat), Option.bind_some, if_pos hnext,
        loadLoop_iff hlen as a hl' hk (by have := hk.length; omega), htotal, ← hat.length]
      simp only [List.length_append, List.length_cons]
      omega

/-- The article of the file that comes with the server, with these line ends behind it. -/
def newYear (gap : Text) (hgap : ∀ x ∈ gap, isNewline x = true) : Article where
  date := str "2009-01-01 00:00:00"
  lead := [10]
  body := str "Happy New Year!"
  gap := gap
  date_ok := by decide
  lead_ok := List.forall_mem_singleton.mpr rfl
  body_ne := by decide
  body_ok := by decide
  head_ok := by decide
  last_ok := by decide
  gap_ok := hgap

/-- With a line end behind it, the article is added. -/
theorem load_new_year : load (newsText [] [newYear [10] (List.forall_mem_singleton.mpr rfl)]) =
    some [(str "2009-01-01 00:00:00", str "Happy New Year!")] :=
  (load_iff [] [newYear [10] (List.forall_mem_singleton.mpr rfl)] List.not_mem_nil).mpr (.inr (by decide +kernel))

/-- **Without a line end at the end of the file, the last character is lost.** -/
theorem load_loses_last : load (newsText [] [newYear [] (List.forall_mem_nil _)]) =
    some [(str "2009-01-01 00:00:00", str "Happy New Year")] := by
  decide +kernel

end Blitzd.Cache.NewsCache
