import Mathlib.Algebra.Group.Nat.Defs

/-! The helper of `Misc.cpp`. Numbers are `uint32_t` values. -/

namespace CommonLib.Utils

def nextPwrOf2 (n : ℕ) : ℕ :=
  if n ≤ 1 then 1
  else
    let n := n - 1
    let n := n ||| n >>> 1
    let n := n ||| n >>> 2
    let n := n ||| n >>> 4
    let n := n ||| n >>> 8
    let n := n ||| n >>> 16
    (n + 1) % 2 ^ 32

end CommonLib.Utils
