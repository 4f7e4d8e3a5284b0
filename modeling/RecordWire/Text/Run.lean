import RecordWire.Text.Basic

/-!
Sets of code points that are given by their runs: the first and the last of each, in ascending
order.
-/

namespace RecordWire.CodePoint

/-- The number of runs that start at or before `n`. It lies between `lo` and `hi`, and each step
halves what lies between them. -/
def runsUpTo (runs : Array (Nat × Nat)) (n : Nat) : (fuel lo hi : Nat) → Nat
  | 0, lo, _ => lo
  | fuel + 1, lo, hi =>
    if lo < hi then
      let mid := (lo + hi) / 2
      match runs[mid]? with
      | some r => if r.1 ≤ n then runsUpTo runs n fuel (mid + 1) hi else runsUpTo runs n fuel lo mid
      | none => lo
    else lo

/-- Whether a code point lies in one of the runs, which is the last that starts at or before it. -/
def inRuns (runs : Array (Nat × Nat)) (c : CodePoint) : Bool :=
  match runs[runsUpTo runs c.val runs.size 0 runs.size - 1]? with
  | some r => r.1 ≤ c.val && c.val ≤ r.2
  | none => false

end RecordWire.CodePoint
