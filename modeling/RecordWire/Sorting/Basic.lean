import RecordWire.Sorting.Merge
import RecordWire.Sorting.Run

/-!
Stable sorting by an order that may be undefined between some values: the list is cut into runs, and
neighbouring runs are merged. When a run is found, its border to the run before it gets a power: how
deep the border lies in the tree that halves the list again and again. Runs with a deeper border
between them are merged before.
-/

namespace RecordWire

variable {α : Type}

namespace Sorting

/-- A run that waits to be merged: its values, its place in the list, and the power of its border to
the run behind it. -/
structure Pending (α : Type) where
  items : List α
  start : Nat
  power : Nat := 0

/-- The power of the border between two runs: the first place at which the binary fractions of their
middles differ. The middles are given as doubled places. -/
def power (fuel first second total : Nat) : Nat :=
  match fuel with
  | 0 => 1
  | fuel + 1 =>
    if total ≤ first then power fuel (2 * (first - total)) (2 * (second - total)) total + 1
    else if total ≤ second then 1
    else power fuel (2 * first) (2 * second) total + 1

/-- The power of the border behind a run, before a run of a length. -/
def borderPower (run : Pending α) (next total : Nat) : Nat :=
  let first := 2 * run.start + run.items.length
  power (total + 64) first (first + run.items.length + next) total

/-- The runs that wait, the last one first, and the patience for the next merge. -/
structure Stack (α : Type) where
  runs : List (Pending α) := []
  patience : Nat := Race.leastStretch

/-- Two neighbouring runs merged into one, which keeps the power of the second. -/
def mergePending? (before? : α → α → Option Bool) (patience : Nat) (p q : Pending α) :
    Option (Pending α × Nat) :=
  (merge? before? patience p.items q.items).map fun (items, patience) =>
    (⟨items, p.start, q.power⟩, patience)

/-- Merges the last runs as long as the border between them is deeper than a power. -/
def collapse? (before? : α → α → Option Bool) (power : Nat) (patience : Nat) (last : Pending α) :
    List (Pending α) → Option (Stack α)
  | [] => some ⟨[{ last with power := power }], patience⟩
  | p :: runs =>
    if power < p.power then
      match mergePending? before? patience p last with
      | none => none
      | some (merged, patience) => collapse? before? power patience merged runs
    else some ⟨{ last with power := power } :: p :: runs, patience⟩

def push? (before? : α → α → Option Bool) (total : Nat) (stack : Stack α) (start : Nat)
    (items : List α) : Option (Stack α) :=
  match stack.runs with
  | [] => some { stack with runs := [⟨items, start, 0⟩] }
  | last :: runs =>
    match collapse? before? (borderPower last items.length total) stack.patience last runs with
    | none => none
    | some stack => some { stack with runs := ⟨items, start, 0⟩ :: stack.runs }

def pushAll? (before? : α → α → Option Bool) (least total : Nat) :
    (fuel start : Nat) → Stack α → List α → Option (Stack α)
  | 0, _, stack, _ => some stack
  | _, _, stack, [] => some stack
  | fuel + 1, start, stack, xs =>
    match firstRun? before? least xs with
    | none => none
    | some (run, rest) =>
      match push? before? total stack start run with
      | none => none
      | some stack => pushAll? before? least total fuel (start + run.length) stack rest

/-- Merges all runs, from the end of the list on. A run between two others is merged first with the
shorter one. -/
def mergeAll? (before? : α → α → Option Bool) :
    (fuel patience : Nat) → List (Pending α) → Option (List α)
  | _, _, [] => some []
  | 0, _, p :: _ => some p.items
  | _, _, [p] => some p.items
  | fuel + 1, patience, r :: q :: p :: runs =>
    if p.items.length < r.items.length then
      match mergePending? before? patience p q with
      | none => none
      | some (merged, patience) => mergeAll? before? fuel patience (r :: merged :: runs)
    else
      match mergePending? before? patience q r with
      | none => none
      | some (merged, patience) => mergeAll? before? fuel patience (merged :: p :: runs)
  | fuel + 1, patience, [r, q] =>
    match mergePending? before? patience q r with
    | none => none
    | some (merged, patience) => mergeAll? before? fuel patience [merged]

end Sorting

/-- The list in ascending order, values that neither comes before the other in the order given. -/
def sort? (before? : α → α → Option Bool) (xs : List α) : Option (List α) :=
  let total := xs.length
  match Sorting.pushAll? before? (Sorting.leastRun total) total total 0 {} xs with
  | none => none
  | some stack => Sorting.mergeAll? before? stack.runs.length stack.patience stack.runs

end RecordWire
