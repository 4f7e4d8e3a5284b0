import RecordWire.Sorting.Gallop

/-!
Merging two neighbouring runs. The shorter one is merged against the longer one: from the front if
the first run is the shorter, from the back otherwise, where both are taken reversed. The values of
the two are compared one by one until one run wins often enough in a row; from then on whole stretches
are taken by galloping, as long as that pays off. How often is often enough is the patience, which
galloping changes.

With an order in which incomparable values are equivalent the result is that of any stable merge. What
a merge does with other orders, such as one with a number that is none, follows from the way in which
it looks.
-/

namespace RecordWire.Sorting

variable {α : Type}

/-- A merge under way. The run `xs` is used up first; the merge is also over when one value of `ys`
is left, which then comes last. -/
structure Race (α : Type) where
  /-- What has been taken, the last value first. -/
  taken : List α := []
  xs : List α
  ys : List α
  patience : Nat

/-- A step of a merge: there is no result if an order is undefined, and a merge that is over stops
with its result and the patience for the next one. -/
abbrev Merging (α : Type) := ExceptT (List α × Nat) Option

/-- Two runs and how they are compared: whether a value of the first run goes before one of the
second. -/
structure Rule (α : Type) where
  fromBack : Bool
  xFirst? : α → α → Option Bool

namespace Race

def takeXs (r : Race α) (n : Nat) : Merging α (Race α) :=
  let taken := (r.xs.take n).reverse ++ r.taken
  match r.xs.drop n with
  | [] => throw (taken.reverse ++ r.ys, r.patience)
  | xs => pure { r with taken := taken, xs := xs }

def takeYs (r : Race α) (n : Nat) : Merging α (Race α) :=
  let taken := (r.ys.take n).reverse ++ r.taken
  match r.ys.drop n with
  | y :: z :: ys => pure { r with taken := taken, ys := y :: z :: ys }
  | ys => throw (taken.reverse ++ r.xs ++ ys, r.patience)

def xsBefore (rule : Rule α) (r : Race α) : Merging α Nat :=
  match r.ys with
  | [] => pure 0
  | y :: _ => (gallop? (fun x => rule.xFirst? x y) rule.fromBack r.xs : Option Nat)

def ysBefore (rule : Rule α) (r : Race α) : Merging α Nat :=
  match r.xs with
  | [] => pure 0
  | x :: _ => (gallop? (fun y => (rule.xFirst? x y).map (!·)) rule.fromBack r.ys : Option Nat)

/-- Takes the values one by one until one run has won often enough in a row. The numbers are those of
the values that were taken in a row. -/
def oneByOne (rule : Rule α) : (fuel xWins yWins : Nat) → Race α → Merging α (Race α)
  | 0, _, _, r => pure r
  | fuel + 1, xWins, yWins, r =>
    match r.xs, r.ys with
    | x :: _, y :: _ => do
      if ← (rule.xFirst? x y : Option Bool) then
        let r ← r.takeXs 1
        if xWins + 1 ≥ r.patience then return r
        oneByOne rule fuel (xWins + 1) 0 r
      else
        let r ← r.takeYs 1
        if yWins + 1 ≥ r.patience then return r
        oneByOne rule fuel 0 (yWins + 1) r
    | _, _ => pure r

/-- A stretch of each run that goes before the next value of the other, and that value. The numbers
are the lengths of the stretches. -/
def stretches (rule : Rule α) (r : Race α) : Merging α (Nat × Nat × Race α) := do
  if rule.fromBack then
    let m ← r.xsBefore rule
    let r ← (← r.takeXs m).takeYs 1
    let n ← r.ysBefore rule
    let r ← (← r.takeYs n).takeXs 1
    return (m, n, r)
  else
    let n ← r.ysBefore rule
    let r ← (← r.takeYs n).takeXs 1
    let m ← r.xsBefore rule
    let r ← (← r.takeXs m).takeYs 1
    return (m, n, r)

def leastStretch : Nat := 7

/-- Takes whole stretches as long as that pays off. The patience sinks with every further pair of
stretches and rises at the end. -/
def inStretches (rule : Rule α) : (fuel : Nat) → Race α → Merging α (Race α)
  | 0, r => pure r
  | fuel + 1, r => do
    let (m, n, r) ← r.stretches rule
    if leastStretch ≤ m ∨ leastStretch ≤ n then
      inStretches rule fuel { r with patience := max 1 (r.patience - 1) }
    else return { r with patience := r.patience + 1 }

def finish (rule : Rule α) : (fuel : Nat) → Race α → Merging α (Race α)
  | 0, r => pure r
  | fuel + 1, r => do
    let r ← r.oneByOne rule (r.xs.length + r.ys.length) 0 0
    let r ← r.inStretches rule (r.xs.length + r.ys.length)
    finish rule fuel r

/-- The merged values and the patience for the next merge. The first value of `xs` is known to come
first of all. -/
def result? (rule : Rule α) (r : Race α) : Option (List α × Nat) :=
  let merging : Merging α (Race α) := do
    let r ← (← r.takeXs 1).takeYs 0
    finish rule (r.xs.length + r.ys.length) r
  merging.run.map fun
    | .error result => result
    | .ok r => (r.taken.reverse ++ r.xs ++ r.ys, r.patience)

end Race

/-- Merges two runs that overlap from their first and to their last values. -/
def mergeOverlap? (before? : α → α → Option Bool) (patience : Nat) (as bs : List α) :
    Option (List α × Nat) :=
  if as.length ≤ bs.length then
    Race.result? ⟨false, before?⟩ { xs := bs, ys := as, patience := patience }
  else
    (Race.result? ⟨true, fun a b => before? b a⟩
      { xs := as.reverse, ys := bs.reverse, patience := patience }).map
        fun (merged, patience) => (merged.reverse, patience)

/-- Merges two neighbouring runs, and tells the patience for the next merge. What comes before the
whole second run or behind the whole first one stays where it is. -/
def merge? (before? : α → α → Option Bool) (patience : Nat) (as bs : List α) :
    Option (List α × Nat) :=
  match bs with
  | [] => some (as, patience)
  | b :: _ =>
    match gallop? (fun a => (before? b a).map (!·)) false as with
    | none => none
    | some start =>
      match (as.drop start).getLast? with
      | none => some (as ++ bs, patience)
      | some last =>
        match gallop? (fun b => (before? b last).map (!·)) true bs.reverse with
        | none => none
        | some behind =>
          let stop := bs.length - behind
          if stop = 0 then some (as ++ bs, patience)
          else
            (mergeOverlap? before? patience (as.drop start) (bs.take stop)).map
              fun (merged, patience) => (as.take start ++ merged ++ bs.drop stop, patience)

end RecordWire.Sorting
