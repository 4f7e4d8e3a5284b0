/-!
Runs: stretches of a list that are already in order. A run is ascending, or strictly descending and
then turned around, so that values that neither comes before the other stay in the order given. A run
that is too short takes in the values after it one by one, each behind the last one that it does not
come before, which is found by halving. There is no result if an order that is asked for is
undefined.
-/

namespace RecordWire.Sorting

variable {α : Type}

theorem half_lt {sorted ys : List α} {y : α} (h : sorted = y :: ys) :
    sorted.length / 2 < sorted.length := by
  subst h
  rw [List.length_cons]
  omega

theorem length_take_half_lt {sorted ys : List α} {y : α} (h : sorted = y :: ys) :
    (sorted.take (sorted.length / 2)).length < (y :: ys).length := by
  have := half_lt h
  rw [← h, List.length_take]
  omega

theorem length_drop_half_lt {sorted ys : List α} {y : α} (h : sorted = y :: ys) :
    (sorted.drop (sorted.length / 2 + 1)).length < (y :: ys).length := by
  have := half_lt h
  rw [← h, List.length_drop]
  omega

/-- Puts a value into a sorted list, behind everything that it does not come before. -/
def insert? (before? : α → α → Option Bool) (x : α) (sorted : List α) : Option (List α) :=
  match h : sorted with
  | [] => some [x]
  | y :: ys =>
    let mid := sorted.length / 2
    have : mid < sorted.length := half_lt h
    match before? x sorted[mid] with
    | none => none
    | some true =>
      (insert? before? x (sorted.take mid)).map (· ++ sorted.drop mid)
    | some false =>
      (insert? before? x (sorted.drop (mid + 1))).map (sorted.take (mid + 1) ++ ·)
termination_by sorted.length
decreasing_by
  · exact length_take_half_lt h
  · exact length_drop_half_lt h

/-- The longest start of a list in which each value relates to the next as the flag says: it comes
after it if the flag is set, and does not come after it otherwise. -/
def takeRun? (before? : α → α → Option Bool) (descending : Bool) (last : α) :
    List α → Option (List α × List α)
  | [] => some ([], [])
  | y :: ys =>
    match before? y last with
    | none => none
    | some b =>
      if b = descending then (takeRun? before? descending y ys).map fun (r, s) => (y :: r, s)
      else some ([], y :: ys)

/-- The run that the list starts with in ascending order, and what follows it. -/
def naturalRun? (before? : α → α → Option Bool) : List α → Option (List α × List α)
  | [] => some ([], [])
  | [x] => some ([x], [])
  | x :: y :: ys =>
    match before? y x with
    | none => none
    | some descending =>
      (takeRun? before? descending y ys).map fun (r, s) =>
        (if descending then (x :: y :: r).reverse else x :: y :: r, s)

/-- The run that the list starts with, made to have a least length if there is that much. -/
def firstRun? (before? : α → α → Option Bool) (least : Nat) (xs : List α) :
    Option (List α × List α) :=
  match naturalRun? before? xs with
  | none => none
  | some (run, rest) =>
    let more := least - run.length
    ((rest.take more).foldlM (fun sorted x => insert? before? x sorted) run).map
      fun run => (run, rest.drop more)

/-- The least length of the runs of a list: the length of the list halved until it is below 64, and
one more if the halving left something over. -/
def leastRun (n : Nat) : Nat := halve n false
where
  halve (n : Nat) (odd : Bool) : Nat :=
    if 64 ≤ n then halve (n / 2) (odd || n % 2 == 1) else n + odd.toNat
  termination_by n

end RecordWire.Sorting
