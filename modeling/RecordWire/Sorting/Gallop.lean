/-!
Galloping: how many values at the start of a list have a property, found by looking one, three, seven
values ahead and so on, and then by halving. This is the length of the longest start whose values all
have the property, provided that none behind it has.
-/

namespace RecordWire.Sorting

variable {α : Type}

/-- The place where halving looks next, between the numbers of values that surely and possibly have
the property. From the front this is the middle one, from the back the one that would be the middle
one from the front. -/
def middle (fromBack : Bool) (low high : Nat) : Nat :=
  if fromBack then high - 1 - (high - low) / 2 else low + (high - low) / 2

/-- Looks ahead in growing steps: the first number is that of values that surely have the property,
the value at the second, if there is one, has it not. -/
def leap? (holds? : α → Option Bool) (xs : List α) (low high : Nat) : Option (Nat × Nat) :=
  match _h : xs[high]? with
  | none => some (low, xs.length)
  | some x =>
    match holds? x with
    | none => none
    | some false => some (low, high)
    | some true => leap? holds? xs (high + 1) (2 * high + 1)
termination_by xs.length - high
decreasing_by
  have := (List.getElem?_eq_some_iff.1 _h).1
  omega

/-- The number of values with the property, from surely and possibly so many on. -/
def halve? (holds? : α → Option Bool) (fromBack : Bool) (xs : List α) (low high : Nat) :
    Option Nat :=
  if _h : low < high then
    match xs[middle fromBack low high]? with
    | none => some low
    | some x =>
      match holds? x with
      | none => none
      | some true => halve? holds? fromBack xs (middle fromBack low high + 1) high
      | some false => halve? holds? fromBack xs low (middle fromBack low high)
  else some low
termination_by high - low
decreasing_by
  all_goals simp only [middle]
  all_goals split <;> omega

/-- The number of values at the start of a list that have a property. A list that is read from its
back is given reversed. -/
def gallop? (holds? : α → Option Bool) (fromBack : Bool) (xs : List α) : Option Nat :=
  match xs with
  | [] => some 0
  | x :: _ =>
    match holds? x with
    | none => none
    | some false => some 0
    | some true =>
      match leap? holds? xs 1 1 with
      | none => none
      | some (low, high) => halve? holds? fromBack xs low high

end RecordWire.Sorting
