import RecordWire.Proofs.Sorting.Run
import RecordWire.Sorting.Basic

/-!
Sorting looks at nothing but the order: values that are compared by what they stand for are sorted
as that is, whichever order it has. No rank is needed for this, so it also holds for an order that
is undefined between some values, or is none.
-/

namespace RecordWire

variable {α β γ δ : Type} {f : α → β}

namespace Sorting

section

variable (f) (holds? : β → Option Bool) (xs : List α)

theorem leap?_map (low high : Nat) :
    leap? holds? (xs.map f) low high = leap? (fun x => holds? (f x)) xs low high := by
  fun_induction leap? (fun x => holds? (f x)) xs low high with
  | case1 low high hx =>
    rw [leap?]
    split <;> simp_all
  | case2 low high x hx hh | case3 low high x hx hh | case4 low high x hx hh =>
    rw [leap?]
    split <;> simp_all

theorem halve?_map (fromBack : Bool) (low high : Nat) :
    halve? holds? fromBack (xs.map f) low high =
      halve? (fun x => holds? (f x)) fromBack xs low high := by
  fun_induction halve? (fun x => holds? (f x)) fromBack xs low high with
  | case1 low high hlt hx =>
    rw [halve?]
    simp [hlt, hx]
  | case2 low high hlt x hx hh =>
    rw [halve?]
    simp [hlt, hx, hh]
  | case3 low high hlt x hx hh ih | case4 low high hlt x hx hh ih =>
    rw [halve?]
    simp [hlt, hx, hh, ih]
  | case5 low high hlt =>
    rw [halve?, dif_neg hlt]

theorem gallop?_map (fromBack : Bool) :
    gallop? holds? fromBack (xs.map f) = gallop? (fun x => holds? (f x)) fromBack xs := by
  cases xs with
  | nil => rfl
  | cons x xs =>
    have hleap := leap?_map f holds? (x :: xs) 1 1
    have hhalve := halve?_map f holds? (x :: xs) fromBack
    rw [List.map_cons] at hleap hhalve ⊢
    simp only [gallop?, hleap, hhalve]

end

section

variable (f) (before? : β → β → Option Bool)

theorem insert?_map (x : α) (sorted : List α) :
    insert? before? (f x) (sorted.map f) =
      (insert? (fun a b => before? (f a) (f b)) x sorted).map (List.map f) := by
  induction hn : sorted.length using Nat.strongRecOn generalizing sorted with
  | ind n ih =>
    subst hn
    by_cases hs : sorted = []
    · subst hs
      simp [insert?]
    · have hpos := List.length_pos_iff.2 hs
      have htake := ih _ (by rw [List.length_take]; omega) (sorted.take (sorted.length / 2)) rfl
      have hdrop := ih _ (by rw [List.length_drop]; omega) (sorted.drop (sorted.length / 2 + 1)) rfl
      rw [insert?_of_ne_nil (by simpa using hs), insert?_of_ne_nil hs]
      simp only [List.length_map, List.getElem?_map, ← List.map_take, ← List.map_drop, htake,
        hdrop, Option.bind_map, Function.comp_def]
      cases (sorted[sorted.length / 2]?).bind fun y => before? (f x) (f y) with
      | none => rfl
      | some b => cases b <;> simp [Function.comp_def]

theorem foldlM_insert?_map (xs sorted : List α) :
    (xs.map f).foldlM (fun sorted x => insert? before? x sorted) (sorted.map f) =
      (xs.foldlM (fun sorted x => insert? (fun a b => before? (f a) (f b)) x sorted) sorted).map
        (List.map f) := by
  induction xs generalizing sorted with
  | nil => rfl
  | cons x xs ih =>
    rw [List.map_cons, List.foldlM_cons, List.foldlM_cons, insert?_map]
    cases insert? (fun a b => before? (f a) (f b)) x sorted with
    | none => rfl
    | some sorted => exact ih sorted

theorem takeRun?_map (descending : Bool) (last : α) (xs : List α) :
    takeRun? before? descending (f last) (xs.map f) =
      (takeRun? (fun a b => before? (f a) (f b)) descending last xs).map
        (Prod.map (List.map f) (List.map f)) := by
  induction xs generalizing last with
  | nil => rfl
  | cons y ys ih =>
    simp only [List.map_cons, takeRun?, ih]
    cases before? (f y) (f last) with
    | none => rfl
    | some b =>
      by_cases hb : b = descending
      · simp [hb, Function.comp_def]
      · simp [hb]

theorem naturalRun?_map (xs : List α) :
    naturalRun? before? (xs.map f) =
      (naturalRun? (fun a b => before? (f a) (f b)) xs).map
        (Prod.map (List.map f) (List.map f)) := by
  match xs with
  | [] => rfl
  | [x] => rfl
  | x :: y :: ys =>
    simp only [List.map_cons, naturalRun?, takeRun?_map]
    cases before? (f y) (f x) with
    | none => rfl
    | some b => cases b <;> simp [Function.comp_def]

theorem firstRun?_map (least : Nat) (xs : List α) :
    firstRun? before? least (xs.map f) =
      (firstRun? (fun a b => before? (f a) (f b)) least xs).map
        (Prod.map (List.map f) (List.map f)) := by
  rw [firstRun?, firstRun?, naturalRun?_map]
  cases naturalRun? (fun a b => before? (f a) (f b)) xs with
  | none => rfl
  | some p =>
    obtain ⟨run, rest⟩ := p
    simp only [Option.map_some, Prod.map, List.length_map, ← List.map_take, ← List.map_drop,
      foldlM_insert?_map, Option.map_map, Function.comp_def]

end

/-- What becomes of a step of a merge when its values are taken elsewhere: of what it goes on with,
and of the list that it ends with. -/
def Merging.Carries (f : α → β) (g : γ → δ) (m : Merging α γ) (m' : Merging β δ) : Prop :=
  m'.run = m.run.map fun
    | .ok x => .ok (g x)
    | .error (zs, n) => .error (zs.map f, n)

namespace Merging

variable {g : γ → δ}

theorem carries_pure (x : γ) : Carries f g (pure x) (pure (g x)) := rfl

theorem carries_throw (zs : List α) (n : Nat) :
    Carries f g (throw (zs, n)) (throw (zs.map f, n)) := rfl

theorem carries_lift (o : Option γ) : Carries f id (o : Merging α γ) (o : Merging β γ) := by
  cases o <;> rfl

theorem Carries.bind {γ' δ' : Type} {g' : γ' → δ'} {m : Merging α γ} {m' : Merging β δ}
    {k : γ → Merging α γ'} {k' : δ → Merging β δ'} (hm : Carries f g m m')
    (hk : ∀ x, Carries f g' (k x) (k' (g x))) : Carries f g' (m >>= k) (m' >>= k') := by
  rw [Carries, ExceptT.run_bind, ExceptT.run_bind, hm]
  match hr : m.run with
  | none => rfl
  | some (.ok x) => exact hk x
  | some (.error (zs, n)) => rfl

end Merging

open Merging

def Race.map (f : α → β) (r : Race α) : Race β :=
  ⟨r.taken.map f, r.xs.map f, r.ys.map f, r.patience⟩

namespace Race

variable (r : Race α)

@[simp] theorem xs_map : (r.map f).xs = r.xs.map f := rfl

@[simp] theorem ys_map : (r.map f).ys = r.ys.map f := rfl

@[simp] theorem patience_map : (r.map f).patience = r.patience := rfl

end Race

def Rule.comap (f : α → β) (rule : Rule β) : Rule α :=
  ⟨rule.fromBack, fun x y => rule.xFirst? (f x) (f y)⟩

@[simp] theorem Rule.fromBack_comap (rule : Rule β) :
    (rule.comap f).fromBack = rule.fromBack := rfl

namespace Race

variable (f) (rule : Rule β) (r : Race α)

theorem takeXs_map (n : Nat) : Carries f (Race.map f) (r.takeXs n) ((r.map f).takeXs n) := by
  simp only [takeXs, Race.map, ← List.map_take, ← List.map_drop, ← List.map_reverse,
    ← List.map_append]
  cases r.xs.drop n with
  | nil => exact carries_throw _ _
  | cons x xs => exact carries_pure _

theorem takeYs_map (n : Nat) : Carries f (Race.map f) (r.takeYs n) ((r.map f).takeYs n) := by
  simp only [takeYs, Race.map, ← List.map_take, ← List.map_drop, ← List.map_reverse,
    ← List.map_append]
  match r.ys.drop n with
  | [] =>
    simp only [List.map_nil, List.append_nil]
    exact carries_throw _ _
  | [y] =>
    have h := carries_throw (f := f) (g := Race.map f)
      (((r.ys.take n).reverse ++ r.taken).reverse ++ r.xs ++ [y]) r.patience
    rwa [List.map_append] at h
  | y :: z :: ys => exact carries_pure _

theorem xsBefore_map : Carries f id (r.xsBefore (rule.comap f)) ((r.map f).xsBefore rule) := by
  simp only [xsBefore, Race.map]
  cases r.ys with
  | nil => exact carries_pure _
  | cons y ys =>
    simp only [List.map_cons, gallop?_map]
    exact carries_lift _

theorem ysBefore_map : Carries f id (r.ysBefore (rule.comap f)) ((r.map f).ysBefore rule) := by
  simp only [ysBefore, Race.map]
  cases r.xs with
  | nil => exact carries_pure _
  | cons x xs =>
    simp only [List.map_cons, gallop?_map]
    exact carries_lift _

theorem oneByOne_map (fuel xWins yWins : Nat) :
    Carries f (Race.map f) (r.oneByOne (rule.comap f) fuel xWins yWins)
      ((r.map f).oneByOne rule fuel xWins yWins) := by
  induction fuel generalizing xWins yWins r with
  | zero => exact carries_pure _
  | succ fuel ih =>
    have htake : ∀ (wins x y : Nat) {m : Merging α (Race α)} {m' : Merging β (Race β)},
        Carries f (Race.map f) m m' → Carries f (Race.map f)
          (do
            let r ← m
            if wins ≥ r.patience then return r
            oneByOne (rule.comap f) fuel x y r)
          (do
            let r ← m'
            if wins ≥ r.patience then return r
            oneByOne rule fuel x y r) := by
      intro wins x y m m' hm
      refine hm.bind fun r => ?_
      rw [patience_map]
      split
      · exact carries_pure r
      · exact ih r x y
    match hx : r.xs, hy : r.ys with
    | [], _ =>
      simp only [oneByOne, xs_map, hx, List.map_nil]
      exact carries_pure r
    | _ :: _, [] =>
      simp only [oneByOne, xs_map, ys_map, hx, hy, List.map_nil]
      exact carries_pure r
    | x :: xs, y :: ys =>
      simp only [oneByOne, xs_map, ys_map, hx, hy, List.map_cons]
      have hfirst : Carries f id (rule.xFirst? (f x) (f y) : Merging α Bool)
        (rule.xFirst? (f x) (f y) : Merging β Bool) := carries_lift _
      refine hfirst.bind fun first => ?_
      cases first with
      | true => exact htake (xWins + 1) (xWins + 1) 0 (takeXs_map f r 1)
      | false => exact htake (yWins + 1) 0 (yWins + 1) (takeYs_map f r 1)

theorem stretches_map : Carries f (Prod.map id (Prod.map id (Race.map f)))
    (r.stretches (rule.comap f)) ((r.map f).stretches rule) := by
  have hx := fun r : Race α => xsBefore_map f rule r
  have hy := fun r : Race α => ysBefore_map f rule r
  unfold stretches
  rw [Rule.fromBack_comap]
  split
  · refine (hx r).bind fun m => ?_
    refine (takeXs_map f r m).bind fun r => (takeYs_map f r 1).bind fun r => ?_
    refine (hy r).bind fun n => ?_
    refine (takeYs_map f r n).bind fun r => (takeXs_map f r 1).bind fun r => ?_
    exact carries_pure _
  · refine (hy r).bind fun n => ?_
    refine (takeYs_map f r n).bind fun r => (takeXs_map f r 1).bind fun r => ?_
    refine (hx r).bind fun m => ?_
    refine (takeXs_map f r m).bind fun r => (takeYs_map f r 1).bind fun r => ?_
    exact carries_pure _

theorem inStretches_map (fuel : Nat) :
    Carries f (Race.map f) (r.inStretches (rule.comap f) fuel)
      ((r.map f).inStretches rule fuel) := by
  induction fuel generalizing r with
  | zero => exact carries_pure _
  | succ fuel ih =>
    refine (stretches_map f rule r).bind fun (m, n, r) => ?_
    simp only [Prod.map, id]
    split
    · exact ih _
    · exact carries_pure _

theorem finish_map (fuel : Nat) :
    Carries f (Race.map f) (r.finish (rule.comap f) fuel) ((r.map f).finish rule fuel) := by
  induction fuel generalizing r with
  | zero => exact carries_pure _
  | succ fuel ih =>
    simp only [finish, xs_map, ys_map, List.length_map]
    refine (oneByOne_map f rule r _ 0 0).bind fun r => ?_
    simp only [xs_map, ys_map, List.length_map]
    exact (inStretches_map f rule r _).bind fun r => ih r

theorem result?_map :
    (r.map f).result? rule = (r.result? (rule.comap f)).map (Prod.map (List.map f) id) := by
  have h : Carries f (Race.map f)
      (do
        let r ← (← r.takeXs 1).takeYs 0
        finish (rule.comap f) (r.xs.length + r.ys.length) r)
      (do
        let r ← (← (r.map f).takeXs 1).takeYs 0
        finish rule (r.xs.length + r.ys.length) r) := by
    refine (takeXs_map f r 1).bind fun r => (takeYs_map f r 0).bind fun r => ?_
    simp only [xs_map, ys_map, List.length_map]
    exact finish_map f rule r _
  simp only [result?]
  rw [h, Option.map_map, Option.map_map]
  congr 1
  funext result
  cases result <;> simp [Race.map, Prod.map]

end Race

section

variable (f) (before? : β → β → Option Bool) (patience : Nat) (as bs : List α)

theorem mergeOverlap?_map :
    mergeOverlap? before? patience (as.map f) (bs.map f) =
      (mergeOverlap? (fun a b => before? (f a) (f b)) patience as bs).map
        (Prod.map (List.map f) id) := by
  have hfront := Race.result?_map f ⟨false, before?⟩ { xs := bs, ys := as, patience := patience }
  have hback := Race.result?_map f ⟨true, fun a b => before? b a⟩
    { xs := as.reverse, ys := bs.reverse, patience := patience }
  simp only [Race.map, Rule.comap, List.map_nil, List.map_reverse] at hfront hback
  simp only [mergeOverlap?, List.length_map, hfront, hback]
  split
  · rfl
  · simp [Function.comp_def, Prod.map]

theorem merge?_map :
    merge? before? patience (as.map f) (bs.map f) =
      (merge? (fun a b => before? (f a) (f b)) patience as bs).map
        (Prod.map (List.map f) id) := by
  cases bs with
  | nil => rfl
  | cons b bs =>
    simp only [List.map_cons, merge?]
    simp only [← List.map_cons, gallop?_map, ← List.map_reverse, ← List.map_drop, List.getLast?_map,
      List.length_map, ← List.map_take, mergeOverlap?_map]
    cases gallop? (fun a => (before? (f b) (f a)).map (!·)) false as with
    | none => rfl
    | some start =>
      cases hlast : (as.drop start).getLast? with
      | none => simp [hlast]
      | some last =>
        simp only [hlast, Option.map_some]
        cases gallop? (fun b => (before? (f b) (f last)).map (!·)) true (b :: bs).reverse with
        | none => rfl
        | some behind =>
          simp only
          split <;> simp [Function.comp_def]

end

def Pending.map (f : α → β) (p : Pending α) : Pending β :=
  ⟨p.items.map f, p.start, p.power⟩

section

variable (p : Pending α)

@[simp] theorem Pending.items_map : (p.map f).items = p.items.map f := rfl

@[simp] theorem Pending.power_map : (p.map f).power = p.power := rfl

end

def Stack.map (f : α → β) (stack : Stack α) : Stack β :=
  ⟨stack.runs.map (Pending.map f), stack.patience⟩

section

variable (f) (before? : β → β → Option Bool)

theorem mergePending?_map (patience : Nat) (p q : Pending α) :
    mergePending? before? patience (p.map f) (q.map f) =
      (mergePending? (fun a b => before? (f a) (f b)) patience p q).map
        (Prod.map (Pending.map f) id) := by
  simp only [mergePending?, Pending.map, merge?_map, Option.map_map]
  rfl

theorem collapse?_map (power patience : Nat) (last : Pending α) (runs : List (Pending α)) :
    collapse? before? power patience (last.map f) (runs.map (Pending.map f)) =
      (collapse? (fun a b => before? (f a) (f b)) power patience last runs).map (Stack.map f) := by
  induction runs generalizing last patience with
  | nil => rfl
  | cons p runs ih =>
    simp only [List.map_cons, collapse?, mergePending?_map, Pending.power_map]
    split
    · cases mergePending? (fun a b => before? (f a) (f b)) patience p last with
      | none => rfl
      | some merged => exact ih merged.2 merged.1
    · rfl

theorem push?_map (total start : Nat) (stack : Stack α) (items : List α) :
    push? before? total (stack.map f) start (items.map f) =
      (push? (fun a b => before? (f a) (f b)) total stack start items).map (Stack.map f) := by
  obtain ⟨runs, patience⟩ := stack
  cases runs with
  | nil => rfl
  | cons last runs =>
    have hpower : borderPower (last.map f) (items.map f).length total =
        borderPower last items.length total := by
      simp [borderPower, Pending.map]
    simp only [push?, Stack.map, List.map_cons, hpower, collapse?_map]
    cases collapse? (fun a b => before? (f a) (f b)) (borderPower last items.length total) patience
      last runs with
    | none => rfl
    | some stack => rfl

theorem pushAll?_map (least total fuel start : Nat) (stack : Stack α) (xs : List α) :
    pushAll? before? least total fuel start (stack.map f) (xs.map f) =
      (pushAll? (fun a b => before? (f a) (f b)) least total fuel start stack xs).map
        (Stack.map f) := by
  induction fuel generalizing start stack xs with
  | zero => rfl
  | succ fuel ih =>
    cases xs with
    | nil => rfl
    | cons x xs =>
      have hrun := firstRun?_map f before? least (x :: xs)
      rw [List.map_cons] at hrun
      simp only [List.map_cons, pushAll?, hrun]
      cases firstRun? (fun a b => before? (f a) (f b)) least (x :: xs) with
      | none => rfl
      | some p =>
        obtain ⟨run, rest⟩ := p
        simp only [Option.map_some, Prod.map, push?_map, List.length_map]
        cases push? (fun a b => before? (f a) (f b)) total stack start run with
        | none => rfl
        | some stack => exact ih _ stack rest

theorem mergeAll?_map (fuel patience : Nat) (runs : List (Pending α)) :
    mergeAll? before? fuel patience (runs.map (Pending.map f)) =
      (mergeAll? (fun a b => before? (f a) (f b)) fuel patience runs).map (List.map f) := by
  induction fuel generalizing patience runs with
  | zero => cases runs <;> rfl
  | succ fuel ih =>
    match runs with
    | [] => rfl
    | [p] => rfl
    | [r, q] =>
      simp only [List.map_cons, List.map_nil, mergeAll?, mergePending?_map]
      cases mergePending? (fun a b => before? (f a) (f b)) patience q r with
      | none => rfl
      | some merged => exact ih merged.2 [merged.1]
    | r :: q :: p :: runs =>
      simp only [List.map_cons, mergeAll?, mergePending?_map, Pending.items_map, List.length_map]
      split
      · cases mergePending? (fun a b => before? (f a) (f b)) patience p q with
        | none => rfl
        | some merged => exact ih merged.2 (r :: merged.1 :: runs)
      · cases mergePending? (fun a b => before? (f a) (f b)) patience q r with
        | none => rfl
        | some merged => exact ih merged.2 (merged.1 :: p :: runs)

end

end Sorting

open Sorting

theorem sort?_map (f : α → β) (before? : β → β → Option Bool) (xs : List α) :
    sort? before? (xs.map f) =
      (sort? (fun a b => before? (f a) (f b)) xs).map (List.map f) := by
  have hpush := pushAll?_map f before? (leastRun xs.length) xs.length xs.length 0 {} xs
  simp only [sort?, List.length_map]
  rw [show ({} : Stack β) = ({} : Stack α).map f from rfl, hpush]
  cases pushAll? (fun a b => before? (f a) (f b)) (leastRun xs.length) xs.length xs.length 0 {} xs
    with
  | none => rfl
  | some stack =>
    have hmerge := mergeAll?_map f before? stack.runs.length stack.patience stack.runs
    simpa [Stack.map] using hmerge

end RecordWire
