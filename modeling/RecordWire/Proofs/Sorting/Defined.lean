import RecordWire.Proofs.Sorting.Natural

/-!
Sorting has a result wherever it can compare: if there is none, two values of the list have no order.
What the order is like does not matter, so this holds for one that is none, as one with NaN.
-/

namespace RecordWire

variable {α γ δ : Type} {before? : α → α → Option Bool}

namespace Sorting

section

variable {holds? : α → Option Bool} (h : ∀ x, ∃ b, holds? x = some b)
include h

theorem exists_leap? (xs : List α) (low high : Nat) : ∃ p, leap? holds? xs low high = some p := by
  fun_induction leap? holds? xs low high with
  | case1 low high hx =>
    exact ⟨_, rfl⟩
  | case2 low high x hx hh =>
    obtain ⟨b, hb⟩ := h x
    cases hh.symm.trans hb
  | case3 low high x hx hh => exact ⟨_, rfl⟩
  | case4 low high x hx hh ih => exact ih

theorem exists_halve? (fromBack : Bool) (xs : List α) (low high : Nat) :
    ∃ n, halve? holds? fromBack xs low high = some n := by
  fun_induction halve? holds? fromBack xs low high with
  | case1 low high hlt hx => exact ⟨_, rfl⟩
  | case2 low high hlt x hx hh =>
    obtain ⟨b, hb⟩ := h x
    cases hh.symm.trans hb
  | case3 low high hlt x hx hh ih | case4 low high hlt x hx hh ih => exact ih
  | case5 low high hlt => exact ⟨_, rfl⟩

theorem exists_gallop? (fromBack : Bool) (xs : List α) :
    ∃ n, gallop? holds? fromBack xs = some n := by
  cases xs with
  | nil => exact ⟨_, rfl⟩
  | cons x xs =>
    obtain ⟨b, hb⟩ := h x
    obtain ⟨⟨low, high⟩, hp⟩ := exists_leap? h (x :: xs) 1 1
    cases b with
    | false => exact ⟨0, by simp only [gallop?, hb]⟩
    | true =>
      obtain ⟨n, hn⟩ := exists_halve? h fromBack (x :: xs) low high
      exact ⟨n, by simp only [gallop?, hb, hp, hn]⟩

end

section

variable (h : ∀ x y, ∃ b, before? x y = some b)
include h

theorem exists_insert? (x : α) (sorted : List α) : ∃ zs, insert? before? x sorted = some zs := by
  induction hn : sorted.length using Nat.strongRecOn generalizing sorted with
  | ind n ih =>
    subst hn
    by_cases hs : sorted = []
    · subst hs
      exact ⟨[x], by rw [insert?]⟩
    · have hpos := List.length_pos_iff.2 hs
      obtain ⟨ws, hws⟩ := ih _ (by rw [List.length_take]; omega) (sorted.take (sorted.length / 2)) rfl
      obtain ⟨zs, hzs⟩ :=
        ih _ (by rw [List.length_drop]; omega) (sorted.drop (sorted.length / 2 + 1)) rfl
      have hmid : sorted.length / 2 < sorted.length := by omega
      obtain ⟨b, hb⟩ := h x sorted[sorted.length / 2]
      rw [insert?_of_ne_nil hs, List.getElem?_eq_getElem hmid, Option.bind_some, hb, hws, hzs]
      cases b <;> exact ⟨_, rfl⟩

theorem exists_foldlM_insert? (xs sorted : List α) :
    ∃ zs, xs.foldlM (fun sorted x => insert? before? x sorted) sorted = some zs := by
  induction xs generalizing sorted with
  | nil => exact ⟨sorted, rfl⟩
  | cons x xs ih =>
    obtain ⟨ws, hws⟩ := exists_insert? h x sorted
    obtain ⟨zs, hzs⟩ := ih ws
    exact ⟨zs, by rw [List.foldlM_cons, hws]; exact hzs⟩

theorem exists_takeRun? (descending : Bool) (last : α) (xs : List α) :
    ∃ p, takeRun? before? descending last xs = some p := by
  induction xs generalizing last with
  | nil => exact ⟨_, rfl⟩
  | cons y ys ih =>
    obtain ⟨b, hb⟩ := h y last
    obtain ⟨p, hp⟩ := ih y
    simp only [takeRun?, hb, hp, Option.map_some]
    split <;> exact ⟨_, rfl⟩

theorem exists_naturalRun? (xs : List α) : ∃ p, naturalRun? before? xs = some p := by
  match xs with
  | [] | [x] => exact ⟨_, rfl⟩
  | x :: y :: ys =>
    obtain ⟨b, hb⟩ := h y x
    obtain ⟨p, hp⟩ := exists_takeRun? h b y ys
    simp only [naturalRun?, hb, hp, Option.map_some]
    exact ⟨_, rfl⟩

theorem exists_firstRun? (least : Nat) (xs : List α) :
    ∃ p, firstRun? before? least xs = some p := by
  obtain ⟨⟨run, rest⟩, hp⟩ := exists_naturalRun? h xs
  obtain ⟨zs, hzs⟩ := exists_foldlM_insert? h (rest.take (least - run.length)) run
  simp only [firstRun?, hp, hzs, Option.map_some]
  exact ⟨_, rfl⟩

end

def Merging.Defined (m : Merging α γ) : Prop := ∃ result, m.run = some result

namespace Merging

theorem defined_pure (x : γ) : Defined (pure x : Merging α γ) := ⟨_, rfl⟩

theorem defined_throw (zs : List α) (n : Nat) : Defined (throw (zs, n) : Merging α γ) := ⟨_, rfl⟩

theorem defined_lift {o : Option γ} (h : ∃ x, o = some x) : Defined (o : Merging α γ) := by
  obtain ⟨x, rfl⟩ := h
  exact ⟨_, rfl⟩

theorem Defined.bind {m : Merging α γ} {k : γ → Merging α δ} (hm : m.Defined)
    (hk : ∀ x, (k x).Defined) : (m >>= k).Defined := by
  obtain ⟨result, hr⟩ := hm
  match result with
  | .ok x =>
    obtain ⟨result, hx⟩ := hk x
    exact ⟨result, by rw [ExceptT.run_bind, hr]; exact hx⟩
  | .error p => exact ⟨.error p, by rw [ExceptT.run_bind, hr]; rfl⟩

end Merging

open Merging

namespace Race

theorem defined_takeXs (r : Race α) (n : Nat) : (r.takeXs n).Defined := by
  unfold takeXs
  split
  · exact defined_throw _ _
  · exact defined_pure _

theorem defined_takeYs (r : Race α) (n : Nat) : (r.takeYs n).Defined := by
  unfold takeYs
  split
  · exact defined_pure _
  · exact defined_throw _ _

variable {rule : Rule α} (h : ∀ x y, ∃ b, rule.xFirst? x y = some b)
include h

theorem defined_xsBefore (r : Race α) : (r.xsBefore rule).Defined := by
  unfold xsBefore
  split
  · exact defined_pure _
  · exact defined_lift (exists_gallop? (fun x => h x _) _ _)

theorem defined_ysBefore (r : Race α) : (r.ysBefore rule).Defined := by
  unfold ysBefore
  split
  · exact defined_pure _
  · refine defined_lift (exists_gallop? (fun y => ?_) _ _)
    obtain ⟨b, hb⟩ := h _ y
    exact ⟨!b, by rw [hb]; rfl⟩

theorem defined_oneByOne (fuel xWins yWins : Nat) (r : Race α) :
    (r.oneByOne rule fuel xWins yWins).Defined := by
  induction fuel generalizing xWins yWins r with
  | zero => exact defined_pure _
  | succ fuel ih =>
    unfold oneByOne
    split
    · refine (defined_lift (h _ _)).bind fun first => ?_
      split
      · refine (defined_takeXs _ 1).bind fun r => ?_
        split
        · exact defined_pure _
        · exact ih _ _ r
      · refine (defined_takeYs _ 1).bind fun r => ?_
        split
        · exact defined_pure _
        · exact ih _ _ r
    · exact defined_pure _

theorem defined_stretches (r : Race α) : (r.stretches rule).Defined := by
  unfold stretches
  split
  · exact (defined_xsBefore h _).bind fun m => (defined_takeXs _ m).bind fun r =>
      (defined_takeYs r 1).bind fun r => (defined_ysBefore h r).bind fun n =>
        (defined_takeYs r n).bind fun r => (defined_takeXs r 1).bind fun r => defined_pure _
  · exact (defined_ysBefore h _).bind fun n => (defined_takeYs _ n).bind fun r =>
      (defined_takeXs r 1).bind fun r => (defined_xsBefore h r).bind fun m =>
        (defined_takeXs r m).bind fun r => (defined_takeYs r 1).bind fun r => defined_pure _

theorem defined_inStretches (fuel : Nat) (r : Race α) : (r.inStretches rule fuel).Defined := by
  induction fuel generalizing r with
  | zero => exact defined_pure _
  | succ fuel ih =>
    refine (defined_stretches h r).bind fun (m, n, r) => ?_
    simp only
    split
    · exact ih _
    · exact defined_pure _

theorem defined_finish (fuel : Nat) (r : Race α) : (r.finish rule fuel).Defined := by
  induction fuel generalizing r with
  | zero => exact defined_pure _
  | succ fuel ih =>
    exact (defined_oneByOne h _ 0 0 r).bind fun r => (defined_inStretches h _ r).bind fun r => ih r

theorem exists_result? (r : Race α) : ∃ p, r.result? rule = some p := by
  obtain ⟨result, hr⟩ := (defined_takeXs r 1).bind fun r' => (defined_takeYs r' 0).bind
    fun r' => defined_finish h (r'.xs.length + r'.ys.length) r'
  exact ⟨_, by rw [result?, hr]; rfl⟩

end Race

section

variable (h : ∀ x y, ∃ b, before? x y = some b)
include h

theorem exists_mergeOverlap? (patience : Nat) (as bs : List α) :
    ∃ p, mergeOverlap? before? patience as bs = some p := by
  unfold mergeOverlap?
  split
  · exact Race.exists_result? h _
  · have hback : ∀ x y, ∃ b, (⟨true, fun a b => before? b a⟩ : Rule α).xFirst? x y = some b :=
      fun x y => h y x
    obtain ⟨p, hp⟩ := Race.exists_result? hback
      { xs := as.reverse, ys := bs.reverse, patience := patience }
    exact ⟨_, by rw [hp]; rfl⟩

theorem exists_merge? (patience : Nat) (as bs : List α) :
    ∃ p, merge? before? patience as bs = some p := by
  have hnot : ∀ x y, ∃ b, (before? x y).map (!·) = some b := by
    intro x y
    obtain ⟨b, hb⟩ := h x y
    exact ⟨!b, by rw [hb]; rfl⟩
  cases bs with
  | nil => exact ⟨_, rfl⟩
  | cons b bs =>
    obtain ⟨start, hstart⟩ := exists_gallop? (hnot b) false as
    simp only [merge?, hstart]
    split
    · exact ⟨_, rfl⟩
    · rename_i last _
      obtain ⟨behind, hbehind⟩ := exists_gallop? (fun b => hnot b last) true (b :: bs).reverse
      simp only [hbehind]
      split
      · exact ⟨_, rfl⟩
      · obtain ⟨p, hp⟩ := exists_mergeOverlap? h patience (as.drop start)
          ((b :: bs).take ((b :: bs).length - behind))
        exact ⟨_, by rw [hp]; rfl⟩

theorem exists_mergePending? (patience : Nat) (p q : Pending α) :
    ∃ merged, mergePending? before? patience p q = some merged := by
  obtain ⟨merged, hm⟩ := exists_merge? h patience p.items q.items
  exact ⟨_, by rw [mergePending?, hm]; rfl⟩

theorem exists_collapse? (power patience : Nat) (last : Pending α) (runs : List (Pending α)) :
    ∃ stack, collapse? before? power patience last runs = some stack := by
  induction runs generalizing patience last with
  | nil => exact ⟨_, rfl⟩
  | cons p runs ih =>
    obtain ⟨⟨merged, patience'⟩, hm⟩ := exists_mergePending? h patience p last
    simp only [collapse?, hm]
    split
    · exact ih patience' merged
    · exact ⟨_, rfl⟩

theorem exists_push? (total : Nat) (stack : Stack α) (start : Nat) (items : List α) :
    ∃ stack', push? before? total stack start items = some stack' := by
  unfold push?
  split
  · exact ⟨_, rfl⟩
  · rename_i last runs _
    obtain ⟨stack', hs⟩ := exists_collapse? h (borderPower last items.length total) stack.patience
      last runs
    exact ⟨_, by rw [hs]⟩

theorem exists_pushAll? (least total fuel start : Nat) (stack : Stack α) (xs : List α) :
    ∃ stack', pushAll? before? least total fuel start stack xs = some stack' := by
  induction fuel generalizing start stack xs with
  | zero => exact ⟨stack, by rw [pushAll?]⟩
  | succ fuel ih =>
    cases xs with
    | nil => exact ⟨stack, by rw [pushAll?]; simp⟩
    | cons x xs =>
      obtain ⟨⟨run, rest⟩, hrun⟩ := exists_firstRun? h least (x :: xs)
      obtain ⟨stack', hs⟩ := exists_push? h total stack start run
      simp only [pushAll?, hrun, hs]
      exact ih _ stack' rest

theorem exists_mergeAll? (fuel patience : Nat) (runs : List (Pending α)) :
    ∃ zs, mergeAll? before? fuel patience runs = some zs := by
  induction fuel generalizing patience runs with
  | zero => cases runs <;> exact ⟨_, rfl⟩
  | succ fuel ih =>
    match runs with
    | [] | [p] => exact ⟨_, rfl⟩
    | [r, q] =>
      obtain ⟨merged, hm⟩ := exists_mergePending? h patience q r
      simp only [mergeAll?, hm]
      exact ih merged.2 [merged.1]
    | r :: q :: p :: runs =>
      obtain ⟨first, hf⟩ := exists_mergePending? h patience p q
      obtain ⟨second, hs⟩ := exists_mergePending? h patience q r
      simp only [mergeAll?, hf, hs]
      split
      · exact ih first.2 (r :: first.1 :: runs)
      · exact ih second.2 (second.1 :: p :: runs)

end

end Sorting

open Sorting

theorem exists_sort? (h : ∀ x y, ∃ b, before? x y = some b) (xs : List α) :
    ∃ ys, sort? before? xs = some ys := by
  obtain ⟨stack, hs⟩ := exists_pushAll? h (leastRun xs.length) xs.length xs.length 0 {} xs
  simp only [sort?, hs]
  exact exists_mergeAll? h _ _ _

theorem exists_of_sort?_eq_none {xs : List α} (h : sort? before? xs = none) :
    ∃ x ∈ xs, ∃ y ∈ xs, before? x y = none := by
  by_contra hn
  -- The values of the list, each with the proof that it is one, are compared everywhere.
  have hall : ∀ x y : { x // x ∈ xs }, ∃ b, before? x.1 y.1 = some b := by
    intro x y
    cases hb : before? x.1 y.1 with
    | none => exact absurd ⟨x.1, x.2, y.1, y.2, hb⟩ hn
    | some b => exact ⟨b, rfl⟩
  obtain ⟨ys, hys⟩ := exists_sort? hall xs.attach
  have hmap := sort?_map Subtype.val before? xs.attach
  rw [List.attach_map_subtype_val, h, hys] at hmap
  cases hmap

end RecordWire
