import RecordWire.Proofs.Sorting.Basic

/-!
Sorting only rearranges: by whichever order a list is sorted, if there is a result it holds the
values of the list. So nothing is lost or doubled even where an order is none, as one with NaN.
-/

namespace RecordWire

variable {α γ δ : Type} {before? : α → α → Option Bool}

namespace Sorting

theorem perm_of_insert? {x : α} {sorted zs : List α} (h : insert? before? x sorted = some zs) :
    zs.Perm (sorted ++ [x]) := by
  induction hn : sorted.length using Nat.strongRecOn generalizing sorted zs with
  | ind n ih =>
    subst hn
    by_cases hs : sorted = []
    · subst hs
      simp only [insert?, Option.some.injEq] at h
      rw [← h, List.nil_append]
    · have hpos := List.length_pos_iff.2 hs
      rw [insert?_of_ne_nil hs] at h
      generalize hmid : sorted.length / 2 = mid at h
      split at h
      · cases h
      · obtain ⟨ws, hws, rfl⟩ := Option.map_eq_some_iff.1 h
        have hperm := ih _ (by rw [List.length_take]; omega) hws rfl
        calc (ws ++ sorted.drop mid).Perm (sorted.take mid ++ [x] ++ sorted.drop mid) :=
            hperm.append_right _
          _ = sorted.take mid ++ ([x] ++ sorted.drop mid) := List.append_assoc ..
          (sorted.take mid ++ ([x] ++ sorted.drop mid)).Perm
              (sorted.take mid ++ (sorted.drop mid ++ [x])) :=
            List.perm_append_comm.append_left _
          _ = sorted ++ [x] := by rw [← List.append_assoc, List.take_append_drop]
      · obtain ⟨ws, hws, rfl⟩ := Option.map_eq_some_iff.1 h
        have hperm := ih _ (by rw [List.length_drop]; omega) hws rfl
        calc (sorted.take (mid + 1) ++ ws).Perm
              (sorted.take (mid + 1) ++ (sorted.drop (mid + 1) ++ [x])) := hperm.append_left _
          _ = sorted ++ [x] := by rw [← List.append_assoc, List.take_append_drop]

theorem perm_of_foldlM_insert? {xs sorted zs : List α}
    (h : xs.foldlM (fun sorted x => insert? before? x sorted) sorted = some zs) :
    zs.Perm (sorted ++ xs) := by
  induction xs generalizing sorted with
  | nil =>
    cases h
    rw [List.append_nil]
  | cons x xs ih =>
    rw [List.foldlM_cons] at h
    obtain ⟨ws, hws, hzs⟩ := Option.bind_eq_some_iff.1 h
    have hperm := (perm_of_insert? hws).append_right xs
    rw [List.append_assoc, List.singleton_append] at hperm
    exact (ih hzs).trans hperm

theorem append_of_takeRun? {descending : Bool} {last : α} {xs run rest : List α}
    (h : takeRun? before? descending last xs = some (run, rest)) : run ++ rest = xs := by
  induction xs generalizing last run rest with
  | nil =>
    cases h
    rfl
  | cons y ys ih =>
    simp only [takeRun?] at h
    split at h
    · cases h
    · split at h
      · obtain ⟨⟨run', rest'⟩, hr, he⟩ := Option.map_eq_some_iff.1 h
        cases he
        rw [List.cons_append, ih hr]
      · cases h
        rfl

theorem perm_of_naturalRun? {xs run rest : List α}
    (h : naturalRun? before? xs = some (run, rest)) : (run ++ rest).Perm xs := by
  match xs with
  | [] | [x] =>
    cases h
    exact .refl _
  | x :: y :: ys =>
    simp only [naturalRun?] at h
    split at h
    · cases h
    · obtain ⟨⟨run', rest'⟩, hr, he⟩ := Option.map_eq_some_iff.1 h
      cases he
      rw [← append_of_takeRun? hr]
      split
      · exact (List.reverse_perm _).append_right _
      · exact .refl _

theorem perm_of_firstRun? {least : Nat} {xs run rest : List α}
    (h : firstRun? before? least xs = some (run, rest)) : (run ++ rest).Perm xs := by
  simp only [firstRun?] at h
  split at h
  · cases h
  · rename_i run' rest' hn
    obtain ⟨zs, hzs, he⟩ := Option.map_eq_some_iff.1 h
    cases he
    have hperm := (perm_of_foldlM_insert? hzs).append_right (rest'.drop (least - run'.length))
    rw [List.append_assoc, List.take_append_drop] at hperm
    exact hperm.trans (perm_of_naturalRun? hn)

theorem ne_nil_of_naturalRun? {xs run rest : List α} (hx : xs ≠ [])
    (h : naturalRun? before? xs = some (run, rest)) : run ≠ [] := by
  match xs with
  | [] => exact absurd rfl hx
  | [x] =>
    cases h
    exact List.cons_ne_nil x []
  | x :: y :: ys =>
    simp only [naturalRun?] at h
    split at h
    · cases h
    · obtain ⟨_, -, he⟩ := Option.map_eq_some_iff.1 h
      cases he
      split <;> simp

theorem ne_nil_of_firstRun? {least : Nat} {xs run rest : List α} (hx : xs ≠ [])
    (h : firstRun? before? least xs = some (run, rest)) : run ≠ [] := by
  simp only [firstRun?] at h
  split at h
  · cases h
  · rename_i run' _ hn
    obtain ⟨zs, hzs, he⟩ := Option.map_eq_some_iff.1 h
    cases he
    rintro rfl
    have hperm := perm_of_foldlM_insert? hzs
    have hnil := List.append_eq_nil_iff.1 hperm.nil_eq.symm
    exact ne_nil_of_naturalRun? hx hn hnil.1

/-- Whatever a step of a merge comes to, it holds the values of a list: what it goes on with, or
the list that it ends with. -/
def Merging.Keeps (m : Merging α γ) (held : γ → List α) (zs : List α) : Prop :=
  ∀ result, m.run = some result →
    (match result with
      | .ok x => held x
      | .error (ys, _) => ys).Perm zs

namespace Merging

variable {held : γ → List α} {held' : δ → List α} {zs : List α}

theorem keeps_pure {x : γ} (h : (held x).Perm zs) : Keeps (pure x) held zs := by
  rintro result ⟨⟩
  exact h

theorem keeps_throw {ys : List α} {n : Nat} (h : ys.Perm zs) : Keeps (throw (ys, n)) held zs := by
  rintro result ⟨⟩
  exact h

theorem keeps_lift (o : Option γ) : Keeps (o : Merging α γ) (fun _ => zs) zs := by
  intro result h
  cases o with
  | none => cases h
  | some x =>
    cases h
    exact .refl _

theorem Keeps.bind {m : Merging α γ} {k : γ → Merging α δ} (hm : m.Keeps held zs)
    (hk : ∀ x, (held x).Perm zs → (k x).Keeps held' zs) : (m >>= k).Keeps held' zs := by
  intro result h
  rw [ExceptT.run_bind] at h
  obtain ⟨r, hr, h⟩ := Option.bind_eq_some_iff.1 h
  have hperm := hm r hr
  match r with
  | .ok x => exact hk x hperm result h
  | .error (ys, n) =>
    cases h
    exact hperm

end Merging

open Merging

namespace Race

def all (r : Race α) : List α := r.taken ++ r.xs ++ r.ys

variable (rule : Rule α) {r : Race α} {zs : List α}

theorem keeps_takeXs (n : Nat) (h : r.all.Perm zs) : (r.takeXs n).Keeps all zs := by
  have hperm : ((r.xs.take n).reverse ++ r.taken ++ r.xs.drop n ++ r.ys).Perm zs := by
    refine .trans (.append_right _ ?_) h
    calc ((r.xs.take n).reverse ++ r.taken ++ r.xs.drop n).Perm
          (r.taken ++ r.xs.take n ++ r.xs.drop n) :=
        (((List.reverse_perm _).append_right _).trans List.perm_append_comm).append_right _
      _ = r.taken ++ r.xs := by rw [List.append_assoc, List.take_append_drop]
  unfold takeXs
  split
  · rename_i hd
    rw [hd, List.append_nil] at hperm
    exact keeps_throw (((List.reverse_perm _).append_right _).trans hperm)
  · exact keeps_pure hperm

theorem keeps_takeYs (n : Nat) (h : r.all.Perm zs) : (r.takeYs n).Keeps all zs := by
  have hperm : ((r.ys.take n).reverse ++ r.taken ++ r.xs ++ r.ys.drop n).Perm zs := by
    refine .trans ?_ h
    rw [List.append_assoc (r.ys.take n).reverse]
    calc ((r.ys.take n).reverse ++ (r.taken ++ r.xs) ++ r.ys.drop n).Perm
          (r.taken ++ r.xs ++ r.ys.take n ++ r.ys.drop n) :=
        (((List.reverse_perm _).append_right _).trans List.perm_append_comm).append_right _
      _ = r.taken ++ r.xs ++ r.ys := by
        rw [List.append_assoc _ (r.ys.take n), List.take_append_drop]
  unfold takeYs
  split
  · rename_i hd
    rw [← hd]
    exact keeps_pure hperm
  · exact keeps_throw ((((List.reverse_perm _).append_right _).append_right _).trans hperm)

theorem keeps_xsBefore : (r.xsBefore rule).Keeps (fun _ => zs) zs := by
  unfold xsBefore
  split
  · exact keeps_pure (.refl _)
  · exact keeps_lift _

theorem keeps_ysBefore : (r.ysBefore rule).Keeps (fun _ => zs) zs := by
  unfold ysBefore
  split
  · exact keeps_pure (.refl _)
  · exact keeps_lift _

theorem keeps_oneByOne (fuel xWins yWins : Nat) (h : r.all.Perm zs) :
    (r.oneByOne rule fuel xWins yWins).Keeps all zs := by
  induction fuel generalizing xWins yWins r with
  | zero => exact keeps_pure h
  | succ fuel ih =>
    unfold oneByOne
    split
    · refine (keeps_lift _).bind fun first _ => ?_
      split
      · refine (keeps_takeXs 1 h).bind fun r hr => ?_
        split
        · exact keeps_pure hr
        · exact ih _ _ hr
      · refine (keeps_takeYs 1 h).bind fun r hr => ?_
        split
        · exact keeps_pure hr
        · exact ih _ _ hr
    · exact keeps_pure h

theorem keeps_stretches (h : r.all.Perm zs) : (r.stretches rule).Keeps (fun p => p.2.2.all) zs := by
  unfold stretches
  split
  · refine (keeps_xsBefore rule).bind fun m _ => (keeps_takeXs m h).bind fun r hr => ?_
    refine (keeps_takeYs 1 hr).bind fun r hr => (keeps_ysBefore rule).bind fun n _ => ?_
    refine (keeps_takeYs n hr).bind fun r hr => (keeps_takeXs 1 hr).bind fun r hr => ?_
    exact keeps_pure hr
  · refine (keeps_ysBefore rule).bind fun n _ => (keeps_takeYs n h).bind fun r hr => ?_
    refine (keeps_takeXs 1 hr).bind fun r hr => (keeps_xsBefore rule).bind fun m _ => ?_
    refine (keeps_takeXs m hr).bind fun r hr => (keeps_takeYs 1 hr).bind fun r hr => ?_
    exact keeps_pure hr

theorem keeps_inStretches (fuel : Nat) (h : r.all.Perm zs) :
    (r.inStretches rule fuel).Keeps all zs := by
  induction fuel generalizing r with
  | zero => exact keeps_pure h
  | succ fuel ih =>
    refine (keeps_stretches rule h).bind fun (m, n, r) hr => ?_
    simp only
    split
    · exact ih hr
    · exact keeps_pure hr

theorem keeps_finish (fuel : Nat) (h : r.all.Perm zs) : (r.finish rule fuel).Keeps all zs := by
  induction fuel generalizing r with
  | zero => exact keeps_pure h
  | succ fuel ih =>
    refine (keeps_oneByOne rule _ 0 0 h).bind fun r hr => ?_
    exact (keeps_inStretches rule _ hr).bind fun r hr => ih hr

theorem perm_of_result? {n : Nat} (h : r.result? rule = some (zs, n)) : zs.Perm r.all := by
  obtain ⟨result, hr, he⟩ := Option.map_eq_some_iff.1 h
  have hkeeps := ((keeps_takeXs 1 (.refl r.all)).bind fun _ hr' => (keeps_takeYs 0 hr').bind
    fun r hr' => keeps_finish rule (r.xs.length + r.ys.length) hr') result hr
  match result with
  | .error (ys, _) =>
    cases he
    exact hkeeps
  | .ok r' =>
    cases he
    exact (((List.reverse_perm _).append_right _).append_right _).trans hkeeps

end Race

theorem perm_of_mergeOverlap? {patience n : Nat} {as bs zs : List α}
    (h : mergeOverlap? before? patience as bs = some (zs, n)) : zs.Perm (as ++ bs) := by
  unfold mergeOverlap? at h
  split at h
  · exact (Race.perm_of_result? _ h).trans List.perm_append_comm
  · obtain ⟨⟨merged, _⟩, hm, he⟩ := Option.map_eq_some_iff.1 h
    cases he
    have hperm := Race.perm_of_result? _ hm
    exact (List.reverse_perm merged).trans
      (hperm.trans ((List.reverse_perm as).append (List.reverse_perm bs)))

theorem perm_of_merge? {patience n : Nat} {as bs zs : List α}
    (h : merge? before? patience as bs = some (zs, n)) : zs.Perm (as ++ bs) := by
  unfold merge? at h
  split at h
  · cases h
    rw [List.append_nil]
  · rename_i b bs
    split at h
    · cases h
    · rename_i start _
      split at h
      · cases h
        exact .refl _
      · split at h
        · cases h
        · rename_i behind _
          simp only at h
          split at h
          · cases h
            exact .refl _
          · obtain ⟨⟨merged, _⟩, hm, he⟩ := Option.map_eq_some_iff.1 h
            cases he
            generalize (b :: bs).length - behind = stop at hm ⊢
            calc (as.take start ++ merged ++ (b :: bs).drop stop).Perm
                  (as.take start ++ (as.drop start ++ (b :: bs).take stop) ++ (b :: bs).drop stop) :=
                ((perm_of_mergeOverlap? hm).append_left _).append_right _
              _ = as ++ b :: bs := by
                rw [← List.append_assoc, List.take_append_drop, List.append_assoc,
                  List.take_append_drop]

theorem perm_of_mergePending? {patience n : Nat} {p q merged : Pending α}
    (h : mergePending? before? patience p q = some (merged, n)) :
    merged.items.Perm (p.items ++ q.items) := by
  obtain ⟨⟨items, _⟩, hm, he⟩ := Option.map_eq_some_iff.1 h
  cases he
  exact perm_of_merge? hm

theorem perm_spread_of_mergePending? {patience n : Nat} {p q merged : Pending α}
    (h : mergePending? before? patience p q = some (merged, n)) (runs : List (Pending α)) :
    (spread (merged :: runs)).Perm (spread (q :: p :: runs)) := by
  simp only [spread, List.append_assoc]
  exact (perm_of_mergePending? h).append_left _

theorem perm_of_collapse? {power patience : Nat} {last : Pending α} {runs : List (Pending α)}
    {stack : Stack α} (h : collapse? before? power patience last runs = some stack) :
    (spread stack.runs).Perm (spread (last :: runs)) := by
  induction runs generalizing last patience with
  | nil =>
    cases h
    exact .refl _
  | cons p runs ih =>
    unfold collapse? at h
    split at h
    · split at h
      · cases h
      · rename_i hm
        exact (ih h).trans (perm_spread_of_mergePending? hm runs)
    · cases h
      exact .refl _

theorem perm_of_push? {total start : Nat} {stack stack' : Stack α} {items : List α}
    (h : push? before? total stack start items = some stack') :
    (spread stack'.runs).Perm (spread stack.runs ++ items) := by
  unfold push? at h
  split at h
  · rename_i hs
    cases h
    rw [hs]
    exact .refl _
  · rename_i last runs hs
    split at h
    · cases h
    · rename_i hc
      cases h
      rw [hs]
      exact (perm_of_collapse? hc).append_right items

theorem perm_of_pushAll? {least total fuel start : Nat} {stack stack' : Stack α} {xs : List α}
    (hf : xs.length ≤ fuel) (h : pushAll? before? least total fuel start stack xs = some stack') :
    (spread stack'.runs).Perm (spread stack.runs ++ xs) := by
  induction fuel generalizing start stack xs with
  | zero =>
    obtain rfl : xs = [] := List.length_eq_zero_iff.1 (by omega)
    cases h
    rw [List.append_nil]
  | succ fuel ih =>
    cases xs with
    | nil =>
      cases h
      rw [List.append_nil]
    | cons x xs =>
      simp only [pushAll?] at h
      split at h
      · cases h
      · rename_i run rest hrun
        split at h
        · cases h
        · rename_i stack₁ hpush
          have hperm := perm_of_firstRun? hrun
          have hlength : rest.length ≤ fuel := by
            have hl := hperm.length_eq
            have := List.length_pos_iff.2 (ne_nil_of_firstRun? (List.cons_ne_nil x xs) hrun)
            rw [List.length_append] at hl
            omega
          calc (spread stack'.runs).Perm (spread stack₁.runs ++ rest) := ih hlength h
            (spread stack₁.runs ++ rest).Perm (spread stack.runs ++ run ++ rest) :=
              (perm_of_push? hpush).append_right rest
            _ = spread stack.runs ++ (run ++ rest) := List.append_assoc ..
            (spread stack.runs ++ (run ++ rest)).Perm (spread stack.runs ++ x :: xs) :=
              hperm.append_left _

theorem perm_of_mergeAll? {fuel patience : Nat} {runs : List (Pending α)} {zs : List α}
    (hf : runs.length ≤ fuel + 1) (h : mergeAll? before? fuel patience runs = some zs) :
    zs.Perm (spread runs) := by
  induction fuel generalizing patience runs with
  | zero =>
    match runs with
    | [] | [p] =>
      cases h
      exact .refl _
    | q :: p :: runs => simp at hf
  | succ fuel ih =>
    match runs with
    | [] | [p] =>
      cases h
      exact .refl _
    | [r, q] =>
      simp only [mergeAll?] at h
      split at h
      · cases h
      · rename_i hm
        exact (ih (by simp) h).trans (perm_spread_of_mergePending? hm [])
    | r :: q :: p :: runs =>
      simp only [List.length_cons] at hf
      unfold mergeAll? at h
      split at h
      · split at h
        · cases h
        · rename_i hm
          exact (ih (by simpa using hf) h).trans
            ((perm_spread_of_mergePending? hm runs).append_right r.items)
      · split at h
        · cases h
        · rename_i hm
          exact (ih (by simpa using hf) h).trans (perm_spread_of_mergePending? hm (p :: runs))

end Sorting

open Sorting

/-- Sorting rearranges: whatever the order, nothing is lost or doubled. -/
theorem perm_of_sort? {xs zs : List α} (h : sort? before? xs = some zs) : zs.Perm xs := by
  simp only [sort?] at h
  split at h
  · cases h
  · rename_i stack hstack
    exact (perm_of_mergeAll? (Nat.le_succ _) h).trans (perm_of_pushAll? (Nat.le_refl _) hstack)

end RecordWire
