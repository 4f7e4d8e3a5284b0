import RecordWire.Proofs.Sorting.Merge
import RecordWire.Sorting.Run

/-!
Runs of an order that ranks define: the run that a list starts with is in ascending order, holds the
first values of the list stably sorted, and is not empty unless the list is.
-/

namespace RecordWire.Sorting

variable {α β : Type} [LinearOrder β] {before? : α → α → Option Bool} {rank : α → β}

/-- The first values of a list stably sorted, and the others as they were. -/
structure IsRun (rank : α → β) (xs run rest : List α) : Prop where
  ascending : Ascending rank run
  fibers : SameFibers rank (run ++ rest) xs

theorem insert?_of_ne_nil {x : α} {sorted : List α} (h : sorted ≠ []) :
    insert? before? x sorted =
      match (sorted[sorted.length / 2]?).bind (before? x) with
      | none => none
      | some true =>
        (insert? before? x (sorted.take (sorted.length / 2))).map
          (· ++ sorted.drop (sorted.length / 2))
      | some false =>
        (insert? before? x (sorted.drop (sorted.length / 2 + 1))).map
          (sorted.take (sorted.length / 2 + 1) ++ ·) := by
  cases sorted with
  | nil => exact absurd rfl h
  | cons y ys =>
    have hmid : (y :: ys).length / 2 < (y :: ys).length := by
      rw [List.length_cons]
      omega
    rw [List.getElem?_eq_getElem hmid, Option.bind_some]
    exact insert?.eq_2 before? x y ys

theorem insert?_eq {x : α} {ys : List α}
    (h : ∀ y ∈ ys, before? x y = some (decide (rank x < rank y))) (hy : Ascending rank ys) :
    ∃ zs, insert? before? x ys = some zs ∧ Ascending rank zs ∧ SameFibers rank zs (ys ++ [x]) := by
  fun_induction insert? before? x ys with
  | case1 => exact ⟨[x], rfl, List.pairwise_singleton _ _, .refl _⟩
  | case2 y ys mid hmid hx =>
    rw [h _ (List.getElem_mem hmid)] at hx
    cases hx
  | case3 y ys mid hmid hx ih =>
    have hlt : rank x < rank (y :: ys)[mid] := by
      simpa using (h _ (List.getElem_mem hmid)).symm.trans hx
    obtain ⟨zs, hzs, hza, hzf⟩ := ih (fun z hz => h z (List.mem_of_mem_take hz)) (hy.take mid)
    have hdrop : ∀ z ∈ (y :: ys).drop mid, rank x < rank z := fun z hz =>
      hlt.trans_le (hy.getElem_le_drop hmid z hz)
    refine ⟨zs ++ (y :: ys).drop mid, ?_, hza.append (hy.drop mid) ?_, ?_⟩
    · simp only [mid] at hx hzs ⊢
      simp only [hx, hzs, Option.map_some]
    · intro a ha b hb
      rcases List.mem_append.1 (hzf.perm.mem_iff.1 ha) with ha | ha
      · exact (hy.take_le_getElem hmid a (List.take_subset_take_left _ (Nat.le_succ mid) ha)).trans
          (hy.getElem_le_drop hmid b hb)
      · obtain rfl := List.mem_singleton.1 ha
        exact (hdrop b hb).le
    · have hcomm : SameFibers rank ([x] ++ (y :: ys).drop mid) ((y :: ys).drop mid ++ [x]) :=
        sameFibers_append_comm (by simpa using hdrop)
      refine (hzf.append (.refl _)).trans ?_
      rw [List.append_assoc]
      refine ((SameFibers.refl _).append hcomm).trans ?_
      rw [← List.append_assoc, List.take_append_drop]
      exact .refl _
  | case4 y ys mid hmid hx ih =>
    have hle : rank (y :: ys)[mid] ≤ rank x := by
      simpa using (h _ (List.getElem_mem hmid)).symm.trans hx
    obtain ⟨zs, hzs, hza, hzf⟩ := ih (fun z hz => h z (List.mem_of_mem_drop hz)) (hy.drop _)
    have htake : ∀ z ∈ (y :: ys).take (mid + 1), rank z ≤ rank (y :: ys)[mid] :=
      hy.take_le_getElem hmid
    refine ⟨(y :: ys).take (mid + 1) ++ zs, ?_, (hy.take _).append hza ?_, ?_⟩
    · simp only [mid] at hx hzs ⊢
      simp only [hx, hzs, Option.map_some]
    · intro a ha b hb
      refine (htake a ha).trans ?_
      rcases List.mem_append.1 (hzf.perm.mem_iff.1 hb) with hb | hb
      · exact hy.getElem_le_drop hmid b (List.drop_subset_drop_left _ (Nat.le_succ mid) hb)
      · obtain rfl := List.mem_singleton.1 hb
        exact hle
    · refine ((SameFibers.refl _).append hzf).trans ?_
      rw [← List.append_assoc, List.take_append_drop]
      exact .refl _

theorem foldlM_insert?_eq {xs ys : List α} (h : Ranks before? rank (ys ++ xs))
    (hy : Ascending rank ys) :
    ∃ zs, xs.foldlM (fun sorted x => insert? before? x sorted) ys = some zs ∧
      Ascending rank zs ∧ SameFibers rank zs (ys ++ xs) := by
  induction xs generalizing ys with
  | nil => exact ⟨ys, rfl, hy, by simpa using SameFibers.refl ys⟩
  | cons x xs ih =>
    obtain ⟨zs, hzs, hza, hzf⟩ := insert?_eq (fun y hmem => h x (by simp) y (by simp [hmem])) hy
    have hsub : zs ++ xs ⊆ ys ++ x :: xs := by
      refine List.append_subset.2 ⟨fun z hz => ?_, fun z hz => by simp [hz]⟩
      have := hzf.perm.mem_iff.1 hz
      simp only [List.mem_append, List.mem_cons, List.not_mem_nil, or_false] at this ⊢
      exact this.imp_right Or.inl
    obtain ⟨ws, hws, hwa, hwf⟩ := ih (h.mono hsub) hza
    refine ⟨ws, by rw [List.foldlM_cons, hzs]; exact hws, hwa, hwf.trans ?_⟩
    have := hzf.append (SameFibers.refl xs)
    rwa [List.append_assoc] at this

theorem takeRun?_eq (descending : Bool) {last : α} {xs : List α}
    (h : Ranks before? rank (last :: xs)) :
    ∃ run rest, takeRun? before? descending last xs = some (run, rest) ∧ xs = run ++ rest ∧
      List.IsChain (fun a b => decide (rank b < rank a) = descending) (last :: run) := by
  induction xs generalizing last with
  | nil => exact ⟨[], [], rfl, rfl, .singleton _⟩
  | cons y ys ih =>
    have hy := h y (by simp) last (by simp)
    by_cases hd : decide (rank y < rank last) = descending
    · obtain ⟨run, rest, hr, rfl, hc⟩ := ih (h.mono (List.subset_cons_self _ _))
      refine ⟨y :: run, rest, ?_, rfl, List.isChain_cons_cons.2 ⟨hd, hc⟩⟩
      simp only [takeRun?, hy, hd, if_true, hr]
      rfl
    · refine ⟨[], y :: ys, ?_, rfl, .singleton _⟩
      simp only [takeRun?, hy, hd, if_false]

theorem naturalRun?_eq {xs : List α} (h : Ranks before? rank xs) :
    ∃ run rest, naturalRun? before? xs = some (run, rest) ∧ IsRun rank xs run rest ∧
      (xs ≠ [] → run ≠ []) := by
  match xs with
  | [] => exact ⟨[], [], rfl, ⟨.nil, .refl _⟩, id⟩
  | [x] => exact ⟨[x], [], rfl, ⟨List.pairwise_singleton _ _, .refl _⟩, id⟩
  | x :: y :: ys =>
    have hy := h y (by simp) x (by simp)
    obtain ⟨run, rest, hr, rfl, hc⟩ := takeRun?_eq (decide (rank y < rank x))
      (h.mono (List.subset_cons_self x (y :: ys)))
    have hchain : List.IsChain (fun a b => decide (rank b < rank a) = decide (rank y < rank x))
      (x :: y :: run) := List.isChain_cons_cons.2 ⟨rfl, hc⟩
    have hn : naturalRun? before? (x :: y :: (run ++ rest)) =
        some (if rank y < rank x then (x :: y :: run).reverse else x :: y :: run, rest) := by
      simp only [naturalRun?, hy, hr, Option.map_some, decide_eq_true_eq]
    by_cases hd : rank y < rank x
    · rw [if_pos hd] at hn
      have hstrict : (x :: y :: run).Pairwise fun a b => rank b < rank a :=
        (hchain.imp fun a b hab => by simpa [hd] using hab).pairwise
      obtain ⟨ha, hf⟩ := sameFibers_reverse_of_descending hstrict
      exact ⟨_, rest, hn, ⟨ha, hf.append (.refl rest)⟩, by simp⟩
    · rw [if_neg hd] at hn
      have ha : (x :: y :: run).Pairwise fun a b => rank a ≤ rank b :=
        (hchain.imp fun a b hab => by simpa [hd] using hab).pairwise
      exact ⟨_, rest, hn, ⟨ha, .refl _⟩, by simp⟩

theorem firstRun?_eq (least : Nat) {xs : List α} (h : Ranks before? rank xs) :
    ∃ run rest, firstRun? before? least xs = some (run, rest) ∧ IsRun rank xs run rest ∧
      (xs ≠ [] → run ≠ []) := by
  obtain ⟨run, rest, hn, ⟨ha, hf⟩, hne⟩ := naturalRun?_eq h
  have hsub : run ++ rest.take (least - run.length) ⊆ xs := by
    intro z hz
    refine hf.perm.mem_iff.1 ?_
    rcases List.mem_append.1 hz with hz | hz
    · exact List.mem_append_left _ hz
    · exact List.mem_append_right _ (List.mem_of_mem_take hz)
  obtain ⟨zs, hzs, hza, hzf⟩ := foldlM_insert?_eq (h.mono hsub) ha
  refine ⟨zs, rest.drop (least - run.length), ?_, ⟨hza, ?_⟩, fun hx => ?_⟩
  · simp only [firstRun?, hn, hzs, Option.map_some]
  · refine (hzf.append (.refl _)).trans ?_
    rw [List.append_assoc, List.take_append_drop]
    exact hf
  · have hl := hzf.perm.length_eq
    have := List.length_pos_iff.2 (hne hx)
    rw [List.length_append] at hl
    exact List.length_pos_iff.1 (by omega)

theorem leastRun_of_lt {n : Nat} (h : n < 64) : leastRun n = n := by
  rw [leastRun, leastRun.halve, if_neg (Nat.not_le.2 h)]
  rfl

end RecordWire.Sorting
