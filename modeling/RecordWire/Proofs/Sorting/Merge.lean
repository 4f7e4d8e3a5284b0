import Mathlib.Order.OrderDual
import RecordWire.Proofs.Sorting.Gallop
import RecordWire.Proofs.Sorting.Stable
import RecordWire.Sorting.Merge

/-!
Merging two neighbouring runs of an order that ranks define. However the race between the two runs
goes, and from whichever end, its result is the stable merge.
-/

namespace RecordWire.Sorting

variable {α β γ δ : Type}

/-- A step of a merge comes to a result: it goes on with a value, or it is over with a list. -/
def Merging.Ensures (m : Merging α γ) (ended : List α → Prop) (going : γ → Prop) : Prop :=
  (∃ x, m.run = some (.ok x) ∧ going x) ∨ ∃ zs n, m.run = some (.error (zs, n)) ∧ ended zs

namespace Merging

variable {ended : List α → Prop}

theorem ensures_pure {going : γ → Prop} {x : γ} (h : going x) :
    Ensures (pure x : Merging α γ) ended going := Or.inl ⟨x, rfl, h⟩

theorem ensures_throw {going : γ → Prop} {zs : List α} {n : Nat} (h : ended zs) :
    Ensures (throw (zs, n) : Merging α γ) ended going := Or.inr ⟨zs, n, rfl, h⟩

theorem ensures_lift {going : γ → Prop} {o : Option γ} {x : γ} (ho : o = some x) (h : going x) :
    Ensures (o : Merging α γ) ended going := by
  subst ho
  exact Or.inl ⟨x, rfl, h⟩

theorem Ensures.bind {m : Merging α γ} {f : γ → Merging α δ} {P : γ → Prop} {Q : δ → Prop}
    (hm : m.Ensures ended P) (hf : ∀ x, P x → (f x).Ensures ended Q) :
    (m >>= f).Ensures ended Q := by
  rcases hm with ⟨x, hx, hP⟩ | ⟨zs, n, hz, hO⟩
  · have hb : (m >>= f).run = (f x).run := by
      rw [ExceptT.run_bind, hx]
      rfl
    rcases hf x hP with ⟨y, hy, hQ⟩ | ⟨zs, n, hz, hO⟩
    · exact Or.inl ⟨y, hb.trans hy, hQ⟩
    · exact Or.inr ⟨zs, n, hb.trans hz, hO⟩
  · refine Or.inr ⟨zs, n, ?_, hO⟩
    rw [ExceptT.run_bind, hz]
    rfl

theorem Ensures.mono {m : Merging α γ} {P Q : γ → Prop} (hm : m.Ensures ended P)
    (h : ∀ x, P x → Q x) : m.Ensures ended Q :=
  hm.imp_left fun ⟨x, hx, hP⟩ => ⟨x, hx, h x hP⟩

end Merging

open Merging

namespace Race

variable [LinearOrder β]

def size (r : Race α) : Nat := r.xs.length + r.ys.length

/-- The race leads to a list: what has been taken and the merge of what is left make it up. The
values left are in order and ranked, and the last one of the second run comes behind all of the
first. -/
structure Leads (rank : α → β) (rule : Rule α) (target : List α) (r : Race α) : Prop where
  xs_ne_nil : r.xs ≠ []
  ys_ne_nil : r.ys ≠ []
  xs_ascending : Ascending rank r.xs
  ys_ascending : Ascending rank r.ys
  lt_last : ∀ x ∈ r.xs, rank x < rank (r.ys.getLast ys_ne_nil)
  ranks : ∀ x ∈ r.xs, ∀ y ∈ r.ys, rule.xFirst? x y = some (decide (rank x < rank y))
  target_eq : r.taken.reverse ++ interleave rank r.xs r.ys = target

variable {rank : α → β} {rule : Rule α} {target : List α} {r : Race α}

/-- What a step that takes values leaves: a race with the same goal and less to take. -/
def Goes (rank : α → β) (rule : Rule α) (target : List α) (n : Nat) (r : Race α) : Prop :=
  r.Leads rank rule target ∧ r.size ≤ n

theorem Leads.takeXs (hr : r.Leads rank rule target) {n : Nat}
    (hn : ∀ x ∈ r.xs.take n, rank x < rank (r.ys.head hr.ys_ne_nil)) :
    (r.takeXs n).Ensures (· = target) fun s =>
      s.Leads rank rule target ∧ s.xs = r.xs.drop n ∧ s.ys = r.ys := by
  have htarget : ((r.xs.take n).reverse ++ r.taken).reverse ++ interleave rank (r.xs.drop n) r.ys =
      target := by
    obtain ⟨y, ys, hys⟩ := List.exists_cons_of_ne_nil hr.ys_ne_nil
    simp only [hys, List.head_cons] at hn
    rw [← hr.target_eq, List.reverse_append, List.reverse_reverse, List.append_assoc, hys,
      ← interleave_append_left hn, List.take_append_drop]
  unfold Race.takeXs
  split
  · rename_i hd
    rw [hd, interleave_nil_left] at htarget
    exact ensures_throw htarget
  · rename_i xs hd
    refine ensures_pure ⟨⟨fun h => hd h, hr.ys_ne_nil, hr.xs_ascending.drop n,
      hr.ys_ascending, fun x hx => hr.lt_last x (List.mem_of_mem_drop hx),
      fun x hx y hy => hr.ranks x (List.mem_of_mem_drop hx) y hy, htarget⟩, rfl, rfl⟩

theorem Leads.takeYs (hr : r.Leads rank rule target) {n : Nat}
    (hn : ∀ y ∈ r.ys.take n, rank y ≤ rank (r.xs.head hr.xs_ne_nil)) :
    (r.takeYs n).Ensures (· = target) fun s =>
      s.Leads rank rule target ∧ s.ys = r.ys.drop n ∧ s.xs = r.xs := by
  have htarget : ((r.ys.take n).reverse ++ r.taken).reverse ++ interleave rank r.xs (r.ys.drop n) =
      target := by
    obtain ⟨x, xs, hxs⟩ := List.exists_cons_of_ne_nil hr.xs_ne_nil
    simp only [hxs, List.head_cons] at hn
    rw [← hr.target_eq, List.reverse_append, List.reverse_reverse, List.append_assoc, hxs,
      ← interleave_append_right hn, List.take_append_drop]
  -- The last value is never among those that are taken, since it comes behind all of the first run.
  have hlast : r.ys.drop n ≠ [] := by
    intro hd
    have hmem : r.ys.getLast hr.ys_ne_nil ∈ r.ys.take n := by
      have := List.take_append_drop n r.ys
      rw [hd, List.append_nil] at this
      rw [this]
      exact List.getLast_mem hr.ys_ne_nil
    exact absurd (hr.lt_last _ (List.head_mem hr.xs_ne_nil)) (not_lt.2 (hn _ hmem))
  have hl : (r.ys.drop n).getLast hlast = r.ys.getLast hr.ys_ne_nil := List.getLast_drop hlast
  unfold Race.takeYs
  split
  · rename_i y z ys hd
    simp only [hd] at hl
    refine ensures_pure ⟨⟨hr.xs_ne_nil, by simp, hr.xs_ascending, ?_, ?_, ?_, ?_⟩, hd.symm, rfl⟩
    · exact hd ▸ hr.ys_ascending.drop n
    · exact fun x hx => hl ▸ hr.lt_last x hx
    · exact fun x hx w hw => hr.ranks x hx w (List.mem_of_mem_drop (hd ▸ hw))
    · exact hd ▸ htarget
  · rename_i hd
    refine ensures_throw ?_
    match hys : r.ys.drop n with
    | [] => exact absurd hys hlast
    | y :: z :: ys => exact absurd hys (hd y z ys)
    | [y] =>
      rw [hys] at htarget
      simp only [hys, List.getLast_singleton] at hl
      have hm : interleave rank (r.xs ++ []) [y] = r.xs ++ interleave rank [] [y] :=
        interleave_append_left fun x hx => hl ▸ hr.lt_last x hx
      rw [List.append_nil, interleave_nil_left] at hm
      rw [hm, ← List.append_assoc] at htarget
      exact htarget

theorem Leads.xsBefore (hr : r.Leads rank rule target) :
    (r.xsBefore rule).Ensures (· = target) fun n =>
      (∀ x ∈ r.xs.take n, rank x < rank (r.ys.head hr.ys_ne_nil)) ∧
        ∀ x ∈ r.xs.drop n, rank (r.ys.head hr.ys_ne_nil) ≤ rank x := by
  obtain ⟨y, ys, hys⟩ := List.exists_cons_of_ne_nil hr.ys_ne_nil
  have hranks : ∀ x ∈ r.xs, rule.xFirst? x y = some (decide (rank x < rank y)) :=
    fun x hx => hr.ranks x hx y (by simp [hys])
  have hfades : Fades (fun x => decide (rank x < rank y)) r.xs :=
    hr.xs_ascending.imp fun hab hb => by
      simp only [decide_eq_true_eq] at hb ⊢
      exact hab.trans_lt hb
  obtain ⟨n, hn, htake, hdrop⟩ := gallop?_eq hranks hfades rule.fromBack
  simp only [hys, List.head_cons]
  unfold Race.xsBefore
  rw [hys]
  refine ensures_lift hn ⟨fun x hx => by simpa using htake x hx, fun x hx => ?_⟩
  simpa using hdrop x hx

theorem Leads.ysBefore (hr : r.Leads rank rule target) :
    (r.ysBefore rule).Ensures (· = target) fun n =>
      (∀ y ∈ r.ys.take n, rank y ≤ rank (r.xs.head hr.xs_ne_nil)) ∧
        ∀ y ∈ r.ys.drop n, rank (r.xs.head hr.xs_ne_nil) < rank y := by
  obtain ⟨x, xs, hxs⟩ := List.exists_cons_of_ne_nil hr.xs_ne_nil
  have hranks : ∀ y ∈ r.ys, (rule.xFirst? x y).map (!·) = some (decide (rank y ≤ rank x)) := by
    intro y hy
    rw [hr.ranks x (by simp [hxs]) y hy, Option.map_some, ← decide_not]
    simp only [not_lt]
  have hfades : Fades (fun y => decide (rank y ≤ rank x)) r.ys :=
    hr.ys_ascending.imp fun hab hb => by
      simp only [decide_eq_true_eq] at hb ⊢
      exact hab.trans hb
  obtain ⟨n, hn, htake, hdrop⟩ := gallop?_eq hranks hfades rule.fromBack
  simp only [hxs, List.head_cons]
  unfold Race.ysBefore
  rw [hxs]
  refine ensures_lift hn ⟨fun y hy => by simpa using htake y hy, fun y hy => ?_⟩
  simpa using hdrop y hy

theorem Leads.oneByOne (hr : r.Leads rank rule target) (fuel xWins yWins : Nat) :
    (r.oneByOne rule fuel xWins yWins).Ensures (· = target) (Goes rank rule target r.size) := by
  induction fuel generalizing xWins yWins r with
  | zero => exact ensures_pure ⟨hr, Nat.le_refl _⟩
  | succ fuel ih =>
    obtain ⟨x, xs, hxs⟩ := List.exists_cons_of_ne_nil hr.xs_ne_nil
    obtain ⟨y, ys, hys⟩ := List.exists_cons_of_ne_nil hr.ys_ne_nil
    have hxy := hr.ranks x (by simp [hxs]) y (by simp [hys])
    simp only [Race.oneByOne, hxs, hys]
    have hfirst : Ensures (rule.xFirst? x y : Merging α Bool) (· = target)
        (· = decide (rank x < rank y)) := ensures_lift hxy rfl
    refine hfirst.bind ?_
    rintro _ rfl
    by_cases hlt : rank x < rank y
    · simp only [hlt, decide_true, if_true]
      refine (hr.takeXs (n := 1) (by simpa [hxs, hys] using hlt)).bind fun s ⟨hs, hsx, hsy⟩ => ?_
      have hsize : s.size ≤ r.size := by simp [size, hsx, hsy]
      split
      · exact ensures_pure ⟨hs, hsize⟩
      · exact (ih hs _ _).mono fun t ht => ⟨ht.1, Nat.le_trans ht.2 hsize⟩
    · simp only [hlt, decide_false, Bool.false_eq_true, if_false]
      refine (hr.takeYs (n := 1) (by simpa [hxs, hys] using hlt)).bind fun s ⟨hs, hsy, hsx⟩ => ?_
      have hsize : s.size ≤ r.size := by simp [size, hsx, hsy]
      split
      · exact ensures_pure ⟨hs, hsize⟩
      · exact (ih hs _ _).mono fun t ht => ⟨ht.1, Nat.le_trans ht.2 hsize⟩

theorem Leads.xsStretch (hr : r.Leads rank rule target) {n : Nat}
    (htake : ∀ x ∈ r.xs.take n, rank x < rank (r.ys.head hr.ys_ne_nil))
    (hdrop : ∀ x ∈ r.xs.drop n, rank (r.ys.head hr.ys_ne_nil) ≤ rank x)
    {f : Race α → Merging α γ} {Q : γ → Prop}
    (hf : ∀ s, Goes rank rule target (r.size - 1) s → (f s).Ensures (· = target) Q) :
    (r.takeXs n >>= fun s => s.takeYs 1 >>= f).Ensures (· = target) Q := by
  refine (hr.takeXs htake).bind fun s ⟨hs, hsx, hsy⟩ => ?_
  have hhead : ∀ y ∈ s.ys.take 1, rank y ≤ rank (s.xs.head hs.xs_ne_nil) := by
    obtain ⟨y, ys, hys⟩ := List.exists_cons_of_ne_nil hr.ys_ne_nil
    have hmem : s.xs.head hs.xs_ne_nil ∈ r.xs.drop n := hsx ▸ List.head_mem hs.xs_ne_nil
    simpa [hsy, hys] using hdrop _ hmem
  refine (hs.takeYs hhead).bind fun t ⟨ht, hty, htx⟩ => hf t ⟨ht, ?_⟩
  have := List.length_pos_iff.2 hr.ys_ne_nil
  simp only [size, htx, hsx, hty, hsy, List.length_drop]
  omega

theorem Leads.ysStretch (hr : r.Leads rank rule target) {n : Nat}
    (htake : ∀ y ∈ r.ys.take n, rank y ≤ rank (r.xs.head hr.xs_ne_nil))
    (hdrop : ∀ y ∈ r.ys.drop n, rank (r.xs.head hr.xs_ne_nil) < rank y)
    {f : Race α → Merging α γ} {Q : γ → Prop}
    (hf : ∀ s, Goes rank rule target (r.size - 1) s → (f s).Ensures (· = target) Q) :
    (r.takeYs n >>= fun s => s.takeXs 1 >>= f).Ensures (· = target) Q := by
  refine (hr.takeYs htake).bind fun s ⟨hs, hsy, hsx⟩ => ?_
  have hhead : ∀ x ∈ s.xs.take 1, rank x < rank (s.ys.head hs.ys_ne_nil) := by
    obtain ⟨x, xs, hxs⟩ := List.exists_cons_of_ne_nil hr.xs_ne_nil
    have hmem : s.ys.head hs.ys_ne_nil ∈ r.ys.drop n := hsy ▸ List.head_mem hs.ys_ne_nil
    simpa [hsx, hxs] using hdrop _ hmem
  refine (hs.takeXs hhead).bind fun t ⟨ht, htx, hty⟩ => hf t ⟨ht, ?_⟩
  have := List.length_pos_iff.2 hr.xs_ne_nil
  simp only [size, htx, hsx, hty, hsy, List.length_drop]
  omega

theorem Leads.stretches (hr : r.Leads rank rule target) :
    (r.stretches rule).Ensures (· = target) fun s =>
      Goes rank rule target (r.size - 1) s.2.2 := by
  unfold Race.stretches
  split
  · refine hr.xsBefore.bind fun m ⟨hm₁, hm₂⟩ => hr.xsStretch hm₁ hm₂ fun s ⟨hs, hn⟩ => ?_
    refine hs.ysBefore.bind fun n ⟨hn₁, hn₂⟩ => hs.ysStretch hn₁ hn₂ fun t ⟨ht, hl⟩ => ?_
    exact ensures_pure ⟨ht, show t.size ≤ r.size - 1 by omega⟩
  · refine hr.ysBefore.bind fun n ⟨hn₁, hn₂⟩ => hr.ysStretch hn₁ hn₂ fun s ⟨hs, hn⟩ => ?_
    refine hs.xsBefore.bind fun m ⟨hm₁, hm₂⟩ => hs.xsStretch hm₁ hm₂ fun t ⟨ht, hl⟩ => ?_
    exact ensures_pure ⟨ht, show t.size ≤ r.size - 1 by omega⟩

theorem Leads.withPatience (hr : r.Leads rank rule target) (patience : Nat) :
    ({ r with patience := patience } : Race α).Leads rank rule target :=
  ⟨hr.xs_ne_nil, hr.ys_ne_nil, hr.xs_ascending, hr.ys_ascending, hr.lt_last, hr.ranks, hr.target_eq⟩

theorem Leads.inStretches (hr : r.Leads rank rule target) (fuel : Nat) :
    (r.inStretches rule fuel).Ensures (· = target)
      (Goes rank rule target (r.size - min fuel 1)) := by
  induction fuel generalizing r with
  | zero => exact ensures_pure ⟨hr, Nat.le_refl _⟩
  | succ fuel ih =>
    refine hr.stretches.bind fun ⟨m, n, s⟩ ⟨hs, hn⟩ => ?_
    dsimp only at hs hn ⊢
    split
    · refine (ih (hs.withPatience _)).mono fun t ht => ⟨ht.1, Nat.le_trans ht.2 ?_⟩
      simp only [size] at hn ⊢
      omega
    · refine ensures_pure ⟨hs.withPatience _, ?_⟩
      simp only [size] at hn ⊢
      omega

theorem Leads.finish (hr : r.Leads rank rule target) {fuel : Nat} (hf : r.size ≤ fuel) :
    (r.finish rule fuel).Ensures (· = target) fun _ => False := by
  have hpos : ∀ {s : Race α}, s.Leads rank rule target → 0 < s.size := fun hs => by
    have := List.length_pos_iff.2 hs.xs_ne_nil
    simp only [size]
    omega
  induction fuel generalizing r with
  | zero =>
    have := hpos hr
    omega
  | succ fuel ih =>
    refine (hr.oneByOne _ _ _).bind fun s ⟨hs, hsn⟩ => ?_
    refine (hs.inStretches _).bind fun t ⟨ht, htn⟩ => ih ht ?_
    have := hpos hs
    have hm : min (s.xs.length + s.ys.length) 1 = 1 := by
      simp only [size] at this
      omega
    rw [hm] at htn
    omega

/-- The result of a race between two runs, where the head of the first is before that of the second,
and the last of the second behind all of the first. -/
theorem result?_eq (rule : Rule α) {xs ys : List α} (hxs : xs ≠ []) (hys : ys ≠ [])
    (hx : Ascending rank xs) (hy : Ascending rank ys)
    (hhead : rank (xs.head hxs) < rank (ys.head hys))
    (hlast : ∀ x ∈ xs, rank x < rank (ys.getLast hys))
    (hranks : ∀ x ∈ xs, ∀ y ∈ ys, rule.xFirst? x y = some (decide (rank x < rank y)))
    (patience : Nat) : ∃ n,
      result? rule { xs := xs, ys := ys, patience := patience } =
        some (interleave rank xs ys, n) := by
  have hr : Leads rank rule (interleave rank xs ys) { xs := xs, ys := ys, patience := patience } :=
    ⟨hxs, hys, hx, hy, hlast, hranks, rfl⟩
  have htake : ∀ x ∈ xs.take 1, rank x < rank (ys.head hys) := by
    obtain ⟨x, l, rfl⟩ := List.exists_cons_of_ne_nil hxs
    simpa using hhead
  have hrun := (hr.takeXs htake).bind fun s ⟨hs, _, _⟩ =>
    (hs.takeYs (n := 0) (by simp)).bind fun t ⟨ht, _, _⟩ => ht.finish (Nat.le_refl t.size)
  obtain ⟨_, _, hf⟩ | ⟨zs, n, hz, rfl⟩ := hrun
  · exact hf.elim
  · refine ⟨n, ?_⟩
    unfold result?
    exact congrArg (Option.map _) hz

end Race

section

variable [LinearOrder β]

/-- The order between the values of a list is that of their ranks. -/
def Ranks (before? : α → α → Option Bool) (rank : α → β) (xs : List α) : Prop :=
  ∀ a ∈ xs, ∀ b ∈ xs, before? a b = some (decide (rank a < rank b))

variable {before? : α → α → Option Bool} {rank : α → β} {as bs : List α}

theorem Ranks.mono {xs ys : List α} (h : Ranks before? rank ys) (hs : xs ⊆ ys) :
    Ranks before? rank xs := fun a ha b hb => h a (hs ha) b (hs hb)

/-- An ascending list with the values of two lists, those of the first before equal ones of the
second. -/
def IsMerge (rank : α → β) (as bs zs : List α) : Prop :=
  Ascending rank zs ∧ SameFibers rank zs (as ++ bs)

theorem mergeOverlap?_eq (h : Ranks before? rank (as ++ bs)) (ha : Ascending rank as)
    (hb : Ascending rank bs) (has : as ≠ []) (hbs : bs ≠ [])
    (hhead : ∀ a ∈ as, rank (bs.head hbs) < rank a)
    (hlast : ∀ b ∈ bs, rank b < rank (as.getLast has)) (patience : Nat) :
    ∃ zs n, mergeOverlap? before? patience as bs = some (zs, n) ∧ IsMerge rank as bs zs := by
  have hmem : ∀ a ∈ as, ∀ b ∈ bs, before? b a = some (decide (rank b < rank a)) :=
    fun a haa b hbb => h b (List.mem_append_right _ hbb) a (List.mem_append_left _ haa)
  unfold mergeOverlap?
  split
  · obtain ⟨n, hn⟩ := Race.result?_eq ⟨false, before?⟩ hbs has hb ha
      (hhead _ (List.head_mem has)) hlast (fun b hbb a haa => hmem a haa b hbb) patience
    exact ⟨_, n, hn, ascending_interleave hb ha, fun r => fiber_interleave ha⟩
  · -- From the back, the ranks are ordered the other way around.
    let dual : α → OrderDual β := fun a => OrderDual.toDual (rank a)
    have ha' : Ascending dual as.reverse := List.pairwise_reverse.2 ha
    have hb' : Ascending dual bs.reverse := List.pairwise_reverse.2 hb
    have has' : as.reverse ≠ [] := by simpa using has
    have hbs' : bs.reverse ≠ [] := by simpa using hbs
    have hhead' : dual (as.reverse.head has') < dual (bs.reverse.head hbs') := by
      simpa [dual] using hlast _ (List.getLast_mem hbs)
    have hlast' : ∀ a ∈ as.reverse, dual a < dual (bs.reverse.getLast hbs') := by
      simpa [dual] using hhead
    obtain ⟨n, hn⟩ := Race.result?_eq ⟨true, fun a b => before? b a⟩ has' hbs' ha' hb' hhead' hlast'
      (fun a haa b hbb => hmem a (List.mem_reverse.1 haa) b (List.mem_reverse.1 hbb)) patience
    refine ⟨_, n, congrArg (Option.map _) hn,
      List.pairwise_reverse.2 (ascending_interleave ha' hb'),
      fun r => ?_⟩
    have hf : fiber rank r (interleave dual as.reverse bs.reverse) =
      fiber rank r (bs.reverse ++ as.reverse) := fiber_interleave hb'
    rw [fiber_reverse, hf, ← List.reverse_append, fiber_reverse, List.reverse_reverse]

theorem IsMerge.of_le (ha : Ascending rank as) (hb : Ascending rank bs)
    (h : ∀ a ∈ as, ∀ b ∈ bs, rank a ≤ rank b) : IsMerge rank as bs (as ++ bs) :=
  ⟨ha.append hb h, .refl _⟩

theorem IsMerge.around {start stop : Nat} {zs : List α} (ha : Ascending rank as)
    (hb : Ascending rank bs) (h : IsMerge rank (as.drop start) (bs.take stop) zs)
    (hstart : ∀ a ∈ as.take start, ∀ z ∈ zs ++ bs, rank a ≤ rank z)
    (hstop : ∀ b ∈ bs.drop stop, ∀ z ∈ zs, rank z ≤ rank b) :
    IsMerge rank as bs (as.take start ++ zs ++ bs.drop stop) := by
  constructor
  · refine ((ha.take start).append h.1 fun a haa z hz =>
      hstart a haa z (List.mem_append_left _ hz)).append (hb.drop stop) ?_
    intro x hx b hbb
    rcases List.mem_append.1 hx with hx | hx
    · exact hstart x hx b (List.mem_append_right _ (List.mem_of_mem_drop hbb))
    · exact hstop b hbb x hx
  · have hf := ((SameFibers.refl (as.take start)).append h.2).append
      (SameFibers.refl (bs.drop stop))
    rwa [← List.append_assoc, List.take_append_drop, List.append_assoc as,
      List.take_append_drop] at hf

theorem gallop?_le (h : Ranks before? rank (as ++ bs)) (ha : Ascending rank as) {b : α}
    (hbb : b ∈ bs) : ∃ n, gallop? (fun a => (before? b a).map (!·)) false as = some n ∧
      (∀ a ∈ as.take n, rank a ≤ rank b) ∧ ∀ a ∈ as.drop n, rank b < rank a := by
  have hranks : ∀ a ∈ as, (before? b a).map (!·) = some (decide (rank a ≤ rank b)) := by
    intro a haa
    rw [h b (List.mem_append_right _ hbb) a (List.mem_append_left _ haa), Option.map_some,
      ← decide_not]
    simp only [not_lt]
  have hfades : Fades (fun a => decide (rank a ≤ rank b)) as := ha.imp fun hle hb => by
    simp only [decide_eq_true_eq] at hb ⊢
    exact hle.trans hb
  obtain ⟨n, hn, htake, hdrop⟩ := gallop?_eq hranks hfades false
  exact ⟨n, hn, by simpa using htake, by simpa using hdrop⟩

theorem gallop?_ge (h : Ranks before? rank (as ++ bs)) (hb : Ascending rank bs) {a : α}
    (haa : a ∈ as) : ∃ n, gallop? (fun b => (before? b a).map (!·)) true bs.reverse = some n ∧
      (∀ b ∈ bs.drop (bs.length - n), rank a ≤ rank b) ∧
      ∀ b ∈ bs.take (bs.length - n), rank b < rank a := by
  have hranks : ∀ b ∈ bs.reverse, (before? b a).map (!·) = some (decide (rank a ≤ rank b)) := by
    intro b hbb
    rw [h b (List.mem_append_right _ (List.mem_reverse.1 hbb)) a (List.mem_append_left _ haa),
      Option.map_some, ← decide_not]
    simp only [not_lt]
  have hfades : Fades (fun b => decide (rank a ≤ rank b)) bs.reverse :=
    List.pairwise_reverse.2 (hb.imp fun hle hb => by
      simp only [decide_eq_true_eq] at hb ⊢
      exact hb.trans hle)
  obtain ⟨n, hn, htake, hdrop⟩ := gallop?_eq hranks hfades true
  rw [List.take_reverse] at htake
  rw [List.drop_reverse] at hdrop
  exact ⟨n, hn, by simpa using htake, by simpa using hdrop⟩

theorem merge?_of_getLast? {b : α} (h : Ranks before? rank (as ++ b :: bs))
    (ha : Ascending rank as) (hb : Ascending rank (b :: bs)) {start : Nat} {last : α}
    (hstart : gallop? (fun a => (before? b a).map (!·)) false as = some start)
    (hle : ∀ a ∈ as.take start, rank a ≤ rank b) (hgt : ∀ a ∈ as.drop start, rank b < rank a)
    (hlast : (as.drop start).getLast? = some last) (patience : Nat) :
    ∃ zs n, merge? before? patience as (b :: bs) = some (zs, n) ∧ IsMerge rank as (b :: bs) zs := by
  have hhead : ∀ z ∈ b :: bs, rank b ≤ rank z := fun z hz => hb.head_le hz
  have hne : as.drop start ≠ [] := fun hnil => by simp [hnil] at hlast
  have hlast' : (as.drop start).getLast hne = last := by
    rw [List.getLast?_eq_some_getLast hne] at hlast
    exact Option.some.inj hlast
  have hlelast : ∀ a ∈ as.drop start, rank a ≤ rank last := by
    intro a haa
    rw [← hlast']
    exact (ha.drop start).le_getLast haa
  obtain ⟨behind, hbehind, hge, hlt⟩ :=
    gallop?_ge h hb (List.mem_of_mem_drop (List.mem_of_getLast? hlast))
  have hmerge : merge? before? patience as (b :: bs) =
      if (b :: bs).length - behind = 0 then some (as ++ b :: bs, patience)
      else
        (mergeOverlap? before? patience (as.drop start)
          ((b :: bs).take ((b :: bs).length - behind))).map fun m =>
            (as.take start ++ m.1 ++ (b :: bs).drop ((b :: bs).length - behind), m.2) := by
    simp only [merge?, hstart, hlast, hbehind]
  rw [hmerge]
  generalize (b :: bs).length - behind = stop at hge hlt
  cases stop with
  | zero =>
    refine ⟨as ++ b :: bs, patience, rfl, .of_le ha hb fun a haa z hz => ?_⟩
    rw [← List.take_append_drop start as] at haa
    rcases List.mem_append.1 haa with haa | haa
    · exact (hle a haa).trans (hhead z hz)
    · exact (hlelast a haa).trans (hge z hz)
  | succ stop =>
    have hsub : as.drop start ++ (b :: bs).take (stop + 1) ⊆ as ++ b :: bs :=
      List.append_subset.2 ⟨fun a haa => List.mem_append_left _ (List.mem_of_mem_drop haa),
        fun z hz => List.mem_append_right _ (List.mem_of_mem_take hz)⟩
    obtain ⟨zs, n, hzs, hm⟩ :=
      mergeOverlap?_eq (h.mono hsub) (ha.drop start) (hb.take (stop + 1))
        hne (by simp) (by simpa using hgt) (by simpa only [hlast'] using hlt) patience
    refine ⟨_, n, by rw [if_neg (Nat.succ_ne_zero stop), hzs]; rfl, .around ha hb hm ?_ ?_⟩
    · intro a haa z hz
      refine (hle a haa).trans ?_
      rcases List.mem_append.1 hz with hz | hz
      · rcases List.mem_append.1 (hm.2.perm.mem_iff.1 hz) with hz | hz
        · exact (hgt z hz).le
        · exact hhead z (List.mem_of_mem_take hz)
      · exact hhead z hz
    · intro c hc z hz
      refine le_trans ?_ (hge c hc)
      rcases List.mem_append.1 (hm.2.perm.mem_iff.1 hz) with hz | hz
      · exact hlelast z hz
      · exact (hlt z hz).le

/-- Two neighbouring runs are merged stably. -/
theorem merge?_eq (h : Ranks before? rank (as ++ bs)) (ha : Ascending rank as)
    (hb : Ascending rank bs) (patience : Nat) :
    ∃ zs n, merge? before? patience as bs = some (zs, n) ∧ IsMerge rank as bs zs := by
  cases bs with
  | nil => exact ⟨as, patience, rfl, ha, by simpa using SameFibers.refl as⟩
  | cons b bs =>
    obtain ⟨start, hstart, hle, hgt⟩ := gallop?_le h ha (List.mem_cons_self (a := b) (l := bs))
    cases hlast : (as.drop start).getLast? with
    | some last => exact merge?_of_getLast? h ha hb hstart hle hgt hlast patience
    | none =>
      refine ⟨as ++ b :: bs, patience, by simp [merge?, hstart, hlast], .of_le ha hb ?_⟩
      have hnil := List.getLast?_eq_none_iff.1 hlast
      have htake := List.take_append_drop start as
      rw [hnil, List.append_nil] at htake
      rw [htake] at hle
      exact fun a haa z hz => (hle a haa).trans (hb.head_le hz)

end

end RecordWire.Sorting
