import Mathlib.Data.List.Induction
import RecordWire.Proofs.Codec.Entries

/-!
What a dictionary makes of pairs whose keys may come again: it keeps the first spelling of a key and
the last value. Sorting the pairs does not change what becomes of a key, since equal keys keep their
order.
-/

namespace RecordWire

open Sorting

namespace Value

variable {β : Type} {rank : Value → β} {pairs es : List (Value × Value)} {k v : Value}

section

variable (halike : ∀ e ∈ es, k.alike e.1 = true ↔ rank k = rank e.1)

include halike

theorem exists_mem_assign (v : Value) : ∃ e ∈ assign k v es, rank e.1 = rank k := by
  induction es with
  | nil => exact ⟨(k, v), List.mem_cons_self, rfl⟩
  | cons f es ih =>
    obtain ⟨hf, hes⟩ := List.forall_mem_cons.1 halike
    unfold assign
    split
    · rename_i ha
      exact ⟨(f.1, v), List.mem_cons_self, (hf.1 ha).symm⟩
    · obtain ⟨e, he, hr⟩ := ih hes
      exact ⟨e, List.mem_cons_of_mem _ he, hr⟩

/-- An entry after an assignment is one of another key, or that of the key, which keeps its spelling
if it was there. -/
theorem mem_assign (hn : (es.map fun e => rank e.1).Nodup) {e : Value × Value}
    (he : e ∈ assign k v es) : e ∈ es ∧ rank e.1 ≠ rank k ∨ e.2 = v ∧ rank e.1 = rank k ∧
      ((∃ f ∈ es, e.1 = f.1) ∨ (∀ f ∈ es, rank f.1 ≠ rank k) ∧ e.1 = k) := by
  induction es with
  | nil =>
    obtain rfl := List.mem_singleton.1 he
    exact .inr ⟨rfl, rfl, .inr ⟨by simp, rfl⟩⟩
  | cons f es ih =>
    obtain ⟨hf, hes⟩ := List.forall_mem_cons.1 halike
    obtain ⟨hne, hn⟩ := List.nodup_cons.1 hn
    unfold assign at he
    split at he
    · rename_i ha
      rcases List.mem_cons.1 he with rfl | he
      · exact .inr ⟨rfl, (hf.1 ha).symm, .inl ⟨f, List.mem_cons_self, rfl⟩⟩
      · refine .inl ⟨List.mem_cons_of_mem _ he, fun hr => hne ?_⟩
        have hmem := List.mem_map_of_mem (f := fun e : Value × Value => rank e.1) he
        rwa [hr, hf.1 ha] at hmem
    · rename_i ha
      have hfk : rank f.1 ≠ rank k := fun hr => ha (hf.2 hr.symm)
      rcases List.mem_cons.1 he with rfl | he
      · exact .inl ⟨List.mem_cons_self, hfk⟩
      · rcases ih hes hn he with ⟨hm, hr⟩ | ⟨hv, hr, ⟨g, hg, hk⟩ | ⟨hall, hk⟩⟩
        · exact .inl ⟨List.mem_cons_of_mem _ hm, hr⟩
        · exact .inr ⟨hv, hr, .inl ⟨g, List.mem_cons_of_mem _ hg, hk⟩⟩
        · exact .inr ⟨hv, hr, .inr ⟨List.forall_mem_cons.2 ⟨hfk, hall⟩, hk⟩⟩

end

variable [LinearOrder β]

/-- Entries bind the keys of pairs: there is one for each rank, its key is that of the first pair of
the rank, and its value that of the last. -/
structure Binds (rank : Value → β) (pairs es : List (Value × Value)) : Prop where
  covers : ∀ p ∈ pairs, ∃ e ∈ es, rank e.1 = rank p.1
  first : ∀ e ∈ es, ∃ p, (fiber (fun p => rank p.1) (rank e.1) pairs).head? = some p ∧ e.1 = p.1
  last : ∀ e ∈ es, ∃ p, (fiber (fun p => rank p.1) (rank e.1) pairs).getLast? = some p ∧ e.2 = p.2

theorem Binds.mem_keys (h : Binds rank pairs es) {e : Value × Value} (he : e ∈ es) :
    ∃ p ∈ pairs, e.1 = p.1 := by
  obtain ⟨p, hp, hk⟩ := h.first e he
  exact ⟨p, (List.mem_filter.1 (List.mem_of_head? hp)).1, hk⟩

theorem Binds.assign (h : Binds rank pairs es)
    (halike : ∀ e ∈ es, k.alike e.1 = true ↔ rank k = rank e.1)
    (hn : (es.map fun e => rank e.1).Nodup) (v : Value) :
    Binds rank (pairs ++ [(k, v)]) (assign k v es) := by
  have hold : ∀ {r}, r ≠ rank k → fiber (fun p : Value × Value => rank p.1) r (pairs ++ [(k, v)]) =
      fiber (fun p => rank p.1) r pairs := by
    intro r hr
    simp [fiber, hr.symm]
  have hnew : ∀ {r}, r = rank k → fiber (fun p : Value × Value => rank p.1) r (pairs ++ [(k, v)]) =
      fiber (fun p => rank p.1) r pairs ++ [(k, v)] := by
    rintro _ rfl
    simp [fiber]
  refine ⟨fun p hp => ?_, fun e he => ?_, fun e he => ?_⟩
  · rcases List.mem_append.1 hp with hp | hp
    · obtain ⟨e, he, hr⟩ := h.covers p hp
      obtain ⟨f, hf, hk⟩ := exists_key_mem_assign k v he
      exact ⟨f, hf, by rw [hk, hr]⟩
    · rw [List.mem_singleton.1 hp]
      exact exists_mem_assign halike v
  · rcases mem_assign halike hn he with ⟨hes, hr⟩ | ⟨-, hr, ⟨f, hf, hk⟩ | ⟨hall, hk⟩⟩
    · rw [hold hr]
      exact h.first e hes
    · obtain ⟨p, hp, hpk⟩ := h.first f hf
      rw [hnew hr, List.head?_append, hk, hp]
      exact ⟨p, rfl, hpk⟩
    · have hempty : fiber (fun p : Value × Value => rank p.1) (rank e.1) pairs = [] := by
        refine fiber_eq_nil fun p hp hpr => ?_
        obtain ⟨f, hf, hfr⟩ := h.covers p hp
        exact hall f hf (hfr.trans (hpr.trans hr))
      rw [hnew hr, hempty]
      exact ⟨(k, v), rfl, hk⟩
  · rcases mem_assign halike hn he with ⟨hes, hr⟩ | ⟨hv, hr, -⟩
    · rw [hold hr]
      exact h.last e hes
    · rw [hnew hr, List.getLast?_concat]
      exact ⟨(k, v), rfl, hv⟩

theorem binds_ofPairs (halike : ∀ p ∈ pairs, ∀ q ∈ pairs,
    p.1.alike q.1 = true ↔ rank p.1 = rank q.1) : Binds rank pairs (ofPairs pairs) := by
  induction pairs using List.reverseRecOn with
  | nil => exact ⟨by simp, by simp [ofPairs], by simp [ofPairs]⟩
  | append_singleton pairs p ih =>
    have h := ih fun p hp q hq => halike p (List.mem_append_left _ hp) q (List.mem_append_left _ hq)
    have hofPairs : ofPairs (pairs ++ [p]) = assign p.1 p.2 (ofPairs pairs) := by
      simp [ofPairs, List.foldl_append]
    rw [hofPairs]
    refine h.assign (fun e he => ?_) ?_ p.2
    · obtain ⟨q, hq, hk⟩ := h.mem_keys he
      rw [hk]
      exact halike p (by simp) q (List.mem_append_left _ hq)
    · have hd := distinct_ofPairs pairs
      rw [Distinct, List.pairwise_map] at hd
      rw [List.Nodup, List.pairwise_map]
      refine hd.imp_of_mem fun {e f} he hf hne hr => ?_
      obtain ⟨p₁, hp₁, hk₁⟩ := h.mem_keys he
      obtain ⟨p₂, hp₂, hk₂⟩ := h.mem_keys hf
      rw [hk₁, hk₂] at hne hr
      rw [(halike p₂ (List.mem_append_left _ hp₂) p₁ (List.mem_append_left _ hp₁)).2 hr.symm] at hne
      cases hne

end Value

theorem sameFibers_of_arrangeEntries {α β : Type} [LinearOrder β] {family : Value → Prop}
    {rank : Value → β} (hr : Value.IsRank family rank) {config : Config}
    {pairs arranged : List (Value × α)} (h : ∀ p ∈ pairs, family p.1)
    (ha : arrangeEntries config pairs = some arranged) :
    SameFibers (fun p => rank p.1) arranged pairs := by
  unfold arrangeEntries at ha
  split at ha
  · obtain ⟨_, hs, -, hf⟩ := sort?_eq (hr.ranks h)
    obtain rfl := Option.some.inj (ha.symm.trans hs)
    exact hf
  · cases ha
    exact .refl _

end RecordWire
