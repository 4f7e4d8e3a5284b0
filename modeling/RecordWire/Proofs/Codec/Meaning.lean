import Mathlib.Data.List.Perm.Basic
import RecordWire.Proofs.Codec.Binding
import RecordWire.Proofs.Codec.RoundTrip

/-!
What an encoding means does not depend on whether keys are sorted. A map may be given as pairs in
which keys come again; both encodings then bind a key to the value of its last pair, though they put
the pairs in different orders. The two are compared through what a given value means: a relation
between given and decoded values in which the order of pairs with different keys has no part.
-/

namespace RecordWire

open Reader (SpellAll SpellPair)
open Sorting

/-- The text has no surrogates, so every encoding that takes it gives it back. -/
abbrev Text.Plain (t : Text) : Prop := t.hasSurrogate = false

mutual

/-- A value of canonical parts, in which maps are given as anything with pairs, and a key may come
again. -/
def Layout.Given : Codec → Value → Prop
  | .primitive p, v => p.Canonical Text.Plain v
  | .rgb565, v => Layout.rgb565.Canonical v
  | .list element, v => ∃ items, v = .list items ∧ ∀ x ∈ items, element.Given x
  | .map key value, v => ∃ pairs, v.pairs = .ok pairs ∧
      ∀ p ∈ pairs, key.CanonicalKey Text.Plain p.1 ∧ value.Given p.2
  | .record type, v => type.Given v

/-- A record of exactly the type, with such a value for each field. -/
def RecordLayout.Given : RecordType → Value → Prop
  | ⟨id, className, typeName, bases, fields⟩, v => ∃ head values, v = .record head values ∧
      head.type = ⟨id, className, typeName, bases, fields⟩ ∧ fieldsGiven fields values

def fieldsGiven : List Field → List Value → Prop
  | [], values => values = []
  | ⟨_, layout, _⟩ :: fields, values => ∃ v vs, values = v :: vs ∧ layout.Given v ∧
      fieldsGiven fields vs

end

/-- The pairs with a key equal to another, in their order. -/
def Value.sharing (k : Value) (pairs : List (Value × Value)) : List (Value × Value) :=
  pairs.filter fun p => p.1.equal k

/-- What pairs mean: there is one entry for each of their keys, with the key as it is spelled in its
first pair and a value that the value of its last pair means. -/
structure Value.PairsMean (means : Value → Value → Prop) (pairs entries : List (Value × Value)) :
    Prop where
  distinct : Value.Distinct (entries.map (·.1))
  covers : ∀ p ∈ pairs, ∃ e ∈ entries, p.1.equal e.1 = true
  bound : ∀ e ∈ entries, ∃ first last, (Value.sharing e.1 pairs).head? = some first ∧
    (Value.sharing e.1 pairs).getLast? = some last ∧ e.1 = first.1.fresh ∧ means last.2 e.2

mutual

/-- What a given value means, as a decoded one. -/
def Layout.Means : Codec → Value → Value → Prop
  | .primitive _, v, w => ∃ a b, v = .atom a ∧ w = .atom b ∧ a.Agrees b
  | .rgb565, v, w => v = w
  | .list element, v, w => ∃ xs ys, v = .list xs ∧ w = .list ys ∧
      List.Forall₂ (fun x y => element.Means x y) xs ys
  | .map _ value, v, w => ∃ pairs entries, v.pairs = .ok pairs ∧ w = .dict entries ∧
      Value.PairsMean (fun x y => value.Means x y) pairs entries
  | .record type, v, w => type.Means v w

def RecordLayout.Means : RecordType → Value → Value → Prop
  | ⟨id, className, typeName, bases, fields⟩, v, w => ∃ head xs ys, v = .record head xs ∧
      w = .newRecord ⟨id, className, typeName, bases, fields⟩ ys ∧ fieldsMean fields xs ys

def fieldsMean : List Field → List Value → List Value → Prop
  | [], xs, ys => xs = [] ∧ ys = []
  | ⟨_, layout, _⟩ :: fields, xs, ys => ∃ x xs' y ys', xs = x :: xs' ∧ ys = y :: ys' ∧
      layout.Means x y ∧ fieldsMean fields xs' ys'

end

section

variable {type : RecordType} {f : Field} {fields : List Field} {v w : Value} {xs ys : List Value}

theorem RecordLayout.given_iff : type.Given v ↔ ∃ head values, v = .record head values ∧
    head.type = type ∧ fieldsGiven type.fields values := by
  cases type
  exact Iff.rfl

theorem fieldsGiven_cons : fieldsGiven (f :: fields) xs ↔ ∃ v vs, xs = v :: vs ∧
    f.layout.Given v ∧ fieldsGiven fields vs := by
  cases f
  exact Iff.rfl

theorem RecordLayout.means_iff : type.Means v w ↔ ∃ head xs ys, v = .record head xs ∧
    w = .newRecord type ys ∧ fieldsMean type.fields xs ys := by
  cases type
  exact Iff.rfl

theorem fieldsMean_cons : fieldsMean (f :: fields) xs ys ↔ ∃ x xs' y ys', xs = x :: xs' ∧
    ys = y :: ys' ∧ f.layout.Means x y ∧ fieldsMean fields xs' ys' := by
  cases f
  exact Iff.rfl

end

variable {config : Config} {bs : Bytes} {v w : Value}

/-- Whatever is written of a given value spells what the value means. -/
def Layout.IsMeant (config : Config) (codec : Codec) : Prop :=
  ∀ bs v, codec.Given v → (codec.write config v).Writes bs →
    ∃ w, codec.Spells config.byteOrder config.encoding bs w ∧ codec.Means v w

theorem Layout.isMeant_list {element : Codec} (hsized : element.isSized = true)
    (ih : element.IsMeant config) : (Layout.list element).IsMeant config := by
  rintro bs v ⟨items, rfl, hitems⟩ hw
  obtain ⟨hn, body, rfl, hbody⟩ := writes_list.1 hw
  obtain ⟨ps, rfl, hps⟩ := hbody.exists_partners fun cs x hx hcs => ih cs x (hitems x hx) hcs
  have hspells : SpellAll (fun cs x => element.Spells config.byteOrder config.encoding cs x) body
      (ps.map (·.2)) := (hps.mono fun _ _ _ hp => hp.1).map
  have hlength : (ps.map (·.1)).length = (ps.map (·.2)).length := by simp
  rw [hlength] at hn ⊢
  refine ⟨.list (ps.map (·.2)), ⟨hsized, body, _, hn, rfl, hspells, rfl⟩, _, _, rfl, rfl, ?_⟩
  rw [List.forall₂_map_left_iff, List.forall₂_map_right_iff, List.forall₂_same]
  intro p hp
  obtain ⟨_, -, hmeans⟩ := hps.exists_of_mem hp
  exact hmeans

section

variable {β : Type} [LinearOrder β] {rank : Value → β} {text : Text → Prop} {key : Primitive}
  {pairs : List (Value × Value)} {k : Value}

theorem Primitive.rank_fresh (hr : Value.IsRank (key.CanonicalKey text) rank)
    (h : key.CanonicalKey text k) : rank k.fresh = rank k := by
  have hfresh : k.fresh.fresh = k.fresh := by
    rcases k.fresh_cases with hk | ⟨x, object, rfl⟩
    · rw [hk, hk]
    · rfl
  rw [← hr.equal h.fresh h, ← Value.equal_fresh, hfresh]
  exact (hr.equal h.fresh h.fresh).2 rfl

theorem sharing_eq_fiber (hr : Value.IsRank (key.CanonicalKey text) rank)
    (hk : key.CanonicalKey text k) (h : ∀ p ∈ pairs, key.CanonicalKey text p.1) :
    Value.sharing k pairs = fiber (fun p => rank p.1) (rank k) pairs := by
  refine List.filter_congr fun p hp => ?_
  rw [Bool.eq_iff_iff, decide_eq_true_iff]
  exact hr.equal (h p hp) hk

theorem pairsMean_ofPairs (hr : Value.IsRank (key.CanonicalKey text) rank)
    (h : ∀ p ∈ pairs, key.CanonicalKey text p.1) {ps : List ((Value × Value) × (Value × Value))}
    (hf : SameFibers (fun p => rank p.1) (ps.map (·.1)) pairs) {means : Value → Value → Prop}
    (hps : ∀ p ∈ ps, p.2.1 = p.1.1.fresh ∧ means p.1.2 p.2.2) :
    Value.PairsMean means pairs (Value.ofPairs (ps.map (·.2))) := by
  have hcanonical : ∀ p ∈ ps, key.CanonicalKey text p.1.1 := fun p hp =>
    h p.1 (hf.perm.mem_iff.1 (List.mem_map_of_mem hp))
  have hrank : ∀ p ∈ ps, rank p.2.1 = rank p.1.1 := fun p hp => by
    rw [(hps p hp).1, Primitive.rank_fresh hr (hcanonical p hp)]
  have hbinds : Value.Binds rank (ps.map (·.2)) (Value.ofPairs (ps.map (·.2))) := by
    refine Value.binds_ofPairs (List.forall_mem_map.2 fun p hp => List.forall_mem_map.2 fun q hq => ?_)
    rw [hrank p hp, hrank q hq, (hps p hp).1, (hps q hq).1, (hcanonical p hp).alike_fresh]
    exact hr.equal (hcanonical p hp) (hcanonical q hq)
  have hdecoded : ∀ r, fiber (fun p : Value × Value => rank p.1) r (ps.map (·.2)) =
      (fiber (fun p => rank p.1.1) r ps).map (·.2) := by
    intro r
    rw [fiber, List.filter_map, fiber]
    congr 1
    exact List.filter_congr fun p hp => by simp [hrank p hp]
  have hgiven : ∀ r, fiber (fun p => rank p.1) r pairs =
      (fiber (fun p => rank p.1.1) r ps).map (·.1) := by
    intro r
    rw [← hf r, fiber, List.filter_map, fiber]
    rfl
  have hkey : ∀ e ∈ Value.ofPairs (ps.map (·.2)), key.CanonicalKey text e.1 := by
    intro e he
    obtain ⟨_, hq, hk⟩ := hbinds.mem_keys he
    obtain ⟨p, hp, rfl⟩ := List.mem_map.1 hq
    rw [hk, (hps p hp).1]
    exact (hcanonical p hp).fresh
  refine ⟨Value.distinct_ofPairs _, fun p hp => ?_, fun e he => ?_⟩
  · obtain ⟨q, hq, rfl⟩ := List.mem_map.1 (hf.perm.mem_iff.2 hp)
    obtain ⟨e, he, hre⟩ := hbinds.covers q.2 (List.mem_map_of_mem hq)
    refine ⟨e, he, (hr.equal (hcanonical q hq) (hkey e he)).2 ?_⟩
    rw [hre, hrank q hq]
  · rw [sharing_eq_fiber hr (hkey e he) h, hgiven]
    obtain ⟨_, hfirst, hk⟩ := hbinds.first e he
    obtain ⟨_, hlast, hv⟩ := hbinds.last e he
    rw [hdecoded] at hfirst hlast
    rw [List.head?_map] at hfirst ⊢
    rw [List.getLast?_map] at hlast ⊢
    obtain ⟨p, hp, rfl⟩ := Option.map_eq_some_iff.1 hfirst
    obtain ⟨q, hq, rfl⟩ := Option.map_eq_some_iff.1 hlast
    have hmem := (List.mem_filter.1 (List.mem_of_head? hp)).1
    have hmem' := (List.mem_filter.1 (List.mem_of_getLast? hq)).1
    refine ⟨p.1, q.1, by rw [hp, Option.map_some], by rw [hq, Option.map_some], ?_, ?_⟩
    · rw [hk, (hps p hmem).1]
    · rw [hv]
      exact (hps q hmem').2

end

theorem Layout.isMeant_map {key : Primitive} {value : Codec} (hsized : value.isSized = true)
    (ih : value.IsMeant config) : (Layout.map key value).IsMeant config := by
  rintro bs v ⟨pairs, hv, hpairs⟩ hw
  obtain ⟨arranged, ha, hn, body, rfl, hbody⟩ := (writes_map hv).1 hw
  obtain ⟨β, _, rank, hr⟩ := key.exists_rank Text.Plain
  have hkeys : ∀ p ∈ pairs, key.CanonicalKey Text.Plain p.1 := fun p hp => (hpairs p hp).1
  have hf := sameFibers_of_arrangeEntries hr hkeys ha
  obtain ⟨ps, rfl, hps⟩ := hbody.exists_partners
    (S := fun cs e f => SpellPair (key.Spells config.byteOrder config.encoding)
      (value.Spells config.byteOrder config.encoding) cs f ∧ f.1 = e.1.fresh ∧ value.Means e.2 f.2)
    fun cs e he hcs => by
      obtain ⟨hk, hx⟩ := hpairs e (hf.perm.mem_iff.1 he)
      obtain ⟨ks, ws, rfl, hks, hws⟩ := hcs
      obtain ⟨k, hspell, -, -, hfresh⟩ :=
        Primitive.exists_returns (hk.1.mono fun _ => Encoding.recovers_of_hasSurrogate) hks
      obtain ⟨x, hspell', hmeans⟩ := ih ws e.2 hx hws
      exact ⟨(k, x), ⟨ks, ws, rfl, hspell, hspell'⟩, hfresh hk.2, hmeans⟩
  have hspells : SpellAll (SpellPair (key.Spells config.byteOrder config.encoding)
      fun cs x => value.Spells config.byteOrder config.encoding cs x) body (ps.map (·.2)) :=
    (hps.mono fun _ _ _ hp => hp.1).map
  have hlength : (ps.map (·.1)).length = (ps.map (·.2)).length := by simp
  rw [hlength] at hn ⊢
  refine ⟨_, ⟨hsized, body, _, hn, rfl, hspells, rfl⟩, pairs, _, hv, rfl, ?_⟩
  exact pairsMean_ofPairs hr hkeys hf fun p hp => (hps.exists_of_mem hp).elim fun _ h => h.2

theorem exists_fieldsMean {fields : List Field} (ih : ∀ f ∈ fields, f.layout.IsMeant config)
    {values : List Value} (hg : fieldsGiven fields values)
    (hw : (writeFields config fields values).Writes bs) :
    ∃ ws, fieldsSpell config.byteOrder config.encoding fields bs ws ∧
      fieldsMean fields values ws := by
  induction fields generalizing bs values with
  | nil =>
    obtain rfl := hg
    exact ⟨[], ⟨Output.writes_empty.1 hw, rfl⟩, rfl, rfl⟩
  | cons f fields ihs =>
    obtain ⟨v, vs, rfl, hv, hvs⟩ := fieldsGiven_cons.1 hg
    obtain ⟨cs, ds, rfl, hcs, hds⟩ := writes_fields_cons.1 hw
    obtain ⟨w, hspell, hmeans⟩ := ih f List.mem_cons_self cs v hv hcs
    obtain ⟨ws, hspells, hmean⟩ := ihs (fun g hg => ih g (List.mem_cons_of_mem _ hg)) hvs hds
    exact ⟨w :: ws, fieldsSpell_cons.2 ⟨cs, ds, w, ws, rfl, rfl, hspell, hspells⟩,
      fieldsMean_cons.2 ⟨v, vs, w, ws, rfl, rfl, hmeans, hmean⟩⟩

theorem Layout.isMeant_record {type : RecordType} (hread : type.isFillable = true)
    (ih : ∀ f ∈ type.fields, f.layout.IsMeant config) : (Layout.record type).IsMeant config := by
  intro bs v hg hw
  obtain ⟨head, values, rfl, ht, hfields⟩ := RecordLayout.given_iff.1 hg
  obtain ⟨-, hshown, hw⟩ := (writes_record ht).1 hw
  rw [RecordHead.hides, Bool.or_eq_false_iff, ht] at hshown
  obtain ⟨ws, hspells, hmean⟩ := exists_fieldsMean ih hfields hw
  exact ⟨.newRecord type ws, ⟨hread, RecordLayout.spells_iff.2 ⟨hshown.1, ws, hspells, rfl⟩⟩,
    RecordLayout.means_iff.2 ⟨head, values, ws, rfl, rfl, hmean⟩⟩

theorem Layout.isMeant (config : Config) {codec : Codec} (hr : codec.isReadable = true) :
    codec.IsMeant config := by
  induction codec using Layout.induct with
  | primitive p =>
    intro bs v hg hw
    rw [write_primitive] at hw
    obtain ⟨w, hspells, hagrees, -⟩ :=
      Primitive.exists_returns (hg.mono fun _ => Encoding.recovers_of_hasSurrogate) hw
    obtain ⟨a, rfl⟩ := hg.exists_atom
    cases hagrees with
    | atom h => exact ⟨_, hspells, a, _, rfl, rfl, h⟩
  | rgb565 => exact fun bs v hg hw => ⟨v, (returns_colour hg hw).1, rfl⟩
  | list element ih =>
    simp only [isReadable, every, Bool.and_eq_true] at hr
    exact isMeant_list hr.1 (ih hr.2)
  | map key value ih =>
    simp only [isReadable, every, Bool.and_eq_true] at hr
    exact isMeant_map hr.1 (ih hr.2)
  | record type ih =>
    simp only [isReadable, every, Bool.and_eq_true, RecordLayout.every_eq_true] at hr
    exact isMeant_record (by simpa [canRead] using hr.1) fun f hf => ih f hf (hr.2 f hf)

theorem Atom.Agrees.both {a b c : Atom} (hb : a.Agrees b) (hc : a.Agrees c) : b.Agrees c := by
  cases a with
  | float x object =>
    cases b with
    | float y i =>
      cases c with
      | float z j =>
        rcases hb with rfl | ⟨hx, hy⟩
        · exact hc
        · rcases hc with rfl | ⟨-, hz⟩
          · exact .inr ⟨hy, hx⟩
          · exact .inr ⟨hy, hz⟩
      | _ => cases hc
    | _ => cases hb
  | _ =>
    cases hb
    cases hc
    exact .refl _

namespace Value

theorem agreeAll_of_forall₂ {means : Value → Value → Prop} {xs ys zs : List Value}
    (hy : List.Forall₂ means xs ys) (hz : List.Forall₂ means xs zs)
    (h : ∀ x ∈ xs, ∀ y z, means x y → means x z → y.Agrees z) : AgreeAll ys zs := by
  induction hy generalizing zs with
  | nil =>
    cases hz
    exact .nil
  | cons head tail ih =>
    cases hz with
    | cons head' tail' =>
      obtain ⟨hx, hxs⟩ := List.forall_mem_cons.1 h
      exact .cons (hx _ _ head head') (ih tail' hxs)

theorem agreeEntries_of_keys {es fs : List (Value × Value)} (hk : es.map (·.1) = fs.map (·.1))
    (h : ∀ e ∈ es, ∀ f ∈ fs, e.1 = f.1 → e.1.Agrees f.1 ∧ e.2.Agrees f.2) :
    AgreeEntries es fs := by
  induction es generalizing fs with
  | nil =>
    obtain rfl := List.map_eq_nil_iff.1 hk.symm
    exact .nil
  | cons e es ih =>
    obtain ⟨f, fs, rfl, hkey, hkeys⟩ := List.map_eq_cons_iff.1 hk.symm
    obtain ⟨hkey', hvalue⟩ := h e List.mem_cons_self f List.mem_cons_self hkey.symm
    exact .cons hkey' hvalue (ih hkeys.symm fun e he f hf =>
      h e (List.mem_cons_of_mem _ he) f (List.mem_cons_of_mem _ hf))

namespace PairsMean

variable {means : Value → Value → Prop} {pairs es fs : List (Value × Value)} {key : Primitive}
  {text : Text → Prop}

theorem canonicalKey (h : PairsMean means pairs es) (hkeys : ∀ p ∈ pairs, key.CanonicalKey text p.1)
    {e : Value × Value} (he : e ∈ es) : key.CanonicalKey text e.1 := by
  obtain ⟨first, -, hfirst, -, hk, -⟩ := h.bound e he
  rw [hk]
  exact (hkeys first (List.mem_filter.1 (List.mem_of_head? hfirst)).1).fresh

/-- Every key that one dictionary has for the pairs the other one has too, in the same spelling. -/
theorem exists_key (h : PairsMean means pairs es) (h' : PairsMean means pairs fs)
    (hkeys : ∀ p ∈ pairs, key.CanonicalKey text p.1) {e : Value × Value} (he : e ∈ es) :
    e.1 ∈ fs.map (·.1) := by
  obtain ⟨β, _, rank, hr⟩ := key.exists_rank text
  obtain ⟨first, -, hfirst, -, hk, -⟩ := h.bound e he
  obtain ⟨hmem, heq⟩ := List.mem_filter.1 (List.mem_of_head? hfirst)
  obtain ⟨f, hf, heq'⟩ := h'.covers first hmem
  obtain ⟨first', -, hfirst', -, hk', -⟩ := h'.bound f hf
  have hrank : rank e.1 = rank f.1 :=
    ((hr.equal (hkeys first hmem) (h.canonicalKey hkeys he)).1 heq).symm.trans
      ((hr.equal (hkeys first hmem) (h'.canonicalKey hkeys hf)).1 heq')
  rw [sharing_eq_fiber hr (h.canonicalKey hkeys he) hkeys, hrank] at hfirst
  rw [sharing_eq_fiber hr (h'.canonicalKey hkeys hf) hkeys] at hfirst'
  obtain rfl := Option.some.inj (hfirst.symm.trans hfirst')
  rw [hk, ← hk']
  exact List.mem_map_of_mem hf

theorem nodup_keys (h : PairsMean means pairs es)
    (hkeys : ∀ p ∈ pairs, key.CanonicalKey text p.1) : (es.map (·.1)).Nodup := by
  obtain ⟨β, _, rank, hr⟩ := key.exists_rank text
  exact (hr.nodup (List.forall_mem_map.2 fun e he => h.canonicalKey hkeys he) h.distinct).of_map

theorem agrees (h : PairsMean means pairs es) (h' : PairsMean means pairs fs)
    (hkeys : ∀ p ∈ pairs, key.CanonicalKey text p.1)
    (ih : ∀ p ∈ pairs, ∀ y z, means p.2 y → means p.2 z → y.Agrees z) :
    (dict es).Agrees (dict fs) := by
  have hperm : (fs.map (·.1)).Perm (es.map (·.1)) := by
    refine (List.perm_ext_iff_of_nodup (h'.nodup_keys hkeys) (h.nodup_keys hkeys)).2 fun k => ?_
    constructor
    · intro hk
      obtain ⟨f, hf, rfl⟩ := List.mem_map.1 hk
      exact h'.exists_key h hkeys hf
    · intro hk
      obtain ⟨e, he, rfl⟩ := List.mem_map.1 hk
      exact h.exists_key h' hkeys he
  obtain ⟨gs, hgs, hp⟩ : ∃ gs : List (Value × Value), fs.map (·.1) = gs.map (·.1) ∧ gs.Perm es := by
    have hcomp := List.eq_map_comp_perm (α := Value × Value) (·.1)
    have := congrFun (congrFun hcomp (fs.map (·.1))) es
    exact this.mpr hperm
  refine .dict hp.symm (agreeEntries_of_keys hgs.symm fun e he f hf hk => ?_)
  obtain ⟨_, last, -, hlast, -, hmeans⟩ := h.bound e (hp.mem_iff.1 he)
  obtain ⟨_, last', -, hlast', -, hmeans'⟩ := h'.bound f hf
  rw [hk] at hlast
  obtain rfl := Option.some.inj (hlast.symm.trans hlast')
  obtain ⟨a, ha⟩ := (h.canonicalKey hkeys (hp.mem_iff.1 he)).1.exists_atom
  refine ⟨?_, ih last (List.mem_filter.1 (List.mem_of_getLast? hlast)).1 _ _ hmeans hmeans'⟩
  rw [← hk, ha]
  exact .atom (.refl a)

end PairsMean

end Value

theorem agreeAll_of_fieldsMean {fields : List Field}
    (ih : ∀ f ∈ fields, ∀ v w w', f.layout.Given v → f.layout.Means v w → f.layout.Means v w' →
      w.Agrees w') {xs ys zs : List Value} (hg : fieldsGiven fields xs)
    (hy : fieldsMean fields xs ys) (hz : fieldsMean fields xs zs) : Value.AgreeAll ys zs := by
  induction fields generalizing xs ys zs with
  | nil =>
    obtain ⟨-, rfl⟩ := hy
    obtain ⟨-, rfl⟩ := hz
    exact .nil
  | cons f fields ihs =>
    obtain ⟨x, xs, rfl, hx, hxs⟩ := fieldsGiven_cons.1 hg
    obtain ⟨_, _, y, ys, he, rfl, hxy, hys⟩ := fieldsMean_cons.1 hy
    cases he
    obtain ⟨_, _, z, zs, he, rfl, hxz, hzs⟩ := fieldsMean_cons.1 hz
    cases he
    exact .cons (ih f List.mem_cons_self x y z hx hxy hxz)
      (ihs (fun g hg => ih g (List.mem_cons_of_mem _ hg)) hxs hys hzs)

theorem Layout.agrees_of_means {codec : Codec} {w' : Value} (hg : codec.Given v)
    (h : codec.Means v w) (h' : codec.Means v w') : w.Agrees w' := by
  induction codec using Layout.induct generalizing v w w' with
  | primitive p =>
    obtain ⟨a, b, rfl, rfl, hb⟩ := h
    obtain ⟨_, c, he, rfl, hc⟩ := h'
    cases he
    exact .atom (hb.both hc)
  | rgb565 =>
    obtain rfl := h
    obtain rfl := h'
    obtain ⟨r, g, b, -, -, -, rfl⟩ := hg
    exact .tuple (.cons (.atom rfl) (.cons (.atom rfl) (.cons (.atom rfl) .nil)))
  | list element ih =>
    obtain ⟨xs, rfl, hxs⟩ := hg
    obtain ⟨_, ys, he, rfl, hy⟩ := h
    cases he
    obtain ⟨_, zs, he, rfl, hz⟩ := h'
    cases he
    exact .list (Value.agreeAll_of_forall₂ hy hz fun x hx y z => ih (hxs x hx))
  | map key value ih =>
    obtain ⟨pairs, hv, hpairs⟩ := hg
    obtain ⟨_, es, he, rfl, hes⟩ := h
    cases hv.symm.trans he
    obtain ⟨_, fs, he, rfl, hfs⟩ := h'
    cases hv.symm.trans he
    exact hes.agrees hfs (fun p hp => (hpairs p hp).1) fun p hp y z => ih (hpairs p hp).2
  | record type ih =>
    obtain ⟨_, xs, rfl, ht, hxs⟩ := RecordLayout.given_iff.1 hg
    obtain ⟨_, _, ys, he, rfl, hys⟩ := RecordLayout.means_iff.1 h
    cases he
    obtain ⟨_, _, zs, he, rfl, hzs⟩ := RecordLayout.means_iff.1 h'
    cases he
    exact .record rfl (agreeAll_of_fieldsMean (fun f hf v w w' => ih f hf) hxs hys hzs)

end RecordWire
