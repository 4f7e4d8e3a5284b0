import RecordWire.Codec.Plain
import RecordWire.Proofs.Codec.Retraction
import RecordWire.Proofs.Codec.Size
import RecordWire.Service.Basic
import RecordWire.Value.Listing

/-!
Records as plain data and back. What reading returns is made into dictionaries and lists and comes back
from them as a value that agrees with it, and as the very same value if it has just been read. The
induction is over the layout; what carries it is that the keys of a map stay apart on the way.
-/

namespace RecordWire

open Reader (SpellPair)

/-- A value that reading a primitive may return; a number may be any object. -/
def Primitive.Decoded : Primitive → Value → Prop
  | int kind, v => ∃ n, kind.holds n = true ∧ v = .int n
  | float, v => ∃ x object, v = .atom (.float x object) ∧
      (x.isNaN = true ∨ ∃ bits, x = .ofSingle bits)
  | double, v => ∃ x object, v = .atom (.float x object)
  | bool, v => ∃ b, v = .bool b
  | char, v => ∃ c : CodePoint, c.val < 0x100 ∧ v = .text [c]
  | string, v => ∃ t, v = .text t

/-- A value that reading with a layout may return. Records may be any objects of exactly their types,
and the keys of a map may be NaN. -/
inductive Layout.Decoded : Codec → Value → Prop
  | primitive {p : Primitive} {v : Value} (h : p.Decoded v) : Decoded (.primitive p) v
  | rgb565 {r g b : Nat} (hr : r < 2 ^ 5) (hg : g < 2 ^ 6) (hb : b < 2 ^ 5) :
    Decoded .rgb565 (.tuple [.int r, .int g, .int b])
  | list {element : Codec} {items : List Value} (h : ∀ x ∈ items, element.Decoded x) :
    Decoded (.list element) (.list items)
  | map {key : Primitive} {value : Codec} {entries : List (Value × Value)}
    (hd : Value.Distinct (entries.map (·.1))) (hk : ∀ e ∈ entries, key.Decoded e.1)
    (hv : ∀ e ∈ entries, value.Decoded e.2) : Decoded (.map key value) (.dict entries)
  | record {type : RecordType} {head : RecordHead Value} {values : List Value}
    (ht : head.type = type) (hl : values.length = type.fields.length)
    (h : ∀ p ∈ type.fields.zip values, p.1.layout.Decoded p.2) :
    Decoded (.record type) (.record head values)

/-- Whether all numbers and records in a value are objects of their own, and nothing but fields was
set on the records. -/
def Value.isNew (v : Value) : Bool :=
  v.every fun
    | .atom (.float _ object) => object == 0
    | .record head _ => head.object == 0 && head.others.isEmpty
    | _ => true

section

variable {ε : Type} [TextEncoding ε] {order : ByteOrder} {encoding : ε} {bs : Bytes} {v : Value}

theorem Primitive.decoded_of_spells {p : Primitive} (h : p.Spells order encoding bs v) :
    p.Decoded v ∧ v.isNew = true := by
  cases p with
  | string =>
    obtain ⟨payload, t, -, -, -, rfl⟩ := h
    exact ⟨⟨t, rfl⟩, rfl⟩
  | int kind =>
    obtain ⟨hl, hv⟩ := h
    obtain rfl := Option.some.inj hv
    exact ⟨⟨_, IntKind.holds_ofOctets ((ByteOrder.length_arrange _ _).trans hl), rfl⟩, rfl⟩
  | float =>
    obtain ⟨-, hv⟩ := h
    obtain rfl := Option.some.inj hv
    exact ⟨⟨_, _, rfl, .inr ⟨_, rfl⟩⟩, rfl⟩
  | double =>
    obtain ⟨-, hv⟩ := h
    obtain rfl := Option.some.inj hv
    exact ⟨⟨_, _, rfl⟩, rfl⟩
  | bool =>
    obtain ⟨-, hv⟩ := h
    obtain rfl := Option.some.inj hv
    exact ⟨⟨_, rfl⟩, rfl⟩
  | char =>
    obtain ⟨hl, hv⟩ := h
    obtain rfl := Option.some.inj hv
    have hlt := Octets.toNat_lt (order.arrange bs)
    rw [ByteOrder.length_arrange, hl] at hlt
    change _ < 256 ^ 1 at hlt
    refine ⟨⟨_, ?_, rfl⟩, rfl⟩
    rw [CodePoint.val_ofNat] <;> omega

theorem exists_spells_of_zip {fields : List Field} {values : List Value}
    (h : fieldsSpell order encoding fields bs values) : values.length = fields.length ∧
      ∀ p ∈ fields.zip values, ∃ cs, p.1.layout.Spells order encoding cs p.2 := by
  induction fields generalizing bs values with
  | nil =>
    obtain ⟨-, rfl⟩ := h
    simp
  | cons f fields ih =>
    obtain ⟨cs, ds, v, vs, -, rfl, hv, hvs⟩ := fieldsSpell_cons.1 h
    obtain ⟨hl, hzip⟩ := ih hvs
    refine ⟨by simp [hl], ?_⟩
    rw [List.zip_cons_cons, List.forall_mem_cons]
    exact ⟨⟨cs, hv⟩, hzip⟩

theorem exists_mem_zip {α β : Type} {xs : List α} {ys : List β} (hl : ys.length = xs.length)
    {y : β} (hy : y ∈ ys) : ∃ p ∈ xs.zip ys, p.2 = y := by
  rw [← List.map_snd_zip (Nat.le_of_eq hl)] at hy
  exact List.mem_map.1 hy

theorem RecordLayout.decoded_of_spells {type : RecordType}
    (ih : ∀ f ∈ type.fields, ∀ cs x, f.layout.Spells order encoding cs x →
      f.layout.Decoded x ∧ x.isNew = true) (h : type.Spells order encoding bs v) :
    (Layout.record type).Decoded v ∧ v.isNew = true := by
  obtain ⟨-, values, hvalues, rfl⟩ := spells_iff.1 h
  obtain ⟨hl, hzip⟩ := exists_spells_of_zip hvalues
  have hall : ∀ p ∈ type.fields.zip values, p.1.layout.Decoded p.2 ∧ p.2.isNew = true := by
    intro p hp
    obtain ⟨cs, hcs⟩ := hzip p hp
    exact ih p.1 (List.of_mem_zip hp).1 cs p.2 hcs
  refine ⟨.record rfl hl fun p hp => (hall p hp).1, ?_⟩
  simp only [Value.isNew, Value.every, Value.everyOf_eq_true, Bool.and_eq_true]
  refine ⟨by simp, fun x hx => ?_⟩
  obtain ⟨p, hp, rfl⟩ := exists_mem_zip hl hx
  exact (hall p hp).2

theorem Layout.decoded_of_spells {codec : Codec} (h : codec.Spells order encoding bs v) :
    codec.Decoded v ∧ v.isNew = true := by
  induction codec using Layout.induct generalizing bs v with
  | primitive p =>
    obtain ⟨hd, hn⟩ := Primitive.decoded_of_spells h
    exact ⟨.primitive hd, hn⟩
  | rgb565 =>
    obtain ⟨hl, rfl⟩ := h
    have hlt := Octets.toNat_lt (order.arrange bs)
    rw [ByteOrder.length_arrange, hl] at hlt
    exact ⟨.rgb565 (by omega) (by omega) (by omega), rfl⟩
  | list element ih =>
    obtain ⟨-, body, items, -, -, hitems, rfl⟩ := h
    have hall : ∀ x ∈ items, element.Decoded x ∧ x.isNew = true := by
      intro x hx
      obtain ⟨cs, hcs⟩ := hitems.exists_of_mem hx
      exact ih hcs
    refine ⟨.list fun x hx => (hall x hx).1, ?_⟩
    simp only [Value.isNew, Value.every, Bool.true_and, Value.everyOf_eq_true]
    exact fun x hx => (hall x hx).2
  | map key value ih =>
    obtain ⟨-, body, pairs, -, -, hpairs, rfl⟩ := h
    obtain ⟨_, hentries, -⟩ := Reader.exists_spellAll_ofPairs hpairs
    have hall : ∀ e ∈ Value.ofPairs pairs, (key.Decoded e.1 ∧ e.1.isNew = true) ∧
        value.Decoded e.2 ∧ e.2.isNew = true := by
      intro e he
      obtain ⟨_, ks, xs, -, hk, hx⟩ := hentries.exists_of_mem he
      exact ⟨Primitive.decoded_of_spells hk, ih hx⟩
    refine ⟨.map (Value.distinct_ofPairs pairs) (fun e he => (hall e he).1.1)
      (fun e he => (hall e he).2.1), ?_⟩
    simp only [Value.isNew, Value.every, Bool.true_and, Value.everyOfEntries_eq_true]
    exact fun e he => ⟨(hall e he).1.2, (hall e he).2.2⟩
  | record type ih =>
    obtain ⟨-, hs⟩ := h
    exact RecordLayout.decoded_of_spells (fun f hf _ _ => ih f hf) hs

end

namespace Value

theorem fresh_fresh (v : Value) : v.fresh.fresh = v.fresh := by
  rcases v.fresh_cases with hv | ⟨x, object, rfl⟩
  · rw [hv, hv]
  · rfl

theorem fresh_of_isNew {v : Value} (h : v.isNew = true) : v.fresh = v := by
  rcases v.fresh_cases with hv | ⟨x, object, rfl⟩
  · exact hv
  · simp only [isNew, every, beq_iff_eq] at h
    rw [fresh, h]

theorem agrees_fresh (a : Atom) : (atom a).Agrees (atom a).fresh := by
  cases a with
  | float x object => exact .atom (.inl rfl)
  | _ => exact .atom (.refl _)

theorem same_of_fresh_left {v w : Value} (h : v.fresh.same w = true) : v.same w = true := by
  rcases v.fresh_cases with hv | ⟨x, object, rfl⟩
  · rwa [hv] at h
  · rw [same_fresh_atom] at h
    cases h

theorem same_of_fresh_right {v w : Value} (h : v.same w.fresh = true) : v.same w = true := by
  rcases w.fresh_cases with hw | ⟨x, object, rfl⟩
  · rwa [hw] at h
  · cases v with
    | atom a => cases a <;> simp [fresh, same, Atom.same] at h
    | _ => cases h

theorem alike_of_fresh {v v' w w' : Value} (hv : v' = v ∨ v' = v.fresh)
    (hw : w' = w ∨ w' = w.fresh) (h : v'.alike w' = true) : v.alike w = true := by
  have hequal : v'.equal w' = v.equal w := by
    rw [← equal_fresh v' w', ← equal_fresh v w]
    rcases hv with rfl | rfl <;> rcases hw with rfl | rfl <;> simp only [fresh_fresh]
  have hsame : v'.same w' = true → v.same w = true := by
    rcases hv with rfl | rfl <;> rcases hw with rfl | rfl
    · exact id
    · exact same_of_fresh_right
    · exact same_of_fresh_left
    · exact fun h => same_of_fresh_right (same_of_fresh_left h)
  rw [alike, Bool.or_eq_true, hequal] at h
  rw [alike, Bool.or_eq_true]
  exact h.imp_left hsame

theorem distinct_of_fresh {α : Type} {xs : List α} {f g : α → Value}
    (hf : ∀ x ∈ xs, f x = g x ∨ f x = (g x).fresh) (h : Distinct (xs.map g)) :
    Distinct (xs.map f) := by
  rw [Distinct, List.pairwise_map] at h ⊢
  refine h.imp_of_mem fun {x y} hx hy hxy => ?_
  rw [← Bool.not_eq_true]
  intro ha
  rw [alike_of_fresh (hf y hy) (hf x hx) ha] at hxy
  cases hxy

end Value

theorem Primitive.Decoded.exists_atom {p : Primitive} {v : Value} (h : p.Decoded v) :
    ∃ a, v = .atom a ∧ a.isKey = true := by
  cases p with
  | int =>
    obtain ⟨n, -, rfl⟩ := h
    exact ⟨_, rfl, rfl⟩
  | float =>
    obtain ⟨x, object, rfl, -⟩ := h
    exact ⟨_, rfl, rfl⟩
  | double =>
    obtain ⟨x, object, rfl⟩ := h
    exact ⟨_, rfl, rfl⟩
  | bool =>
    obtain ⟨b, rfl⟩ := h
    exact ⟨_, rfl, rfl⟩
  | char =>
    obtain ⟨c, -, rfl⟩ := h
    exact ⟨_, rfl, rfl⟩
  | string =>
    obtain ⟨t, rfl⟩ := h
    exact ⟨_, rfl, rfl⟩

theorem Primitive.fromPlain_of_decoded {p : Primitive} {v : Value} (h : p.Decoded v) :
    ∃ w, p.fromPlain v = .ok w ∧ (w = v ∨ w = v.fresh) := by
  cases p with
  | int =>
    obtain ⟨n, -, rfl⟩ := h
    exact ⟨_, rfl, .inl rfl⟩
  | float =>
    obtain ⟨x, object, rfl, hx⟩ := h
    have hd : doubleFromPlain float (.atom (.float x object)) = .ok x := rfl
    rw [fromPlain, hd]
    by_cases hn : x.isNaN = true
    · exact ⟨_, if_pos hn, .inl rfl⟩
    · obtain ⟨bits, rfl⟩ := hx.resolve_left hn
      have hnarrow : (Binary64.ofSingle bits).narrow? = some (.ofSingle bits) := by
        rw [Binary64.narrow?, Binary64.toSingle?_ofSingle (Bool.not_eq_true _ ▸ hn), Option.map_some]
      refine ⟨_, (if_neg hn).trans ?_, .inr rfl⟩
      rw [hnarrow]
      rfl
  | double =>
    obtain ⟨x, object, rfl⟩ := h
    exact ⟨_, rfl, .inl rfl⟩
  | bool =>
    obtain ⟨b, rfl⟩ := h
    cases b <;> exact ⟨_, rfl, .inl rfl⟩
  | char =>
    obtain ⟨c, -, rfl⟩ := h
    exact ⟨_, rfl, .inl rfl⟩
  | string =>
    obtain ⟨t, rfl⟩ := h
    exact ⟨_, rfl, .inl rfl⟩

namespace Value

variable {α : Type} {xs : List α} {name : α → Text} {data : α → Value}

theorem lookupText_of_nodup (hn : (xs.map name).Nodup) {x : α} (hx : x ∈ xs) :
    lookupText (name x) (xs.map fun y => (.text (name y), data y)) = some (data x) := by
  induction xs with
  | nil => cases hx
  | cons y ys ih =>
    rw [List.map_cons, List.nodup_cons] at hn
    rw [List.map_cons, lookupText]
    rcases List.mem_cons.1 hx with rfl | hx
    · rw [if_pos rfl]
    · rw [if_neg, ih hn.2 hx]
      intro he
      exact hn.1 (he ▸ List.mem_map_of_mem hx)

end Value

theorem unknownKeys_of_names {α : Type} {xs : List α} {name : α → Text} {data : α → Value}
    {names : List Text} (h : ∀ x ∈ xs, name x ∈ names) :
    unknownKeys names (xs.map fun x => (.text (name x), data x)) = [] := by
  simpa [unknownKeys, List.filter_eq_nil_iff] using h

theorem fieldsFromDict_of_zip {fields : List Field} {values : List Value}
    {entries : List (Value × Value)} {data value : Field × Value → Value}
    (hl : values.length = fields.length)
    (h : ∀ p ∈ fields.zip values, Value.lookupText p.1.name entries = some (data p) ∧
      p.1.layout.fromPlain (data p) = .ok (value p)) :
    fieldsFromDict fields entries = .ok ((fields.zip values).map value) := by
  induction fields generalizing values with
  | nil => rfl
  | cons f fields ih =>
    cases values with
    | nil => cases hl
    | cons v vs =>
      rw [List.zip_cons_cons, List.forall_mem_cons] at h
      obtain ⟨⟨hlookup, hdata⟩, hrest⟩ := h
      obtain ⟨name, layout, default?⟩ := f
      rw [fieldsFromDict]
      simp only at hlookup hdata
      simp only [hlookup, hdata, ih (Nat.succ.inj hl) hrest, Except.map, List.zip_cons_cons,
        List.map_cons]

/-- Whether the fields of every record type in a layout have names of their own, and none the name
that stands for the record itself. -/
def Layout.isNamed (codec : Codec) : Bool :=
  codec.every fun
    | .record type => decide type.fieldNames.Nodup && !type.fieldNames.contains selfName
    | _ => true

def Value.keepsFields : Value → Bool
  | record head _ => (head.others.lookup Operation.fieldsMember).isNone
  | _ => true

/-- Whether all records in a value can be asked for their plain data, and go through their fields then.
-/
def Value.showsToDict (v : Value) : Bool := v.every fun w => !hides .toDict w && w.keepsFields

/-- The operations of a record that making it from plain data uses. -/
def Operation.ofPlain : List Operation := fromDict :: (ofMaking ++ ofTesting)

/-- What plain data mean that were made of a value: the value, as far as numbers go. -/
def Value.Restored (v w : Value) : Prop := v.Agrees w ∧ (v.isNew = true → w = v)

/-- What reading returns can be made into plain data, and comes back from them. -/
def Layout.Restores (codec : Codec) : Prop :=
  ∀ v, codec.Decoded v → v.showsToDict = true → ∃ d w, codec.toPlain v = .ok d ∧
    codec.fromPlain d = .ok w ∧ v.Restored w

namespace Value

theorem restored_atom {a : Atom} {w : Value} (h : w = atom a ∨ w = (atom a).fresh) :
    (atom a).Restored w := by
  rcases h with rfl | rfl
  · exact ⟨.atom (.refl a), fun _ => rfl⟩
  · exact ⟨agrees_fresh a, fresh_of_isNew⟩

theorem restored_list {items : List Value} {f : Value → Value}
    (h : ∀ x ∈ items, x.Restored (f x)) : (list items).Restored (list (items.map f)) := by
  refine ⟨.list ?_, fun hn => ?_⟩
  · simpa using agreeAll_map (f := id) fun x hx => (h x hx).1
  · simp only [isNew, every, Bool.true_and, everyOf_eq_true] at hn
    rw [List.map_congr_left fun x hx => (h x hx).2 (hn x hx), List.map_id']

theorem restored_dict {entries : List (Value × Value)} {f : Value × Value → Value × Value}
    (h : ∀ e ∈ entries, e.1.Restored (f e).1 ∧ e.2.Restored (f e).2) :
    (dict entries).Restored (dict (entries.map f)) := by
  refine ⟨.dict (.refl _) ?_, fun hn => ?_⟩
  · simpa using agreeEntries_map (f := id) fun e he => ⟨(h e he).1.1, (h e he).2.1⟩
  · simp only [isNew, every, Bool.true_and, everyOfEntries_eq_true] at hn
    have hf : ∀ e ∈ entries, f e = e := fun e he =>
      Prod.ext ((h e he).1.2 (hn e he).1) ((h e he).2.2 (hn e he).2)
    rw [List.map_congr_left hf, List.map_id']

theorem restored_record {head : RecordHead Value} {fields : List Field} {values : List Value}
    {f : Field × Value → Value} (hl : values.length = fields.length)
    (h : ∀ p ∈ fields.zip values, p.2.Restored (f p)) :
    (record head values).Restored (.newRecord head.type ((fields.zip values).map f)) := by
  have hvalues : values = (fields.zip values).map (·.2) := (List.map_snd_zip (by omega)).symm
  refine ⟨.record rfl ?_, fun hn => ?_⟩
  · conv_lhs => rw [hvalues]
    exact agreeAll_map fun p hp => (h p hp).1
  · simp only [isNew, every, Bool.and_eq_true, beq_iff_eq, List.isEmpty_iff, everyOf_eq_true] at hn
    obtain ⟨⟨hobject, hothers⟩, hn⟩ := hn
    have hf : ∀ p ∈ fields.zip values, f p = p.2 := fun p hp =>
      (h p hp).2 (hn p.2 (List.of_mem_zip hp).2)
    rw [List.map_congr_left hf, ← hvalues]
    obtain ⟨type, object, others⟩ := head
    obtain rfl : object = 0 := hobject
    obtain rfl : others = [] := hothers
    rfl

end Value

theorem Layout.restores_primitive (p : Primitive) : (Layout.primitive p).Restores := by
  intro v hv _
  obtain ⟨h⟩ := hv
  obtain ⟨a, rfl, -⟩ := h.exists_atom
  obtain ⟨w, hw, hv⟩ := Primitive.fromPlain_of_decoded h
  exact ⟨.atom a, w, by rw [toPlain], hw, Value.restored_atom hv⟩

theorem Layout.restores_rgb565 : (Layout.rgb565 : Codec).Restores := by
  intro v hv _
  obtain ⟨hr, hg, hb⟩ := hv
  have hagrees : ∀ n : Int, (Value.int n).Agrees (.int n) := fun n => .atom rfl
  refine ⟨_, _, by rw [toPlain], rfl, ?_, fun _ => rfl⟩
  exact .tuple (.cons (hagrees _) (.cons (hagrees _) (.cons (hagrees _) .nil)))

theorem Layout.restores_list {element : Codec} (ih : element.Restores) :
    (Layout.list element).Restores := by
  intro v hv hs
  cases hv with
  | @list _ items h =>
    simp only [Value.showsToDict, Value.every, Bool.and_eq_true, Value.everyOf_eq_true] at hs
    have hall : ∀ x ∈ items, ∃ d w, element.toPlain x = .ok d ∧ element.fromPlain d = .ok w ∧
        x.Restored w := fun x hx => ih x (h x hx) (hs.2 x hx)
    choose! data value hto hfrom hrestored using hall
    refine ⟨.list (items.map data), .list (items.map value), ?_, ?_,
      Value.restored_list hrestored⟩
    · rw [toPlain_list, collect_map_of_ok hto]
      rfl
    · change (collect ((items.map data).map element.fromPlain)).map Value.list = _
      rw [List.map_map, collect_map_of_ok (f := element.fromPlain ∘ data) hfrom]
      rfl

theorem Layout.restores_map (key : Primitive) {value : Codec} (ih : value.Restores) :
    (Layout.map key value).Restores := by
  intro v hv hs
  cases hv with
  | @map _ _ entries hd hk hv =>
    simp only [Value.showsToDict, Value.every, Bool.and_eq_true, Value.everyOfEntries_eq_true] at hs
    have hkeys : ∀ e ∈ entries, ∃ k, key.fromPlain e.1 = .ok k ∧ (k = e.1 ∨ k = e.1.fresh) :=
      fun e he => Primitive.fromPlain_of_decoded (hk e he)
    have hvalues : ∀ e ∈ entries, ∃ d w, value.toPlain e.2 = .ok d ∧ value.fromPlain d = .ok w ∧
        e.2.Restored w := fun e he => ih e.2 (hv e he) (hs.2 e he).2
    choose! restored hkey hfresh using hkeys
    choose! data back hto hfrom hrestored using hvalues
    have hdata : Value.Distinct ((entries.map fun e => (e.1, data e)).map (·.1)) := by
      rw [List.map_map]
      exact hd
    have hback : Value.Distinct ((entries.map fun e => (restored e, back e)).map (·.1)) := by
      rw [List.map_map]
      exact Value.distinct_of_fresh hfresh hd
    refine ⟨.dict (entries.map fun e => (e.1, data e)),
      .dict (entries.map fun e => (restored e, back e)), ?_, ?_, Value.restored_dict fun e he => ?_⟩
    · rw [toPlain_map, collect_map_of_ok (g := fun e => (e.1, data e))]
      · rw [Except.map, Value.ofPairs_of_distinct hdata]
      · intro e he
        obtain ⟨a, ha, hisKey⟩ := (hk e he).exists_atom
        have hkey : e.1.isKey = true := by rw [ha, Value.isKey, hisKey]
        simp only [hto e he, hkey, if_true]
    · rw [fromPlain_map_of_pairs key value rfl, List.map_map,
        collect_map_of_ok (g := fun e => (restored e, back e))]
      · rw [Except.map, Value.ofPairs_of_distinct hback]
      · intro e he
        obtain ⟨a, ha, hisKey⟩ := (hk e he).exists_atom
        have hkey' : (restored e).isKey = true := by
          rcases hfresh e he with h | h <;> rw [h, ha]
          · rwa [Value.isKey]
          · cases a <;> first | rfl | exact hisKey
        simp only [Function.comp_def, hkey e he, hfrom e he, hkey', if_true]
    · obtain ⟨a, ha, -⟩ := (hk e he).exists_atom
      refine ⟨?_, hrestored e he⟩
      rw [ha]
      exact Value.restored_atom (ha ▸ hfresh e he)

theorem RecordLayout.exists_fromDict {type : RecordType} {head : RecordHead Value}
    {values : List Value} (ht : head.type = type)
    (ih : ∀ f ∈ type.fields, f.layout.Restores)
    (hn : type.fieldNames.Nodup) (hself : type.fieldNames.contains selfName = false)
    (hf : type.hides .fromDict = false) (hm : type.isConstructible = true)
    (hl : values.length = type.fields.length)
    (hd : ∀ p ∈ type.fields.zip values, p.1.layout.Decoded p.2)
    (hs : (Value.record head values).showsToDict = true) :
    ∃ es w, (Layout.record type).toPlain (.record head values) = .ok (.dict es) ∧
      type.fromDict (.dict es) = .ok w ∧ (Value.record head values).Restored w := by
  subst ht
  simp only [Value.showsToDict, Value.every, Bool.and_eq_true, Bool.not_eq_true',
    Value.everyOf_eq_true] at hs
  obtain ⟨⟨hshow, hkeeps⟩, hs⟩ := hs
  have hall : ∀ p ∈ head.type.fields.zip values, ∃ d w, p.1.layout.toPlain p.2 = .ok d ∧
      p.1.layout.fromPlain d = .ok w ∧ p.2.Restored w := fun p hp =>
    ih p.1 (List.of_mem_zip hp).1 p.2 (hd p hp) (hs p.2 (List.of_mem_zip hp).2)
  choose! data back hto hfrom hrestored using hall
  have hnames : (head.type.fields.zip values).map (fun p => p.1.name) = head.type.fieldNames := by
    conv_rhs => rw [fieldNames, ← List.map_fst_zip (Nat.le_of_eq hl.symm), List.map_map]
    rfl
  have hfound : ∀ p ∈ head.type.fields.zip values, Value.lookupText p.1.name
      ((head.type.fields.zip values).map fun p => (.text p.1.name, data p)) = some (data p) :=
    fun p hp => Value.lookupText_of_nodup (hnames ▸ hn) hp
  have hknown : unknownKeys head.type.fieldNames
      ((head.type.fields.zip values).map fun p => (.text p.1.name, data p)) = [] :=
    unknownKeys_of_names fun p hp => hnames ▸ List.mem_map_of_mem hp
  have hgiven : ∀ test : Text → Bool,
      (head.type.fieldNames.filter test).contains selfName = false := by
    intro test
    rw [List.contains_eq_mem, decide_eq_false_iff_not] at hself ⊢
    exact fun h => hself (List.mem_of_mem_filter h)
  have hmake : head.type.canMake (head.type.fieldNames.filter fun n => (Value.lookupText n
      ((head.type.fields.zip values).map fun p => (.text p.1.name, data p))).isSome) = true := by
    simp only [canMake, hm, Bool.true_and, List.all_eq_true]
    intro f hmem
    obtain ⟨p, hp, rfl⟩ :=
      List.mem_map.1 ((List.map_fst_zip (Nat.le_of_eq hl.symm)).symm ▸ hmem)
    have hname : p.1.name ∈ head.type.fieldNames := List.mem_map_of_mem hmem
    have hgiven : p.1.name ∈ head.type.fieldNames.filter fun n => (Value.lookupText n
        ((head.type.fields.zip values).map fun p => (.text p.1.name, data p))).isSome :=
      List.mem_filter.2 ⟨hname, by simp only [hfound p hp, Option.isSome_some]⟩
    rw [List.contains_iff_mem.2 hgiven, Bool.true_or, Bool.true_or]
  refine ⟨(head.type.fields.zip values).map fun p => (.text p.1.name, data p),
    .newRecord head.type ((head.type.fields.zip values).map back), ?_, ?_,
    Value.restored_record hl hrestored⟩
  · rw [Layout.toPlain_record, if_neg (Bool.not_eq_true _ ▸ hshow),
      RecordHead.throughFields_of_none (Option.isNone_iff_eq_none.1 hkeeps),
      collect_map_of_ok (g := fun p => (.text p.1.name, data p))]
    · rfl
    · intro p hp
      rw [hto p hp]
      rfl
  · rw [fromDict_dict, hf, hknown, fieldsFromDict_of_zip hl fun p hp => ⟨hfound p hp, hfrom p hp⟩]
    simp only [makeRecord, hgiven, hmake, List.isEmpty_nil, if_true, Bool.not_true, Bool.or_self,
      Bool.false_eq_true, if_false]

theorem RecordLayout.isConstructible_of_ofPlain {type : RecordType}
    (h : ∀ operation ∈ Operation.ofPlain, type.hides operation = false) :
    type.isConstructible = true :=
  isConstructible_iff.2 fun operation ho =>
    h operation (List.mem_cons_of_mem _ (List.mem_append_left _ ho))

theorem RecordLayout.isTestable_of_ofPlain {type : RecordType}
    (h : ∀ operation ∈ Operation.ofPlain, type.hides operation = false) :
    type.isTestable = true := by
  rw [isTestable, List.all_eq_true]
  intro operation ho
  rw [h operation (List.mem_cons_of_mem _ (List.mem_append_right _ ho))]
  rfl

theorem Layout.restores_record {type : RecordType} (ih : ∀ f ∈ type.fields, f.layout.Restores)
    (hn : type.fieldNames.Nodup) (hself : type.fieldNames.contains selfName = false)
    (ho : ∀ operation ∈ Operation.ofPlain, type.hides operation = false) :
    (Layout.record type).Restores := by
  intro v hv hs
  cases hv with
  | record ht hl hd =>
    obtain ⟨es, w, hto, hfrom, hrestored⟩ :=
      RecordLayout.exists_fromDict ht ih hn hself (ho .fromDict List.mem_cons_self)
        (RecordLayout.isConstructible_of_ofPlain ho) hl hd hs
    have htest := RecordLayout.isTestable_of_ofPlain ho
    exact ⟨.dict es, w, hto, by rw [fromPlain_record_dict htest, hfrom], hrestored⟩

theorem Layout.isNamed_record {type : RecordType} : (Layout.record type).isNamed = true ↔
    (type.fieldNames.Nodup ∧ type.fieldNames.contains selfName = false) ∧
      ∀ f ∈ type.fields, f.layout.isNamed = true := by
  simp [isNamed, every, RecordLayout.every_eq_true]

theorem Layout.restores {codec : Codec} (hn : codec.isNamed = true)
    (hs : codec.shows Operation.ofPlain = true) : codec.Restores := by
  induction codec using Layout.induct with
  | primitive p => exact restores_primitive p
  | rgb565 => exact restores_rgb565
  | list element ih => exact restores_list (ih hn hs)
  | map key value ih => exact restores_map key (ih hn hs)
  | record type ih =>
    obtain ⟨⟨hnodup, hself⟩, hnfs⟩ := isNamed_record.1 hn
    obtain ⟨ho, hfs⟩ := shows_record.1 hs
    exact restores_record (fun f hf => ih f hf (hnfs f hf) (hfs f hf)) hnodup hself ho

theorem Layout.Decoded.showsToDict {codec : Codec} {v : Value} (h : codec.Decoded v)
    (hn : v.isNew = true) (hs : codec.shows [.toDict] = true) : v.showsToDict = true := by
  induction h with
  | primitive h =>
    obtain ⟨a, rfl, -⟩ := h.exists_atom
    rfl
  | rgb565 => rfl
  | list _ ih =>
    simp only [Value.isNew, Value.every, Bool.true_and, Value.everyOf_eq_true] at hn
    simp only [Value.showsToDict, Value.every, Value.hides, Value.keepsFields,
      Bool.not_false, Bool.true_and, Value.everyOf_eq_true]
    exact fun x hx => ih x hx (hn x hx) hs
  | @map key value entries _ hk _ ih =>
    simp only [Value.isNew, Value.every, Bool.true_and, Value.everyOfEntries_eq_true] at hn
    simp only [Value.showsToDict, Value.every, Value.hides, Value.keepsFields,
      Bool.not_false, Bool.true_and, Value.everyOfEntries_eq_true]
    refine fun e he => ⟨?_, ih e he (hn e he).2 hs⟩
    obtain ⟨a, ha, -⟩ := (hk e he).exists_atom
    rw [ha]
    rfl
  | @record type head values ht hl _ ih =>
    subst ht
    obtain ⟨hshow, hfs⟩ := shows_record.1 hs
    simp only [Value.isNew, Value.every, Bool.and_eq_true, List.isEmpty_iff,
      Value.everyOf_eq_true] at hn
    simp only [Value.showsToDict, Value.every, Bool.and_eq_true, Value.everyOf_eq_true]
    refine ⟨?_, fun x hx => ?_⟩
    · simp [Value.hides, Value.keepsFields, RecordHead.hides, hshow _ List.mem_cons_self, hn.1.2]
    · obtain ⟨p, hp, rfl⟩ := exists_mem_zip hl hx
      exact ih p hp (hn.2 p.2 hx) (hfs p.1 (List.of_mem_zip hp).1)

namespace Service

variable {config : Config} {type : RecordType} {data bs : Bytes} {v : Value}

theorem exists_spells_of_deserialize {ε : Type} [TextEncoding ε] {config : ConfigOf ε}
    (h : (deserialize config type data).outcome.2 = .ok v) :
    ∃ used, type.Spells config.byteOrder config.encoding used v := by
  unfold deserialize Logged.outcome at h
  cases hr : type.readWhole config (.ofBytes data) with
  | error e s =>
    rw [hr] at h
    cases h
  | ok w s =>
    rw [hr] at h
    obtain rfl : w = v := Except.ok.inj h
    unfold RecordLayout.readWhole at hr
    cases hread : type.readNew config (.ofBytes data) with
    | error e t =>
      rw [Reader.bind_of_error hread] at hr
      cases hr
    | ok u t =>
      rw [Reader.bind_of_ok hread] at hr
      cases hc : Reader.ensureConsumed config t with
      | error e t' =>
        rw [Reader.bind_of_error hc] at hr
        cases hr
      | ok _ t' =>
        rw [Reader.bind_of_ok hc] at hr
        cases hr
        rw [Source.ofBytes_eq_amid] at hread
        obtain ⟨used, -, -, -, hspells⟩ := (type.reads_new config).sound hread
        exact ⟨used, hspells.2⟩

theorem serialize_of_writes {head : RecordHead Value} {values : List Value}
    (hc : head.type.hidesClass = false)
    (h : ((Value.record head values).encode config).Writes bs) :
    (serialize config (.record head values)).outcome.2 = .ok bs := by
  obtain ⟨he, rfl⟩ := Output.writes_iff.1 h
  have ht : recordTitle (.record head values) = .ok (Value.titleOf head) := by
    rw [recordTitle, hc]
    rfl
  unfold serialize Logged.outcome
  rw [ht]
  simp only [Logged.ofExcept, pure_bind, he]
  rfl

theorem exists_writes_of_spells (ht : config.encoding.isTotal = true)
    (hs : ∀ f ∈ type.fields, f.layout.shows [.writeData] = true)
    (h : type.Spells config.byteOrder config.encoding data v) (hn : v.hasNoNaNKey = true) :
    ∃ out, (v.encode config).Writes out := by
  obtain ⟨hf, values, hvalues, rfl⟩ := RecordLayout.spells_iff.1 h
  simp only [Value.hasNoNaNKey, Value.every, Bool.true_and, Value.everyOf_eq_true] at hn
  obtain ⟨-, out, hout, -⟩ := rewrites_fields
    (fun f hf => Layout.isRewritable ht (hs f hf)) hn hvalues
  refine ⟨out, ?_⟩
  rw [Value.encode, if_neg]
  · exact hout
  · simp [RecordHead.hides, hf]

end Service

/-- Records come back from their plain data, equal up to NaN. A record that was read comes back as it
was, so it is encoded alike. -/
theorem RecordLayout.fromDict_toPlain (type : RecordType)
    (hn : (Layout.record type).isNamed = true)
    (hs : (Layout.record type).shows Operation.ofPlain = true) :
    (∀ v, (Layout.record type).Decoded v → v.showsToDict = true →
      ∃ d w, (Layout.record type).toPlain v = .ok d ∧ type.fromDict d = .ok w ∧ v.Agrees w ∧
        (v.isFreeOfNaN = true → v.equal w = true)) ∧
    ∀ (config : Config) (data : Bytes) v, config.encoding.isTotal = true →
      type.hidesClass = false → (Layout.record type).shows [.toDict] = true →
      (∀ f ∈ type.fields, f.layout.shows [.writeData] = true) →
      (Service.deserialize config type data).outcome.2 = .ok v → v.hasNoNaNKey = true →
        ∃ d w bytes, (Layout.record type).toPlain v = .ok d ∧ type.fromDict d = .ok w ∧
          (Service.serialize config w).outcome.2 = .ok bytes ∧
          (Service.serialize config v).outcome.2 = .ok bytes := by
  obtain ⟨⟨hnodup, hself⟩, hnfs⟩ := Layout.isNamed_record.1 hn
  obtain ⟨ho, hfs⟩ := Layout.shows_record.1 hs
  have hfields : ∀ f ∈ type.fields, f.layout.Restores :=
    fun f hf => Layout.restores (hnfs f hf) (hfs f hf)
  have hrestores : ∀ v, (Layout.record type).Decoded v → v.showsToDict = true →
      ∃ es w, (Layout.record type).toPlain v = .ok (.dict es) ∧ type.fromDict (.dict es) = .ok w ∧
        v.Restored w := by
    intro v hv hshow
    cases hv with
    | record ht hl hd =>
      exact exists_fromDict ht hfields hnodup hself (ho .fromDict List.mem_cons_self)
        (isConstructible_of_ofPlain ho) hl hd hshow
  refine ⟨fun v hv hshow => ?_, fun config data v ht hc hto hwrite hr hnan => ?_⟩
  · obtain ⟨es, w, hto, hfrom, hagrees, -⟩ := hrestores v hv hshow
    exact ⟨_, w, hto, hfrom, hagrees, fun hfree => Value.equal_of_agrees hfree hagrees⟩
  · obtain ⟨used, hspells⟩ := Service.exists_spells_of_deserialize hr
    obtain ⟨hdecoded, hnew⟩ := decoded_of_spells
      (fun _ _ _ _ h => Layout.decoded_of_spells h) hspells
    obtain ⟨es, w, hplain, hfrom, -, hback⟩ :=
      hrestores v hdecoded (hdecoded.showsToDict hnew hto)
    obtain rfl := hback hnew
    obtain ⟨out, hout⟩ := Service.exists_writes_of_spells ht hwrite hspells hnan
    obtain ⟨-, values, -, rfl⟩ := RecordLayout.spells_iff.1 hspells
    have hbytes := Service.serialize_of_writes hc hout
    exact ⟨_, _, out, hplain, hfrom, hbytes, hbytes⟩

theorem RecordLayout.fromDict_toPlain_nested :
    let point : RecordType := ⟨⟨0, "P"⟩, "P", "P", [], [⟨"x", .primitive .float, none⟩]⟩
    let type : RecordType := ⟨⟨0, "R"⟩, "R", "R", [],
      [⟨"m", .map .double (.list (.record point)), none⟩, ⟨"s", .primitive .string, none⟩]⟩
    let nan : Binary64 := .nan false
    let v : Value := .record { type := type, object := 3 }
      [.dict [(.atom (.float nan 1), .list [.newRecord point [.float nan]]),
        (.atom (.float nan 2), .list [])], .text [0xDCFF]]
    let data : Bytes := [0, 0, 0, 0, 1, 0, 0, 0, 0xFF, 9]
    let u : Value := .newRecord type [.dict [], .text [0xDCFF]]
    (∃ d w, (Layout.record type).toPlain v = .ok d ∧ type.fromDict d = .ok w ∧ v.Agrees w) ∧
      (Service.deserialize {} type data).outcome.2 = .ok u ∧
      ∃ d w bytes, (Layout.record type).toPlain u = .ok d ∧ type.fromDict d = .ok w ∧
        (Service.serialize {} w).outcome.2 = .ok bytes ∧
        (Service.serialize {} u).outcome.2 = .ok bytes := by
  intro point type nan v data u
  have hpoint : (Layout.record point).Decoded (.newRecord point [.float nan]) := by
    refine .record rfl rfl fun p hp => ?_
    obtain rfl := List.mem_singleton.1 hp
    exact .primitive ⟨nan, 0, rfl, .inl (by decide)⟩
  have hv : (Layout.record type).Decoded v := by
    refine .record rfl rfl fun p hp => ?_
    simp only [type, List.zip_cons_cons, List.zip_nil_right, List.mem_cons, List.not_mem_nil,
      or_false] at hp
    rcases hp with rfl | rfl
    · refine .map (List.pairwise_pair.2 (by decide +kernel)) (fun e he => ?_) fun e he => ?_
      all_goals
        simp only [List.mem_cons, List.not_mem_nil, or_false] at he
        rcases he with rfl | rfl
      · exact ⟨_, _, rfl⟩
      · exact ⟨_, _, rfl⟩
      · exact .list (by simpa using hpoint)
      · exact .list (by simp)
    · exact .primitive ⟨_, rfl⟩
  have hu : (Service.deserialize {} type data).outcome.2 = .ok u := rfl
  obtain ⟨hplain, hbytes⟩ := RecordLayout.fromDict_toPlain type (by decide) (by decide)
  obtain ⟨d, w, hto, hfrom, hagrees, -⟩ := hplain v hv rfl
  exact ⟨⟨d, w, hto, hfrom, hagrees⟩, hu, hbytes {} data u rfl rfl (by decide) (by decide) hu rfl⟩

/-- A field with the name of an operation: such a record has no plain data. A record with something set
in the place of its fields has, but they are those of another record. -/
theorem RecordLayout.fromDict_toPlain_hidden :
    let type : RecordType := ⟨⟨0, "R"⟩, "R", "R", [], [⟨"to_dict", .primitive (.int .uint8), none⟩]⟩
    let v : Value := .newRecord type [.int 5]
    let plain : RecordType := ⟨⟨1, "Q"⟩, "Q", "Q", [], [⟨"a", .primitive (.int .uint8), none⟩]⟩
    let w : Value := .record { type := plain, others := [("_fields", .tuple [])] } [.int 5]
    ((Layout.record type).isNamed = true ∧ (Layout.record type).Decoded v ∧
      ¬ ∃ d w, (Layout.record type).toPlain v = .ok d ∧ type.fromDict d = .ok w) ∧
    (Layout.record plain).isNamed = true ∧ (Layout.record plain).Decoded w ∧
      (Layout.record plain).toPlain w = .ok (.dict []) ∧
      plain.fromDict (.dict []) = .ok (.newRecord plain [.int 0]) ∧
      ¬ w.Agrees (.newRecord plain [.int 0]) := by
  intro type v plain w
  have hdecoded : ∀ f : Field, f.layout = .primitive (.int .uint8) → ∀ p ∈ [f].zip [Value.int 5],
      p.1.layout.Decoded p.2 := by
    intro f hf p hp
    obtain rfl := List.mem_singleton.1 hp
    rw [hf]
    exact .primitive ⟨5, by decide, rfl⟩
  refine ⟨⟨by decide, .record rfl rfl (hdecoded _ rfl), ?_⟩, by decide,
    .record rfl rfl (hdecoded _ rfl), ?_, rfl, ?_⟩
  · rintro ⟨d, w, h, -⟩
    rw [Layout.toPlain_record] at h
    cases h
  · rw [Layout.toPlain_record]
    rfl
  · intro hagrees
    simp only [w, Value.newRecord] at hagrees
    cases hagrees with
    | record _ hvalues =>
      cases hvalues with
      | cons hvalue _ =>
        cases hvalue with
        | atom hatom => cases hatom

end RecordWire
