import RecordWire.Codec.Write
import RecordWire.Proofs.Codec.RoundTrip

/-!
The slots of a value that is written: the layouts that writing it goes on to, each with the value
that it finds there. A record is followed as the type that it has itself, so that a slot need not be
part of the layout that writing begins with; values get less deep instead.
-/

namespace RecordWire

theorem Value.parts?_of_items {layout : Text} {v : Value} {items : List Value}
    (h : v.items layout = .ok items) : v.parts? = some items := by
  unfold Value.items at h
  split at h
  · cases h
  · cases h
  · cases h
  · split at h
    · cases h
    · cases h
      assumption

namespace Layout

/-- Writing a value with a layout goes on to a part of the value, with the layout of that part. -/
inductive Passes : Codec → Value → Codec → Value → Prop
  | item {element : Codec} {v : Value} {items : List Value} {x : Value}
    (hv : v.items (Layout.list element).name = .ok items) (hx : x ∈ items) :
    Passes (.list element) v element x
  | key {key : Primitive} {value : Codec} {v : Value} {pairs : List (Value × Value)}
    {e : Value × Value} (hv : v.pairs = .ok pairs) (he : e ∈ pairs) :
    Passes (.map key value) v (.primitive key) e.1
  | value {key : Primitive} {value : Codec} {v : Value} {pairs : List (Value × Value)}
    {e : Value × Value} (hv : v.pairs = .ok pairs) (he : e ∈ pairs) :
    Passes (.map key value) v value e.2
  | field {type : RecordType} {head : RecordHead Value} {values : List Value} {p : Field × Value}
    (hk : head.type.isKindOf type = true) (hp : p ∈ head.type.fields.zip values) :
    Passes (.record type) (.record head values) p.1.layout p.2

variable {codec c d : Codec} {v w x : Value}

theorem sizeOf_pos (codec : Codec) : 0 < sizeOf codec := by
  cases codec <;>
    simp only [primitive.sizeOf_spec, rgb565.sizeOf_spec, list.sizeOf_spec, map.sizeOf_spec,
      record.sizeOf_spec] <;> omega

theorem Passes.lex (h : codec.Passes v c w) :
    Prod.Lex (· < ·) (· < ·) (w.depth, sizeOf c) (v.depth, sizeOf codec) := by
  rw [Prod.lex_def]
  cases h with
  | item hv hx =>
    have := Value.depth_of_mem_items hv hx
    simp only [list.sizeOf_spec]
    omega
  | @key _ value _ _ _ hv he =>
    have := (Value.depth_of_mem_pairs hv he).1
    have := sizeOf_pos value
    simp only [map.sizeOf_spec, primitive.sizeOf_spec]
    omega
  | value hv he =>
    have := (Value.depth_of_mem_pairs hv he).2
    simp only [map.sizeOf_spec]
    omega
  | field hk hp =>
    have := Value.depth_le_depths (List.of_mem_zip hp).2
    simp only [Value.depth]
    omega

/-- What holds of a slot if it holds of those that writing goes on to holds of every slot. -/
theorem induct_passes {P : Codec → Value → Prop}
    (step : ∀ codec v, (∀ c w, codec.Passes v c w → P c w) → P codec v) (codec : Codec)
    (v : Value) : P codec v :=
  step codec v fun c w _ => induct_passes step c w
termination_by (v.depth, sizeOf codec)
decreasing_by
  rename_i h
  exact h.lex

/-- Writing a value with a layout comes to a value in a slot of another layout. -/
inductive Reaches : Codec → Value → Codec → Value → Prop
  | self (codec : Codec) (v : Value) : Reaches codec v codec v
  | pass {codec c d : Codec} {v w x : Value} (h : codec.Passes v c w) (rest : c.Reaches w d x) :
    Reaches codec v d x

end Layout

open Reader (SpellAll)

variable {ε : Type} [TextEncoding ε] {config : ConfigOf ε} {bs : Bytes} {v : Value}

theorem writes_fields {fields : List Field} {values : List Value} :
    (writeFields config fields values).Writes bs ↔
      SpellAll (fun cs p => (p.1.layout.write config p.2).Writes cs) bs (fields.zip values) :=
  Output.writes_concat

namespace Layout

theorem exists_items_of_writes {element : Codec} (h : ((list element).write config v).Writes bs) :
    ∃ items, v.items (list element).name = .ok items := by
  rw [write_list] at h
  split at h
  · exact absurd h Output.not_writes_fail
  · exact ⟨_, ‹_›⟩

theorem exists_pairs_of_writes {key : Primitive} {value : Codec}
    (h : ((map key value).write config v).Writes bs) : ∃ pairs, v.pairs = .ok pairs := by
  rw [write_map] at h
  split at h
  · exact absurd h Output.not_writes_fail
  · exact ⟨_, ‹_›⟩

theorem write_record_of_ne (config : ConfigOf ε) (type : RecordType)
    (h : ∀ head values, v ≠ .record head values) :
    (record type).write config v = .invalid (.notRecord type.typeName v.kind) := by
  rw [Layout.write]
  exact h

/-- What is written as a record is a record of the type or of one that extends it, and it is written
as the type that it has. -/
theorem writes_kind {type : RecordType} : ((record type).write config v).Writes bs ↔
    ∃ head values, v = .record head values ∧ head.type.isKindOf type = true ∧
      head.hides .writeData = false ∧ head.hides .fields = false ∧
      SpellAll (fun cs p => (p.1.layout.write config p.2).Writes cs) bs
        (head.type.fields.zip values) := by
  constructor
  · intro h
    cases v with
    | record head values =>
      rw [write_record] at h
      split at h
      · rename_i hk
        split at h
        · exact absurd h Output.not_writes_fail
        · rename_i hh
          rw [Bool.not_eq_true, Bool.or_eq_false_iff] at hh
          exact ⟨head, values, rfl, hk, hh.1, hh.2, writes_fields.1 h⟩
      · exact absurd h Output.not_writes_invalid
    | _ =>
      rw [write_record_of_ne config type (by simp)] at h
      exact absurd h Output.not_writes_invalid
  · rintro ⟨head, values, rfl, hk, hw, hf, h⟩
    rw [write_record, if_pos hk, hw, hf]
    exact writes_fields.2 h

end Layout

end RecordWire
