import RecordWire.Proofs.Layout.Induction
import RecordWire.Proofs.Number.Integer
import RecordWire.Proofs.Wire.Reading

/-!
The wire format as a relation between byte strings and values. It depends on the byte order and the
text encoding only: not on strictness, nor on the kind of source, nor on what follows. Map entries
may come with equal keys, and a byte of any value but zero spells what is true, so a value may have
many spellings.
-/

namespace RecordWire

open Reader (SpellAll SpellPair)

variable {ε : Type} [TextEncoding ε]

/-- The value of a scalar with given octets, least significant first. -/
def Primitive.scalar? : Primitive → Bytes → Option Value
  | int kind, bs => some (.int (kind.ofOctets bs))
  | float, bs => some (.float (.ofSingle (UInt32.ofNat (Octets.toNat bs))))
  | double, bs => some (.float ⟨UInt64.ofNat (Octets.toNat bs)⟩)
  | bool, bs => some (.bool (Octets.toNat bs ≠ 0))
  | char, bs => some (.text [CodePoint.ofNat (Octets.toNat bs)])
  | string, _ => none

/-- The parts of a colour with given octets, least significant first. -/
def colourOfOctets (bs : Bytes) : Value :=
  let word := Octets.toNat bs
  .tuple [.int (word / 2 ^ 11 : Nat), .int (word / 2 ^ 5 % 2 ^ 6 : Nat), .int (word % 2 ^ 5 : Nat)]

def ByteOrder.countBytes (order : ByteOrder) (n : Nat) : Bytes := Output.intBytes order .uint32 n

namespace ByteOrder

@[simp] theorem length_countBytes (order : ByteOrder) (n : Nat) :
    (order.countBytes n).length = 4 := by
  simp [countBytes, Output.intBytes, IntKind.uint32, IntWidth.bytes]

theorem toNat_countBytes (order : ByteOrder) {n : Nat} (h : n < 2 ^ 32) :
    Octets.toNat (order.arrange (order.countBytes n)) = n := by
  simp only [countBytes, Output.intBytes, arrange_arrange, Octets.toNat_ofNat]
  simp [IntKind.uint32, IntWidth.bytes, IntWidth.bits]
  omega

theorem countBytes_toNat (order : ByteOrder) {bs : Bytes} (h : bs.length = 4) :
    order.countBytes (Octets.toNat (order.arrange bs)) = bs := by
  have hl : (order.arrange bs).length = 4 := by simpa using h
  have hb := Octets.ofNat_toNat (order.arrange bs)
  have hn := Octets.toNat_lt (order.arrange bs)
  rw [hl] at hb hn
  have hm : ((Octets.toNat (order.arrange bs) : Int) % 2 ^ 32).toNat =
      Octets.toNat (order.arrange bs) := by omega
  change order.arrange (Octets.ofNat 4
    ((Octets.toNat (order.arrange bs) : Int) % 2 ^ 32).toNat) = bs
  rw [hm, hb, arrange_arrange]

end ByteOrder

def Primitive.Spells (order : ByteOrder) (encoding : ε) :
    Primitive → Bytes → Value → Prop
  | string, bs, v => ∃ payload t, payload.length < 2 ^ 32 ∧
      bs = order.countBytes payload.length ++ payload ∧ TextEncoding.decode encoding payload = .ok t ∧
      v = .text t
  | p, bs, v => bs.length = p.minSize ∧ p.scalar? (order.arrange bs) = some v

mutual

/-- The byte strings that spell values of a layout. -/
def Layout.Spells (order : ByteOrder) (encoding : ε) : Codec → Bytes → Value → Prop
  | .primitive p, bs, v => p.Spells order encoding bs v
  | .rgb565, bs, v => bs.length = 2 ∧ v = colourOfOctets (order.arrange bs)
  | .list element, bs, v => element.isSized = true ∧ ∃ body items, items.length < 2 ^ 32 ∧
      bs = order.countBytes items.length ++ body ∧
      SpellAll (fun cs x => element.Spells order encoding cs x) body items ∧ v = .list items
  | .map key value, bs, v => value.isSized = true ∧ ∃ body pairs, pairs.length < 2 ^ 32 ∧
      bs = order.countBytes pairs.length ++ body ∧
      SpellAll (SpellPair (key.Spells order encoding) fun cs x => value.Spells order encoding cs x)
        body pairs ∧
      v = .dict (Value.ofPairs pairs)
  | .record type, bs, v => type.isFillable = true ∧ type.Spells order encoding bs v

def RecordLayout.Spells (order : ByteOrder) (encoding : ε) :
    RecordType → Bytes → Value → Prop
  | ⟨id, className, typeName, bases, fields⟩, bs, v =>
    (RecordLayout.mk id className typeName bases fields).hides .fields = false ∧
      ∃ values, fieldsSpell order encoding fields bs values ∧
        v = .newRecord ⟨id, className, typeName, bases, fields⟩ values

def fieldsSpell (order : ByteOrder) (encoding : ε) :
    List Field → Bytes → List Value → Prop
  | [], bs, values => bs = [] ∧ values = []
  | ⟨_, layout, _⟩ :: fields, bs, values => ∃ cs ds v vs, bs = cs ++ ds ∧ values = v :: vs ∧
      layout.Spells order encoding cs v ∧ fieldsSpell order encoding fields ds vs

end

section

variable {order : ByteOrder} {encoding : ε}

theorem Primitive.spells_scalar {p : Primitive} (hp : p ≠ .string) {bs : Bytes} {v : Value} :
    p.Spells order encoding bs v ↔
      bs.length = p.minSize ∧ p.scalar? (order.arrange bs) = some v := by
  cases p with
  | string => exact absurd rfl hp
  | int | float | double | bool | char => exact Iff.rfl

theorem RecordLayout.spells_iff {type : RecordType} {bs : Bytes} {v : Value} :
    type.Spells order encoding bs v ↔ type.hides .fields = false ∧
      ∃ values, fieldsSpell order encoding type.fields bs values ∧ v = .newRecord type values := by
  cases type
  rfl

theorem fieldsSpell_cons {f : Field} {fields : List Field} {bs : Bytes} {values : List Value} :
    fieldsSpell order encoding (f :: fields) bs values ↔ ∃ cs ds v vs,
      bs = cs ++ ds ∧ values = v :: vs ∧ f.layout.Spells order encoding cs v ∧
        fieldsSpell order encoding fields ds vs := by
  cases f
  rfl

theorem Primitive.minSize_le_of_spells {p : Primitive} {bs : Bytes} {v : Value}
    (h : p.Spells order encoding bs v) : p.minSize ≤ bs.length := by
  cases p with
  | string =>
    obtain ⟨payload, t, -, rfl, -, -⟩ := h
    simp [minSize, countSize]
  | int | float | double | bool | char => exact Nat.le_of_eq h.1.symm

theorem minSizes_cons (f : Field) (fields : List Field) :
    Layout.minSizes (f :: fields) = f.layout.minSize + Layout.minSizes fields := by
  cases f
  rfl

theorem minSizes_le_of_fieldsSpell {fields : List Field} {bs : Bytes} {values : List Value}
    (hs : fieldsSpell order encoding fields bs values)
    (h : ∀ f ∈ fields, ∀ cs v, f.layout.Spells order encoding cs v →
      f.layout.minSize ≤ cs.length) : Layout.minSizes fields ≤ bs.length := by
  induction fields generalizing bs values with
  | nil => simp [Layout.minSizes]
  | cons f fields ih =>
    obtain ⟨cs, ds, v, vs, rfl, rfl, hv, hvs⟩ := fieldsSpell_cons.1 hs
    have h₁ := h f List.mem_cons_self cs v hv
    have h₂ := ih hvs fun g hg => h g (List.mem_cons_of_mem _ hg)
    rw [minSizes_cons, List.length_append]
    exact Nat.add_le_add h₁ h₂

theorem Layout.minSize_le_of_spells {codec : Codec} {bs : Bytes} {v : Value}
    (h : codec.Spells order encoding bs v) : codec.minSize ≤ bs.length := by
  induction codec using Layout.induct generalizing bs v with
  | primitive p => exact Primitive.minSize_le_of_spells h
  | rgb565 => exact Nat.zero_le _
  | list element =>
    obtain ⟨-, body, items, -, rfl, -⟩ := h
    simp [minSize, Primitive.countSize]
  | map key value =>
    obtain ⟨-, body, pairs, -, rfl, -⟩ := h
    simp [minSize, Primitive.countSize]
  | record type ih =>
    obtain ⟨-, hs⟩ := h
    obtain ⟨-, values, hs, -⟩ := RecordLayout.spells_iff.1 hs
    cases type
    exact minSizes_le_of_fieldsSpell hs fun f hf bs v => ih f hf

theorem minSizes_le_of_spellPair {key : Primitive} {value : Codec} {bs : Bytes} {p : Value × Value}
    (h : SpellPair (key.Spells order encoding) (value.Spells order encoding) bs p) :
    key.minSize + value.minSize ≤ bs.length := by
  obtain ⟨ks, ws, rfl, hk, hw⟩ := h
  rw [List.length_append]
  exact Nat.add_le_add (Primitive.minSize_le_of_spells hk) (Layout.minSize_le_of_spells hw)

end

end RecordWire
