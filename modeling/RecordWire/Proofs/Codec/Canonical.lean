import RecordWire.Proofs.Layout.Induction
import RecordWire.Proofs.Text.Encoding
import RecordWire.Proofs.Value.Agreement

/-!
Canonical values: of all values that writing takes for a layout, those of the form in which reading
returns them. The definition is by a property of the texts of strings and one of the layouts on the
way, so that it serves values that were never read and values that were.
-/

namespace RecordWire

def Value.Distinct (keys : List Value) : Prop := keys.Pairwise fun k l => l.alike k = false

/-- A value that is not given in the place of another: an integer is no boolean, and a number of
single precision no integer. -/
def Primitive.Canonical (text : Text → Prop) : Primitive → Value → Prop
  | int _, v => ∃ n, v = .int n
  | float, v => ∃ x object, v = .atom (.float x object)
  | double, v => ∃ x object, v = .atom (.float x object)
  | bool, v => ∃ b, v = .bool b
  | char, v => ∃ c, v = .text [c]
  | string, v => ∃ t, v = .text t ∧ text t

/-- A canonical value that can be a key: NaN cannot be found again. -/
def Primitive.CanonicalKey (text : Text → Prop) (p : Primitive) (v : Value) : Prop :=
  p.Canonical text v ∧ v.isNaN = false

section

variable (text : Text → Prop) (usable : Codec → Bool)

mutual

def Layout.CanonicalBy : Codec → Value → Prop
  | .primitive p, v => p.Canonical text v
  | .rgb565, v => ∃ r g b : Nat, r < 2 ^ 5 ∧ g < 2 ^ 6 ∧ b < 2 ^ 5 ∧
      v = .tuple [.int r, .int g, .int b]
  | .list element, v => usable (.list element) = true ∧ ∃ items, v = .list items ∧
      ∀ x ∈ items, element.CanonicalBy x
  | .map key value, v => usable (.map key value) = true ∧ ∃ entries, v = .dict entries ∧
      Value.Distinct (entries.map (·.1)) ∧
      ∀ e ∈ entries, key.CanonicalKey text e.1 ∧ value.CanonicalBy e.2
  | .record type, v => usable (.record type) = true ∧ type.CanonicalBy v

/-- A record of exactly the type, with a canonical value for each field. -/
def RecordLayout.CanonicalBy : RecordType → Value → Prop
  | ⟨id, className, typeName, bases, fields⟩, v => ∃ head values, v = .record head values ∧
      head.type = ⟨id, className, typeName, bases, fields⟩ ∧ fieldsCanonicalBy fields values

def fieldsCanonicalBy : List Field → List Value → Prop
  | [], values => values = []
  | ⟨_, layout, _⟩ :: fields, values => ∃ v vs, values = v :: vs ∧ layout.CanonicalBy v ∧
      fieldsCanonicalBy fields vs

end

end

/-- A value of the form in which reading returns values, with no surrogate in any string. -/
abbrev Layout.Canonical (codec : Codec) (v : Value) : Prop :=
  codec.CanonicalBy (fun t => t.hasSurrogate = false) (fun _ => true) v

section

variable {text text' : Text → Prop} {usable : Codec → Bool}

theorem RecordLayout.canonicalBy_iff {type : RecordType} {v : Value} :
    type.CanonicalBy text usable v ↔ ∃ head values, v = .record head values ∧ head.type = type ∧
      fieldsCanonicalBy text usable type.fields values := by
  cases type
  exact Iff.rfl

theorem fieldsCanonicalBy_cons {f : Field} {fields : List Field} {values : List Value} :
    fieldsCanonicalBy text usable (f :: fields) values ↔ ∃ v vs, values = v :: vs ∧
      f.layout.CanonicalBy text usable v ∧ fieldsCanonicalBy text usable fields vs := by
  cases f
  exact Iff.rfl

theorem Primitive.Canonical.mono (ht : ∀ t, text t → text' t) {p : Primitive} {v : Value}
    (h : p.Canonical text v) : p.Canonical text' v := by
  cases p with
  | string =>
    obtain ⟨t, rfl, h⟩ := h
    exact ⟨t, rfl, ht t h⟩
  | int | float | double | bool | char => exact h

theorem fieldsCanonicalBy_mono {fields : List Field} {usable' : Codec → Bool} {values : List Value}
    (h : ∀ f ∈ fields, ∀ v ∈ values, f.layout.CanonicalBy text usable v →
      f.layout.CanonicalBy text' usable' v)
    (hv : fieldsCanonicalBy text usable fields values) :
    fieldsCanonicalBy text' usable' fields values := by
  induction fields generalizing values with
  | nil => exact hv
  | cons f fields ih =>
    obtain ⟨v, vs, rfl, hf, hfs⟩ := fieldsCanonicalBy_cons.1 hv
    refine fieldsCanonicalBy_cons.2 ⟨v, vs, rfl, h f List.mem_cons_self v List.mem_cons_self hf, ?_⟩
    exact ih (fun g hg x hx => h g (List.mem_cons_of_mem _ hg) x (List.mem_cons_of_mem _ hx)) hfs

theorem length_of_fieldsCanonicalBy {fields : List Field} {values : List Value}
    (h : fieldsCanonicalBy text usable fields values) : values.length = fields.length := by
  induction fields generalizing values with
  | nil =>
    obtain rfl := h
    rfl
  | cons f fields ih =>
    obtain ⟨v, vs, rfl, -, hvs⟩ := fieldsCanonicalBy_cons.1 h
    simp [ih hvs]

/-- What is asked of the layouts on the way to the parts of a value may follow from what is asked of
all layouts, together with what was asked of those on the way before. -/
theorem Layout.CanonicalBy.of_every {allowed usable' : Codec → Bool}
    (ht : ∀ t, text t → text' t)
    (hu : ∀ c, allowed c = true → usable c = true → usable' c = true) {codec : Codec}
    (ha : codec.every allowed = true) {v : Value} (h : codec.CanonicalBy text usable v) :
    codec.CanonicalBy text' usable' v := by
  induction codec using Layout.induct generalizing v with
  | primitive p => exact Primitive.Canonical.mono ht h
  | rgb565 => exact h
  | list element ih =>
    simp only [Layout.every, Bool.and_eq_true] at ha
    obtain ⟨hself, items, rfl, hi⟩ := h
    exact ⟨hu _ ha.1 hself, items, rfl, fun x hx => ih ha.2 (hi x hx)⟩
  | map key value ih =>
    simp only [Layout.every, Bool.and_eq_true] at ha
    obtain ⟨hself, entries, rfl, hd, he⟩ := h
    exact ⟨hu _ ha.1 hself, entries, rfl, hd, fun e hmem =>
      ⟨⟨(he e hmem).1.1.mono ht, (he e hmem).1.2⟩, ih ha.2 (he e hmem).2⟩⟩
  | record type ih =>
    simp only [Layout.every, Bool.and_eq_true, RecordLayout.every_eq_true] at ha
    obtain ⟨hself, h⟩ := h
    obtain ⟨head, values, rfl, htype, hf⟩ := RecordLayout.canonicalBy_iff.1 h
    exact ⟨hu _ ha.1 hself, RecordLayout.canonicalBy_iff.2 ⟨head, values, rfl, htype,
      fieldsCanonicalBy_mono (fun f hmem v _ hv => ih f hmem (ha.2 f hmem) hv) hf⟩⟩

end

/-- Whether reading with a layout gets to its parts: the least size of what is repeated can be asked
for, and a record of a type can be made and asked to read. -/
def Layout.canRead : Codec → Bool
  | .list element => element.isSized
  | .map _ value => value.isSized
  | .record type => type.isFillable
  | _ => true

def Layout.isReadable (codec : Codec) : Bool := codec.every Layout.canRead

/-- The text is decoded again from whatever it is encoded as. -/
def Encoding.Recovers (encoding : Encoding) (t : Text) : Prop :=
  ∀ bs, encoding.encode t = some bs → encoding.decode bs = some t

namespace Encoding

variable {encoding : Encoding} {t : Text}

theorem recovers_of_hasSurrogate (h : t.hasSurrogate = false) : encoding.Recovers t :=
  fun _ he => decode_encode h he

theorem recovers_of_decode (ht : encoding.isTotal = true) {bs : Bytes}
    (h : encoding.decode bs = some t) : encoding.Recovers t := by
  intro cs he
  have := (encode_decode ht h).symm.trans he
  rwa [Option.some.inj this] at h

end Encoding

/-- A canonical value that reading gives back if writing takes it: its strings are decoded again,
and nothing on the way to its parts keeps reading from them. -/
abbrev Layout.Recovers (encoding : Encoding) (codec : Codec) (v : Value) : Prop :=
  codec.CanonicalBy encoding.Recovers Layout.canRead v

theorem Layout.recovers_of_canonical (encoding : Encoding) {codec : Codec} {v : Value}
    (hr : codec.isReadable = true) (h : codec.Canonical v) : codec.Recovers encoding v :=
  CanonicalBy.of_every (fun _ => Encoding.recovers_of_hasSurrogate) (fun _ ha _ => ha) hr h

theorem Layout.CanonicalBy.recovers (encoding : Encoding) {codec : Codec} {v : Value}
    (h : codec.CanonicalBy (fun t => t.hasSurrogate = false) Layout.canRead v) :
    codec.Recovers encoding v :=
  h.of_every (fun _ => Encoding.recovers_of_hasSurrogate) (fun _ _ hc => hc) codec.every_true

end RecordWire
