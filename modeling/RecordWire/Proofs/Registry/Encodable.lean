import RecordWire.Proofs.Codec.Initial
import RecordWire.Proofs.Registry.Usable
import RecordWire.Proofs.Service.Whole

/-!
Records of defaults on the wire. A default is accepted only if it can be written under the usual
configuration, and no field hides an operation that only the library asks for; so the record of defaults
of a registered type can be encoded, and unless an escape or another surrogate was put into one of its
strings, it comes back. But a field may have the name of what the language asks for to make a record.
-/

namespace RecordWire

open BatchStruct (reservedNames)

section

variable {types : Text → Option RecordType}

theorem TypeExpr.Denotes.exists_encodes_default {package : Text} {e : TypeExpr} {layout : Codec}
    (h : e.Denotes types package layout)
    (ht : ∀ name type, types name = some type →
      ∃ bs, (Layout.record type).Encodes type.default bs) :
    ∃ bs, layout.Encodes layout.default bs := by
  cases h with
  | primitive name =>
    obtain ⟨bs, hw, -⟩ := name.primitive.exists_writes_default {}
    exact ⟨bs, Primitive.encodes hw⟩
  | list _ => exact ⟨_, Layout.encodes_list_nil _⟩
  | map _ _ => exact ⟨_, Layout.encodes_map_nil _ _⟩
  | struct h => exact ht _ _ h

namespace BatchStruct

variable {d : BatchStruct}

theorem DeclaresField.exists_encodes_default {f : FieldDecl} {field : Field}
    (h : d.DeclaresField types f field)
    (ht : ∀ name type, types name = some type →
      ∃ bs, (Layout.record type).Encodes type.default bs) :
    ∃ bs, field.layout.Encodes field.default bs := by
  obtain ⟨name, layout, default?⟩ := field
  cases default? with
  | none => exact h.layout.exists_encodes_default ht
  | some v =>
    obtain ⟨p, text, hp, hv⟩ := h.exists_defaultValue rfl
    dsimp only at hp
    subst hp
    obtain ⟨bs, hw⟩ := Primitive.exists_writes_of_defaultValue hv
    exact ⟨bs, Primitive.encodes hw⟩

theorem Declares.exists_encodes_default {origin : Nat} {type : RecordType}
    (h : d.Declares origin types type)
    (ht : ∀ name type, types name = some type →
      ∃ bs, (Layout.record type).Encodes type.default bs) :
    ∃ bs, (Layout.record type).Encodes type.default bs := by
  refine RecordLayout.exists_encodes_default h.unreserved fun field hfield => ?_
  obtain ⟨f, -, hf⟩ := exists_of_forall₂ h.fields hfield
  exact hf.exists_encodes_default ht

end BatchStruct

end

namespace RecordLayout

variable {type : RecordType} {bs : Bytes}

theorem toBytes_default (hr : ∀ n ∈ type.fieldNames, n ∉ reservedNames)
    (h : (Layout.record type).Encodes type.default bs) :
    type.default.toBytes {} = .ok bs ∧ type.default.encodedSize .utf8 = .ok bs.length := by
  obtain ⟨hwrites, hsize, -⟩ := h
  rw [default_eq] at hwrites hsize ⊢
  have hfields := (Layout.writes_newRecord.1 hwrites).2.2
  constructor
  · exact Value.toBytes_eq_ok_iff.2 ⟨hides_newRecord hr (by decide),
      Value.writes_encode_iff.2 ⟨hides_newRecord hr (by decide), hfields⟩⟩
  · rw [Value.encodedSize_eq, hsize]

theorem exists_fromBytes_default (hs : (Layout.record type).Schematic)
    (hi : type.isInstantiable = true) (hb : type.default.toBytes {} = .ok bs)
    (hd : type.default.isFreeOfSurrogates = true) :
    ∃ w, type.fromBytes {} bs = .ok w ∧ type.default.Agrees w := by
  have hcanonical := (hs.canonical_default hi).of_isFreeOfSurrogates hd
  obtain ⟨-, hwrites⟩ := Value.toBytes_eq_ok_iff.1 hb
  obtain ⟨w, hspells, hagrees⟩ := exists_spells_of_encode hcanonical.2 hwrites
  obtain ⟨hshown, -⟩ := Layout.shows_record.1 (hs.shows [.fromBytes] (by decide))
  exact ⟨w, fromBytes_of_spells (hshown _ List.mem_cons_self) hi hspells, hagrees⟩

end RecordLayout

namespace Registry

theorem Reached.exists_encodes_default {r : Registry} (hr : r.Reached) {name : Text}
    {type : RecordType} (ht : r.find? name = some type) :
    ∃ bs, (Layout.record type).Encodes type.default bs := by
  refine hr.types.induct (P := fun type => ∃ bs, (Layout.record type).Encodes type.default bs) ?_ ht
  exact fun d _ types type _ hd ih => hd.exists_encodes_default ih

/-- Whatever loads led to a registry, the record of defaults of a registered type can be made unless it,
or a record among the defaults, has a field with the name of what the language asks for then. If it can
be made, it has bytes under the usual configuration. They are as many as its size says, and no fewer than
the type needs at least, which can be asked for. If no string among the defaults has a surrogate, a
record that agrees with it is read from them. -/
theorem toBytes_default_loaded (origin : Nat) (loads : List Load) (name : Text) (type : RecordType)
    (ht : (loads.foldl afterLoad { origin }).find? name = some type) :
    (type.make [] =
      if type.isInstantiable then .ok type.default else .error (.fault .unsupported)) ∧
    ((Layout.record type).isOrdinary = true → type.isInstantiable = true) ∧
    (type.isInstantiable = true → ∃ bs, type.default.toBytes {} = .ok bs ∧
      type.default.encodedSize .utf8 = .ok bs.length ∧
      type.isSized = true ∧ type.minSize ≤ bs.length ∧
      (type.default.isFreeOfSurrogates = true → ∃ w, type.fromBytes {} bs = .ok w ∧
        type.default.Agrees w ∧
        ((Layout.record type).isOrdinary = true → type.default.isFreeOfNaN = true →
          type.default.equal w = true))) := by
  have hr := reached_loads origin loads
  obtain ⟨bs, hencodes⟩ := hr.exists_encodes_default ht
  have hs := hr.schematic ht
  have hnames : ∀ n ∈ type.fieldNames, n ∉ reservedNames := by
    cases hs with
    | record _ hnames _ _ => exact hnames
  obtain ⟨hbytes, hsize⟩ := RecordLayout.toBytes_default hnames hencodes
  refine ⟨RecordLayout.make_nil type, hs.isInstantiable, fun hi => ?_⟩
  refine ⟨bs, hbytes, hsize, hs.isSized, hencodes.least, fun hd => ?_⟩
  obtain ⟨w, hread, hagrees⟩ := RecordLayout.exists_fromBytes_default hs hi hbytes hd
  exact ⟨w, hread, hagrees, fun _ hn => Value.equal_of_agrees hn hagrees⟩

namespace Nested

def lines : List Text := ["syntax 1.0.0", "package p", "struct A " ++ [CodePoint.openBrace],
  " float x = nan", [CodePoint.closeBrace], "struct R " ++ [CodePoint.openBrace],
  " string s = " ++ [CodePoint.quote, 0xE9, CodePoint.quote], " A a", [CodePoint.closeBrace]]

def number : FieldDecl := ⟨"x", .primitive (.proper .float), some "nan", 4, 7⟩

def label : FieldDecl := ⟨"s", .primitive (.proper .string), some [0xE9], 7, 8⟩

def part : FieldDecl := ⟨"a", .struct "A" none, none, 8, 3⟩

def schema : SchemaModule := ⟨"1.0.0", "p", [⟨"A", [number], 3⟩, ⟨"R", [label, part], 6⟩], "s"⟩

def inner : RecordType := ⟨⟨0, "p.A"⟩, "A", "p.A", [],
  [⟨"x", .primitive .float, some (.float (.nan false))⟩]⟩

def outer : RecordType := ⟨⟨0, "p.R"⟩, "R", "p.R", [],
  [⟨"s", .primitive .string, some (.text [0xE9])⟩, ⟨"a", .record inner, none⟩]⟩

def load : Load := .text "s" (Text.join [CodePoint.lineFeed] lines)

theorem parse_lines : Schema.parse "s" (Text.join [CodePoint.lineFeed] lines) = .ok schema := by
  have hlines : ∀ l ∈ lines, l.IsInline := by decide
  have hnumber : (Schema.State.inside "1.0.0" "p" [] ⟨"A", [], 3⟩).step 4 1 "float x = nan" =
      .ok (.inside "1.0.0" "p" [] ⟨"A", [number], 3⟩) :=
    Schema.State.step_of_parseFields (by decide)
      (Schema.parseFields_of_split (.primitive (.proper .float)) (by decide) rfl rfl rfl rfl) rfl
  have hlabel : (Schema.State.inside "1.0.0" "p" [⟨"A", [number], 3⟩] ⟨"R", [], 6⟩).step 7 1
      ("string s = " ++ [CodePoint.quote, 0xE9, CodePoint.quote]) =
      .ok (.inside "1.0.0" "p" [⟨"A", [number], 3⟩] ⟨"R", [label], 6⟩) :=
    Schema.State.step_of_parseFields (by decide)
      (Schema.parseFields_of_split (.primitive (.proper .string)) (by decide) rfl rfl rfl rfl) rfl
  have hpart : (Schema.State.inside "1.0.0" "p" [⟨"A", [number], 3⟩] ⟨"R", [label], 6⟩).step 8 1
      "A a" = .ok (.inside "1.0.0" "p" [⟨"A", [number], 3⟩] ⟨"R", [label, part], 6⟩) :=
    Schema.State.step_of_parseFields (by decide)
      (Schema.parseFields_of_split (.struct (by decide) rfl) (by decide) rfl rfl rfl rfl) rfl
  refine (Schema.parse_join hlines).2 ⟨.outside "1.0.0" "p" schema.structs, ?_, rfl⟩
  rw [lines, Schema.State.run_ok (by decide) rfl, Schema.State.run_ok (by decide) rfl,
    Schema.State.run_ok (by decide) rfl, Schema.State.run_ok (by decide) hnumber,
    Schema.State.run_ok (by decide) rfl, Schema.State.run_ok (by decide) rfl,
    Schema.State.run_ok (by decide) hlabel, Schema.State.run_ok (by decide) hpart,
    Schema.State.run_ok (by decide) rfl]
  rfl

theorem after_load : [load].foldl afterLoad { origin := 0 } =
    { origin := 0, types := [("p.A", inner), ("p.R", outer)], modules := [schema] } := by
  have hbatch : BatchStruct.ofBatch ({ origin := 0 } : Registry).isRegistered [schema] =
      .ok (BatchStruct.ofModules [schema]) := rfl
  have horder : BatchStruct.buildOrder ({ origin := 0 } : Registry).isRegistered
      (BatchStruct.ofModules [schema]) = .ok ["p.A", "p.R"] := by
    cbv
  exact afterLoad_text_of_build parse_lines hbatch horder rfl

theorem find?_outer : ([load].foldl afterLoad { origin := 0 }).find? "p.R" = some outer := by
  rw [after_load]
  rfl

end Nested

open Nested

/-- The number that is none in the inner record comes back as one, behind a text that is no ASCII. -/
theorem toBytes_default_loaded_nested :
    (([load].foldl afterLoad { origin := 0 }).find? "p.R" = some outer ∧
      (Layout.record outer).isOrdinary = true ∧ outer.default.isFreeOfSurrogates = true) ∧
    outer.make [] =
      .ok (.newRecord outer [.text [0xE9], .newRecord inner [.float (.nan false)]]) ∧
    ∃ bs w, outer.default.toBytes {} = .ok bs ∧ outer.default.encodedSize .utf8 = .ok bs.length ∧
      outer.isSized = true ∧ 8 ≤ bs.length ∧ outer.fromBytes {} bs = .ok w ∧
      outer.default.Agrees w := by
  have hd : outer.default.isFreeOfSurrogates = true := by decide +kernel
  have ho : (Layout.record outer).isOrdinary = true := by decide
  obtain ⟨hmade, hi, hwire⟩ := toBytes_default_loaded 0 [load] "p.R" outer find?_outer
  rw [if_pos (hi ho)] at hmade
  obtain ⟨bs, hbytes, hsize, hsized, hleast, hback⟩ := hwire (hi ho)
  obtain ⟨w, hread, hagrees, -⟩ := hback hd
  exact ⟨⟨find?_outer, ho, hd⟩, hmade, bs, w, hbytes, hsize, hsized, hleast, hread, hagrees⟩

namespace SetUp

def lines : List Text := ["syntax 1.0.0", "package p", "struct R " ++ [CodePoint.openBrace],
  " uint8 __init__", [CodePoint.closeBrace]]

def field : FieldDecl := ⟨"__init__", .primitive (.proper (.int .uint8)), none, 4, 7⟩

def schema : SchemaModule := ⟨"1.0.0", "p", [⟨"R", [field], 3⟩], "s"⟩

def type : RecordType :=
  ⟨⟨0, "p.R"⟩, "R", "p.R", [], [⟨"__init__", .primitive (.int .uint8), none⟩]⟩

def load : Load := .text "s" (Text.join [CodePoint.lineFeed] lines)

theorem parse_lines : Schema.parse "s" (Text.join [CodePoint.lineFeed] lines) = .ok schema :=
  Schema.parse_of_parseFields (by decide) (by decide) (by decide)
    (Schema.parseFields_of_split (.primitive (.proper (.int .uint8))) (by decide) rfl rfl rfl rfl)
    rfl

end SetUp

/-- A schema is accepted with a field that hides how a record is set up, and then no record of the type
can be made. -/
theorem make_set_up :
    ([SetUp.load].foldl afterLoad { origin := 0 }).find? "p.R" = some SetUp.type ∧
      SetUp.type.make [] = .error (.fault .unsupported) := by
  have hbatch : BatchStruct.ofBatch ({ origin := 0 } : Registry).isRegistered [SetUp.schema] =
      .ok (BatchStruct.ofModules [SetUp.schema]) := rfl
  have horder : BatchStruct.buildOrder ({ origin := 0 } : Registry).isRegistered
      (BatchStruct.ofModules [SetUp.schema]) = .ok ["p.R"] := by
    cbv
  have hafter : [SetUp.load].foldl afterLoad { origin := 0 } =
      { origin := 0, types := [("p.R", SetUp.type)], modules := [SetUp.schema] } :=
    afterLoad_text_of_build SetUp.parse_lines hbatch horder rfl
  constructor
  · rw [hafter]
    rfl
  · rw [RecordLayout.make_nil, if_neg (by decide)]

end Registry

end RecordWire
