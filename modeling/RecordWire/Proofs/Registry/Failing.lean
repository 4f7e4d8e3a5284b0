import RecordWire.Proofs.Registry.Reached
import RecordWire.Proofs.Schema.Comments

/-!
What a batch fails by. Its types have descriptions that tell the source of their schema; where that is a
text that cannot be encoded, no type can be made of a struct, although nothing is wrong with the schema.
In every other way a batch of schemas that were read fails by an error of these.
-/

namespace RecordWire

namespace Operation

def ofCreation : List Text := [slotsMember, placeMember, cellMember]

end Operation

theorem RecordLayout.refusal?_of_isIdentifier {name : Text} (hn : name.isIdentifier = true)
    {members : List Text} (hm : ∀ n ∈ Operation.ofCreation, n ∉ members) (description : Text) :
    refusal? name members description =
      if description.hasSurrogate && !members.contains Operation.descriptionMember then
        some .unencodable else none := by
  have hword := Text.isWord_of_isIdentifier hn
  have hfree : ∀ n ∈ Operation.ofCreation, members.contains n = false := fun n h => by
    simpa using hm n h
  rw [refusal?, hfree Operation.slotsMember (by decide), hfree Operation.placeMember (by decide),
    hfree Operation.cellMember (by decide), hword.hasSurrogate_eq_false, hword.contains_zero]
  simp

theorem RecordLayout.notMem_of_refusal?_eq_none {name description : Text} {members : List Text}
    (h : refusal? name members description = none) : ∀ n ∈ Operation.ofCreation, n ∉ members := by
  have hfree : ∀ n ∈ Operation.ofCreation, members.contains n = false := by
    intro n hn
    rw [refusal?] at h
    simp only [Operation.ofCreation, List.mem_cons, List.not_mem_nil, or_false] at hn
    split_ifs at h
    rcases hn with rfl | rfl | rfl <;> exact Bool.not_eq_true _ ▸ ‹_›
  exact fun n hn => by simpa using hfree n hn

namespace BatchStruct

variable {d : BatchStruct}

theorem hasSurrogate_description (hp : d.module.package.isIdentifier = true)
    (hn : d.struct.name.isIdentifier = true) :
    d.description.hasSurrogate = d.module.source.hasSurrogate := by
  have hname : d.name.hasSurrogate = false := (TypeExpr.isWord_join hp hn).hasSurrogate_eq_false
  have happend : ∀ s t : Text, (s ++ t).hasSurrogate = (s.hasSurrogate || t.hasSurrogate) :=
    fun s t => List.any_append
  have hfirst : (Text.ofString "Record type ").hasSurrogate = false := by decide
  have hmiddle : (Text.ofString " from ").hasSurrogate = false := by decide
  have hlast : (Text.ofString ".").hasSurrogate = false := by decide
  rw [description, happend, happend, happend, happend, hname, hfirst, hmiddle, hlast,
    Bool.false_or, Bool.false_or, Bool.false_or, Bool.or_false]

theorem refusal?_eq (hp : d.module.package.isIdentifier = true)
    (hn : d.struct.name.isIdentifier = true)
    (hm : ∀ n ∈ Operation.ofCreation, n ∉ d.struct.fields.map (·.name)) :
    d.refusal? = if d.module.source.hasSurrogate &&
        !(d.struct.fields.map (·.name)).contains Operation.descriptionMember then
      some .unencodable else none := by
  rw [refusal?, RecordLayout.refusal?_of_isIdentifier hn hm, hasSurrogate_description hp hn]

end BatchStruct

namespace Registry

open BatchStruct

/-- A batch of schemas that were read, without names such as the language has, fails by an error of a
schema, or because a source cannot be encoded. -/
theorem stops_of_isRead {modules : List SchemaModule} {e : RegistryError}
    (h : e.Stops (ofModules modules)) (hread : ∀ m ∈ modules, IsRead m)
    (hnames : ∀ d ∈ ofModules modules, ∀ f ∈ d.struct.fields, ¬ Text.ofString "__" <+: f.name) :
    (∃ s, e = .schema s) ∨
      e = .fault .unencodable ∧ ∃ m ∈ modules, m.source.hasSurrogate = true := by
  cases h with
  | schema s => exact .inl ⟨s, rfl⟩
  | @fault d why hd hwhy =>
    obtain ⟨hm, lines, hp, hn⟩ := exists_sound_of_isRead hread hd
    have hspecial : ∀ n ∈ Operation.ofCreation, Text.ofString "__" <+: n := by decide
    have hfree : ∀ n ∈ Operation.ofCreation, n ∉ d.struct.fields.map (·.name) := by
      intro n hc hmem
      obtain ⟨f, hf, rfl⟩ := List.mem_map.1 hmem
      exact hnames d hd f hf (hspecial _ hc)
    rw [refusal?_eq hp.package hn.name hfree] at hwhy
    split at hwhy
    · rename_i hs
      cases hwhy
      exact .inr ⟨rfl, d.module, hm, (Bool.and_eq_true _ _ ▸ hs).1⟩
    · cases hwhy

/-- After any batches, some of which fail, a registry has for each struct of the schemas that were
registered the type that it declares, and no type refers to itself. The next batch adds its types and
its schemas, or it fails and leaves the registry as it was. What it fails by is an error of its schemas,
or that no type can be made of a struct: of schemas that were read, without names such as the language
has, that is only so if the source of one cannot be encoded. -/
theorem register_run (origin : Nat) (batches : List (List SchemaModule))
    (modules : List SchemaModule) :
    (batches.foldl after { origin }).Sound ∧
      match registering modules (batches.foldl after { origin }) with
      | .error e r => r = batches.foldl after { origin } ∧ e.Stops (ofModules modules) ∧
          ((∀ m ∈ modules, IsRead m) →
            (∀ d ∈ ofModules modules, ∀ f ∈ d.struct.fields, ¬ Text.ofString "__" <+: f.name) →
            (∃ s, e = .schema s) ∨
              e = .fault .unencodable ∧ ∃ m ∈ modules, m.source.hasSurrogate = true)
      | .ok created r => (batches.foldl after { origin }).Adds modules r created := by
  have hr := grounded_run origin batches
  refine ⟨hr.sound, ?_⟩
  generalize batches.foldl after { origin } = r at hr
  split
  · rename_i e r' hreg
    have herror : r.register modules = .error e := by rw [register, hreg]
    have hstops := stops_of_register herror
    exact ⟨eq_of_registering_error hreg, hstops, stops_of_isRead hstops⟩
  · rename_i created r' hreg
    have hok : r.register modules = .ok (r', created) := by rw [register, hreg]
    exact (hr.register hok).2

namespace Escaped

def lines : List Text := ["syntax 1.0.0", "package p", "struct R " ++ [CodePoint.openBrace],
  " uint8 a", [CodePoint.closeBrace]]

def field : FieldDecl := ⟨"a", .primitive (.proper (.int .uint8)), none, 4, 7⟩

def schema (source : Text) : SchemaModule := ⟨"1.0.0", "p", [⟨"R", [field], 3⟩], source⟩

def type : RecordType := ⟨⟨0, "p.R"⟩, "R", "p.R", [], [⟨"a", .primitive (.int .uint8), none⟩]⟩

def source : Text := [0xDCFF]

theorem isRead_schema (source : Text) : IsRead (schema source) :=
  ⟨source, Text.join [CodePoint.lineFeed] lines,
    Schema.parse_of_parseFields (by decide) (by decide) (by decide)
      (Schema.parseFields_of_split (.primitive (.proper (.int .uint8))) (by decide) rfl rfl rfl rfl)
      rfl⟩

theorem build_schema (source : Text) : ({ origin := 0 } : Registry).build [schema source] =
    buildAll 0 [] (ofModules [schema source]) [] ["p.R"] := by
  have hbatch : ofBatch ({ origin := 0 } : Registry).isRegistered [schema source] =
      .ok (ofModules [schema source]) := rfl
  have horder : buildOrder ({ origin := 0 } : Registry).isRegistered
      (ofModules [schema source]) = .ok ["p.R"] := by
    cbv
  rw [build, hbatch]
  dsimp only
  rw [horder]

theorem registering_schema_source : registering [schema source] { origin := 0 } =
    .error (.fault .unencodable) { origin := 0 } :=
  registering_of_error (by rw [build_schema]; rfl)

theorem registering_schema : registering [schema "s"] { origin := 0 } =
    .ok [type] { origin := 0, types := [("p.R", type)], modules := [schema "s"] } := by
  have hbuild : ({ origin := 0 } : Registry).build [schema "s"] = ⟨[("p.R", type)], none⟩ := by
    rw [build_schema]
    rfl
  rw [registering_of_built (by rw [hbuild]), hbuild]
  rfl

end Escaped

open Escaped

/-- Nothing is registered of a schema whose source cannot be encoded. The same schema from another
source is registered next. -/
theorem register_run_batches :
    (∃ e, registering [schema source] { origin := 0 } = .error e { origin := 0 } ∧
      ((∃ s, e = .schema s) ∨
        e = .fault .unencodable ∧ ∃ m ∈ [schema source], m.source.hasSurrogate = true)) ∧
    ∃ r, registering [schema "s"] ([[schema source]].foldl after { origin := 0 }) = .ok [type] r ∧
      ([[schema source]].foldl after { origin := 0 }).Adds [schema "s"] r [type] := by
  have hafter : [[schema source]].foldl after { origin := 0 } = { origin := 0 } := by
    rw [List.foldl_cons, List.foldl_nil, after, registering_schema_source]
  constructor
  · obtain ⟨-, h⟩ := register_run 0 [] [schema source]
    rw [List.foldl_nil, registering_schema_source] at h
    exact ⟨_, registering_schema_source, h.2.2
      (List.forall_mem_singleton.2 (isRead_schema source)) (by decide)⟩
  · obtain ⟨-, h⟩ := register_run 0 [[schema source]] [schema "s"]
    rw [hafter, registering_schema] at h
    rw [hafter]
    exact ⟨_, registering_schema, h⟩

/-- A schema that was read and refers to nothing, without names such as the language has, fails to be
registered by what is no error of a schema. -/
theorem registering_unencodable :
    IsRead (schema source) ∧
    (∀ d ∈ ofModules [schema source], ∀ f ∈ d.struct.fields, ¬ Text.ofString "__" <+: f.name) ∧
    registering [schema source] { origin := 0 } =
      .error (.fault .unencodable) { origin := 0 } :=
  ⟨isRead_schema source, by decide, registering_schema_source⟩

end Registry

end RecordWire
