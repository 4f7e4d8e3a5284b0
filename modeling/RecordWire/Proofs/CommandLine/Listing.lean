import RecordWire.CommandLine.Run
import RecordWire.Proofs.Registry.Batches
import RecordWire.Proofs.Registry.Failing
import RecordWire.Proofs.Registry.Naming
import RecordWire.Proofs.Schema.Comments
import RecordWire.Proofs.Schema.Rendering

/-!
The listing of types, read back. Each line below the name of a type is a declaration of the field that
it tells of: with any header in front and a brace behind them, these lines are a struct. Whatever the
package, loading it gives a type with the same layouts under the same names, so its records have the
same bytes. The listing leaves defaults out.
-/

namespace RecordWire

open CodePoint (lineFeed openBrace closeBrace)

/-- The declaration is that of a field without a default, whose type is the name of the layout. -/
structure FieldDecl.Lists (types : Text → Option RecordType) (d : FieldDecl) (f : Field) : Prop where
  name : d.name = f.name
  type : d.type.Names types f.layout
  default : d.default? = none

namespace FieldDecl.Lists

variable {types types' : Text → Option RecordType} {d : FieldDecl} {f : Field}

theorem mono (h : d.Lists types f)
    (hle : ∀ key type, types key = some type → types' key = some type) : d.Lists types' f :=
  ⟨h.name, h.type.mono hle, h.default⟩

theorem proper (h : d.Lists types f) (hn : f.name.isIdentifier = true) : d.Proper where
  name := by rwa [h.name]
  type := TypeExpr.isProper_iff.1 h.type.isProper
  required he := by
    have hnames := h.type
    rw [he] at hnames
    cases hnames
  string _ := by simp [h.default]
  word _ := by simp [h.default]

theorem text_eq (h : d.Lists types f) :
    d.type.text ++ " " ++ d.text = f.layout.name ++ " " ++ f.name := by
  rw [h.type.text_eq, FieldDecl.text_of_none h.default, h.name]

theorem buildField (h : d.Lists types f) (hr : f.name ∉ BatchStruct.reservedNames) (s : BatchStruct) :
    s.buildField types d = .ok ⟨f.name, f.layout, none⟩ := by
  have hreserved : BatchStruct.reservedNames.contains d.name = false := by
    simpa [h.name] using hr
  rw [BatchStruct.buildField, hreserved, h.type.layout_eq]
  simp only [Bool.false_eq_true, if_false, BatchStruct.fieldDefault, h.default, h.name]

end FieldDecl.Lists

section

variable {types : Text → Option RecordType} {decls : List FieldDecl} {fields : List Field}

theorem exists_lists (h : ∀ f ∈ fields, ∃ e, TypeExpr.Names types e f.layout) :
    ∃ decls, List.Forall₂ (FieldDecl.Lists types) decls fields := by
  induction fields with
  | nil => exact ⟨[], .nil⟩
  | cons f fields ih =>
    obtain ⟨⟨e, he⟩, hfields⟩ := List.forall_mem_cons.1 h
    obtain ⟨decls, hdecls⟩ := ih hfields
    exact ⟨⟨f.name, e, none, 0, 0⟩ :: decls, .cons ⟨rfl, he, rfl⟩ hdecls⟩

theorem map_name_of_lists (h : List.Forall₂ (FieldDecl.Lists types) decls fields) :
    decls.map (·.name) = fields.map (·.name) := by
  rw [← List.forall₂_eq_eq_eq, List.forall₂_map_left_iff, List.forall₂_map_right_iff]
  exact h.imp fun _ _ hd => hd.name

theorem proper_of_lists (h : List.Forall₂ (FieldDecl.Lists types) decls fields)
    (hn : ∀ f ∈ fields, f.name.isIdentifier = true) : ∀ d ∈ decls, d.Proper := by
  induction h with
  | nil => simp
  | cons hd _ ih =>
    obtain ⟨hf, hfs⟩ := List.forall_mem_cons.1 hn
    exact List.forall_mem_cons.2 ⟨hd.proper hf, ih hfs⟩

theorem lists_of_unplaced {more : List FieldDecl}
    (h : List.Forall₂ (FieldDecl.Lists types) decls fields)
    (hu : more.map FieldDecl.unplaced = decls.map FieldDecl.unplaced) :
    List.Forall₂ (FieldDecl.Lists types) more fields := by
  have hdecls : List.Forall₂ (FieldDecl.Lists types) (decls.map FieldDecl.unplaced) fields := by
    rw [List.forall₂_map_left_iff]
    exact h.imp fun _ _ hd => ⟨hd.name, hd.type, hd.default⟩
  rw [← hu, List.forall₂_map_left_iff] at hdecls
  exact hdecls.imp fun _ _ hd => ⟨hd.name, hd.type, hd.default⟩

theorem collect_buildField (h : List.Forall₂ (FieldDecl.Lists types) decls fields)
    (hr : ∀ f ∈ fields, f.name ∉ BatchStruct.reservedNames) (s : BatchStruct) :
    collect (decls.map (s.buildField types)) =
      .ok (fields.map fun f => ⟨f.name, f.layout, none⟩) := by
  induction h with
  | nil => rfl
  | cons hd _ ih =>
    obtain ⟨hf, hfs⟩ := List.forall_mem_cons.1 hr
    rw [List.map_cons, hd.buildField hf, collect, ih hfs]
    rfl

end

namespace CommandLine

def declarationLine (f : Field) : Text := "    " ++ (f.layout.name ++ " " ++ f.name)

theorem lines_typeLines {name : Text} {type : RecordType} (hn : name.IsInline)
    (hf : ∀ f ∈ type.fields, (declarationLine f).IsInline) :
    (typeLines name type).lines = name :: type.fields.map declarationLine := by
  have hfields : ∀ fields : List Field, (∀ f ∈ fields, (declarationLine f).IsInline) →
      Text.lines (fields.flatMap fun f => fieldLine f.layout.name f.name) =
        fields.map declarationLine := by
    intro fields hf
    induction fields with
    | nil => rfl
    | cons f fields ih =>
      obtain ⟨hf, hfs⟩ := List.forall_mem_cons.1 hf
      have hline : fieldLine f.layout.name f.name = declarationLine f ++ [lineFeed] := by
        simp only [fieldLine, declarationLine, List.append_assoc]
      rw [List.flatMap_cons, hline, List.append_assoc, List.singleton_append, Text.lines_append hf,
        ih hfs, List.map_cons]
  rw [typeLines, List.append_assoc, List.singleton_append, Text.lines_append hn, hfields _ hf]

theorem typeLines_infix {r : Registry} {name : Text} {type : RecordType}
    (ht : r.find? name = some type) : typeLines name type <:+: listTypes r := by
  have hmem : name ∈ r.names := by
    rw [Registry.names, Text.sorted, List.mem_mergeSort, ← TypeTable.isSome_lookup_iff]
    exact Option.isSome_of_eq_some ht
  obtain ⟨before, behind, hnames⟩ := List.append_of_mem hmem
  rw [listTypes, hnames, List.flatMap_append, List.flatMap_cons, ht, ← List.append_assoc]
  exact List.infix_append ..

end CommandLine

namespace Schema

/-- The lines of a schema of one struct, with lines for its fields. -/
def structSchema (version package name : Text) (lines : List Text) : List Text :=
  ("syntax " ++ version) :: ("package " ++ package) :: ("struct " ++ name ++ " " ++ [openBrace]) ::
    (lines ++ [[closeBrace]])

variable {types : Text → Option RecordType} {decls : List FieldDecl} {fields : List Field}

theorem fieldLines_of_lists (h : List.Forall₂ (FieldDecl.Lists types) decls fields) :
    FieldLines decls (fields.map CommandLine.declarationLine) := by
  have hindent : IsGap "    " := by
    intro c hc
    obtain rfl : c = CodePoint.ofChar ' ' := by simpa [Text.ofString] using hc
    decide
  induction h with
  | nil => exact .nil
  | cons hd _ ih =>
    rw [List.map_cons, CommandLine.declarationLine, ← hd.text_eq]
    exact .cons hindent (List.forall_mem_singleton.2 rfl) (.one _) ih

theorem exists_parse_of_lists (h : List.Forall₂ (FieldDecl.Lists types) decls fields)
    (hf : ∀ f ∈ fields, f.name.isIdentifier = true) (hn : (fields.map (·.name)).Nodup)
    {version package name : Text} (hv : IsVersion 3 version) (hp : package.isIdentifier = true)
    (hs : name.isIdentifier = true) (source : Text) :
    ∃ more line, List.Forall₂ (FieldDecl.Lists types) more fields ∧
      parse source (Text.join [lineFeed] (structSchema version package name
          (fields.map CommandLine.declarationLine))) =
        .ok ⟨version, package, [⟨name, more, line⟩], source⟩ := by
  let m : SchemaModule := ⟨version, package, [⟨name, decls, 0⟩], source⟩
  have hstruct : StructDecl.Proper ⟨name, decls, 0⟩ :=
    ⟨hs, by rwa [map_name_of_lists h], proper_of_lists h hf⟩
  have hm : m.Proper := ⟨hv, hp, List.nodup_singleton _, List.forall_mem_singleton.2 hstruct⟩
  have hl : ModuleLines m (structSchema version package name
      (fields.map CommandLine.declarationLine)) :=
    .mk isGap_nil isGap_nil (.cons isGap_nil isGap_nil (fieldLines_of_lists h) .nil)
  obtain ⟨ss, hunplaced, hrun⟩ := run_moduleLines source hl hm
  obtain ⟨⟨name', more, line⟩, rest, rfl, hfirst, hrest⟩ := List.map_eq_cons_iff.1 hunplaced
  obtain rfl := List.map_eq_nil_iff.1 hrest
  simp only [StructDecl.unplaced, StructDecl.mk.injEq] at hfirst
  obtain ⟨rfl, hfields, -⟩ := hfirst
  refine ⟨more, line, lists_of_unplaced h hfields, ?_⟩
  rw [parse, Text.lines_join (hl.isInline hm), hrun]
  rfl

end Schema

/-- The type of a struct that has the fields of another type, without their defaults. -/
def RecordLayout.relisted (type : RecordType) (origin : Nat) (package name : Text) : RecordType :=
  ⟨⟨origin, StructRef.join package name⟩, name, StructRef.join package name, [],
    type.fields.map fun f => ⟨f.name, f.layout, none⟩⟩

namespace Registry

open BatchStruct

section

variable {r : Registry} {type : RecordType} {decls : List FieldDecl} {version package name source : Text}
  {line : Nat}

theorem accepts_of_lists (h : List.Forall₂ (FieldDecl.Lists r.find?) decls type.fields)
    (hr : ∀ f ∈ type.fields, f.name ∉ reservedNames)
    (hfree : r.find? (StructRef.join package name) = none)
    (hd : BatchStruct.refusal? ⟨⟨version, package, [⟨name, decls, line⟩], source⟩,
      ⟨name, decls, line⟩⟩ = none) :
    r.Accepts [⟨version, package, [⟨name, decls, line⟩], source⟩]
      [(StructRef.join package name, type.relisted r.origin package name)] := by
  let table : TypeTable := [(StructRef.join package name, type.relisted r.origin package name)]
  let d : BatchStruct := ⟨⟨version, package, [⟨name, decls, line⟩], source⟩, ⟨name, decls, line⟩⟩
  have hstructs : ofModules [⟨version, package, [⟨name, decls, line⟩], source⟩] = [d] := rfl
  have hname : d.name = StructRef.join package name := rfl
  have hknown : ∀ target ∈ d.targets, r.isRegistered target = true := by
    intro target ht
    obtain ⟨r', hm, rfl⟩ := List.mem_map.1 ht
    obtain ⟨decl, hdecl, hm⟩ := List.mem_flatMap.1 hm
    obtain ⟨ref, href, rfl⟩ := List.mem_map.1 hm
    obtain ⟨f, -, hf⟩ := exists_of_forall₂ h.flip hdecl
    exact hf.type.isSome_of_refs href
  have hlists : List.Forall₂ (FieldDecl.Lists ((r.types ++ table).lookup ·)) decls type.fields :=
    h.imp fun _ _ hd => hd.mono fun _ _ => TypeTable.lookup_append_of_some
  have hbuild : d.build r.origin ((r.types ++ table).lookup ·) =
      .ok (type.relisted r.origin package name) := by
    rw [BatchStruct.build, collect_buildField hlists hr]
    dsimp only
    rw [hd]
    rfl
  refine ⟨⟨?_, ?_⟩, ?_, ?_, ?_⟩ <;> rw [hstructs]
  · exact List.nodup_singleton _
  · refine List.forall_mem_singleton.2 ?_
    rw [hname, isRegistered, hfree]
    rfl
  · exact List.Perm.refl _
  · refine .snoc .nil (d := d) ?_ List.not_mem_nil fun target ht => .inr (hknown target ht)
    simp [BatchStruct.find?, hname]
  · exact List.forall_mem_singleton.2 ⟨d, List.mem_singleton_self d, rfl, hbuild⟩

theorem after_of_refusal? {modules : List SchemaModule} {d : BatchStruct} {why : Fault}
    (hd : d ∈ ofModules modules) (h : d.refusal? = some why) : r.after modules = r := by
  cases hreg : r.register modules with
  | error e => exact after_of_register_error hreg
  | ok result =>
    obtain ⟨table, htable, -⟩ := accepts_of_register hreg
    rw [htable.refusal?_eq_none hd] at h
    cases h

theorem find?_after_of_accepts {modules : List SchemaModule} {key : Text}
    (h : r.Accepts modules [(key, type)]) (hfree : r.find? key = none) :
    (r.after modules).find? key = some type := by
  obtain ⟨table, htable, hreg⟩ := h.exists_register
  obtain rfl := List.perm_singleton.1 htable
  rw [find?] at hfree
  rw [after_of_register_ok hreg]
  simp only [find?, grown, List.lookup_append, hfree, Option.none_or, List.lookup_cons_self]

end

namespace Reached

variable {r : Registry} {key : Text} {type : RecordType}

theorem lines_typeLines (hr : r.Reached) (ht : r.find? key = some type) :
    (CommandLine.typeLines key type).lines = key :: type.fields.map CommandLine.declarationLine := by
  obtain ⟨-, package, name, hp, hn, hkey⟩ := hr.areNamed key type ht
  refine CommandLine.lines_typeLines ?_ fun f hf => ?_
  · rw [hkey]
    exact (TypeExpr.isWord_join hp hn).isInline
  · obtain ⟨e, he⟩ := hr.exists_names ht hf
    have hname := (Text.isWord_of_isIdentifier (hr.isIdentifier_name ht hf)).isInline
    have hindent : Text.IsInline "    " := by decide
    have hspace : Text.IsInline " " := by decide
    rw [CommandLine.declarationLine, ← he.text_eq]
    exact hindent.append ((he.isProper.isInline.append hspace).append hname)

/-- The lines below the name of a registered type, as the fields of a struct. No type can be made of it
if the source cannot be encoded and is told in a description. -/
theorem find?_relisted (hr : r.Reached) (ht : r.find? key = some type)
    {version package name : Text} (hv : Schema.isVersion 3 version = true)
    (hp : package.isIdentifier = true) (hn : name.isIdentifier = true)
    (hfree : r.find? (StructRef.join package name) = none) (source : Text) :
    (r.afterLoad (.text source (Text.join [lineFeed] (Schema.structSchema version package name
      (CommandLine.typeLines key type).lines.tail)))).find? (StructRef.join package name) =
        if source.hasSurrogate && !type.fieldNames.contains Operation.descriptionMember then none
        else some (type.relisted r.origin package name) := by
  obtain ⟨d, hd, -, hdeclares⟩ := hr.types.exists_declares ht
  have hnodup : type.fieldNames.Nodup := hdeclares.fieldNames_eq ▸ hr.nodup_fields hd
  have hunreserved : ∀ f ∈ type.fields, f.name ∉ reservedNames := fun f hf =>
    hdeclares.unreserved f.name (List.mem_map_of_mem hf)
  obtain ⟨decls, hdecls⟩ := exists_lists fun f hf => hr.exists_names ht hf
  obtain ⟨more, line, hmore, hparse⟩ := Schema.exists_parse_of_lists hdecls
    (fun f hf => hr.isIdentifier_name ht hf) hnodup (Schema.isVersion_iff.1 hv) hp hn source
  let d' : BatchStruct := ⟨⟨version, package, [⟨name, more, line⟩], source⟩, ⟨name, more, line⟩⟩
  have hnames : d'.struct.fields.map (·.name) = type.fieldNames := map_name_of_lists hmore
  have hcreation : ∀ n ∈ Operation.ofCreation, n ∉ d'.struct.fields.map (·.name) := by
    rw [hnames, hdeclares.fieldNames_eq]
    exact RecordLayout.notMem_of_refusal?_eq_none hdeclares.creatable
  have hrefusal : d'.refusal? = if source.hasSurrogate &&
      !type.fieldNames.contains Operation.descriptionMember then some .unencodable else none := by
    rw [← hnames]
    exact refusal?_eq hp hn hcreation
  rw [hr.lines_typeLines ht, List.tail_cons, afterLoad_text_of_parse r hparse]
  split
  · rename_i hs
    rw [if_pos hs] at hrefusal
    rwa [after_of_refusal? (List.mem_singleton_self d') hrefusal]
  · rename_i hs
    rw [if_neg hs] at hrefusal
    exact find?_after_of_accepts (accepts_of_lists hmore hunreserved hfree hrefusal) hfree

end Reached

/-- Whatever loads led to a registry, the name of every layout in the fields of a registered type, at
any depth, is read as a type expression, which means the same layout in every package. So the lines that
the listing of types has below the name of a type can be read back: as a new struct of any package, they
give a type with the same fields, but for their defaults. Only from a source that cannot be encoded, no
type is made that tells of it. -/
theorem layout_name_loaded (origin : Nat) (loads : List Load) (key : Text) (type : RecordType)
    (ht : (loads.foldl afterLoad { origin }).find? key = some type) :
    (∀ f ∈ type.fields, ∀ part : Codec, part.IsPart f.layout → ∀ package : Text,
      ∃ e, TypeExpr.parse part.name = .ok e ∧
        e.layout (loads.foldl afterLoad { origin }).find? package = .ok part) ∧
    CommandLine.typeLines key type <:+: CommandLine.listTypes (loads.foldl afterLoad { origin }) ∧
    ∀ source version package name : Text, Schema.isVersion 3 version = true →
      package.isIdentifier = true → name.isIdentifier = true →
      (loads.foldl afterLoad { origin }).find? (StructRef.join package name) = none →
      ((loads.foldl afterLoad { origin }).afterLoad (.text source
        (Text.join [lineFeed] (Schema.structSchema version package name
          (CommandLine.typeLines key type).lines.tail)))).find? (StructRef.join package name) =
        if source.hasSurrogate && !type.fieldNames.contains Operation.descriptionMember then none
        else some (type.relisted (loads.foldl afterLoad { origin }).origin package name) := by
  have hr := reached_loads origin loads
  refine ⟨fun f hf part hpart package => ?_, CommandLine.typeLines_infix ht, ?_⟩
  · obtain ⟨e, he⟩ := hr.exists_names_of_isPart hpart (hr.exists_names ht hf)
    exact ⟨e, he.parse_name, he.layout_eq package⟩
  · exact fun source version package name hv hp hn hfree =>
      hr.find?_relisted ht hv hp hn hfree source

namespace Colliding

def lines : List Text := ["syntax 1.0.0", "package list", "struct map " ++ [openBrace], " byte b",
  [closeBrace], "struct R " ++ [openBrace], " map[string, list[list.map]] m", [closeBrace]]

def byte : FieldDecl := ⟨"b", .primitive .byte, none, 4, 6⟩

def entries : FieldDecl :=
  ⟨"m", .map .string (.list (.struct "map" (some "list"))), none, 7, 29⟩

def schema : SchemaModule := ⟨"1.0.0", "list", [⟨"map", [byte], 3⟩, ⟨"R", [entries], 6⟩], "s"⟩

def inner : RecordType := ⟨⟨0, "list.map"⟩, "map", "list.map", [],
  [⟨"b", .primitive (.int .uint8), none⟩]⟩

def outer : RecordType := ⟨⟨0, "list.R"⟩, "R", "list.R", [],
  [⟨"m", .map .string (.list (.record inner)), none⟩]⟩

def load : Load := .text "s" (Text.join [lineFeed] lines)

theorem parse_lines : Schema.parse "s" (Text.join [lineFeed] lines) = .ok schema := by
  have hlines : ∀ l ∈ lines, l.IsInline := by decide
  have hbyte : (Schema.State.inside "1.0.0" "list" [] ⟨"map", [], 3⟩).step 4 1 "byte b" =
      .ok (.inside "1.0.0" "list" [] ⟨"map", [byte], 3⟩) :=
    Schema.State.step_of_parseFields (by decide)
      (Schema.parseFields_of_split (.primitive .byte) (by decide) rfl rfl rfl rfl) rfl
  have htype : (TypeExpr.map .string (.list (.struct "map" (some "list")))).IsProper :=
    .map (.primitive _) (.list (.qualified (by decide) (by decide)))
  have hentries : (Schema.State.inside "1.0.0" "list" [⟨"map", [byte], 3⟩] ⟨"R", [], 6⟩).step 7 1
      "map[string, list[list.map]] m" =
      .ok (.inside "1.0.0" "list" [⟨"map", [byte], 3⟩] ⟨"R", [entries], 6⟩) :=
    Schema.State.step_of_parseFields (by decide)
      (Schema.parseFields_of_split htype (by decide) rfl rfl rfl rfl) rfl
  refine (Schema.parse_join hlines).2 ⟨.outside "1.0.0" "list" schema.structs, ?_, rfl⟩
  rw [lines, Schema.State.run_ok (by decide) rfl, Schema.State.run_ok (by decide) rfl,
    Schema.State.run_ok (by decide) rfl, Schema.State.run_ok (by decide) hbyte,
    Schema.State.run_ok (by decide) rfl, Schema.State.run_ok (by decide) rfl,
    Schema.State.run_ok (by decide) hentries, Schema.State.run_ok (by decide) rfl]
  rfl

theorem after_load : [load].foldl afterLoad { origin := 0 } =
    { origin := 0, types := [("list.map", inner), ("list.R", outer)], modules := [schema] } := by
  have hbatch : ofBatch ({ origin := 0 } : Registry).isRegistered [schema] =
      .ok (ofModules [schema]) := rfl
  have horder : buildOrder ({ origin := 0 } : Registry).isRegistered (ofModules [schema]) =
      .ok ["list.map", "list.R"] := by
    cbv
  exact afterLoad_text_of_build parse_lines hbatch horder rfl

end Colliding

open Colliding

/-- The layout of the struct, within the list within the map, is named alike in a package with the
name of a primitive. The line about the field, read in that package as a struct with the name of
lists, gives a type with this field. -/
theorem layout_name_loaded_colliding :
    ([load].foldl afterLoad { origin := 0 }).find? "list.R" = some outer ∧
    (∃ e, TypeExpr.parse "list.map" = .ok e ∧
      e.layout ([load].foldl afterLoad { origin := 0 }).find? "uint8" = .ok (.record inner)) ∧
    (Schema.isVersion 3 "1.0.0" = true ∧ Text.isIdentifier "uint8" = true ∧
      Text.isIdentifier "list" = true ∧
      ([load].foldl afterLoad { origin := 0 }).find? (StructRef.join "uint8" "list") = none) ∧
    (([load].foldl afterLoad { origin := 0 }).afterLoad (.text "t" (Text.join [lineFeed]
      (Schema.structSchema "1.0.0" "uint8" "list"
        (CommandLine.typeLines "list.R" outer).lines.tail)))).find?
          (StructRef.join "uint8" "list") = some ⟨⟨0, "uint8.list"⟩, "list", "uint8.list", [],
            [⟨"m", .map .string (.list (.record inner)), none⟩]⟩ := by
  have ht : ([load].foldl afterLoad { origin := 0 }).find? "list.R" = some outer := by
    rw [after_load]
    rfl
  have hfree : ([load].foldl afterLoad { origin := 0 }).find? (StructRef.join "uint8" "list") =
      none := by
    rw [after_load]
    rfl
  obtain ⟨hnames, -, hlisted⟩ := layout_name_loaded 0 [load] "list.R" outer ht
  refine ⟨ht, ?_, ⟨by decide, by decide, by decide, hfree⟩, ?_⟩
  · exact hnames _ (List.mem_singleton_self _) (.record inner)
      (.value .string (.element (.self (.record inner)))) "uint8"
  · have hload := hlisted "t" "1.0.0" "uint8" "list" (by decide) (by decide) (by decide) hfree
    rw [hload, after_load, if_neg (by decide)]
    rfl

end Registry

end RecordWire
