import RecordWire.Proofs.Schema.FieldLine

/-!
Written schemas are read again. The induction is over the lines that a struct, and then a module, is
written in; what carries it is that the reader has, after each line, what was written up to that line,
positions aside.
-/

namespace RecordWire

open CodePoint (openBrace closeBrace quote slash)
open Text (IsTight)

namespace Schema

theorem body_written {indent line : Text} (hi : IsGap indent) (hl : line.IsTight)
    (hc : stripComment false line = line) : body (indent ++ line) = line := by
  rw [body, hi.isPlain.stripComment, hc, hl.trimRight_append,
    Text.trimLeft_append_of_blank fun c h => (hi c h).1, hl.trimLeft_eq]

theorem State.run_written {source indent line : Text} {number : Nat} {rest : List Text}
    {state next : State} (hi : IsGap indent) (hl : line.IsTight)
    (hc : stripComment false line = line)
    (hs : state.step number (indentOf (indent ++ line)) line = .ok next) :
    state.run source number ((indent ++ line) :: rest) = next.run source (number + 1) rest := by
  have hbody := body_written hi hl hc
  rw [← hbody] at hs
  refine State.run_ok ?_ (by rwa [hbody] at hs ⊢)
  rw [hbody]
  exact hl.ne_nil

theorem State.run_keyword (keyword : Text) {source indent argument : Text} {number : Nat}
    {rest : List Text} {state next : State} (hk : keyword.isIdentifier = true)
    (ha : argument.IsWord) (hne : argument ≠ []) (hi : IsGap indent)
    (hs : state.step number (indentOf (indent ++ (keyword ++ " " ++ argument)))
      (keyword ++ " " ++ argument) = .ok next) :
    state.run source number ((indent ++ (keyword ++ " " ++ argument)) :: rest) =
      next.run source (number + 1) rest := by
  have htight := (Text.isTight_of_isIdentifier hk).append_between " " (ha.isTight hne)
  have hplain := ((isPlain_of_isWord (Text.isWord_of_isIdentifier hk)).append
    isGap_space.isPlain).append (isPlain_of_isWord ha)
  exact State.run_written hi htight hplain.stripComment_eq hs

theorem KeywordLine.ofText_append {keyword argument : Text} (hk : keyword.IsWord)
    (ha : argument.IsTight) :
    KeywordLine.ofText (keyword ++ " " ++ argument) = ⟨keyword, argument, keyword.length + 1⟩ := by
  unfold KeywordLine.ofText
  simp only [List.span_eq_takeWhile_dropWhile, hk.takeWhile_append, hk.dropWhile_append,
    ha.trimLeft_space]
  have hlength : (keyword ++ " " ++ argument).length - argument.length = keyword.length + 1 := by
    rw [List.length_append, List.length_append, Nat.add_sub_cancel]
    rfl
  rw [hlength]

theorem parseVersion_written {version : Text} (h : IsVersion 3 version) (indent : Nat) :
    parseVersion indent ("syntax " ++ version) = .ok version := by
  have hkeyword : (Text.ofString "syntax").IsWord := Text.isWord_of_isIdentifier (by decide)
  have hline : KeywordLine.ofText ("syntax " ++ version) = ⟨"syntax", version, 7⟩ :=
    KeywordLine.ofText_append hkeyword (h.isWord.isTight h.ne_nil)
  unfold parseVersion
  simp only [hline]
  rw [if_neg (by simp), if_neg (by simp [h.ne_nil]), if_pos (isVersion_iff.2 h)]

theorem parsePackage_written {package : Text} (h : package.isIdentifier = true) (indent : Nat) :
    parsePackage indent ("package " ++ package) = .ok package := by
  have hkeyword : (Text.ofString "package").IsWord := Text.isWord_of_isIdentifier (by decide)
  have hline : KeywordLine.ofText ("package " ++ package) = ⟨"package", package, 8⟩ :=
    KeywordLine.ofText_append hkeyword (Text.isTight_of_isIdentifier h)
  unfold parsePackage
  simp only [hline]
  rw [if_neg (by simp), if_pos h]

section

variable {name : Text} (h : name.isIdentifier = true)

theorem header_eq (name : Text) : "struct " ++ name ++ " " ++ [openBrace] =
    "struct" ++ " " ++ (name ++ (" " ++ [openBrace])) := by
  simp only [← List.append_assoc]
  rfl

include h

theorem isTight_braced : IsTight (name ++ (" " ++ [openBrace])) := by
  have hbrace : IsTight [openBrace] := .of_all (by decide)
  simpa only [List.append_assoc] using
    (Text.isTight_of_isIdentifier h).append_between " " hbrace

theorem isTight_header : IsTight ("struct " ++ name ++ " " ++ [openBrace]) := by
  have hword : IsTight (Text.ofString "struct") := .of_all (by decide)
  rw [header_eq]
  exact hword.append_between " " (isTight_braced h)

theorem isPlain_header : IsPlain ("struct " ++ name ++ " " ++ [openBrace]) := by
  have hword : IsPlain (Text.ofString "struct ") := isPlain_of_all (by decide)
  have hbrace : IsPlain [openBrace] := isPlain_of_all (by decide)
  exact ((hword.append (isPlain_of_isWord (Text.isWord_of_isIdentifier h))).append
    isGap_space.isPlain).append hbrace

theorem parseHeader_written {names : List Text} (hn : name ∉ names) (indent : Nat) :
    parseHeader names indent ("struct " ++ name ++ " " ++ [openBrace]) = .ok ⟨name, false⟩ := by
  have hkeyword : (Text.ofString "struct").IsWord := Text.isWord_of_isIdentifier (by decide)
  have hname : ∀ c ∈ name, (!c.isBlank && decide (c ≠ openBrace)) = true := by
    have hword := Text.isWord_of_isIdentifier h
    intro c hc
    rw [hword.not_isBlank hc, decide_eq_true (hword.ne_of_mem hc (by decide) (by decide))]
    rfl
  have htake : (name ++ (" " ++ [openBrace])).takeWhile
      (fun c => !c.isBlank && decide (c ≠ openBrace)) = name := by
    rw [List.takeWhile_append_of_pos hname]
    exact List.append_nil name
  have hdrop : (name ++ (" " ++ [openBrace])).dropWhile
      (fun c => !c.isBlank && decide (c ≠ openBrace)) = " " ++ [openBrace] :=
    List.dropWhile_append_of_pos hname
  have hbrace : Text.trimLeft (" " ++ [openBrace]) = [openBrace] := by decide
  unfold parseHeader
  simp only [List.span_eq_takeWhile_dropWhile, header_eq, hkeyword.takeWhile_append,
    hkeyword.dropWhile_append, (isTight_braced h).trimLeft_space, htake, hdrop, hbrace]
  rw [if_neg (by simp), if_neg (by simp [Text.ne_nil_of_isIdentifier h]), if_neg (by simp [h]),
    if_neg (by simp), if_neg (by simpa using hn)]
  rfl

end

theorem stripComment_fieldLine {type : TypeExpr} {fs : List FieldDecl} {t : Text}
    (h : Declarators fs t) (hf : ∀ f ∈ fs, f.Proper) (ht : type.IsProper) :
    stripComment false (type.text ++ " " ++ t) = type.text ++ " " ++ t := by
  have htype : ∀ c ∈ type.text, c ≠ quote ∧ (false = true ∨ c ≠ slash) := by
    intro c hc
    rcases (ht.balanced false).mem hc with hn | hc
    · refine ⟨?_, .inr ?_⟩ <;>
        · rintro rfl
          cases hn
    · simp only [List.mem_cons, List.not_mem_nil, or_false] at hc
      rcases hc with rfl | rfl | rfl | rfl | rfl <;> decide
  rw [List.append_assoc, stripComment_append htype, isGap_space.isPlain.stripComment,
    h.stripComment hf]

theorem map_name_of_unplaced {fs gs : List FieldDecl}
    (h : gs.map FieldDecl.unplaced = fs.map FieldDecl.unplaced) :
    gs.map (·.name) = fs.map (·.name) := by
  have := congrArg (List.map FieldDecl.name) h
  rwa [List.map_map, List.map_map] at this

section

variable (source version package : Text) (structs : List StructDecl) (current : StructDecl)

theorem State.step_fields {type : TypeExpr} {fs : List FieldDecl} {t : Text}
    (h : Declarators fs t) (hf : ∀ f ∈ fs, f.Proper) (ht : ∀ f ∈ fs, f.type = type)
    (hn : ((current.fields ++ fs).map (·.name)).Nodup) (number indent : Nat) :
    ∃ gs, gs.map FieldDecl.unplaced = fs.map FieldDecl.unplaced ∧
      (inside version package structs current).step number indent (type.text ++ " " ++ t) =
        .ok (inside version package structs { current with fields := current.fields ++ gs }) := by
  obtain ⟨gs, hgs, hunplaced⟩ := parseFields_written h hf ht number indent
  refine ⟨gs, hunplaced, ?_⟩
  have hadd : addFields current.fields gs = .ok (current.fields ++ gs) := by
    refine addFields_eq ?_
    rwa [List.map_append, map_name_of_unplaced hunplaced, ← List.map_append]
  have hbrace : type.text ++ " " ++ t ≠ [closeBrace] := by
    intro hline
    have hlength := congrArg List.length hline
    have hpos := List.length_pos_iff.2 (h.isTight hf).ne_nil
    have hspace : (Text.ofString " ").length = 1 := rfl
    simp only [List.length_append, List.length_singleton] at hlength
    omega
  exact step_of_parseFields hbrace hgs hadd

theorem run_fieldLines {fields : List FieldDecl} {lines : List Text} (h : FieldLines fields lines)
    (hf : ∀ f ∈ fields, f.Proper) (hn : ((current.fields ++ fields).map (·.name)).Nodup)
    (number : Nat) (rest : List Text) :
    ∃ gs, gs.map FieldDecl.unplaced = fields.map FieldDecl.unplaced ∧
      (State.inside version package structs current).run source number (lines ++ rest) =
        (State.inside version package structs { current with fields := current.fields ++ gs }).run
          source (number + lines.length) rest := by
  induction h generalizing current number with
  | nil => exact ⟨[], rfl, by simp⟩
  | @cons type fs fields indent t lines hi ht hd _ ih =>
    have hfs : ∀ f ∈ fs, f.Proper := fun f hm => hf f (List.mem_append_left _ hm)
    obtain ⟨f, hm⟩ := hd.exists_mem
    have htype := TypeExpr.isProper_iff.2 (ht f hm ▸ (hfs f hm).type)
    have htight := htype.isTight.append_between " " (hd.isTight hfs)
    rw [← List.append_assoc] at hn
    obtain ⟨gs, hunplaced, hstep⟩ := State.step_fields version package structs current hd hfs ht
      (List.nodup_append.1 (List.map_append ▸ hn)).1 number
      (indentOf (indent ++ (type.text ++ " " ++ t)))
    have hn' : ((current.fields ++ gs ++ fields).map (·.name)).Nodup := by
      rwa [List.map_append, List.map_append, map_name_of_unplaced hunplaced, ← List.map_append,
        ← List.map_append]
    obtain ⟨gs', hunplaced', hrest⟩ := ih { current with fields := current.fields ++ gs }
      (fun f hm => hf f (List.mem_append_right _ hm)) hn' (number + 1)
    refine ⟨gs ++ gs', by rw [List.map_append, List.map_append, hunplaced, hunplaced'], ?_⟩
    rw [List.cons_append, State.run_written hi htight (stripComment_fieldLine hd hfs htype) hstep,
      hrest, List.length_cons, List.append_assoc, Nat.add_right_comm, Nat.add_assoc]

theorem State.step_header {name : Text} (h : name.isIdentifier = true)
    (hn : name ∉ structs.map (·.name)) (number indent : Nat) :
    (outside version package structs).step number indent ("struct " ++ name ++ " " ++ [openBrace]) =
      .ok (inside version package structs ⟨name, [], number⟩) := by
  simp only [step, parseHeader_written h hn]
  rfl

theorem State.step_brace (number indent : Nat) :
    (inside version package structs current).step number indent [closeBrace] =
      .ok (outside version package (structs ++ [current])) := rfl

theorem run_structLines {more : List StructDecl} {lines : List Text} (h : StructLines more lines)
    (hs : ∀ s ∈ more, s.Proper) (hn : ((structs ++ more).map (·.name)).Nodup) (number : Nat) :
    ∃ ss, ss.map StructDecl.unplaced = more.map StructDecl.unplaced ∧
      (State.outside version package structs).run source number lines =
        .ok (.outside version package (structs ++ ss)) := by
  have hclose : IsTight [closeBrace] := .of_all (by decide)
  induction h generalizing structs number with
  | nil => exact ⟨[], rfl, by rw [List.append_nil]; rfl⟩
  | @cons s more indent indent' lines rest hi hi' hf _ ih =>
    obtain ⟨hs, hss⟩ := List.forall_mem_cons.1 hs
    have hnew : s.name ∉ structs.map (·.name) := by
      rw [List.map_append] at hn
      exact fun hm => (List.nodup_append.1 hn).2.2 _ hm _ (by simp) rfl
    obtain ⟨gs, hunplaced, hfields⟩ := run_fieldLines source version package structs
      ⟨s.name, [], number⟩ hf hs.fields (by simpa using hs.nodup) (number + 1)
      ((indent' ++ [closeBrace]) :: rest)
    rw [List.nil_append] at hfields
    obtain ⟨ss, hunplaced', hrest⟩ := ih (structs ++ [⟨s.name, gs, number⟩]) hss
      (by simpa using hn) (number + 1 + lines.length + 1)
    refine ⟨⟨s.name, gs, number⟩ :: ss, ?_, ?_⟩
    · rw [List.map_cons, List.map_cons, hunplaced', StructDecl.unplaced, hunplaced]
      rfl
    · have hheader := State.step_header version package structs hs.name hnew number
      have hbrace := State.step_brace version package structs ⟨s.name, gs, number⟩
      rw [State.run_written hi (isTight_header hs.name) (isPlain_header hs.name).stripComment_eq
        (hheader _), hfields, State.run_written hi' hclose (by decide) (hbrace _ _), hrest]
      simp

theorem State.step_version (h : IsVersion 3 version) (number indent : Nat) :
    start.step number indent ("syntax " ++ version) = .ok (versioned version) := by
  rw [step, parseVersion_written h]
  rfl

theorem State.step_package (h : package.isIdentifier = true) (number indent : Nat) :
    (versioned version).step number indent ("package " ++ package) =
      .ok (outside version package []) := by
  rw [step, parsePackage_written h]
  rfl

/-- The lines of a module are read as its version, its package and its structs. -/
theorem run_moduleLines {m : SchemaModule} {lines : List Text} (h : ModuleLines m lines)
    (hm : m.Proper) :
    ∃ ss, ss.map StructDecl.unplaced = m.structs.map StructDecl.unplaced ∧
      State.start.run source 1 lines = .ok (.outside m.version m.package ss) := by
  obtain ⟨hi, hi', hs⟩ := h
  obtain ⟨ss, hunplaced, hrest⟩ := run_structLines source m.version m.package [] hs hm.structs
    hm.nodup 3
  refine ⟨ss, hunplaced, ?_⟩
  have hversion := State.step_version m.version hm.version
  have hpackage := State.step_package m.version m.package hm.package
  refine (State.run_keyword "syntax" (by decide) hm.version.isWord hm.version.ne_nil hi
    (hversion _ _)).trans ?_
  refine (State.run_keyword "package" (by decide) (Text.isWord_of_isIdentifier hm.package)
    (Text.ne_nil_of_isIdentifier hm.package) hi' (hpackage _ _)).trans ?_
  exact hrest

end

/-- Reading inverts writing. A module can be written in lines; they are the lines of some text, and
from every text that they are the lines of, the module is read, positions aside. -/
theorem parse_written {m : SchemaModule} (hm : m.Proper) :
    (∃ lines, ModuleLines m lines) ∧ ∀ lines, ModuleLines m lines →
      (Text.join [CodePoint.lineFeed] lines).lines = lines ∧
        ∀ text : Text, text.lines = lines →
          ∃ m', parse m.source text = .ok m' ∧ m'.unplaced = m.unplaced := by
  refine ⟨exists_moduleLines m, fun lines hl => ⟨Text.lines_join (hl.isInline hm), ?_⟩⟩
  rintro text rfl
  obtain ⟨ss, hunplaced, hrun⟩ := run_moduleLines m.source hl hm
  refine ⟨⟨m.version, m.package, ss, m.source⟩, ?_, ?_⟩
  · rw [parse, hrun]
    rfl
  · rw [SchemaModule.unplaced, hunplaced]
    rfl

namespace Sample

def totals : FieldDecl where
  name := "totals"
  type := .map .string (.list (.primitive .byte))
  default? := none
  line := 0
  column := 0

def label : FieldDecl where
  name := "label"
  type := .string
  default? := some "a, b = // c]"
  line := 0
  column := 0

def note : FieldDecl where
  name := "note"
  type := .string
  default? := none
  line := 0
  column := 0

def schema : SchemaModule where
  version := "1.0.2"
  package := "shop"
  structs := [⟨"Order", [totals, label, note], 0⟩]
  source := SchemaModule.inlineSource

def lines : List Text := [
  "syntax 1.0.2",
  "package shop",
  "struct Order " ++ [openBrace],
  " map[string, list[byte]] totals",
  " string label = \"a, b = // c]\", note",
  [closeBrace]]

theorem schema_proper : schema.Proper where
  version := isVersion_iff.1 (by decide)
  package := by decide
  nodup := by decide
  structs := by
    have htotals : totals.Proper :=
      ⟨by decide, TypeExpr.isProper_iff.1 (.map (.primitive _) (.list (.primitive _))), by decide,
        by simp [totals], by simp [totals]⟩
    have hstring : ∃ t, TypeExpr.parse t = .ok .string := TypeExpr.isProper_iff.1 (.primitive _)
    have hlabel : label.Proper := by
      refine ⟨by decide, hstring, by decide, ?_, fun h => absurd rfl h⟩
      rintro - d ⟨⟩ c hc
      have hall : (Text.ofString "a, b = // c]").all (fun c => c != quote && !c.isLineEnd) = true :=
        by decide
      simpa using List.all_eq_true.1 hall c hc
    have hnote : note.Proper := ⟨by decide, hstring, by decide, by simp [note], by simp [note]⟩
    exact List.forall_mem_singleton.2 ⟨by decide, by decide, by simp [htotals, hlabel, hnote]⟩

theorem schema_lines : ModuleLines schema lines := by
  have hnames : Declarators [label, note] "label = \"a, b = // c]\", note" :=
    .cons label isGap_space (.one note)
  have htype : ∀ f ∈ [label, note], f.type = .string := by simp [label, note]
  have hfields : FieldLines [totals, label, note]
      [" map[string, list[byte]] totals", " string label = \"a, b = // c]\", note"] :=
    .cons isGap_space (List.forall_mem_singleton.2 rfl) (.one totals)
      (.cons isGap_space htype hnames .nil)
  have hstructs := StructLines.cons (s := ⟨"Order", [totals, label, note], 0⟩) isGap_nil isGap_nil
    hfields .nil
  exact .mk isGap_nil isGap_nil hstructs

end Sample

theorem parse_written_joined :
    Sample.schema.Proper ∧ ModuleLines Sample.schema Sample.lines ∧
      ∃ m', parse Sample.schema.source (Text.join [CodePoint.lineFeed] Sample.lines) = .ok m' ∧
        m'.unplaced = Sample.schema.unplaced := by
  have hread := (parse_written Sample.schema_proper).2 _ Sample.schema_lines
  exact ⟨Sample.schema_proper, Sample.schema_lines, hread.2 _ hread.1⟩

end Schema

end RecordWire
