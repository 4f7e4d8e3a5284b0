import RecordWire.Proofs.Schema.Lexis
import RecordWire.Proofs.Schema.TypeText
import RecordWire.Proofs.Text.Line

/-!
Schemas in writing: which modules can be written down, and in which lines. Indentation is free, and
fields of one type that follow each other may share a line.
-/

namespace RecordWire

open CodePoint (comma quote openBrace closeBrace)

abbrev CodePoint.slash : CodePoint := ofChar '/'

abbrev TypeExpr.string : TypeExpr := .primitive (.proper .string)

namespace FieldDecl

/-- The field can be written down. A string default is free of quotes and line ends; any other default
is one word, without commas, quotes and comments, and not the word for nothing. -/
structure Proper (f : FieldDecl) : Prop where
  name : f.name.isIdentifier = true
  type : ∃ t, TypeExpr.parse t = .ok f.type
  required : f.type ≠ .struct "optional" none
  string : f.type = .string → ∀ d ∈ f.default?, ∀ c ∈ d, c ≠ quote ∧ c.isLineEnd = false
  word : f.type ≠ .string → ∀ d ∈ f.default?, d ≠ [] ∧ d ≠ "null" ∧
    ¬ [CodePoint.slash, CodePoint.slash] <:+: d ∧
    ∀ c ∈ d, c.isBlank = false ∧ c ≠ comma ∧ c ≠ quote

/-- A default value as it is written: with quotes around it if the field is a string. -/
def written (f : FieldDecl) (d : Text) : Text :=
  if f.type = .string then [quote] ++ d ++ [quote] else d

def text (f : FieldDecl) : Text :=
  match f.default? with
  | none => f.name
  | some d => f.name ++ " = " ++ f.written d

def unplaced (f : FieldDecl) : FieldDecl := { f with line := 0, column := 0 }

end FieldDecl

namespace StructDecl

structure Proper (s : StructDecl) : Prop where
  name : s.name.isIdentifier = true
  nodup : (s.fields.map (·.name)).Nodup
  fields : ∀ f ∈ s.fields, f.Proper

def unplaced (s : StructDecl) : StructDecl :=
  { s with fields := s.fields.map FieldDecl.unplaced, line := 0 }

end StructDecl

namespace SchemaModule

structure Proper (m : SchemaModule) : Prop where
  version : Schema.IsVersion 3 m.version
  package : m.package.isIdentifier = true
  nodup : (m.structs.map (·.name)).Nodup
  structs : ∀ s ∈ m.structs, s.Proper

def unplaced (m : SchemaModule) : SchemaModule :=
  { m with structs := m.structs.map StructDecl.unplaced }

end SchemaModule

namespace Schema

def IsGap (t : Text) : Prop := ∀ c ∈ t, c.isBlank = true ∧ c.isLineEnd = false

/-- Fields of one type, with commas between them. -/
inductive Declarators : List FieldDecl → Text → Prop
  | one (f : FieldDecl) : Declarators [f] f.text
  | cons (f : FieldDecl) {gap t : Text} {fs : List FieldDecl} (hg : IsGap gap)
    (rest : Declarators fs t) : Declarators (f :: fs) (f.text ++ [comma] ++ gap ++ t)

/-- The lines between the braces of a struct. -/
inductive FieldLines : List FieldDecl → List Text → Prop
  | nil : FieldLines [] []
  | cons {type : TypeExpr} {run fields : List FieldDecl} {indent t : Text} {lines : List Text}
    (hi : IsGap indent) (ht : ∀ f ∈ run, f.type = type) (hd : Declarators run t)
    (rest : FieldLines fields lines) :
    FieldLines (run ++ fields) ((indent ++ (type.text ++ " " ++ t)) :: lines)

/-- The lines of structs one after the other. -/
inductive StructLines : List StructDecl → List Text → Prop
  | nil : StructLines [] []
  | cons {s : StructDecl} {structs : List StructDecl} {indent indent' : Text}
    {lines more : List Text} (hi : IsGap indent) (hi' : IsGap indent')
    (hf : FieldLines s.fields lines) (rest : StructLines structs more) :
    StructLines (s :: structs)
      ((indent ++ ("struct " ++ s.name ++ " " ++ [openBrace])) ::
        (lines ++ (indent' ++ [closeBrace]) :: more))

/-- The lines of a schema. -/
inductive ModuleLines (m : SchemaModule) : List Text → Prop
  | mk {indent indent' : Text} {lines : List Text} (hi : IsGap indent) (hi' : IsGap indent')
    (hs : StructLines m.structs lines) :
    ModuleLines m ((indent ++ ("syntax " ++ m.version)) ::
      (indent' ++ ("package " ++ m.package)) :: lines)

end Schema

open Text (IsTight IsInline)

namespace TypeExpr

theorem Balanced.mem {nested : Bool} {t : Text} (h : Balanced nested t) {c : CodePoint}
    (hc : c ∈ t) : c.isInName = true ∨
      c ∈ [CodePoint.ofChar '.', comma, CodePoint.ofChar ' ', CodePoint.openBracket,
        CodePoint.closeBracket] := by
  induction h with
  | word h => exact (h c hc).imp_right fun hp => by simp [hp]
  | gap h =>
    obtain rfl := List.mem_singleton.1 hc
    rcases h with rfl | rfl <;> exact .inr (by simp)
  | bracketed _ ih =>
    simp only [List.mem_append, List.mem_singleton] at hc
    rcases hc with (rfl | hc) | rfl
    · exact .inr (by simp)
    · exact ih hc
    · exact .inr (by simp)
  | append _ _ ihs iht => exact (List.mem_append.1 hc).elim ihs iht

theorem IsProper.isTight {e : TypeExpr} (h : e.IsProper) : e.text.IsTight := by
  have hclose : IsTight (Text.ofString "]") := .of_all (by decide)
  cases h with
  | primitive name => exact Text.isTight_of_isIdentifier name.isIdentifier_text
  | list h =>
    have hhead : IsTight (Text.ofString "list[") := .of_all (by decide)
    exact hhead.append_between _ hclose
  | @map key value =>
    have hhead : IsTight (Text.ofString "map[") := .of_all (by decide)
    simpa only [text, List.append_assoc] using
      hhead.append_between (key.text ++ ", " ++ value.text) hclose
  | struct hn => exact Text.isTight_of_isIdentifier hn
  | qualified hp hn =>
    exact (Text.isTight_of_isIdentifier hp).append_between _ (Text.isTight_of_isIdentifier hn)

theorem IsProper.isInline {e : TypeExpr} (h : e.IsProper) : e.text.IsInline := by
  intro c hc
  rcases (h.balanced false).mem hc with hn | hc
  · exact CodePoint.not_isLineEnd_of_not_isBlank (CodePoint.not_isBlank_of_isInName hn)
  · simp only [List.mem_cons, List.not_mem_nil, or_false] at hc
    rcases hc with rfl | rfl | rfl | rfl | rfl <;> decide

end TypeExpr

namespace FieldDecl

variable {f : FieldDecl} {d : Text}

theorem written_of_string (hs : f.type = .string) (d : Text) :
    f.written d = [quote] ++ d ++ [quote] := if_pos hs

theorem written_of_word (hs : f.type ≠ .string) (d : Text) : f.written d = d := if_neg hs

theorem text_of_none (h : f.default? = none) : f.text = f.name := by
  rw [text, h]

theorem text_of_some (h : f.default? = some d) : f.text = f.name ++ " = " ++ f.written d := by
  rw [text, h]

namespace Proper

theorem written_isTight (hf : f.Proper) (hd : f.default? = some d) : (f.written d).IsTight := by
  have hquote : IsTight [quote] := .of_all (by decide)
  by_cases hs : f.type = .string
  · rw [written_of_string hs]
    exact hquote.append_between d hquote
  · obtain ⟨hne, -, -, hall⟩ := hf.word hs d hd
    rw [written_of_word hs]
    exact .of_forall hne fun c hc => (hall c hc).1

theorem written_isInline (hf : f.Proper) (hd : f.default? = some d) : (f.written d).IsInline := by
  have hquote : IsInline [quote] := fun c hc => by
    obtain rfl := List.mem_singleton.1 hc
    decide
  by_cases hs : f.type = .string
  · rw [written_of_string hs]
    exact (hquote.append fun c hc => (hf.string hs d hd c hc).2).append hquote
  · obtain ⟨-, -, -, hall⟩ := hf.word hs d hd
    rw [written_of_word hs]
    exact Text.isInline_of_not_isBlank fun c hc => (hall c hc).1

theorem text_isTight (hf : f.Proper) : f.text.IsTight := by
  cases hd : f.default? with
  | none =>
    rw [text_of_none hd]
    exact Text.isTight_of_isIdentifier hf.name
  | some d =>
    rw [text_of_some hd]
    exact (Text.isTight_of_isIdentifier hf.name).append_between _ (hf.written_isTight hd)

theorem text_isInline (hf : f.Proper) : f.text.IsInline := by
  cases hd : f.default? with
  | none =>
    rw [text_of_none hd]
    exact (Text.isWord_of_isIdentifier hf.name).isInline
  | some d =>
    have hequals : IsInline (Text.ofString " = ") := by decide
    rw [text_of_some hd]
    exact ((Text.isWord_of_isIdentifier hf.name).isInline.append hequals).append (hf.written_isInline hd)

end Proper

end FieldDecl

namespace Schema

theorem isGap_space : IsGap " " := fun c hc => by
  obtain rfl := List.mem_singleton.1 hc
  decide

theorem IsGap.isInline {t : Text} (h : IsGap t) : t.IsInline := fun c hc => (h c hc).2

theorem Declarators.isTight {fs : List FieldDecl} {t : Text} (h : Declarators fs t)
    (hf : ∀ f ∈ fs, f.Proper) : t.IsTight := by
  induction h with
  | one f => exact (hf f (by simp)).text_isTight
  | cons f _ _ ih =>
    obtain ⟨hf, hfs⟩ := List.forall_mem_cons.1 hf
    rw [List.append_assoc f.text]
    exact hf.text_isTight.append_between _ (ih hfs)

theorem Declarators.isInline {fs : List FieldDecl} {t : Text} (h : Declarators fs t)
    (hf : ∀ f ∈ fs, f.Proper) : t.IsInline := by
  have hcomma : IsInline [comma] := by decide
  induction h with
  | one f => exact (hf f (by simp)).text_isInline
  | cons f hg _ ih =>
    obtain ⟨hf, hfs⟩ := List.forall_mem_cons.1 hf
    exact ((hf.text_isInline.append hcomma).append hg.isInline).append (ih hfs)

theorem Declarators.exists_mem {fs : List FieldDecl} {t : Text} (h : Declarators fs t) :
    ∃ f, f ∈ fs := by
  cases h with
  | one f => exact ⟨f, by simp⟩
  | cons f => exact ⟨f, by simp⟩

theorem isGap_nil : IsGap [] := fun _ hc => absurd hc List.not_mem_nil

theorem exists_fieldLines (fields : List FieldDecl) : ∃ lines, FieldLines fields lines := by
  induction fields with
  | nil => exact ⟨[], .nil⟩
  | cons f fields ih =>
    obtain ⟨lines, hlines⟩ := ih
    exact ⟨_, .cons isGap_nil (List.forall_mem_singleton.2 rfl) (.one f) hlines⟩

theorem exists_structLines (structs : List StructDecl) : ∃ lines, StructLines structs lines := by
  induction structs with
  | nil => exact ⟨[], .nil⟩
  | cons s structs ih =>
    obtain ⟨lines, hlines⟩ := exists_fieldLines s.fields
    obtain ⟨more, hmore⟩ := ih
    exact ⟨_, .cons isGap_nil isGap_nil hlines hmore⟩

theorem exists_moduleLines (m : SchemaModule) : ∃ lines, ModuleLines m lines := by
  obtain ⟨lines, hlines⟩ := exists_structLines m.structs
  exact ⟨_, .mk isGap_nil isGap_nil hlines⟩

theorem FieldLines.isInline {fields : List FieldDecl} {lines : List Text}
    (h : FieldLines fields lines) (hf : ∀ f ∈ fields, f.Proper) :
    ∀ l ∈ lines, l.IsInline ∧ l ≠ [] := by
  induction h with
  | nil => simp
  | cons hi ht hd _ ih =>
    have hblank : IsInline (Text.ofString " ") := by decide
    have hrun := fun f hm => hf f (List.mem_append_left _ hm)
    obtain ⟨f, hm⟩ := hd.exists_mem
    obtain rfl := ht f hm
    have htype := TypeExpr.isProper_iff.2 (hrun f hm).type
    refine List.forall_mem_cons.2 ⟨⟨?_, by simp [(hd.isTight hrun).ne_nil]⟩,
      ih fun f hm => hf f (List.mem_append_right _ hm)⟩
    exact hi.isInline.append ((htype.isInline.append hblank).append (hd.isInline hrun))

theorem StructLines.isInline {structs : List StructDecl} {lines : List Text}
    (h : StructLines structs lines) (hs : ∀ s ∈ structs, s.Proper) :
    ∀ l ∈ lines, l.IsInline ∧ l ≠ [] := by
  have hword : IsInline (Text.ofString "struct ") := by decide
  have hspace : IsInline (Text.ofString " ") := by decide
  have hopen : IsInline [openBrace] := by decide
  have hclose : IsInline [closeBrace] := by decide
  induction h with
  | nil => simp
  | cons hi hi' hf _ ih =>
    obtain ⟨hs, hss⟩ := List.forall_mem_cons.1 hs
    intro l hl
    simp only [List.mem_cons, List.mem_append] at hl
    rcases hl with rfl | hl | rfl | hl
    · have hname := (Text.isWord_of_isIdentifier hs.name).isInline
      exact ⟨hi.isInline.append (((hword.append hname).append hspace).append hopen),
        by simp [Text.ofString]⟩
    · exact hf.isInline hs.fields l hl
    · exact ⟨hi'.isInline.append hclose, by simp⟩
    · exact ih hss l hl

theorem IsVersion.isWord {n : Nat} {t : Text} (h : IsVersion n t) : t.IsWord := by
  obtain ⟨parts, -, -, rfl, hall⟩ := h
  intro c hc
  rcases Text.mem_join hc with hpoint | ⟨p, hp, hc⟩
  · exact .inr (List.mem_singleton.1 hpoint)
  · exact .inl (by rw [CodePoint.isInName, (hall p hp).2 c hc, Bool.or_true])

theorem IsVersion.ne_nil {n : Nat} {t : Text} (h : IsVersion n t) : t ≠ [] := by
  obtain ⟨parts, -, hne, rfl, hall⟩ := h
  obtain ⟨p, ps, rfl⟩ := List.exists_cons_of_ne_nil hne
  have hp := (hall p List.mem_cons_self).1
  cases ps <;> simp [Text.join, hp]

theorem ModuleLines.isInline {m : SchemaModule} {lines : List Text} (h : ModuleLines m lines)
    (hm : m.Proper) : ∀ l ∈ lines, l.IsInline ∧ l ≠ [] := by
  have hkeyword : IsInline (Text.ofString "syntax ") := by decide
  have hpackage : IsInline (Text.ofString "package ") := by decide
  obtain ⟨hi, hi', hs⟩ := h
  refine List.forall_mem_cons.2 ⟨⟨?_, by simp [Text.ofString]⟩,
    List.forall_mem_cons.2 ⟨⟨?_, by simp [Text.ofString]⟩, hs.isInline hm.structs⟩⟩
  · exact hi.isInline.append (hkeyword.append hm.version.isWord.isInline)
  · exact hi'.isInline.append (hpackage.append (Text.isWord_of_isIdentifier hm.package).isInline)

end Schema

end RecordWire
