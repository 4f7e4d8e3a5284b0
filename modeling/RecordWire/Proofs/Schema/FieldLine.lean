import Mathlib.Data.List.Forall2
import RecordWire.Proofs.Schema.Written

/-!
Written lines of fields are read again. Each scanner goes through the pieces that a line is put together
from and comes out of them in the state in which it went in; so a line gives back the fields that it was
written from.
-/

namespace RecordWire

open CodePoint (comma quote slash)
open Text (IsTight)

namespace Schema

section

variable {quoted : Bool} {s t p : Text} {ps : List Text}

theorem stripComment_quote (quoted : Bool) (t : Text) :
    stripComment quoted (quote :: t) = quote :: stripComment (!quoted) t := by
  rw [stripComment, if_pos rfl]

theorem stripComment_append (h : ∀ c ∈ s, c ≠ quote ∧ (quoted = true ∨ c ≠ slash)) (t : Text) :
    stripComment quoted (s ++ t) = s ++ stripComment quoted t := by
  induction s with
  | nil => rfl
  | cons c s ih =>
    obtain ⟨⟨hq, hs⟩, hrest⟩ := List.forall_mem_cons.1 h
    rw [List.cons_append, stripComment, if_neg hq, if_neg, ih hrest, List.cons_append]
    rcases hs with rfl | hs
    · simp
    · simp [show c ≠ CodePoint.ofChar '/' from hs]

theorem stripComment_quoted (h : ∀ c ∈ s, c ≠ quote) (t : Text) :
    stripComment false ([quote] ++ s ++ [quote] ++ t) =
      [quote] ++ s ++ [quote] ++ stripComment false t := by
  simp only [List.append_assoc, List.cons_append, List.nil_append]
  rw [stripComment_quote, Bool.not_false, stripComment_append fun c hc => ⟨h c hc, .inl rfl⟩,
    stripComment_quote, Bool.not_true]

theorem stripComment_word (hq : ∀ c ∈ s, c ≠ quote) (hs : ¬ [slash, slash] <:+: s)
    (ht : t.head? ≠ some slash) : stripComment false (s ++ t) = s ++ stripComment false t := by
  induction s with
  | nil => rfl
  | cons c s ih =>
    obtain ⟨hc, hrest⟩ := List.forall_mem_cons.1 hq
    have hinfix : ¬ [slash, slash] <:+: s := fun h => hs (h.trans (List.suffix_cons c s).isInfix)
    rw [List.cons_append, stripComment, if_neg hc, if_neg, ih hrest hinfix, List.cons_append]
    simp only [Bool.not_false, Bool.true_and, Bool.and_eq_true, decide_eq_true_eq, not_and]
    rintro rfl hhead
    cases s with
    | nil => exact ht hhead
    | cons d s =>
      obtain rfl := Option.some.inj hhead
      exact hs (List.prefix_append [slash, slash] s).isInfix

theorem splitDeclarations_quote (quoted : Bool) (t : Text) :
    splitDeclarations quoted (quote :: t) =
      (splitDeclarations (!quoted) t).map (TypeExpr.consPart quote) := by
  rw [splitDeclarations, if_neg (by simp [quote, comma]), if_pos rfl]

theorem splitDeclarations_append (h : ∀ c ∈ s, c ≠ quote ∧ (quoted = true ∨ c ≠ comma))
    (ht : splitDeclarations quoted t = some (p :: ps)) :
    splitDeclarations quoted (s ++ t) = some ((s ++ p) :: ps) := by
  induction s with
  | nil => exact ht
  | cons c s ih =>
    obtain ⟨⟨hq, hs⟩, hrest⟩ := List.forall_mem_cons.1 h
    rw [List.cons_append, splitDeclarations, if_neg, if_neg hq, ih hrest]
    · rfl
    · rcases hs with rfl | hs
      · simp
      · simp [hs]

theorem splitDeclarations_quoted (h : ∀ c ∈ s, c ≠ quote)
    (ht : splitDeclarations false t = some (p :: ps)) :
    splitDeclarations false ([quote] ++ s ++ [quote] ++ t) =
      some (([quote] ++ s ++ [quote] ++ p) :: ps) := by
  have hclose : splitDeclarations true ([quote] ++ t) = some (([quote] ++ p) :: ps) := by
    rw [List.singleton_append, splitDeclarations_quote, Bool.not_true, ht]
    rfl
  have hbody := splitDeclarations_append (fun c hc => ⟨h c hc, .inl rfl⟩) hclose
  simp only [List.append_assoc, List.cons_append, List.nil_append] at hbody ⊢
  rw [splitDeclarations_quote, Bool.not_false, hbody]
  rfl

theorem splitDeclarations_comma (h : splitDeclarations false t = some ps) :
    splitDeclarations false (comma :: t) = some ([] :: ps) := by
  rw [splitDeclarations, if_pos (by decide), h]
  rfl

end

def IsPlain (t : Text) : Prop := ∀ c ∈ t, c ≠ quote ∧ c ≠ slash ∧ c ≠ comma

theorem isPlain_of_all {t : Text}
    (h : (t.all fun c => c ≠ quote && c ≠ slash && c ≠ comma) = true) : IsPlain t := fun c hc => by
  simpa [and_assoc] using List.all_eq_true.1 h c hc

theorem isPlain_of_isWord {t : Text} (h : t.IsWord) : IsPlain t := fun _ hc =>
  ⟨h.ne_of_mem hc (by decide) (by decide), h.ne_of_mem hc (by decide) (by decide),
    h.ne_of_mem hc (by decide) (by decide)⟩

theorem IsGap.isPlain {gap : Text} (h : IsGap gap) : IsPlain gap := by
  intro c hc
  have hblank := (h c hc).1
  refine ⟨?_, ?_, ?_⟩ <;>
    · rintro rfl
      cases hblank

namespace IsPlain

variable {s t p : Text} {ps : List Text}

theorem append (hs : IsPlain s) (ht : IsPlain t) : IsPlain (s ++ t) := fun c hc =>
  (List.mem_append.1 hc).elim (hs c) (ht c)

theorem stripComment (h : IsPlain s) (t : Text) :
    Schema.stripComment false (s ++ t) = s ++ Schema.stripComment false t :=
  stripComment_append (fun c hc => ⟨(h c hc).1, .inr (h c hc).2.1⟩) t

theorem stripComment_eq (h : IsPlain s) : Schema.stripComment false s = s := by
  simpa only [List.append_nil, Schema.stripComment] using h.stripComment []

theorem splitDeclarations (h : IsPlain s)
    (ht : Schema.splitDeclarations false t = some (p :: ps)) :
    Schema.splitDeclarations false (s ++ t) = some ((s ++ p) :: ps) :=
  splitDeclarations_append (fun c hc => ⟨(h c hc).1, .inr (h c hc).2.2⟩) ht

end IsPlain

section

variable {f : FieldDecl} {d t p : Text} {ps : List Text}

theorem stripComment_written (hf : f.Proper) (hd : f.default? = some d)
    (ht : t.head? ≠ some slash) :
    stripComment false (f.written d ++ t) = f.written d ++ stripComment false t := by
  by_cases hs : f.type = .string
  · rw [FieldDecl.written_of_string hs]
    exact stripComment_quoted (fun c hc => (hf.string hs d hd c hc).1) t
  · obtain ⟨-, -, hslash, hall⟩ := hf.word hs d hd
    rw [FieldDecl.written_of_word hs]
    exact stripComment_word (fun c hc => (hall c hc).2.2) hslash ht

theorem isPlain_equals : IsPlain (Text.ofString " = ") := isPlain_of_all (by decide)

theorem stripComment_text (hf : f.Proper) (ht : t.head? ≠ some slash) :
    stripComment false (f.text ++ t) = f.text ++ stripComment false t := by
  have hname := isPlain_of_isWord (Text.isWord_of_isIdentifier hf.name)
  cases hd : f.default? with
  | none =>
    rw [FieldDecl.text_of_none hd]
    exact hname.stripComment t
  | some d =>
    rw [FieldDecl.text_of_some hd]
    simp only [List.append_assoc]
    rw [hname.stripComment, isPlain_equals.stripComment, stripComment_written hf hd ht]

theorem splitDeclarations_text (hf : f.Proper) (ht : splitDeclarations false t = some (p :: ps)) :
    splitDeclarations false (f.text ++ t) = some ((f.text ++ p) :: ps) := by
  have hname := isPlain_of_isWord (Text.isWord_of_isIdentifier hf.name)
  cases hd : f.default? with
  | none =>
    rw [FieldDecl.text_of_none hd]
    exact hname.splitDeclarations ht
  | some d =>
    have hwritten : splitDeclarations false (f.written d ++ t) = some ((f.written d ++ p) :: ps) := by
      by_cases hs : f.type = .string
      · rw [FieldDecl.written_of_string hs]
        exact splitDeclarations_quoted (fun c hc => (hf.string hs d hd c hc).1) ht
      · obtain ⟨-, -, -, hall⟩ := hf.word hs d hd
        rw [FieldDecl.written_of_word hs]
        exact splitDeclarations_append (fun c hc => ⟨(hall c hc).2.2, .inr (hall c hc).2.1⟩) ht
    rw [FieldDecl.text_of_some hd]
    simp only [List.append_assoc]
    exact hname.splitDeclarations (isPlain_equals.splitDeclarations hwritten)

end

section

variable {fs : List FieldDecl} {t gap : Text}

theorem Declarators.stripComment (h : Declarators fs t) (hf : ∀ f ∈ fs, f.Proper) :
    Schema.stripComment false t = t := by
  induction h with
  | one f =>
    have htext := stripComment_text (hf f (by simp)) (t := []) (by simp)
    simpa only [List.append_nil, Schema.stripComment] using htext
  | @cons f gap t fs hg _ ih =>
    obtain ⟨hf, hfs⟩ := List.forall_mem_cons.1 hf
    have hcomma : Schema.stripComment false ([comma] ++ (gap ++ t)) = [comma] ++ (gap ++ t) := by
      rw [stripComment_append (List.forall_mem_singleton.2 (by decide)), hg.isPlain.stripComment,
        ih hfs]
    simp only [List.append_assoc]
    rw [stripComment_text hf (by simp [comma, slash, CodePoint.ofChar]), hcomma]

theorem Declarators.splitDeclarations (h : Declarators fs t) (hf : ∀ f ∈ fs, f.Proper)
    (hg : IsGap gap) :
    ∃ segments, Schema.splitDeclarations false (gap ++ t) = some segments ∧
      List.Forall₂ (fun f segment => ∃ gap, IsGap gap ∧ segment = gap ++ f.text) fs segments := by
  induction h generalizing gap with
  | one f =>
    have htext := splitDeclarations_text (hf f (by simp)) (t := []) rfl
    rw [List.append_nil] at htext
    exact ⟨[gap ++ f.text], hg.isPlain.splitDeclarations htext, .cons ⟨gap, hg, rfl⟩ .nil⟩
  | @cons f gap' t fs hg' _ ih =>
    obtain ⟨hf, hfs⟩ := List.forall_mem_cons.1 hf
    obtain ⟨segments, hsegments, hall⟩ := ih hfs hg'
    have htext := splitDeclarations_text hf (splitDeclarations_comma hsegments)
    refine ⟨(gap ++ f.text) :: segments, ?_, .cons ⟨gap, hg, rfl⟩ hall⟩
    rw [List.append_nil] at htext
    simp only [List.append_assoc, List.singleton_append]
    exact hg.isPlain.splitDeclarations htext

end

theorem parseDefault_written {f : FieldDecl} {d : Text} (hf : f.Proper) (hd : f.default? = some d)
    (column : Nat) : parseDefault f.type column (f.written d) = .ok d := by
  unfold parseDefault
  by_cases hs : f.type = .string
  · have hlast : ([quote] ++ d ++ [quote]).getLast? = some quote := List.getLast?_concat
    have hnull : [quote] ++ d ++ [quote] ≠ "null" := by
      simp [Text.ofString, quote, CodePoint.ofChar]
    rw [FieldDecl.written_of_string hs, if_neg (by simp), if_neg hnull, if_pos hs,
      if_pos (by rw [hlast]; simp)]
    simp
  · obtain ⟨hne, hnull, -, hall⟩ := hf.word hs d hd
    rw [FieldDecl.written_of_word hs, if_neg (by simpa using hne), if_neg hnull, if_neg hs,
      if_pos (Text.countWords_eq_one hne fun c hc => (hall c hc).1)]

section

variable {f : FieldDecl} {gap : Text} (hf : f.Proper) (hg : IsGap gap)

include hf hg

theorem ne_equals_of_mem_name : ∀ c ∈ gap ++ f.name, decide (c ≠ CodePoint.ofChar '=') = true := by
  intro c hc
  rw [decide_eq_true_eq]
  rintro rfl
  rcases List.mem_append.1 hc with hc | hc
  · cases (hg _ hc).1
  · exact Text.not_mem_of_isIdentifier hf.name (by decide) hc

theorem span_text_of_none (hd : f.default? = none) :
    (gap ++ f.text).span (fun c => decide (c ≠ CodePoint.ofChar '=')) = (gap ++ f.name, []) := by
  have hname := ne_equals_of_mem_name hf hg
  rw [FieldDecl.text_of_none hd, List.span_eq_takeWhile_dropWhile,
    List.takeWhile_eq_self_iff.2 hname, List.dropWhile_eq_nil_iff.2 hname]

theorem span_text_of_some {d : Text} (hd : f.default? = some d) :
    (gap ++ f.text).span (fun c => decide (c ≠ CodePoint.ofChar '=')) =
      (gap ++ f.name ++ " ", CodePoint.ofChar '=' :: (" " ++ f.written d)) := by
  have hname := ne_equals_of_mem_name hf hg
  have htext : gap ++ f.text = (gap ++ f.name) ++
      CodePoint.ofChar ' ' :: CodePoint.ofChar '=' :: (" " ++ f.written d) := by
    rw [FieldDecl.text_of_some hd]
    simp [Text.ofString]
  rw [htext, List.span_eq_takeWhile_dropWhile, List.takeWhile_append_of_pos hname,
    List.dropWhile_append_of_pos hname, List.takeWhile_cons_of_pos (by decide),
    List.dropWhile_cons_of_pos (by decide), List.takeWhile_cons_of_neg (by decide),
    List.dropWhile_cons_of_neg (by decide)]
  rfl

theorem parseDeclaration_text (number column : Nat) : ∃ column',
    parseDeclaration f.type number column (gap ++ f.text) =
      .ok { f with line := number, column := column' } := by
  have htight := Text.isTight_of_isIdentifier hf.name
  have hblank : ∀ c ∈ gap, c.isBlank = true := fun c hc => (hg c hc).1
  have hspace : ∀ c ∈ Text.ofString " ", c.isBlank = true := fun c hc => (isGap_space c hc).1
  obtain ⟨c, t, hct, hdigit⟩ := Text.exists_cons_of_isIdentifier hf.name
  unfold parseDeclaration
  generalize column + _ = column'
  refine ⟨column', ?_⟩
  cases hd : f.default? with
  | none =>
    have hname := htight.trim_eq hblank (List.forall_mem_nil _)
    rw [List.append_nil] at hname
    simp only [span_text_of_none hf hg hd, hname]
    rw [hct]
    simp only [hdigit, ← hct, hf.name]
    rfl
  | some d =>
    have hname := htight.trim_eq hblank hspace
    have hvalue := (hf.written_isTight hd).trim_eq hspace (List.forall_mem_nil _)
    rw [List.append_nil] at hvalue
    simp only [span_text_of_some hf hg hd, hname]
    rw [hct]
    simp only [hdigit, ← hct, hf.name, hvalue, parseDefault_written hf hd]
    rfl

end

theorem parseDeclarations_text {type : TypeExpr} {fs : List FieldDecl} {segments : List Text}
    (h : List.Forall₂ (fun f segment => ∃ gap, IsGap gap ∧ segment = gap ++ f.text) fs segments)
    (hf : ∀ f ∈ fs, f.Proper) (ht : ∀ f ∈ fs, f.type = type) (number column : Nat) :
    ∃ gs, parseDeclarations type number column segments = .ok gs ∧
      gs.map FieldDecl.unplaced = fs.map FieldDecl.unplaced := by
  induction h generalizing column with
  | nil => exact ⟨[], rfl, rfl⟩
  | @cons f segment fs segments hsegment _ ih =>
    obtain ⟨hf, hfs⟩ := List.forall_mem_cons.1 hf
    obtain ⟨rfl, hts⟩ := List.forall_mem_cons.1 ht
    obtain ⟨gap, hg, rfl⟩ := hsegment
    obtain ⟨column', hfirst⟩ := parseDeclaration_text hf hg number column
    obtain ⟨gs, hrest, hgs⟩ := ih hfs hts (column + (gap ++ f.text).length + 1)
    refine ⟨{ f with line := number, column := column' } :: gs, ?_, ?_⟩
    · rw [parseDeclarations, hfirst]
      dsimp only
      rw [hrest]
      rfl
    · rw [List.map_cons, hgs]
      rfl

theorem takeWhile_type_ne_optional {type : TypeExpr} (ht : type.IsProper)
    (hne : type ≠ .struct "optional" none) (t : Text) :
    ((type.text ++ " " ++ t).takeWhile fun c => !c.isBlank) ≠ "optional" := by
  have hword : type.text.IsWord →
      ((type.text ++ " " ++ t).takeWhile fun c => !c.isBlank) ≠ "optional" := by
    intro hw hoptional
    rw [hw.takeWhile_append] at hoptional
    have hread := TypeExpr.parse_text ht
    rw [hoptional] at hread
    have hstruct : TypeExpr.parse "optional" = .ok (.struct "optional" none) :=
      TypeExpr.parse_text (.struct (by decide) (by decide))
    exact hne (Except.ok.inj (hread.symm.trans hstruct))
  have hlist : (CodePoint.ofChar 'l').isBlank = false ∧ CodePoint.ofChar 'l' ≠ CodePoint.ofChar 'o' :=
    by decide
  have hmap : (CodePoint.ofChar 'm').isBlank = false ∧ CodePoint.ofChar 'm' ≠ CodePoint.ofChar 'o' :=
    by decide
  cases ht with
  | primitive name => exact hword (Text.isWord_of_isIdentifier name.isIdentifier_text)
  | list => simp [TypeExpr.text, Text.ofString, hlist]
  | map => simp [TypeExpr.text, Text.ofString, hmap]
  | struct hn => exact hword (Text.isWord_of_isIdentifier hn)
  | qualified hp hn => exact hword (TypeExpr.isWord_join hp hn)

theorem parseFields_of_split {type : TypeExpr} (ht : type.IsProper) {number indent : Nat}
    {line rest : Text} {segments : List Text} {fields : List FieldDecl}
    (hne : (line.takeWhile fun c => !c.isBlank) ≠ "optional")
    (hsplit : splitType indent 0 line = .ok (type.text, rest))
    (hnames : (Text.trimLeft rest).isEmpty = false)
    (hsegments : splitDeclarations false rest = some segments)
    (hfields : parseDeclarations type number (indent + type.text.length) segments = .ok fields) :
    parseFields number indent line = .ok fields := by
  unfold parseFields
  rw [if_neg hne, hsplit]
  simp only [TypeExpr.parse_text ht, hnames, hsegments]
  exact hfields

theorem parseFields_written {type : TypeExpr} {fs : List FieldDecl} {t : Text}
    (h : Declarators fs t) (hf : ∀ f ∈ fs, f.Proper) (ht : ∀ f ∈ fs, f.type = type)
    (number indent : Nat) :
    ∃ gs, parseFields number indent (type.text ++ " " ++ t) = .ok gs ∧
      gs.map FieldDecl.unplaced = fs.map FieldDecl.unplaced := by
  obtain ⟨f, hm⟩ := h.exists_mem
  obtain rfl := ht f hm
  have htype := TypeExpr.isProper_iff.2 (hf f hm).type
  have hrest : ∀ column, splitType column 0 (" " ++ t) = .ok ([], " " ++ t) := fun _ => rfl
  have hsplit := (htype.balanced false).splitType (by simp) hrest indent
  have hnames : (Text.trimLeft (" " ++ t)).isEmpty = false := by
    rw [(h.isTight hf).trimLeft_space, List.isEmpty_eq_false_iff]
    exact (h.isTight hf).ne_nil
  obtain ⟨segments, hsegments, hall⟩ := h.splitDeclarations hf isGap_space
  rw [List.append_nil, ← List.append_assoc] at hsplit
  obtain ⟨gs, hgs, hunplaced⟩ :=
    parseDeclarations_text hall hf ht number (indent + f.type.text.length)
  have hne := takeWhile_type_ne_optional htype (hf f hm).required t
  exact ⟨gs, parseFields_of_split htype hne hsplit hnames hsegments hgs, hunplaced⟩

theorem addFields_eq {fields fs : List FieldDecl} (h : ((fields ++ fs).map (·.name)).Nodup) :
    addFields fields fs = .ok (fields ++ fs) := by
  induction fs generalizing fields with
  | nil => rw [addFields, List.append_nil]
  | cons f fs ih =>
    have hnew : ¬ (fields.any fun g => g.name == f.name) = true := by
      rw [List.map_append] at h
      have hdisjoint := (List.nodup_append.1 h).2.2
      rw [Bool.not_eq_true, List.any_eq_false]
      intro g hg
      rw [beq_iff_eq]
      exact hdisjoint _ (List.mem_map_of_mem hg) _ (by simp)
    rw [List.append_cons] at h ⊢
    rw [addFields, if_neg hnew, ih h]

theorem State.step_of_parseFields {version package : Text} {structs : List StructDecl}
    {current : StructDecl} {number indent : Nat} {line : Text} {fields all : List FieldDecl}
    (hne : line ≠ [CodePoint.closeBrace]) (hfields : parseFields number indent line = .ok fields)
    (hadd : addFields current.fields fields = .ok all) :
    (inside version package structs current).step number indent line =
      .ok (inside version package structs { current with fields := all }) := by
  simp only [step, if_neg hne, hfields, hadd]
  rfl

end Schema

end RecordWire
