import Mathlib.Data.List.Nodup
import RecordWire.Proofs.Schema.Lexis

/-!
What a schema that is read has, and where problems are reported. Every function that reads a part of a
line is given the column of the part, and answers with a column in it; lines are read one after the
other, so every position is in the line that was read when it was noted.
-/

namespace RecordWire

open CodePoint (openBrace closeBrace comma)

/-- The name of the field stands where the field says, in a text that begins at a column. -/
def FieldDecl.StandsIn (column : Nat) (t : Text) (f : FieldDecl) : Prop :=
  ∃ k, f.column = column + k ∧ f.name <+: t.drop k

/-- The name of the field stands in the line, and at the column, that the field says. -/
def FieldDecl.IsPlacedIn (lines : List Text) (f : FieldDecl) : Prop :=
  1 ≤ f.line ∧ ∃ raw, lines[f.line - 1]? = some raw ∧ f.name <+: raw.drop f.column

/-- The error is at a column of one of the lines. -/
def SchemaError.IsPlacedIn (lines : List Text) (e : SchemaError) : Prop :=
  1 ≤ e.line ∧ ∃ raw, lines[e.line - 1]? = some raw ∧ e.column ≤ raw.length

/-- The names are identifiers, those of fields are different, and fields are placed in the lines. -/
structure StructDecl.Sound (lines : List Text) (s : StructDecl) : Prop where
  name : s.name.isIdentifier = true
  nodup : (s.fields.map (·.name)).Nodup
  fields : ∀ f ∈ s.fields, f.name.isIdentifier = true ∧ f.IsPlacedIn lines

/-- The version is three runs of digits, the package is an identifier, and the structs are sound and
have different names. -/
structure SchemaModule.Sound (lines : List Text) (m : SchemaModule) : Prop where
  version : Schema.IsVersion 3 m.version
  package : m.package.isIdentifier = true
  nodup : (m.structs.map (·.name)).Nodup
  structs : ∀ s ∈ m.structs, s.Sound lines

namespace FieldDecl.StandsIn

variable {column : Nat} {s t : Text} {f : FieldDecl}

theorem append (h : f.StandsIn column s) (t : Text) : f.StandsIn column (s ++ t) := by
  obtain ⟨k, hk, hname⟩ := h
  refine ⟨k, hk, hname.trans ?_⟩
  rw [List.drop_append]
  exact List.prefix_append ..

theorem append_left (s : Text) (h : f.StandsIn (column + s.length) t) :
    f.StandsIn column (s ++ t) := by
  obtain ⟨k, hk, hname⟩ := h
  refine ⟨s.length + k, by omega, ?_⟩
  rwa [List.drop_append, List.drop_of_length_le (by omega), List.nil_append,
    Nat.add_sub_cancel_left]

theorem column_le (h : f.StandsIn column t) (hn : f.name.isIdentifier = true) :
    f.column ≤ column + t.length := by
  obtain ⟨k, hk, hname⟩ := h
  have hpos : f.name ≠ [] := by
    intro hnil
    rw [hnil] at hn
    cases hn
  have hlength := hname.length_le
  rw [List.length_drop] at hlength
  have := List.length_pos_iff.2 hpos
  omega

end FieldDecl.StandsIn

namespace Schema

/-- A result has the property, or the problem is at a column up to the bound. -/
def Within {α : Type} (bound : Nat) (P : α → Prop) : Parsed α → Prop
  | .ok a => P a
  | .error e => e.column ≤ bound

namespace Within

variable {α β : Type} {bound : Nat} {P : α → Prop} {Q : β → Prop}

theorem problem {p : SchemaProblem} {column : Nat} (h : column ≤ bound) :
    Within bound P (problem p column) := h

theorem mono {r : Parsed α} {bound' : Nat} (h : Within bound P r) (hb : bound ≤ bound') :
    Within bound' P r := by
  cases r with
  | error e => exact Nat.le_trans h hb
  | ok a => exact h

theorem imp {r : Parsed α} {P' : α → Prop} (h : Within bound P r) (hp : ∀ a, P a → P' a) :
    Within bound P' r := by
  cases r with
  | error e => exact h
  | ok a => exact hp a h

theorem map {r : Parsed α} {f : α → β} (h : Within bound P r) (hf : ∀ a, P a → Q (f a)) :
    Within bound Q (r.map f) := by
  cases r with
  | error e => exact h
  | ok a => exact hf a h

end Within

variable {indent : Nat} {line : Text}

theorem length_argument_le (line : Text) :
    (KeywordLine.ofText line).offset ≤ line.length := Nat.sub_le ..

theorem parseVersion_within (indent : Nat) (line : Text) :
    Within (indent + line.length) (IsVersion 3) (parseVersion indent line) := by
  have hoffset := length_argument_le line
  unfold parseVersion
  dsimp only
  split
  · exact .problem (Nat.le_add_right ..)
  · split
    · exact .problem (Nat.le_add_right ..)
    · split
      · exact isVersion_iff.1 ‹_›
      · exact .problem (by omega)

theorem parsePackage_within (indent : Nat) (line : Text) :
    Within (indent + line.length) (fun t => t.isIdentifier = true) (parsePackage indent line) := by
  have hoffset := length_argument_le line
  unfold parsePackage
  dsimp only
  split
  · exact .problem (Nat.le_add_right ..)
  · split
    · assumption
    · exact .problem (by omega)

theorem parseHeader_within (names : List Text) (indent : Nat) (line : Text) :
    Within (indent + line.length) (fun h => h.name.isIdentifier = true ∧ h.name ∉ names)
      (parseHeader names indent line) := by
  unfold parseHeader
  simp only [List.span_eq_takeWhile_dropWhile]
  generalize hrest : Text.trimLeft (line.dropWhile fun c => !c.isBlank) = rest
  generalize hname : (rest.takeWhile fun c => !c.isBlank && decide (c ≠ openBrace)) = name
  have hrestle : rest.length ≤ line.length := by
    rw [← hrest]
    exact (List.dropWhile_sublist _).length_le.trans (List.dropWhile_sublist _).length_le
  have hnamele : name.length ≤ rest.length := by
    rw [← hname]
    exact (List.takeWhile_sublist _).length_le
  split
  · exact .problem (Nat.le_add_right ..)
  · split
    · exact .problem (Nat.le_refl _)
    · split
      · exact .problem (by omega)
      · rename_i hid
        split
        · exact .problem (by omega)
        · split
          · exact .problem (by omega)
          · split
            · exact .problem (by omega)
            · rename_i hnew
              rw [Bool.not_eq_true, List.contains_eq_mem, decide_eq_false_iff_not] at hnew
              rw [Bool.not_eq_true', Bool.not_eq_false] at hid
              split
              · exact ⟨hid, hnew⟩
              · split
                · exact ⟨hid, hnew⟩
                · exact .problem (by omega)

theorem parseDefault_within (type : TypeExpr) (t : Text) {column bound : Nat} (h : column ≤ bound) :
    Within bound (fun _ => True) (parseDefault type column t) := by
  unfold parseDefault
  repeat' split
  all_goals first | exact h | trivial

def Declares (number column : Nat) (t : Text) (f : FieldDecl) : Prop :=
  f.line = number ∧ f.name.isIdentifier = true ∧ f.StandsIn column t

theorem parseDeclaration_within (type : TypeExpr) (number column : Nat) (segment : Text) :
    Within (column + segment.length) (Declares number column segment)
      (parseDeclaration type number column segment) := by
  unfold parseDeclaration
  simp only [List.span_eq_takeWhile_dropWhile]
  obtain ⟨lead, hlead, hblank⟩ := Text.exists_trimLeft segment
  have hk : segment.length - (Text.trimLeft segment).length = lead.length := by
    have := congrArg List.length hlead
    rw [List.length_append] at this
    omega
  have hle : lead.length ≤ segment.length := by
    rw [hlead, List.length_append]
    omega
  have hequals : ∀ c : CodePoint, c.isBlank = true → decide (c ≠ CodePoint.ofChar '=') = true := by
    intro c hc
    rw [decide_eq_true_eq]
    rintro rfl
    cases hc
  rw [hk]
  split
  · exact .problem (by omega)
  · rename_i c t hname
    have hstands : Text.trim (segment.takeWhile fun c => decide (c ≠ CodePoint.ofChar '=')) <+:
        segment.drop lead.length := by
      have htrim : segment.drop lead.length = Text.trimLeft segment := by
        conv_lhs => rw [hlead]
        exact List.drop_left
      obtain ⟨tail, htail, -⟩ := Text.exists_trimRight
        ((Text.trimLeft segment).takeWhile fun c => decide (c ≠ CodePoint.ofChar '='))
      rw [htrim, Text.trim, Text.trimLeft_takeWhile hequals]
      exact List.IsPrefix.trans ⟨tail, htail.symm⟩ (List.takeWhile_prefix _)
    split
    · exact .problem (by omega)
    · split
      · exact .problem (by omega)
      · rename_i hid
        rw [Bool.not_eq_true', Bool.not_eq_false] at hid
        split
        · exact ⟨rfl, hid, lead.length, rfl, hstands⟩
        · rename_i text htext
          exact (parseDefault_within type _ (by omega)).map fun d _ =>
            ⟨rfl, hid, lead.length, rfl, hstands⟩

theorem Declares.append {number column : Nat} {s : Text} {f : FieldDecl}
    (h : Declares number column s f) (t : Text) : Declares number column (s ++ t) f :=
  ⟨h.1, h.2.1, h.2.2.append t⟩

theorem Declares.append_left {number column : Nat} {t : Text} {f : FieldDecl} (s : Text)
    (h : Declares number (column + s.length) t f) : Declares number column (s ++ t) f :=
  ⟨h.1, h.2.1, h.2.2.append_left s⟩

theorem parseDeclarations_within (type : TypeExpr) (number column : Nat) (segments : List Text) :
    Within (column + (Text.join [comma] segments).length)
      (fun fs => ∀ f ∈ fs, Declares number column (Text.join [comma] segments) f)
      (parseDeclarations type number column segments) := by
  induction segments generalizing column with
  | nil =>
    rintro f ⟨⟩
  | cons segment segments ih =>
    have hfirst := parseDeclaration_within type number column segment
    rw [parseDeclarations]
    by_cases hs : segments = []
    · subst hs
      cases hd : parseDeclaration type number column segment with
      | error e =>
        rw [hd] at hfirst
        exact hfirst
      | ok f =>
        rw [hd] at hfirst
        exact List.forall_mem_singleton.2 hfirst
    · have hjoin := Text.join_cons_of_ne_nil [comma] segment hs
      have hlength : (segment ++ [comma]).length = segment.length + 1 := by simp
      have hrest := ih (column + segment.length + 1)
      rw [Nat.add_assoc column, ← hlength] at hrest
      rw [hjoin]
      cases hd : parseDeclaration type number column segment with
      | error e =>
        rw [hd] at hfirst
        simp only [List.length_append] at hfirst ⊢
        exact hfirst.trans (by omega)
      | ok f =>
        rw [hd] at hfirst
        dsimp only
        rw [Nat.add_assoc column, ← hlength, List.length_append, ← Nat.add_assoc column]
        refine hrest.map fun fs hfs => List.forall_mem_cons.2 ⟨?_, fun g hg => ?_⟩
        · rw [List.append_assoc]
          exact hfirst.append _
        · exact (hfs g hg).append_left _

theorem parseFields_within (number indent : Nat) (line : Text) :
    Within (indent + line.length) (fun fs => ∀ f ∈ fs, Declares number indent line f)
      (parseFields number indent line) := by
  unfold parseFields
  split
  · exact .problem (Nat.le_add_right ..)
  · split
    · rename_i hsplit
      exact column_of_splitType hsplit
    · rename_i typeText rest hsplit
      obtain rfl := append_of_splitType hsplit
      rw [List.length_append]
      split
      · exact .problem (Nat.le_add_right ..)
      · rename_i type hparse
        dsimp only
        split
        · exact .problem (by omega)
        · split
          · exact .problem (by omega)
          · rename_i segments hsegments
            obtain ⟨-, rfl⟩ := join_splitDeclarations hsegments
            rw [← Nat.add_assoc]
            exact (parseDeclarations_within type number _ segments).imp fun fs hfs f hf =>
              (hfs f hf).append_left typeText

theorem addFields_within {bound : Nat} {fields fs : List FieldDecl}
    (h : ∀ f ∈ fs, f.column ≤ bound) :
    Within bound (fun gs => gs = fields ++ fs ∧
      ((fields.map (·.name)).Nodup → (gs.map (·.name)).Nodup)) (addFields fields fs) := by
  induction fs generalizing fields with
  | nil => exact ⟨(List.append_nil _).symm, id⟩
  | cons f fs ih =>
    obtain ⟨hf, hfs⟩ := List.forall_mem_cons.1 h
    rw [addFields]
    split
    · exact .problem hf
    · rename_i hnew
      refine (ih hfs).imp ?_
      rintro gs ⟨rfl, hnodup⟩
      refine ⟨by simp, fun hn => hnodup ?_⟩
      rw [List.map_append]
      refine hn.append (List.nodup_singleton _) (List.disjoint_singleton.2 ?_)
      simpa using hnew

/-- What has been read so far is sound. -/
inductive State.Sound (lines : List Text) : State → Prop
  | start : Sound lines .start
  | versioned {version : Text} (hv : IsVersion 3 version) : Sound lines (.versioned version)
  | outside {version package : Text} {structs : List StructDecl} (hv : IsVersion 3 version)
    (hp : package.isIdentifier = true) (hn : (structs.map (·.name)).Nodup)
    (hs : ∀ s ∈ structs, s.Sound lines) : Sound lines (.outside version package structs)
  | inside {version package : Text} {structs : List StructDecl} {current : StructDecl}
    (hv : IsVersion 3 version) (hp : package.isIdentifier = true)
    (hn : ((structs ++ [current]).map (·.name)).Nodup) (hs : ∀ s ∈ structs ++ [current], s.Sound lines)
    (hl : 1 ≤ current.line ∧ ∃ raw, lines[current.line - 1]? = some raw) :
    Sound lines (.inside version package structs current)

section

variable {lines : List Text} {number : Nat} {raw : Text}

theorem indentOf_add_length_le (raw : Text) : indentOf raw + (body raw).length ≤ raw.length := by
  obtain ⟨lead, tail, hraw, hlead⟩ := exists_body raw
  have := congrArg List.length hraw
  simp only [List.length_append] at this
  omega

theorem Declares.isPlacedIn {f : FieldDecl} (h : Declares number (indentOf raw) (body raw) f)
    (hn : 1 ≤ number) (hraw : lines[number - 1]? = some raw) : f.IsPlacedIn lines := by
  obtain ⟨rfl, -, hstands⟩ := h
  obtain ⟨lead, tail, hlines, hlead⟩ := exists_body raw
  have hline : f.StandsIn 0 raw := by
    rw [hlines]
    refine FieldDecl.StandsIn.append (FieldDecl.StandsIn.append_left lead ?_) tail
    rwa [hlead, Nat.zero_add]
  obtain ⟨k, hk, hname⟩ := hline
  rw [Nat.zero_add] at hk
  exact ⟨hn, raw, hraw, hk ▸ hname⟩

theorem addFields_sound {current : StructDecl} {fs : List FieldDecl} (hc : current.Sound lines)
    (hfs : ∀ f ∈ fs, Declares number (indentOf raw) (body raw) f) (hn : 1 ≤ number)
    (hraw : lines[number - 1]? = some raw) :
    Within raw.length (fun gs => StructDecl.Sound lines { current with fields := gs })
      (addFields current.fields fs) := by
  have hcolumn : ∀ f ∈ fs, f.column ≤ raw.length := fun f hf =>
    ((hfs f hf).2.2.column_le (hfs f hf).2.1).trans (indentOf_add_length_le raw)
  refine (addFields_within hcolumn).imp ?_
  rintro gs ⟨rfl, hnodup⟩
  refine ⟨hc.name, hnodup hc.nodup, fun f hf => ?_⟩
  rcases List.mem_append.1 hf with hf | hf
  · exact hc.fields f hf
  · exact ⟨(hfs f hf).2.1, (hfs f hf).isPlacedIn hn hraw⟩

theorem sound_append {structs : List StructDecl} {s : StructDecl}
    (hn : (structs.map (·.name)).Nodup) (hs : ∀ s ∈ structs, s.Sound lines) (h : s.Sound lines)
    (hnew : s.name ∉ structs.map (·.name)) :
    ((structs ++ [s]).map (·.name)).Nodup ∧ ∀ s' ∈ structs ++ [s], s'.Sound lines := by
  refine ⟨?_, fun s' hmem => ?_⟩
  · rw [List.map_append]
    exact hn.append (List.nodup_singleton _) (List.disjoint_singleton.2 hnew)
  · rcases List.mem_append.1 hmem with hmem | hmem
    · exact hs s' hmem
    · obtain rfl := List.mem_singleton.1 hmem
      exact h

theorem State.step_within {state : State} (h : state.Sound lines) (hn : 1 ≤ number)
    (hraw : lines[number - 1]? = some raw) :
    Within raw.length (State.Sound lines) (state.step number (indentOf raw) (body raw)) := by
  have hbound := indentOf_add_length_le raw
  cases h with
  | start => exact ((parseVersion_within _ _).mono hbound).map fun v hv => .versioned hv
  | versioned hv =>
    exact ((parsePackage_within _ _).mono hbound).map fun p hp =>
      .outside hv hp List.nodup_nil (by simp)
  | @outside version package structs hv hp hnodup hs =>
    refine ((parseHeader_within _ _ _).mono hbound).map ?_
    rintro header ⟨hid, hnew⟩
    have hsound : StructDecl.Sound lines ⟨header.name, [], number⟩ :=
      ⟨hid, List.nodup_nil, by simp⟩
    obtain ⟨hnames, hstructs⟩ := sound_append hnodup hs hsound hnew
    split
    · exact .outside hv hp hnames hstructs
    · exact .inside hv hp hnames hstructs ⟨hn, raw, hraw⟩
  | @inside version package structs current hv hp hnodup hs hl =>
    rw [State.step]
    split
    · exact .outside hv hp hnodup hs
    · have hfields := parseFields_within number (indentOf raw) (body raw)
      split
      · rename_i hf
        rw [hf] at hfields
        exact Nat.le_trans hfields hbound
      · rename_i fs hf
        rw [hf] at hfields
        have hcurrent := hs current (by simp)
        refine (addFields_sound hcurrent hfields hn hraw).map fun gs hgs => ?_
        refine .inside hv hp ?_ (fun s hmem => ?_) hl
        · simpa using hnodup
        · rcases List.mem_append.1 hmem with hmem | hmem
          · exact hs s (List.mem_append_left _ hmem)
          · obtain rfl := List.mem_singleton.1 hmem
            exact hgs

/-- Lines keep the state sound, or there is a problem in one of them. -/
theorem State.run_sound {state : State} (source : Text) {rest : List Text}
    (h : state.Sound lines) (hn : 1 ≤ number) (hrest : lines.drop (number - 1) = rest) :
    (∃ final, state.run source number rest = .ok final ∧ final.Sound lines) ∨
      ∃ e, state.run source number rest = .error e ∧ e.IsPlacedIn lines := by
  induction rest generalizing state number with
  | nil => exact .inl ⟨state, rfl, h⟩
  | cons raw rest ih =>
    have hraw : lines[number - 1]? = some raw := by
      rw [← List.head?_drop, hrest]
      rfl
    have hnext : lines.drop (number + 1 - 1) = rest := by
      rw [show number + 1 - 1 = number - 1 + 1 by omega, ← List.tail_drop, hrest]
      rfl
    by_cases hbody : body raw = []
    · rw [run_blank hbody]
      exact ih h (by omega) hnext
    · have hstep := State.step_within h hn hraw
      cases hs : state.step number (indentOf raw) (body raw) with
      | error e =>
        rw [hs] at hstep
        exact .inr ⟨_, run_error hbody hs, hn, raw, hraw, hstep⟩
      | ok next =>
        rw [hs] at hstep
        rw [run_ok hbody hs]
        exact ih hstep (by omega) hnext

def bodies (lines : List Text) : Nat := lines.countP fun raw => !(body raw).isEmpty

def State.depth : State → Nat
  | start => 0
  | versioned _ => 1
  | outside .. => 2
  | inside .. => 2

theorem State.depth_of_step {state next : State} {indent : Nat} {line : Text}
    (h : state.step number indent line = .ok next) : next.depth = min 2 (state.depth + 1) := by
  cases state with
  | start =>
    obtain ⟨v, -, rfl⟩ := map_eq_ok_iff.1 h
    rfl
  | versioned =>
    obtain ⟨p, -, rfl⟩ := map_eq_ok_iff.1 h
    rfl
  | outside =>
    obtain ⟨header, -, rfl⟩ := map_eq_ok_iff.1 h
    dsimp only
    split <;> rfl
  | inside =>
    rw [step] at h
    split at h
    · cases h
      rfl
    · split at h
      · cases h
      · obtain ⟨fields, -, rfl⟩ := map_eq_ok_iff.1 h
        rfl

theorem State.depth_of_run {state final : State} {source : Text} {rest : List Text}
    (h : state.run source number rest = .ok final) :
    final.depth = min 2 (state.depth + bodies rest) := by
  induction rest generalizing state number with
  | nil =>
    cases h
    cases final <;> rfl
  | cons raw rest ih =>
    by_cases hbody : body raw = []
    · rw [run_blank hbody] at h
      simpa [bodies, hbody] using ih h
    · cases hs : state.step number (indentOf raw) (body raw) with
      | error e =>
        rw [run_error hbody hs] at h
        cases h
      | ok next =>
        rw [run_ok hbody hs] at h
        have hnext := State.depth_of_step hs
        have hcount : bodies (raw :: rest) = bodies rest + 1 := by simp [bodies, hbody]
        have := ih h
        omega

/-- The text ends before its version line or its package line, and this is reported at no line. -/
def EndsEarly (lines : List Text) (e : SchemaError) : Prop :=
  e.line = 0 ∧ e.column = 0 ∧ (e.problem = .endOfText .version ∧ bodies lines = 0 ∨
    e.problem = .endOfText .package ∧ bodies lines = 1)

/-- Every text is either a sound schema or in error. An error says that the text ends too early, or it
is at a column of one of the lines. -/
theorem parse_placed (source text : Text) :
    (∃ m, parse source text = .ok m ∧ m.Sound text.lines) ∨
    ∃ e, parse source text = .error e ∧ (EndsEarly text.lines e ∨ e.IsPlacedIn text.lines) := by
  have hrun : (∃ final, State.start.run source 1 text.lines = .ok final ∧ final.Sound text.lines) ∨
      ∃ e, State.start.run source 1 text.lines = .error e ∧ e.IsPlacedIn text.lines :=
    State.run_sound source .start (Nat.le_refl 1) rfl
  rcases hrun with ⟨final, hfinal, hsound⟩ | ⟨e, he, hplaced⟩
  · have hdepth := State.depth_of_run hfinal
    have hparse : parse source text = final.finish source := by
      unfold parse
      rw [hfinal]
    rw [hparse]
    cases hsound with
    | start =>
      have hcount : bodies text.lines = 0 := by
        simp only [State.depth] at hdepth
        omega
      exact .inr ⟨_, rfl, .inl ⟨rfl, rfl, .inl ⟨rfl, hcount⟩⟩⟩
    | versioned hv =>
      have hcount : bodies text.lines = 1 := by
        simp only [State.depth] at hdepth
        omega
      exact .inr ⟨_, rfl, .inl ⟨rfl, rfl, .inr ⟨rfl, hcount⟩⟩⟩
    | outside hv hp hn hs => exact .inl ⟨_, rfl, hv, hp, hn, hs⟩
    | inside hv hp hn hs hl =>
      obtain ⟨hone, raw, hraw⟩ := hl
      exact .inr ⟨_, rfl, .inr ⟨hone, raw, hraw, Nat.zero_le _⟩⟩
  · refine .inr ⟨e, ?_, .inr hplaced⟩
    unfold parse
    rw [he]

end

end Schema

end RecordWire
