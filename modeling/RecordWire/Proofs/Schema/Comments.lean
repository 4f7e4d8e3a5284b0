import RecordWire.Proofs.Schema.FieldLine
import RecordWire.Proofs.Schema.Grammar
import RecordWire.Proofs.Schema.Numbering

/-!
Comments and blank lines. Two slashes begin a comment only where no quote is open. Every line that
is accepted closes the quotes that it opens, so a comment put at its end is taken off again,
whatever quotes and slashes there are in the comment and in the line.
-/

namespace RecordWire

open CodePoint (openBrace closeBrace comma quote slash)

namespace Schema

/-- Whether a quote is open behind a text; the flag says so of the place in front of it. -/
def quotedAfter (quoted : Bool) : Text → Bool
  | [] => quoted
  | c :: t => quotedAfter (if c = quote then !quoted else quoted) t

section

variable {quoted : Bool} {t raw : Text}

theorem quotedAfter_append (quoted : Bool) (s t : Text) :
    quotedAfter quoted (s ++ t) = quotedAfter (quotedAfter quoted s) t := by
  induction s generalizing quoted with
  | nil => rfl
  | cons c s ih => exact ih _

theorem quotedAfter_of_not_mem (h : quote ∉ t) : quotedAfter quoted t = quoted := by
  induction t with
  | nil => rfl
  | cons c t ih =>
    obtain ⟨hc, ht⟩ := not_or.1 (mt List.mem_cons.2 h)
    rw [quotedAfter, if_neg (Ne.symm hc), ih ht]

theorem quote_not_mem_of_blank (h : ∀ c ∈ t, c.isBlank = true) : quote ∉ t := fun hq => by
  cases h _ hq

/-- What begins with no slash is behind the comment of a line that has one; else it is reached, in
the quotes of the line. -/
theorem stripComment_append_or (ht : t.head? ≠ some slash) (quoted : Bool) (s : Text) :
    stripComment quoted (s ++ t) = stripComment quoted s ∨
      stripComment quoted s = s ∧
        stripComment quoted (s ++ t) = s ++ stripComment (quotedAfter quoted s) t := by
  fun_induction stripComment quoted s with
  | case1 => exact .inr ⟨rfl, rfl⟩
  | case2 quoted s ih =>
    rw [List.cons_append, stripComment_quote, quotedAfter, if_pos rfl, List.cons_append]
    exact ih.imp (congrArg _) fun h => ⟨congrArg _ h.1, congrArg _ h.2⟩
  | case3 quoted c s hc hs =>
    cases s with
    | nil => simp at hs
    | cons d s => exact .inl ((if_neg hc).trans (if_pos hs))
  | case4 quoted c s hc hs ih =>
    have hstep : stripComment quoted (c :: (s ++ t)) = c :: stripComment quoted (s ++ t) := by
      rw [stripComment, if_neg hc, if_neg]
      -- A slash at the end of the line begins no comment with what is behind it.
      cases s with
      | nil => exact fun h => ht (of_decide_eq_true (Bool.and_eq_true_iff.1 h).2)
      | cons d s => exact hs
    rw [List.cons_append, hstep, quotedAfter, if_neg hc, List.cons_append]
    exact ih.imp (congrArg _) fun h => ⟨congrArg _ h.1, congrArg _ h.2⟩

theorem quotedAfter_body (h : stripComment false raw = raw) :
    quotedAfter false raw = quotedAfter false (body raw) := by
  obtain ⟨tail, htail, hblank⟩ := Text.exists_trimRight (stripComment false raw)
  obtain ⟨lead, hlead, hblank'⟩ := Text.exists_trimLeft (Text.trimRight (stripComment false raw))
  have hraw : raw = lead ++ body raw ++ tail := by rw [body, ← hlead, ← htail, h]
  refine (congrArg (quotedAfter false) hraw).trans ?_
  rw [quotedAfter_append, quotedAfter_append,
    quotedAfter_of_not_mem (quote_not_mem_of_blank hblank'),
    quotedAfter_of_not_mem (quote_not_mem_of_blank hblank)]

theorem trimRight_commented (h : quotedAfter false (body raw) = false) (comment : Text) :
    Text.trimRight (stripComment false (raw ++ " //" ++ comment)) =
      Text.trimRight (stripComment false raw) := by
  have hhead : (Text.ofString " //" ++ comment).head? ≠ some slash := by
    change some (CodePoint.ofChar ' ') ≠ some slash
    decide
  have hspace : stripComment false (Text.ofString " //" ++ comment) = " " := rfl
  have hblank : ∀ c ∈ Text.ofString " ", c.isBlank = true := fun c hc => (isGap_space c hc).1
  rw [List.append_assoc]
  rcases stripComment_append_or hhead false raw with hraw | ⟨hraw, happend⟩
  · rw [hraw]
  · rw [happend, quotedAfter_body hraw, h, hspace, Text.trimRight_append_of_blank hblank, hraw]

theorem body_commented (h : quotedAfter false (body raw) = false) (comment : Text) :
    body (raw ++ " //" ++ comment) = body raw :=
  congrArg Text.trimLeft (trimRight_commented h comment)

theorem indentOf_commented (h : quotedAfter false (body raw) = false) (comment : Text) :
    indentOf (raw ++ " //" ++ comment) = indentOf raw := by
  rw [indentOf, indentOf, trimRight_commented h, body_commented h]

end

section

variable {line t : Text} {indent number : Nat}

theorem quote_not_mem_of_trimLeft (h : quote ∉ Text.trimLeft t) : quote ∉ t := by
  obtain ⟨lead, hlead, hblank⟩ := Text.exists_trimLeft t
  rw [hlead, List.mem_append]
  exact not_or.2 ⟨quote_not_mem_of_blank hblank, h⟩

theorem quote_not_mem_of_span {p : CodePoint → Bool} (h : quote ∉ t.takeWhile p)
    (h' : quote ∉ t.dropWhile p) : quote ∉ t := by
  rw [← List.takeWhile_append_dropWhile (p := p) (l := t), List.mem_append]
  exact not_or.2 ⟨h, h'⟩

theorem quote_not_mem_of_keyword (hk : quote ∉ (KeywordLine.ofText line).keyword)
    (ha : quote ∉ (KeywordLine.ofText line).argument) : quote ∉ line := by
  simp only [KeywordLine.ofText, List.span_eq_takeWhile_dropWhile] at hk ha
  exact quote_not_mem_of_span hk (quote_not_mem_of_trimLeft ha)

theorem quote_not_mem_of_parseVersion {version : Text}
    (h : parseVersion indent line = .ok version) : quote ∉ line := by
  unfold parseVersion at h
  dsimp only at h
  split at h
  · cases h
  · rename_i hk
    split at h
    · cases h
    · split at h
      · rename_i hv
        rw [not_not] at hk
        refine quote_not_mem_of_keyword (by rw [hk]; decide) fun hm => ?_
        exact (isVersion_iff.1 hv).isWord.ne_of_mem hm (by decide) (by decide) rfl
      · cases h

theorem quote_not_mem_of_parsePackage {package : Text}
    (h : parsePackage indent line = .ok package) : quote ∉ line := by
  unfold parsePackage at h
  dsimp only at h
  split at h
  · cases h
  · rename_i hk
    split at h
    · rename_i hi
      rw [not_not] at hk
      exact quote_not_mem_of_keyword (by rw [hk]; decide)
        (Text.not_mem_of_isIdentifier hi (by decide))
    · cases h

/-- A header that is accepted is the keyword, a name and an opening brace, with a closing brace or
nothing behind it. -/
theorem exists_of_parseHeader {names : List Text} {header : Header}
    (h : parseHeader names indent line = .ok header) :
    let inName : CodePoint → Bool := fun c => !c.isBlank && c ≠ openBrace
    let rest := Text.trimLeft (line.dropWhile fun c => !c.isBlank)
    line.takeWhile (fun c => !c.isBlank) = "struct" ∧
      Text.isIdentifier (rest.takeWhile inName) = true ∧
      ∃ b, Text.trimLeft (rest.dropWhile inName) = openBrace :: b ∧
        (Text.trimLeft b = [closeBrace] ∨ Text.trimLeft b = []) := by
  intro inName rest
  unfold parseHeader at h
  simp only [List.span_eq_takeWhile_dropWhile] at h
  split at h
  · cases h
  · rename_i hk
    split at h
    · cases h
    · split at h
      · cases h
      · rename_i hi
        split at h
        · cases h
        · rename_i c b hafter
          split at h
          · cases h
          · rename_i hc
            rw [not_not] at hk hc
            rw [Bool.not_eq_true', Bool.not_eq_false] at hi
            refine ⟨hk, hi, b, hafter.trans (by rw [hc]), ?_⟩
            split at h
            · cases h
            · split at h
              · rename_i hclose
                exact .inl hclose
              · split at h
                · rename_i hempty
                  exact .inr (List.isEmpty_iff.1 hempty)
                · cases h

theorem quote_not_mem_of_parseHeader {names : List Text} {header : Header}
    (h : parseHeader names indent line = .ok header) : quote ∉ line := by
  obtain ⟨hk, hi, b, hb, hend⟩ := exists_of_parseHeader h
  have hbody : quote ∉ b := by
    refine quote_not_mem_of_trimLeft ?_
    rcases hend with hend | hend <;> rw [hend] <;> decide
  refine quote_not_mem_of_span (by rw [hk]; decide) (quote_not_mem_of_trimLeft ?_)
  refine quote_not_mem_of_span (Text.not_mem_of_isIdentifier hi (by decide))
    (quote_not_mem_of_trimLeft ?_)
  rw [hb, List.mem_cons, not_or]
  exact ⟨by decide, hbody⟩

theorem quotedAfter_of_splitDeclarations {quoted : Bool} {segments : List Text}
    (h : splitDeclarations quoted t = some segments) : quotedAfter quoted t = false := by
  induction t generalizing quoted segments with
  | nil =>
    cases quoted with
    | false => rfl
    | true => cases h
  | cons c t ih =>
    rw [splitDeclarations] at h
    split at h
    · rename_i hc
      rw [Bool.and_eq_true, decide_eq_true_eq] at hc
      obtain ⟨parts, hparts, -⟩ := Option.map_eq_some_iff.1 h
      rw [quotedAfter, if_neg (by rw [hc.1]; decide), ih hparts]
    · obtain ⟨parts, hparts, -⟩ := Option.map_eq_some_iff.1 h
      exact ih hparts

theorem quote_not_mem_of_parse {e : TypeExpr} (h : TypeExpr.parse t = .ok e) : quote ∉ t := by
  intro hm
  have hderives := TypeExpr.derives_of_parseCompact h
  have hcompact : quote ∈ e.text.compact := by
    rw [hderives.compact_text]
    exact List.mem_filter.2 ⟨hm, by decide⟩
  rcases (hderives.isProper.balanced false).mem (List.mem_filter.1 hcompact).1 with hn | hs
  · exact absurd hn (by decide)
  · exact absurd hs (by decide)

theorem quotedAfter_of_parseFields {fields : List FieldDecl}
    (h : parseFields number indent line = .ok fields) : quotedAfter false line = false := by
  unfold parseFields at h
  split at h
  · cases h
  · split at h
    · cases h
    · rename_i typeText rest hsplit
      split at h
      · cases h
      · rename_i type hparse
        dsimp only at h
        split at h
        · cases h
        · split at h
          · cases h
          · rename_i segments hsegments
            rw [← append_of_splitType hsplit, quotedAfter_append,
              quotedAfter_of_not_mem (quote_not_mem_of_parse hparse),
              quotedAfter_of_splitDeclarations hsegments]

theorem State.quotedAfter_of_step {state next : State}
    (h : state.step number indent line = .ok next) : quotedAfter false line = false := by
  cases state with
  | start =>
    obtain ⟨version, hv, -⟩ := map_eq_ok_iff.1 h
    exact quotedAfter_of_not_mem (quote_not_mem_of_parseVersion hv)
  | versioned =>
    obtain ⟨package, hp, -⟩ := map_eq_ok_iff.1 h
    exact quotedAfter_of_not_mem (quote_not_mem_of_parsePackage hp)
  | outside =>
    obtain ⟨header, hh, -⟩ := map_eq_ok_iff.1 h
    exact quotedAfter_of_not_mem (quote_not_mem_of_parseHeader hh)
  | inside =>
    rw [step] at h
    split at h
    · rename_i hbrace
      rw [hbrace]
      rfl
    · split at h
      · cases h
      · rename_i fields hfields
        exact quotedAfter_of_parseFields hfields

end

/-- The line is blank, or there is nothing but blanks in front of its comment. -/
def IsInert (line : Text) : Prop :=
  ∃ lead rest, line = lead ++ rest ∧ (∀ c ∈ lead, c.isBlank = true) ∧
    (rest = [] ∨ [slash, slash] <+: rest)

theorem IsInert.body_eq {line : Text} (h : IsInert line) : body line = [] := by
  obtain ⟨lead, rest, rfl, hblank, hrest⟩ := h
  have hplain : ∀ c ∈ lead, c ≠ quote ∧ (false = true ∨ c ≠ slash) := by
    intro c hc
    have hc := hblank c hc
    constructor
    · rintro rfl
      cases hc
    · right
      rintro rfl
      cases hc
  have hstrip : stripComment false rest = [] := by
    rcases hrest with rfl | ⟨comment, rfl⟩
    · rfl
    · rfl
  have htrim : Text.trimRight lead = [] := Text.trimRight_append_of_blank (s := []) hblank
  rw [body, stripComment_append hplain, hstrip, List.append_nil, htrim]
  rfl

section

variable {source raw line : Text} {number : Nat} {before after : List Text} {state final : State}

/-- A comment behind a line that is accepted changes nothing. -/
theorem State.run_commented (comment : Text)
    (h : state.run source number (raw :: after) = .ok final) :
    state.run source number ((raw ++ " //" ++ comment) :: after) = .ok final := by
  by_cases hbody : body raw = []
  · have hquotes : quotedAfter false (body raw) = false := by
      rw [hbody]
      rfl
    rw [run_blank hbody] at h
    rw [run_blank ((body_commented hquotes comment).trans hbody), h]
  · cases hs : state.step number (indentOf raw) (body raw) with
    | error e =>
      rw [run_error hbody hs] at h
      cases h
    | ok next =>
      have hquotes := State.quotedAfter_of_step hs
      rw [run_ok hbody hs] at h
      rw [← body_commented hquotes comment] at hbody
      rw [← body_commented hquotes comment, ← indentOf_commented hquotes comment] at hs
      rw [run_ok hbody hs, h]

/-- The number of a line once another has been put in behind the first lines of a schema. -/
def moved (before number : Nat) : Nat := if number ≤ before then number else number + 1

/-- A line that nothing is read of moves the lines behind it on by one. -/
theorem State.run_inserted (hline : body line = [])
    (h : State.start.run source 1 (before ++ after) = .ok final) :
    State.start.run source 1 (before ++ line :: after) =
      .ok (final.renumber (moved before.length)) := by
  rw [run_append] at h ⊢
  cases hmid : State.start.run source 1 before with
  | error e =>
    rw [hmid] at h
    cases h
  | ok mid =>
    rw [hmid] at h
    have hbefore : State.start.run source 1 before = .ok (mid.renumber (moved before.length)) :=
      run_renumber (fun i hi => if_pos (by omega)) hmid
    have hafter : (mid.renumber (moved before.length)).run source (1 + before.length + 1) after =
        .ok (final.renumber (moved before.length)) :=
      run_renumber (fun i hi => (if_neg (by omega)).trans (by omega)) h
    rw [← Except.ok.inj (hmid.symm.trans hbefore)] at hafter
    rw [← hafter]
    exact run_blank hline

theorem State.run_of_blank (h : ∀ raw ∈ after, body raw = []) :
    state.run source number after = .ok state := by
  induction after generalizing number with
  | nil => rfl
  | cons raw after ih =>
    obtain ⟨hraw, hafter⟩ := List.forall_mem_cons.1 h
    rw [run_blank hraw, ih hafter]

end

theorem parse_join {source : Text} {ls : List Text} {m : SchemaModule}
    (h : ∀ l ∈ ls, l.IsInline) :
    parse source (Text.join [CodePoint.lineFeed] ls) = .ok m ↔
      ∃ final, State.start.run source 1 ls = .ok final ∧ final.finish source = .ok m := by
  obtain ⟨rest, hls, hempty⟩ := Text.exists_lines_join h
  have hrest : ∀ raw ∈ rest, body raw = [] := fun raw hraw => by rw [hempty raw hraw]; rfl
  have hrun : State.start.run source 1 ls =
      State.start.run source 1 (Text.lines (Text.join [CodePoint.lineFeed] ls)) := by
    conv_lhs => rw [hls, State.run_append]
    split
    · rename_i e he
      exact he.symm
    · rename_i mid hmid
      rw [State.run_of_blank hrest, hmid]
  rw [parse, ← hrun]
  cases State.start.run source 1 ls with
  | error e => simp
  | ok final => simp

/-- A schema of one struct, with the fields of one line. -/
theorem parse_of_parseFields {source line : Text} {fields : List FieldDecl} (hl : line.IsInline)
    (hb : body line ≠ []) (hne : body line ≠ [closeBrace])
    (hfields : parseFields 4 (indentOf line) (body line) = .ok fields)
    (hadd : addFields [] fields = .ok fields) :
    parse source (Text.join [CodePoint.lineFeed] ([("syntax 1.0.0" : Text), "package p",
      "struct R " ++ [openBrace]] ++ [line, [closeBrace]])) =
      .ok ⟨"1.0.0", "p", [⟨"R", fields, 3⟩], source⟩ := by
  have hheader : ∀ l ∈ ([("syntax 1.0.0" : Text), "package p", "struct R " ++ [openBrace]]),
      l.IsInline := by decide
  have hend : Text.IsInline [closeBrace] := by decide
  have hlines := List.forall_mem_append.2
    ⟨hheader, List.forall_mem_cons.2 ⟨hl, List.forall_mem_singleton.2 hend⟩⟩
  have hstart : State.start.run source 1 ["syntax 1.0.0", "package p", "struct R " ++ [openBrace]] =
      .ok (.inside "1.0.0" "p" [] ⟨"R", [], 3⟩) := by
    rw [State.run_ok (by decide) rfl, State.run_ok (by decide) rfl, State.run_ok (by decide) rfl]
    rfl
  refine (parse_join hlines).2 ⟨.outside "1.0.0" "p" [⟨"R", fields, 3⟩], ?_, rfl⟩
  rw [State.run_append, hstart]
  dsimp only [List.length_cons, List.length_nil]
  rw [State.run_ok hb (State.step_of_parseFields hne hfields hadd), State.run_ok (by decide) rfl]
  rfl

/-- A schema in lines is read as it was with a comment put behind
one of them. With a line put in that is blank or a comment, all that changes in what it declares
is the number of each line behind that one. -/
theorem parse_commented (source : Text) (lines : List Text) (hlines : ∀ l ∈ lines, l.IsInline)
    (m : SchemaModule) (h : parse source (Text.join [CodePoint.lineFeed] lines) = .ok m) :
    (∀ before raw after comment, lines = before ++ raw :: after → Text.IsInline comment →
      parse source (Text.join [CodePoint.lineFeed]
        (before ++ (raw ++ " //" ++ comment) :: after)) = .ok m) ∧
    ∀ before after line, lines = before ++ after → Text.IsInline line → IsInert line →
      parse source (Text.join [CodePoint.lineFeed] (before ++ line :: after)) =
        .ok (m.renumber (moved before.length)) := by
  obtain ⟨final, hrun, hfinish⟩ := (parse_join hlines).1 h
  constructor
  · rintro before raw after comment rfl hcomment
    have hslashes : Text.IsInline (Text.ofString " //") := by decide
    simp only [List.forall_mem_append, List.forall_mem_cons] at hlines
    obtain ⟨hbefore, hraw, hafter⟩ := hlines
    have hline := (hraw.append hslashes).append hcomment
    have hall := List.forall_mem_append.2 ⟨hbefore, List.forall_mem_cons.2 ⟨hline, hafter⟩⟩
    refine (parse_join hall).2 ⟨final, ?_, hfinish⟩
    rw [State.run_append] at hrun ⊢
    cases hmid : State.start.run source 1 before with
    | error e =>
      rw [hmid] at hrun
      cases hrun
    | ok mid =>
      rw [hmid] at hrun
      exact State.run_commented comment hrun
  · rintro before after line rfl hinline hinert
    obtain ⟨hbefore, hafter⟩ := List.forall_mem_append.1 hlines
    have hall := List.forall_mem_append.2 ⟨hbefore, List.forall_mem_cons.2 ⟨hinline, hafter⟩⟩
    exact (parse_join hall).2
      ⟨_, State.run_inserted hinert.body_eq hrun, State.finish_renumber _ hfinish⟩

/-- A comment with a quote behind a line whose default has slashes in quotes, and a line put in that
is a comment with a quote. -/
theorem parse_commented_quotes :
    let lines : List Text := ["syntax 1.0.0", "package p", "struct S " ++ [openBrace],
      " string a = \"// x\"", [closeBrace]]
    let field : FieldDecl := ⟨"a", .string, some "// x", 4, 8⟩
    let m : SchemaModule := ⟨"1.0.0", "p", [⟨"S", [field], 3⟩], "s"⟩
    ((∀ l ∈ lines, l.IsInline) ∧ parse "s" (Text.join [CodePoint.lineFeed] lines) = .ok m) ∧
      parse "s" (Text.join [CodePoint.lineFeed] ["syntax 1.0.0", "package p",
        "struct S " ++ [openBrace], Text.ofString " string a = \"// x\"" ++ " //" ++ " 3\" wide",
        [closeBrace]]) = .ok m ∧
      parse "s" (Text.join [CodePoint.lineFeed] ["syntax 1.0.0", " // \"", "package p",
        "struct S " ++ [openBrace], " string a = \"// x\"", [closeBrace]]) =
        .ok { m with structs := [⟨"S", [{ field with line := 5 }], 4⟩] } := by
  intro lines field m
  have hlines : ∀ l ∈ lines, l.IsInline := by decide
  have hfields : parseFields 4 1 "string a = \"// x\"" = .ok [field] := by
    have htype : TypeExpr.parse "string" = .ok .string :=
      TypeExpr.parse_text (.primitive (.proper .string))
    have hsplit : splitType 1 0 "string a = \"// x\"" = .ok ("string", " a = \"// x\"") := rfl
    rw [parseFields, if_neg (by decide), hsplit]
    dsimp only
    rw [htype]
    rfl
  have hparse : parse "s" (Text.join [CodePoint.lineFeed] lines) = .ok m := by
    refine (parse_join hlines).2 ⟨.outside "1.0.0" "p" m.structs, ?_, rfl⟩
    have hline : (State.inside "1.0.0" "p" [] ⟨"S", [], 3⟩).step 4 1 "string a = \"// x\"" =
        .ok (.inside "1.0.0" "p" [] ⟨"S", [field], 3⟩) := by
      rw [State.step, if_neg (by decide), hfields]
      rfl
    rw [State.run_ok (by decide) rfl, State.run_ok (by decide) rfl, State.run_ok (by decide) rfl,
      State.run_ok (by decide) hline, State.run_ok (by decide) rfl]
    rfl
  have hcomment : Text.IsInline (Text.ofString " 3\" wide") := by decide
  have hline : Text.IsInline (Text.ofString " // \"") := by decide
  have hinert : IsInert " // \"" :=
    ⟨" ", "// \"", rfl, fun c hc => (isGap_space c hc).1, .inr ⟨" \"", rfl⟩⟩
  obtain ⟨happended, hinserted⟩ := parse_commented "s" lines hlines m hparse
  exact ⟨⟨hlines, hparse⟩,
    happended ["syntax 1.0.0", "package p", "struct S " ++ [openBrace]] _ _ _ rfl hcomment,
    hinserted ["syntax 1.0.0"] _ _ rfl hline hinert⟩

end Schema

end RecordWire
