import RecordWire.Codec.Collect
import RecordWire.Proofs.Text.Name
import RecordWire.Schema.Parser

/-!
Type expressions and their written forms. The expressions that are read from some text are those whose
names fit, and each of them is read again from its own written form. The induction is over the
expression; what carries it is that its brackets are balanced, so a scanner comes out of the written
form at the depth at which it went in.
-/

namespace RecordWire

open CodePoint (openBracket closeBracket comma)

theorem PrimitiveName.isIdentifier_text (n : PrimitiveName) : n.text.isIdentifier = true := by
  cases n with
  | byte => decide
  | proper p =>
    cases p with
    | int kind =>
      obtain ⟨width, signed⟩ := kind
      cases width <;> cases signed <;> decide
    | _ => decide

theorem PrimitiveName.ofText?_text (n : PrimitiveName) : ofText? n.text = some n := by
  cases n with
  | byte => decide
  | proper p =>
    cases p with
    | int kind =>
      obtain ⟨width, signed⟩ := kind
      cases width <;> cases signed <;> decide
    | _ => decide

theorem PrimitiveName.ofText?_eq_none {t : Text} {c : CodePoint} (hc : c ∈ t)
    (hn : c.isInName = false) : ofText? t = none := by
  cases h : ofText? t with
  | none => rfl
  | some n =>
    rw [← text_of_ofText? h] at hc
    exact absurd hc (Text.not_mem_of_isIdentifier n.isIdentifier_text hn)

namespace TypeExpr

open Text (IsWord isWord_of_isIdentifier)

/-- The expression names primitives and structs as they can be named. -/
inductive IsProper : TypeExpr → Prop
  | primitive (name : PrimitiveName) : IsProper (.primitive name)
  | list {element : TypeExpr} (h : element.IsProper) : IsProper (.list element)
  | map {key value : TypeExpr} (hk : key.IsProper) (hv : value.IsProper) : IsProper (.map key value)
  /-- A name that is not that of a primitive. -/
  | struct {name : Text} (hn : name.isIdentifier = true)
    (hp : PrimitiveName.ofText? name = Option.none) : IsProper (.struct name none)
  | qualified {package name : Text} (hp : package.isIdentifier = true)
    (hn : name.isIdentifier = true) : IsProper (.struct name (some package))

theorem isProper_of_parseName {whole t : Text} {e : TypeExpr} (ht : PrimitiveName.ofText? t = none)
    (h : parseName whole t = .ok e) : e.IsProper := by
  unfold parseName at h
  split at h
  · cases h
  · split at h
    · rename_i name hsplit
      split at h
      · rename_i hn
        cases h
        obtain rfl : name = t := by
          rw [← Text.join_splitOn (CodePoint.ofChar '.') t, hsplit]
          rfl
        exact .struct hn ht
      · cases h
    · split at h
      · rename_i hn
        cases h
        rw [Bool.and_eq_true] at hn
        exact .qualified hn.1 hn.2
      · cases h
    · cases h

theorem isProper_of_parseCompact {whole t : Text} {e : TypeExpr}
    (h : parseCompact whole t = .ok e) : e.IsProper := by
  fun_induction parseCompact whole t generalizing e with
  | case1 t name =>
    cases h
    exact .primitive name
  | case2 => cases h
  | case3 t ht inner hinner hne ih =>
    obtain ⟨element, helement, rfl⟩ := map_eq_ok_iff.1 h
    exact .list (ih helement)
  | case4 => cases h
  | case5 => cases h
  | case6 t ht _ inner _ key value hs hne k hk ihk ihv =>
    obtain ⟨v, hv, rfl⟩ := map_eq_ok_iff.1 h
    exact .map (ihk hk) (ihv hv)
  | case7 => cases h
  | case8 t ht => exact isProper_of_parseName ht h

theorem isWord_join {package name : Text} (hp : package.isIdentifier = true)
    (hn : name.isIdentifier = true) : IsWord (StructRef.join package name) := by
  have hpoint : IsWord (Text.ofString ".") := fun c hc => .inr (List.mem_singleton.1 hc)
  exact ((isWord_of_isIdentifier hp).append hpoint).append (isWord_of_isIdentifier hn)

/-- The brackets of the text are balanced; commas and blanks stand in brackets only, which the flag
says to be around the text already. -/
inductive Balanced : (nested : Bool) → Text → Prop
  | word {nested : Bool} {t : Text} (h : IsWord t) : Balanced nested t
  | gap {c : CodePoint} (h : c = comma ∨ c = CodePoint.ofChar ' ') : Balanced true [c]
  | bracketed {nested : Bool} {t : Text} (h : Balanced true t) :
    Balanced nested ([openBracket] ++ t ++ [closeBracket])
  | append {nested : Bool} {s t : Text} (hs : Balanced nested s) (ht : Balanced nested t) :
    Balanced nested (s ++ t)

theorem Balanced.compact {nested : Bool} {t : Text} (h : Balanced nested t) :
    Balanced nested t.compact := by
  induction h with
  | word h =>
    rw [h.compact_eq]
    exact .word h
  | gap h =>
    rcases h with rfl | rfl
    · exact .gap (.inl rfl)
    · exact .word (by rintro c ⟨⟩)
  | bracketed _ ih =>
    rw [Text.compact_append, Text.compact_append]
    exact .bracketed ih
  | append _ _ ihs iht =>
    rw [Text.compact_append]
    exact .append ihs iht

theorem text_map (key value : TypeExpr) : (map key value).text = Text.ofString "map" ++
    ([openBracket] ++ (key.text ++ [comma] ++ [CodePoint.ofChar ' '] ++ value.text) ++
      [closeBracket]) := by
  simp only [text, List.append_assoc]
  rfl

theorem IsProper.balanced {e : TypeExpr} (h : e.IsProper) (nested : Bool) :
    Balanced nested e.text := by
  induction h generalizing nested with
  | primitive name => exact .word (isWord_of_isIdentifier name.isIdentifier_text)
  | list _ ih =>
    have hhead : IsWord (Text.ofString "list") := isWord_of_isIdentifier (by decide)
    exact (Balanced.word hhead).append (.bracketed (ih true))
  | map _ _ ihk ihv =>
    have hhead : IsWord (Text.ofString "map") := isWord_of_isIdentifier (by decide)
    rw [text_map]
    exact (Balanced.word hhead).append (.bracketed
      ((((ihk true).append (.gap (.inl rfl))).append (.gap (.inr rfl))).append (ihv true)))
  | struct hn => exact .word (isWord_of_isIdentifier hn)
  | qualified hp hn =>
    exact .word (isWord_join hp hn)

/-- A scanner of parts comes out of balanced text at the depth that it went in, in the same part. -/
theorem Balanced.splitParts {nested : Bool} {t : Text} (h : Balanced nested t) {depth : Int}
    (hd : 0 ≤ depth) (hn : nested = true → 0 < depth) {rest p : Text} {ps : List Text}
    (hrest : splitParts depth rest = p :: ps) : splitParts depth (t ++ rest) = (t ++ p) :: ps := by
  induction h generalizing depth rest p with
  | @word _ t h =>
    induction t with
    | nil => exact hrest
    | cons c t ih =>
      have hcomma : c ≠ comma := h.ne_of_mem List.mem_cons_self (by decide) (by decide)
      have hopen : c ≠ openBracket := h.ne_of_mem List.mem_cons_self (by decide) (by decide)
      have hclose : c ≠ closeBracket := h.ne_of_mem List.mem_cons_self (by decide) (by decide)
      rw [List.cons_append, TypeExpr.splitParts, depthAfter, if_neg hopen, if_neg hclose,
        ih fun d hd => h d (List.mem_cons_of_mem c hd)]
      simp [hcomma, consPart]
  | @gap c h =>
    have hpos := hn rfl
    have hdepth : depthAfter depth c = depth := by
      rcases h with rfl | rfl <;> rw [depthAfter, if_neg (by decide), if_neg (by decide)]
    rw [List.singleton_append, TypeExpr.splitParts, hdepth, hrest]
    simp [consPart, show depth ≠ 0 by omega]
  | bracketed _ ih =>
    have hclose : TypeExpr.splitParts (depth + 1) ([closeBracket] ++ rest) =
        (closeBracket :: p) :: ps := by
      rw [List.singleton_append, TypeExpr.splitParts]
      have hdepth : depthAfter (depth + 1) closeBracket = depth := by
        rw [depthAfter, if_neg (by decide), if_pos rfl]
        omega
      rw [hdepth, hrest]
      simp [consPart, closeBracket, comma]
    have hbody := ih (by omega) (by omega) hclose
    rw [List.append_assoc, List.append_assoc, List.singleton_append, TypeExpr.splitParts]
    have hdepth : depthAfter depth openBracket = depth + 1 := by
      rw [depthAfter, if_pos rfl]
    rw [hdepth, hbody]
    simp [consPart, openBracket, comma]
  | append _ _ ihs iht =>
    rw [List.append_assoc, List.append_assoc]
    exact ihs hd hn (iht hd hn hrest)

theorem Balanced.splitType {nested : Bool} {t : Text} (h : Balanced nested t) {depth : Nat}
    (hn : nested = true → 0 < depth) {rest a b : Text}
    (hrest : ∀ column, Schema.splitType column depth rest = .ok (a, b)) (column : Nat) :
    Schema.splitType column depth (t ++ rest) = .ok (t ++ a, b) := by
  induction h generalizing depth rest a column with
  | @word _ t h =>
    induction t generalizing column with
    | nil => exact hrest column
    | cons c t ih =>
      have hopen : c ≠ openBracket := h.ne_of_mem List.mem_cons_self (by decide) (by decide)
      have hclose : c ≠ closeBracket := h.ne_of_mem List.mem_cons_self (by decide) (by decide)
      have hblank := h.not_isBlank (c := c) List.mem_cons_self
      rw [List.cons_append, Schema.splitType]
      simp only [hopen, hclose, hblank, decide_false, Bool.false_and, Bool.false_eq_true, if_false]
      rw [ih fun d hd => h d (List.mem_cons_of_mem c hd)]
      rfl
  | @gap c h =>
    have hpos := hn rfl
    have hopen : c ≠ openBracket := by rcases h with rfl | rfl <;> decide
    have hclose : c ≠ closeBracket := by rcases h with rfl | rfl <;> decide
    have hdepth : depth ≠ 0 := by omega
    rw [List.singleton_append, Schema.splitType]
    simp only [hopen, hclose, hdepth, decide_false, Bool.and_false, Bool.false_eq_true, if_false,
      hrest]
    rfl
  | @bracketed _ t _ ih =>
    have hclose : ∀ column, Schema.splitType column (depth + 1) ([closeBracket] ++ rest) =
        .ok (closeBracket :: a, b) := by
      intro column
      rw [List.singleton_append, Schema.splitType]
      have hblank : closeBracket.isBlank = false := by decide
      have hopen : closeBracket ≠ openBracket := by decide
      simp only [hblank, hopen, Nat.add_one_ne_zero, decide_false, Bool.and_false,
        Bool.false_eq_true, if_false, if_true, Nat.add_sub_cancel, hrest]
      rfl
    have hbody := ih (by omega) hclose
    rw [List.append_assoc, List.append_assoc, List.singleton_append, Schema.splitType]
    have hblank : openBracket.isBlank = false := by decide
    have hopen : openBracket ≠ closeBracket := by decide
    simp only [hblank, hopen, decide_false, Bool.false_and, Bool.false_eq_true, if_false, if_true,
      hbody]
    simp [Except.map]
  | append _ _ ihs iht =>
    rw [List.append_assoc, List.append_assoc]
    exact ihs hn (iht hn hrest) column

theorem bracketed?_append (head inner : Text) :
    bracketed? head (head ++ inner ++ [closeBracket]) = some inner := by
  have hprefix : Text.dropPrefix? head (head ++ inner ++ [closeBracket]) =
      some (inner ++ [closeBracket]) := by
    rw [Text.dropPrefix?_eq_some, List.append_assoc]
  rw [bracketed?, hprefix]
  simp

theorem bracketed?_of_not_mem {head t : Text} (h : closeBracket ∉ t) : bracketed? head t = none := by
  cases hb : bracketed? head t with
  | none => rfl
  | some inner =>
    rw [eq_of_bracketed hb] at h
    exact absurd (List.mem_append_right _ List.mem_cons_self) h

section

variable {whole inner t : Text}

theorem parseCompact_nil (whole : Text) : parseCompact whole [] = .error (.typeName whole) := by
  rw [parseCompact]
  rfl

theorem parseCompact_list {e : TypeExpr} (h : parseCompact whole inner = .ok e) :
    parseCompact whole (listHead ++ inner ++ [closeBracket]) = .ok (.list e) := by
  have hname : PrimitiveName.ofText? (listHead ++ inner ++ [closeBracket]) = none :=
    PrimitiveName.ofText?_eq_none (c := closeBracket) (by simp) (by decide)
  have hne : inner ≠ [] := by
    rintro rfl
    rw [parseCompact_nil] at h
    cases h
  rw [parseCompact, hname]
  dsimp only
  split
  · rename_i inner' hinner
    obtain rfl := Option.some.inj ((bracketed?_append listHead inner).symm.trans hinner)
    rw [if_neg (by rwa [List.isEmpty_iff]), h]
    rfl
  · rename_i hinner
    cases (bracketed?_append listHead inner).symm.trans hinner

theorem parseCompact_map {key value : Text} {k v : TypeExpr}
    (hs : splitParts 0 inner = [key, value]) (hk : parseCompact whole key = .ok k)
    (hv : parseCompact whole value = .ok v) :
    parseCompact whole (mapHead ++ inner ++ [closeBracket]) = .ok (.map k v) := by
  have hname : PrimitiveName.ofText? (mapHead ++ inner ++ [closeBracket]) = none :=
    PrimitiveName.ofText?_eq_none (c := closeBracket) (by simp) (by decide)
  have hlist : bracketed? listHead (mapHead ++ inner ++ [closeBracket]) = none := rfl
  have hkne : key ≠ [] := by
    rintro rfl
    rw [parseCompact_nil] at hk
    cases hk
  have hvne : value ≠ [] := by
    rintro rfl
    rw [parseCompact_nil] at hv
    cases hv
  rw [parseCompact, hname]
  dsimp only
  split
  · rename_i inner' hinner
    cases hlist.symm.trans hinner
  · split
    · rename_i inner' hinner
      obtain rfl := Option.some.inj ((bracketed?_append mapHead inner).symm.trans hinner)
      split
      · rename_i key' value' hs'
        cases hs.symm.trans hs'
        rw [if_neg (by simp [hkne, hvne]), hk, hv]
        rfl
      · rename_i hparts
        exact (hparts _ _ hs).elim
    · rename_i hinner
      cases (bracketed?_append mapHead inner).symm.trans hinner

theorem parseCompact_name (ht : PrimitiveName.ofText? t = none) (hb : closeBracket ∉ t) :
    parseCompact whole t = parseName whole t := by
  rw [parseCompact, ht]
  dsimp only
  split
  · rename_i inner hinner
    cases (bracketed?_of_not_mem hb).symm.trans hinner
  · split
    · rename_i inner hinner
      cases (bracketed?_of_not_mem hb).symm.trans hinner
    · rfl

end

theorem not_mem_bracket_of_isWord {t : Text} (h : IsWord t) :
    openBracket ∉ t ∧ closeBracket ∉ t :=
  ⟨fun hm => h.ne_of_mem hm (by decide) (by decide) rfl,
    fun hm => h.ne_of_mem hm (by decide) (by decide) rfl⟩

theorem parseCompact_word {whole t : Text} {e : TypeExpr} (h : IsWord t)
    (ht : PrimitiveName.ofText? t = none) (hs : parseName whole t = .ok e) :
    parseCompact whole t = .ok e := by
  rw [parseCompact_name ht (not_mem_bracket_of_isWord h).2, hs]

theorem parseName_struct {whole name : Text} (hn : name.isIdentifier = true) :
    parseName whole name = .ok (.struct name none) := by
  have hword := isWord_of_isIdentifier hn
  have hsplit : Text.splitOn (CodePoint.ofChar '.') name = [name] :=
    Text.splitOn_of_not_mem (Text.not_mem_of_isIdentifier hn (by decide))
  unfold parseName
  rw [if_neg (by simp [(not_mem_bracket_of_isWord hword).1]), hsplit]
  exact if_pos hn

theorem parseName_qualified {whole package name : Text} (hp : package.isIdentifier = true)
    (hn : name.isIdentifier = true) :
    parseName whole (StructRef.join package name) = .ok (.struct name (some package)) := by
  have hword : IsWord (StructRef.join package name) := isWord_join hp hn
  have hsplit : Text.splitOn (CodePoint.ofChar '.') (StructRef.join package name) =
      [package, name] := by
    have hjoin : StructRef.join package name = package ++ CodePoint.ofChar '.' :: name := by
      simp [StructRef.join, Text.ofString]
    rw [hjoin, Text.splitOn_append (Text.not_mem_of_isIdentifier hp (by decide)),
      Text.splitOn_of_not_mem (Text.not_mem_of_isIdentifier hn (by decide))]
  unfold parseName
  rw [if_neg (by simp [(not_mem_bracket_of_isWord hword).1]), hsplit]
  exact if_pos (by rw [hp, hn]; rfl)

theorem parseCompact_text (whole : Text) {e : TypeExpr} (h : e.IsProper) :
    parseCompact whole e.text.compact = .ok e := by
  induction h with
  | primitive name =>
    rw [text, (isWord_of_isIdentifier name.isIdentifier_text).compact_eq, parseCompact,
      PrimitiveName.ofText?_text]
  | @list element _ ih =>
    have ht : (list element).text.compact = listHead ++ element.text.compact ++ [closeBracket] := by
      simp only [text, Text.compact_append]
      rfl
    rw [ht]
    exact parseCompact_list ih
  | @map key value hk hv ihk ihv =>
    have ht : (map key value).text.compact =
        mapHead ++ (key.text.compact ++ (comma :: value.text.compact)) ++ [closeBracket] := by
      simp only [text, Text.compact_append, List.append_assoc]
      rfl
    have hvalue : splitParts 0 (value.text.compact ++ []) = [value.text.compact ++ []] :=
      (hv.balanced false).compact.splitParts (Int.le_refl 0) (by simp) rfl
    rw [List.append_nil] at hvalue
    have hcomma : splitParts 0 (comma :: value.text.compact) = [[], value.text.compact] := by
      rw [splitParts, if_pos (by decide), hvalue]
    have hparts := (hk.balanced false).compact.splitParts (Int.le_refl 0) (by simp) hcomma
    rw [List.append_nil] at hparts
    rw [ht]
    exact parseCompact_map hparts ihk ihv
  | @struct name hn hp =>
    have ht : (struct name none).text.compact = name := (isWord_of_isIdentifier hn).compact_eq
    rw [ht]
    exact parseCompact_word (isWord_of_isIdentifier hn) hp (parseName_struct hn)
  | @qualified package name hp hn =>
    have hword : IsWord (StructRef.join package name) := isWord_join hp hn
    have ht : (struct name (some package)).text.compact = StructRef.join package name :=
      hword.compact_eq
    have hname : PrimitiveName.ofText? (StructRef.join package name) = none :=
      PrimitiveName.ofText?_eq_none (c := CodePoint.ofChar '.') (by simp [StructRef.join, Text.ofString])
        (by decide)
    rw [ht]
    exact parseCompact_word hword hname (parseName_qualified hp hn)

/-- The expressions that are read from some text are those whose names fit, and each is read from its
own written form. -/
theorem isProper_iff {e : TypeExpr} : e.IsProper ↔ ∃ t, parse t = .ok e := by
  constructor
  · exact fun h => ⟨e.text, parseCompact_text _ h⟩
  · rintro ⟨t, ht⟩
    exact isProper_of_parseCompact ht

theorem parse_text {e : TypeExpr} (h : e.IsProper) : parse e.text = .ok e := parseCompact_text _ h

end TypeExpr

end RecordWire
