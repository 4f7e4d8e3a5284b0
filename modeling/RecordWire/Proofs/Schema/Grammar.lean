import RecordWire.Proofs.Schema.Lexis
import RecordWire.Proofs.Schema.TypeText

/-!
The grammar of type expressions. A text is read as a type exactly if the grammar derives it once its
blanks are left out, and then as the one syntax tree that it has. Splitting at commas counts brackets
that may close before they open, but what it takes apart is derived again, part by part.
-/

namespace RecordWire

open CodePoint (closeBracket comma)

/-- The problem is one of a type expression, and shows the expression as it was given. -/
def SchemaProblem.IsOfType (whole : Text) : SchemaProblem → Prop
  | listType got | mapType got | typeName got => got = whole
  | parametricType head got => got = whole ∧ CodePoint.openBracket ∉ head ∧
      (Text.isPrefix "list" head = true ∨ Text.isPrefix "map" head = true)
  | _ => False

namespace TypeExpr

/-- The notation of types, without blanks. -/
inductive IsPhrase : Text → Prop
  | primitive (name : PrimitiveName) : IsPhrase name.text
  | list {t : Text} (h : IsPhrase t) : IsPhrase ("list[" ++ t ++ "]")
  | map {s t : Text} (hs : IsPhrase s) (ht : IsPhrase t) : IsPhrase ("map[" ++ s ++ "," ++ t ++ "]")
  | struct {name : Text} (hn : name.isIdentifier = true) : IsPhrase name
  | qualified {package name : Text} (hp : package.isIdentifier = true)
    (hn : name.isIdentifier = true) : IsPhrase (package ++ "." ++ name)

/-- The syntax trees of phrases. The name of a primitive refers to no struct. -/
inductive Derives : Text → TypeExpr → Prop
  | primitive (name : PrimitiveName) : Derives name.text (.primitive name)
  | list {t : Text} {e : TypeExpr} (h : Derives t e) : Derives ("list[" ++ t ++ "]") (.list e)
  | map {s t : Text} {k v : TypeExpr} (hk : Derives s k) (hv : Derives t v) :
    Derives ("map[" ++ s ++ "," ++ t ++ "]") (.map k v)
  | struct {name : Text} (hn : name.isIdentifier = true) (hp : ∀ p : PrimitiveName, p.text ≠ name) :
    Derives name (.struct name none)
  | qualified {package name : Text} (hp : package.isIdentifier = true)
    (hn : name.isIdentifier = true) : Derives (package ++ "." ++ name) (.struct name (some package))

theorem ofText?_eq_none_iff {name : Text} :
    PrimitiveName.ofText? name = none ↔ ∀ p : PrimitiveName, p.text ≠ name := by
  constructor
  · rintro h p rfl
    rw [PrimitiveName.ofText?_text] at h
    cases h
  · intro h
    rw [Option.eq_none_iff_forall_not_mem]
    exact fun p hp => h p (PrimitiveName.text_of_ofText? hp)

section

variable {t whole : Text} {e : TypeExpr}

theorem Derives.isPhrase (h : Derives t e) : IsPhrase t := by
  induction h with
  | primitive name => exact .primitive name
  | list _ ih => exact .list ih
  | map _ _ ihk ihv => exact .map ihk ihv
  | struct hn => exact .struct hn
  | qualified hp hn => exact .qualified hp hn

theorem IsPhrase.exists_derives (h : IsPhrase t) : ∃ e, Derives t e := by
  induction h with
  | primitive name => exact ⟨_, .primitive name⟩
  | list _ ih =>
    obtain ⟨e, he⟩ := ih
    exact ⟨_, .list he⟩
  | map _ _ ihs iht =>
    obtain ⟨k, hk⟩ := ihs
    obtain ⟨v, hv⟩ := iht
    exact ⟨_, .map hk hv⟩
  | @struct name hn =>
    by_cases hp : ∃ p : PrimitiveName, p.text = name
    · obtain ⟨p, rfl⟩ := hp
      exact ⟨_, .primitive p⟩
    · exact ⟨_, .struct hn (not_exists.1 hp)⟩
  | qualified hp hn => exact ⟨_, .qualified hp hn⟩

theorem Derives.isProper (h : Derives t e) : e.IsProper := by
  induction h with
  | primitive name => exact .primitive name
  | list _ ih => exact .list ih
  | map _ _ ihk ihv => exact .map ihk ihv
  | struct hn hp => exact .struct hn (ofText?_eq_none_iff.2 hp)
  | qualified hp hn => exact .qualified hp hn

theorem Derives.filter_text {p : CodePoint → Bool} (hkeep : ∀ c, c.isBlank = false → p c = true)
    (hdrop : p (CodePoint.ofChar ' ') = false) (h : Derives t e) : e.text.filter p = t := by
  have hword : ∀ {w : Text}, Text.IsWord w → w.filter p = w := fun hw =>
    List.filter_eq_self.2 fun c hc => hkeep c (hw.not_isBlank hc)
  have hsign : ∀ {w : Text}, w.all (fun c => !c.isBlank) = true → w.filter p = w := fun hw =>
    List.filter_eq_self.2 fun c hc => hkeep c (by simpa using List.all_eq_true.1 hw c hc)
  have hclose : (Text.ofString "]").filter p = "]" := hsign (by decide)
  induction h with
  | primitive name => exact hword (Text.isWord_of_isIdentifier name.isIdentifier_text)
  | list _ ih =>
    have hopen : (Text.ofString "list[").filter p = "list[" := hsign (by decide)
    rw [text, List.filter_append, List.filter_append, hopen, hclose, ih]
  | map _ _ ihk ihv =>
    have hopen : (Text.ofString "map[").filter p = "map[" := hsign (by decide)
    have hcomma : (Text.ofString ", ").filter p = "," := by
      have hc : p comma = true := hkeep comma (by decide)
      change List.filter p [comma, CodePoint.ofChar ' '] = [comma]
      rw [List.filter_cons_of_pos hc, List.filter_cons_of_neg (by simp [hdrop]), List.filter_nil]
    simp only [text, List.filter_append, hopen, hcomma, hclose, ihk, ihv]
  | struct hn => exact hword (Text.isWord_of_isIdentifier hn)
  | qualified hp hn => exact hword (isWord_join hp hn)

theorem Derives.compact_text (h : Derives t e) : e.text.compact = t :=
  h.filter_text (fun c hc => by rw [hc]; rfl) rfl

theorem Derives.parseCompact (whole : Text) (h : Derives t e) : parseCompact whole t = .ok e := by
  have hread := parseCompact_text whole h.isProper
  rwa [h.compact_text] at hread

theorem join_splitParts (depth : Int) (t : Text) :
    splitParts depth t ≠ [] ∧ Text.join [comma] (splitParts depth t) = t := by
  induction t generalizing depth with
  | nil => exact ⟨by simp [splitParts], rfl⟩
  | cons c t ih =>
    rw [splitParts]
    split
    · rename_i hc
      rw [Bool.and_eq_true, decide_eq_true_eq] at hc
      obtain ⟨hne, hjoin⟩ := ih depth
      refine ⟨by simp, ?_⟩
      rw [Text.join_cons_of_ne_nil _ _ hne, hjoin, hc.1]
      rfl
    · obtain ⟨hne, hjoin⟩ := ih (depthAfter depth c)
      have hcons := Schema.join_consPart c hne
      rwa [hjoin] at hcons

theorem derives_of_parseName (ht : PrimitiveName.ofText? t = none)
    (h : parseName whole t = .ok e) : Derives t e := by
  unfold parseName at h
  split at h
  · cases h
  · have hjoin := Text.join_splitOn (CodePoint.ofChar '.') t
    split at h
    · rename_i name hsplit
      split at h
      · rename_i hn
        cases h
        obtain rfl : name = t := by rwa [hsplit] at hjoin
        exact .struct hn (ofText?_eq_none_iff.1 ht)
      · cases h
    · rename_i package name hsplit
      split at h
      · rename_i hn
        cases h
        rw [Bool.and_eq_true] at hn
        obtain rfl : package ++ "." ++ name = t := by rwa [hsplit] at hjoin
        exact .qualified hn.1 hn.2
      · cases h
    · cases h

theorem derives_of_parseCompact (h : TypeExpr.parseCompact whole t = .ok e) : Derives t e := by
  fun_induction TypeExpr.parseCompact whole t generalizing e with
  | case1 t name hname =>
    cases h
    rw [← PrimitiveName.text_of_ofText? hname]
    exact .primitive name
  | case2 => cases h
  | case3 t _ inner hinner _ ih =>
    obtain ⟨element, helement, rfl⟩ := map_eq_ok_iff.1 h
    rw [eq_of_bracketed hinner]
    exact .list (ih helement)
  | case4 => cases h
  | case5 => cases h
  | case6 t _ _ inner hinner key value hparts _ k hk ihk ihv =>
    obtain ⟨v, hv, rfl⟩ := map_eq_ok_iff.1 h
    have hjoin : key ++ "," ++ value = inner := by
      have := (join_splitParts 0 inner).2
      rwa [hparts] at this
    have ht : t = "map[" ++ key ++ "," ++ value ++ "]" := by
      rw [eq_of_bracketed hinner, ← hjoin]
      simp only [List.append_assoc]
      rfl
    rw [ht]
    exact .map (ihk hk) (ihv hv)
  | case7 => cases h
  | case8 t ht => exact derives_of_parseName ht h

theorem parseCompact_eq_ok_iff :
    TypeExpr.parseCompact whole t = .ok e ↔ Derives t e :=
  ⟨derives_of_parseCompact, Derives.parseCompact whole⟩

theorem Derives.unique {e' : TypeExpr} (h : Derives t e) (h' : Derives t e') : e = e' :=
  Except.ok.inj ((h.parseCompact t).symm.trans (h'.parseCompact t))

theorem isPrefix_takeWhile {s t : Text} {p : CodePoint → Bool} (hs : s.all p = true)
    (h : Text.isPrefix s t = true) : Text.isPrefix s (t.takeWhile p) = true := by
  induction s generalizing t with
  | nil => rfl
  | cons a s ih =>
    cases t with
    | nil => cases h
    | cons b t =>
      rw [Text.isPrefix, Bool.and_eq_true, beq_iff_eq] at h
      rw [List.all_cons, Bool.and_eq_true] at hs
      obtain ⟨rfl, h⟩ := h
      rw [List.takeWhile_cons_of_pos hs.1, Text.isPrefix, Bool.and_eq_true]
      exact ⟨beq_self_eq_true a, ih hs.2 h⟩

theorem isOfType_of_parseName {p : SchemaProblem} (h : parseName whole t = .error p) :
    p.IsOfType whole := by
  unfold parseName at h
  split at h
  · rename_i hhead
    cases h
    rw [Bool.and_eq_true, Bool.or_eq_true] at hhead
    refine ⟨rfl, fun hm => ?_, hhead.1.imp (isPrefix_takeWhile (by decide))
      (isPrefix_takeWhile (by decide))⟩
    simpa using List.mem_takeWhile_imp hm
  · split at h
    · split at h <;> cases h
      rfl
    · split at h <;> cases h
      rfl
    · cases h
      rfl

theorem isOfType_of_parseCompact {p : SchemaProblem}
    (h : TypeExpr.parseCompact whole t = .error p) : p.IsOfType whole := by
  fun_induction TypeExpr.parseCompact whole t generalizing p with
  | case1 => cases h
  | case2 => cases h; rfl
  | case3 _ _ _ _ _ ih => exact ih (map_eq_error_iff.1 h)
  | case4 => cases h; rfl
  | case5 _ _ _ _ _ _ _ _ _ _ hk ihk =>
    cases h
    exact ihk hk
  | case6 _ _ _ _ _ _ _ _ _ _ _ _ ihv => exact ihv (map_eq_error_iff.1 h)
  | case7 => cases h; rfl
  | case8 => exact isOfType_of_parseName h

end

/-- A text is read as a type exactly if without its blanks it is a phrase of
the notation, and as a tree exactly if the grammar derives the phrase with that tree, which is the only
one. Any other text is refused by a problem that shows it. The written form of the tree is the phrase
again, spaces aside, and is read as the tree. -/
theorem parse_derives (t : Text) :
    ((∃ e, parse t = .ok e) ↔ IsPhrase t.compact) ∧
    (∀ e, parse t = .ok e ↔ Derives t.compact e) ∧
    (∀ e e', Derives t.compact e → Derives t.compact e' → e = e') ∧
    (∀ p, parse t = .error p → p.IsOfType t) ∧
    ∀ e, parse t = .ok e →
      e.text.filter (· ≠ CodePoint.ofChar ' ') = t.compact ∧ parse e.text = .ok e := by
  have hread : ∀ e, parse t = .ok e ↔ Derives t.compact e := fun e => parseCompact_eq_ok_iff
  refine ⟨⟨fun ⟨e, h⟩ => ((hread e).1 h).isPhrase, fun h => ?_⟩, hread, fun e e' => Derives.unique,
    fun p => isOfType_of_parseCompact, fun e h => ?_⟩
  · obtain ⟨e, he⟩ := h.exists_derives
    exact ⟨e, (hread e).2 he⟩
  · have hderives := (hread e).1 h
    refine ⟨hderives.filter_text (fun c hc => decide_eq_true ?_) (by decide),
      parse_text hderives.isProper⟩
    rintro rfl
    cases hc

/-- The comma stands behind a bracket that closes and in front of one that opens, so at no depth at
which it separates a key from a value. -/
example : parse "map[a],[b]" = .error (.mapType "map[a],[b]") := by cbv

end TypeExpr

end RecordWire
