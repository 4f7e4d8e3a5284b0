import RecordWire.Config.Load
import RecordWire.Proofs.Config.Assignment
import RecordWire.Proofs.Log.Ending

/-!
Errors of reading settings. Settings that do not fit are refused, unless an operation on them fails by
itself: sorting unknown names that are no texts, putting a refused value into words, or looking up the
name of an encoding. A document is refused unless it is no text or its reader fails by itself. What is
not refused is a configuration.
-/

namespace RecordWire

/-- The error is that of settings or of a file that are refused, in words. -/
def ConfigError.IsRefusal (e : ConfigError) : Prop :=
  (∀ why, e ≠ .fault why) ∧ e.isShowable = true

/-- Why the document of a file cannot be read without the file being refused. -/
inductive Bytes.Unread (load : Text → Except Yaml.Refusal Value) (content : Bytes) : Fault → Prop
  /-- Bytes that are no text. -/
  | undecodable (h : content.fileText? = none) : Unread load content .undecodable
  /-- A word that stands for no value. -/
  | noValue {t : Text} (ht : content.fileText? = some t) (hv : load t = .error .noValue) :
    Unread load content .badText
  /-- A number that is too large. -/
  | tooLarge {t : Text} (ht : content.fileText? = some t) (hv : load t = .error .tooLarge) :
    Unread load content .tooLarge

namespace Settings

/-- Why settings cannot be made of the entries of a dictionary without being refused. -/
inductive Escapes (entries : List (Value × Value)) : ConfigError → Prop
  /-- A key that is no text. -/
  | key {k v : Value} (he : (k, v) ∈ entries) (hk : ∀ t, k ≠ .text t) :
    Escapes entries (.fault .unsupported)
  /-- A byte order that has no words. -/
  | byteOrder {v : Value} (he : (.text Setting.byteOrder.name, v) ∈ entries)
    (hv : v.isShowable = false) : Escapes entries (.byteOrder v)
  /-- An encoding that has no words. -/
  | encoding {v : Value} (he : (.text Setting.stringEncoding.name, v) ∈ entries)
    (hv : v.isShowable = false) : Escapes entries (.encoding v)
  /-- A name of an encoding that cannot be encoded itself. -/
  | surrogate {t : Text} (he : (.text Setting.stringEncoding.name, .text t) ∈ entries)
    (ht : t.hasSurrogate = true) : Escapes entries (.fault .unencodable)
  /-- A name of an encoding that has a NUL in it. -/
  | null {t : Text} (he : (.text Setting.stringEncoding.name, .text t) ∈ entries)
    (ht : t.contains 0 = true) : Escapes entries (.fault .badText)

def within : Value → Value
  | .dict entries => (Value.lookupText documentKey entries).getD (.dict entries)
  | v => v

/-- Why a file does not give settings without it or the settings in it being refused. -/
inductive Unread (load : Text → Except Yaml.Refusal Value) (content : Bytes) : ConfigError → Prop
  | document {why : Fault} (h : content.Unread load why) : Unread load content (.fault why)
  | settings {t : Text} {v : Value} {entries : List (Value × Value)} {e : ConfigError}
    (ht : content.fileText? = some t) (hv : load t = .ok v) (hw : within v = .dict entries)
    (h : Escapes entries e) : Unread load content e

variable {ε : Type} {find : Text → Option ε} {s : Settings} {e : ConfigError}
  {given : List (Text × Value)} {entries : List (Value × Value)} {v : Value}

theorem textKeys?_cons (k v : Value) (entries : List (Value × Value)) :
    textKeys? ((k, v) :: entries) =
      match k with
      | .atom (.text t) => (textKeys? entries).map ((t, v) :: ·)
      | _ => none := by
  cases k with
  | atom a =>
    cases a with
    | text t =>
      rw [textKeys?, List.mapM_cons, ← textKeys?]
      cases textKeys? entries <;> rfl
    | _ => rfl
  | _ => rfl

theorem eq_of_textKeys? (h : textKeys? entries = some given) :
    entries = given.map fun g => (.text g.1, g.2) := by
  induction entries generalizing given with
  | nil =>
    cases h
    rfl
  | cons p entries ih =>
    obtain ⟨k, v⟩ := p
    rw [textKeys?_cons] at h
    split at h
    · obtain ⟨gs, hgs, rfl⟩ := Option.map_eq_some_iff.1 h
      rw [List.map_cons, ← ih hgs]
    · cases h

theorem exists_of_textKeys? (h : textKeys? entries = none) :
    ∃ k v, (k, v) ∈ entries ∧ ∀ t, k ≠ .text t := by
  induction entries with
  | nil => cases h
  | cons p entries ih =>
    obtain ⟨k, v⟩ := p
    rw [textKeys?_cons] at h
    split at h
    · obtain ⟨k', v', hm, hk⟩ := ih (Option.map_eq_none_iff.1 h)
      exact ⟨k', v', List.mem_cons_of_mem _ hm, hk⟩
    · rename_i hk
      exact ⟨k, v, List.mem_cons_self, hk⟩

theorem getD_lookup_of_textKeys? (h : textKeys? entries = some given) (name : Text) (default : Value) :
    (given.lookup name).getD default = default ∨
      (.text name, (given.lookup name).getD default) ∈ entries := by
  cases hl : given.lookup name with
  | none => exact .inl rfl
  | some w =>
    obtain ⟨_, _, hgiven, -⟩ := List.lookup_eq_some_iff.1 hl
    rw [eq_of_textKeys? h, hgiven]
    exact .inr (List.mem_map_of_mem (List.mem_append_right _ List.mem_cons_self))

theorem error_of_meaningBy {find : Value → Except ConfigError ε}
    (h : s.meaningBy find = .error e) : e.IsRefusal ∨ find s.stringEncoding = .error e := by
  revert h
  fun_cases meaningBy find s with
  | case1 => exact fun h => .inr (map_eq_error_iff.1 h)
  | _ =>
    rintro ⟨⟩
    exact .inl ⟨fun _ => by simp, rfl⟩

theorem error_of_ofValueBy (h : Encoding.ofValueBy find v = .error e) :
    e = .encoding v ∨ ∃ t, v = .text t ∧ (t.hasSurrogate = true ∧ e = .fault .unencodable ∨
      t.contains 0 = true ∧ e = .fault .badText) := by
  revert h
  fun_cases Encoding.ofValueBy find v with
  | case1 t ht =>
    rintro ⟨⟩
    exact .inr ⟨t, rfl, .inl ⟨ht, rfl⟩⟩
  | case2 t _ ht =>
    rintro ⟨⟩
    exact .inr ⟨t, rfl, .inr ⟨ht, rfl⟩⟩
  | case3 => rintro ⟨⟩
  | case4 | case5 =>
    rintro ⟨⟩
    exact .inl rfl

theorem error_of_byteOrder
    (hv : v = .text ByteOrder.little.name ∨ (.text Setting.byteOrder.name, v) ∈ entries)
    (h : ByteOrder.ofValue v = .error e) : e.IsRefusal ∨ Escapes entries e := by
  unfold ByteOrder.ofValue at h
  split at h
  · cases h
  · cases h
    cases hs : v.isShowable with
    | true => exact .inl ⟨fun _ => by simp, hs⟩
    | false =>
      rcases hv with rfl | hm
      · cases hs
      · exact .inr (.byteOrder hm hs)

theorem error_of_encoding (hfind : ∃ encoding, find "utf-8" = some encoding)
    (hv : v = .text "utf-8" ∨ (.text Setting.stringEncoding.name, v) ∈ entries)
    (h : Encoding.ofValueBy find v = .error e) : e.IsRefusal ∨ Escapes entries e := by
  rcases hv with rfl | hm
  · obtain ⟨encoding, hfind⟩ := hfind
    have hstandard : Encoding.ofValueBy find (.text "utf-8") = .ok encoding := by
      rw [Encoding.ofValueBy, if_neg (by decide), if_neg (by decide), hfind]
    cases hstandard.symm.trans h
  · rcases error_of_ofValueBy h with rfl | ⟨t, rfl, ⟨ht, rfl⟩ | ⟨ht, rfl⟩⟩
    · cases hs : v.isShowable with
      | true => exact .inl ⟨fun _ => by simp, hs⟩
      | false => exact .inr (.encoding hm hs)
    · exact .inr (.surrogate hm ht)
    · exact .inr (.null hm ht)

theorem error_of_makeBy (hfind : ∃ encoding, find "utf-8" = some encoding)
    (hg : textKeys? entries = some given)
    (h : makeBy (Encoding.ofValueBy find) given = .error e) : e.IsRefusal ∨ Escapes entries e := by
  simp only [makeBy] at h
  split at h
  · rename_i d ho
    cases h
    exact error_of_byteOrder (getD_lookup_of_textKeys? hg _ _) ho
  · rcases error_of_meaningBy (map_eq_error_iff.1 h) with href | hencoding
    · exact .inl href
    · exact error_of_encoding hfind (getD_lookup_of_textKeys? hg _ _) hencoding

theorem error_of_ofDictBy (hfind : ∃ encoding, find "utf-8" = some encoding)
    (h : ofDictBy (Encoding.ofValueBy find) v = .error e) :
    e.IsRefusal ∨ ∃ entries, v = .dict entries ∧ Escapes entries e := by
  have hrefused : ∀ d : ConfigError, (∀ why, d ≠ .fault why) → d.isShowable = true →
      (.error d : Except ConfigError Settings) = .error e → e.IsRefusal := by
    rintro d hd hs ⟨⟩
    exact ⟨hd, hs⟩
  simp only [ofDictBy] at h
  split at h
  · have hnone : textKeys? [] = some [] := rfl
    refine (error_of_makeBy hfind hnone h).imp_right fun he => ?_
    cases he <;> contradiction
  · rename_i entries
    split at h
    · rename_i hnone
      cases h
      obtain ⟨k, v, hm, hk⟩ := exists_of_textKeys? hnone
      exact .inr ⟨entries, rfl, .key hm hk⟩
    · rename_i given hg
      split at h
      · exact (error_of_makeBy hfind hg h).imp_right fun he => ⟨entries, rfl, he⟩
      · exact .inl (hrefused _ (by simp) rfl h)
  · exact .inl (hrefused _ (by simp) rfl h)

theorem exists_checkBy_of_ofDictBy [TextEncoding ε] {find : Value → Except ConfigError ε}
    (h : ofDictBy find v = .ok s) : ∃ config, s.checkBy find = .ok config := by
  obtain ⟨m, hm⟩ := exists_meaningBy_iff.2 (IsNew.fits (.inr ⟨v, h⟩))
  rw [checkBy, hm]
  exact ⟨_, rfl⟩

theorem ofDocumentBy_eq (find : Value → Except ConfigError ε) (v : Value) :
    ofDocumentBy find v = ofDictBy find (within v) := by
  cases v <;> rfl

/-- Settings that are read from a file mean a configuration. Reading them fails on a file or on settings
that are refused, or on what is in the file without their being refused. -/
theorem ends_ofFileBy [TextEncoding ε] (hfind : ∃ encoding, find "utf-8" = some encoding)
    (files : FileTree) (path : Text) (load : Text → Except Yaml.Refusal Value) :
    (ofFileBy (Encoding.ofValueBy find) files (.text path) load).Ends
      (fun s => ∃ config, s.checkBy (Encoding.ofValueBy find) = .ok config) fun e =>
      e.IsRefusal ∨ ∃ content, files.read path = .ok content ∧ Unread load content e := by
  have hrefused : ∀ d : ConfigError, (∀ why, d ≠ .fault why) → d.isShowable = true →
      d.IsRefusal ∨ ∃ content, files.read path = .ok content ∧ Unread load content d :=
    fun d hd hs => .inl ⟨hd, hs⟩
  refine (Logged.ends_ofExcept (Q := fun path? => path? = some path) ?_ ?_).bind
    fun path? _ hpath => ?_
  · rintro _ ⟨⟩
    rfl
  · rintro _ ⟨⟩
  subst hpath
  split
  · exact Logged.ends_throw (hrefused _ (by simp) rfl)
  · rename_i hv
    cases hv
  · rename_i found hfound _
    obtain ⟨hsome, -⟩ := Option.filter_eq_some_iff.1 hfound
    cases hsome
    split
    · exact Logged.ends_throw (hrefused _ (by simp) rfl)
    · rename_i content hread
      have hunread : ∀ d, Unread load content d →
          d.IsRefusal ∨ ∃ content, files.read path = .ok content ∧ Unread load content d :=
        fun d hd => .inr ⟨content, hread, hd⟩
      split
      · rename_i ht
        exact Logged.ends_throw (hunread _ (.document (.undecodable ht)))
      · rename_i t ht
        split
        · rename_i why hv
          refine Logged.ends_throw ?_
          cases why with
          | noDocument => exact hrefused _ (by simp [ConfigError.ofRefusal]) rfl
          | noValue => exact hunread _ (.document (.noValue ht hv))
          | tooLarge => exact hunread _ (.document (.tooLarge ht hv))
        · rename_i document hv
          refine (Logged.ends_log _ _ _).bind fun _ _ _ => ?_
          rw [ofDocumentBy_eq]
          refine Logged.ends_ofExcept (fun s hs => exists_checkBy_of_ofDictBy hs) fun e he => ?_
          refine (error_of_ofDictBy hfind he).imp_right ?_
          rintro ⟨entries, hw, hescapes⟩
          exact ⟨content, hread, .settings ht hv hw hescapes⟩

end Settings

end RecordWire
