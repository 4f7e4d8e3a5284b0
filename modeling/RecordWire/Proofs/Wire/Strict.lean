import RecordWire.Proofs.Wire.Shortage

/-!
Strict reading agrees with lenient reading: it succeeds on the same buffers with the same values,
and where it fails the lenient reader runs out of input. Only for a whole record does it refuse
more, namely what the record leaves over.
-/

namespace RecordWire

open Source (amid)

def Config.strictly (config : Config) (strict : Bool) : Config := { config with strict := strict }

section

variable {config : Config}

theorem Reader.Reads.ok_iff {α : Type} {r₁ r₂ : Reader α} {R : Bytes → α → Prop}
    (h₁ : r₁.Reads R) (h₂ : r₂.Reads R) (bs : Bytes) (x : α) (s : Source) :
    r₁ (.ofBytes bs) = .ok x s ↔ r₂ (.ofBytes bs) = .ok x s := by
  have transfer : ∀ {r r' : Reader α}, r.Reads R → r'.Reads R →
      r (.ofBytes bs) = .ok x s → r' (.ofBytes bs) = .ok x s := by
    intro r r' h h' hr
    rw [Source.ofBytes_eq_amid] at hr
    obtain ⟨used, rest, rfl, rfl, hR⟩ := h.sound hr
    exact h'.complete hR [] rest
  exact ⟨transfer h₁ h₂, transfer h₂ h₁⟩

theorem Layout.read_strictly_ok (codec : Codec) (bs : Bytes) (v : Value) (s : Source) :
    codec.read (config.strictly true) (.ofBytes bs) = .ok v s ↔
      codec.read (config.strictly false) (.ofBytes bs) = .ok v s :=
  (codec.reads (config.strictly true)).ok_iff (codec.reads (config.strictly false)) bs v s

theorem RecordLayout.readNew_strictly_ok (type : RecordType) (bs : Bytes) (v : Value) (s : Source) :
    type.readNew (config.strictly true) (.ofBytes bs) = .ok v s ↔
      type.readNew (config.strictly false) (.ofBytes bs) = .ok v s :=
  (type.reads_new (config.strictly true)).ok_iff (type.reads_new (config.strictly false)) bs v s

/-- With an encoding in which every byte string is a text, and operations that nothing hides,
reading fails for want of input only. -/
theorem Layout.isShortage_of_read (config : Config) {codec : Codec}
    (ht : config.encoding.isTotal = true)
    (hs : codec.shows Operation.ofReading = true) {bs : Bytes} {e : WireError} {s : Source}
    (h : codec.read config (.ofBytes bs) = .error e s) : e.IsShortage config.strict := by
  have hf := codec.read_fails config (F := fun _ => False) (by simp [hs]) (by simp [ht])
  exact (hf [] bs e s h).resolve_right fun ⟨hn, _⟩ => hn

theorem Layout.read_strictly_error {codec : Codec} (ht : config.encoding.isTotal = true)
    (hs : codec.shows Operation.ofReading = true) {bs : Bytes} {e : WireError} {s : Source}
    (h : codec.read (config.strictly true) (.ofBytes bs) = .error e s) :
    (e.HasClass .truncatedInput ∨ e.HasClass .malformedInput) ∧
      ∃ d t, codec.read (config.strictly false) (.ofBytes bs) = .error d t ∧
        d.HasClass .truncatedInput := by
  have he := WireError.hasClass_of_isShortage (isShortage_of_read (config.strictly true) ht hs h)
  refine ⟨he.imp_right And.right, ?_⟩
  cases hd : codec.read (config.strictly false) (.ofBytes bs) with
  | ok v t =>
    rw [(read_strictly_ok codec bs v t).2 hd] at h
    cases h
  | error d t =>
    have hd := isShortage_of_read (config.strictly false) ht hs hd
    have hd := WireError.hasClass_of_isShortage hd
    exact ⟨d, t, rfl, hd.resolve_right (by simp [Config.strictly])⟩

theorem RecordLayout.exists_of_readNew {type : RecordType} {bs : Bytes} {v : Value} {s : Source}
    (h : type.readNew config (.ofBytes bs) = .ok v s) :
    ∃ n ≤ bs.length, s = .buffer bs n := by
  rw [Source.ofBytes_eq_amid] at h
  obtain ⟨used, rest, rfl, rfl, -⟩ := (type.reads_new config).sound h
  exact ⟨used.length, by simp, rfl⟩

theorem RecordLayout.readWhole_lenient (type : RecordType) (bs : Bytes) :
    type.readWhole (config.strictly false) (.ofBytes bs) =
      type.readNew (config.strictly false) (.ofBytes bs) := by
  unfold readWhole
  cases h : type.readNew (config.strictly false) (.ofBytes bs) with
  | error e s => rw [Reader.bind_of_error h]
  | ok v s =>
    have he : Reader.ensureConsumed (config.strictly false) s = .ok () s := rfl
    rw [Reader.bind_of_ok h, Reader.bind_of_ok he]
    rfl

theorem RecordLayout.readWhole_strict {type : RecordType} {bs : Bytes} {v : Value} {n : Nat}
    (hn : n ≤ bs.length)
    (h : type.readNew (config.strictly true) (.ofBytes bs) = .ok v (.buffer bs n)) :
    type.readWhole (config.strictly true) (.ofBytes bs) =
      if n = bs.length then .ok v (.buffer bs n)
      else .error (.trailing (bs.length - n : Nat) n) (.buffer bs n) := by
  have he : Reader.ensureConsumed (config.strictly true) (.buffer bs n) =
      if n = bs.length then .ok () (.buffer bs n)
      else .error (.trailing (bs.length - n : Nat) n) (.buffer bs n) := by
    have hr : (bs.length : Int) - n = (bs.length - n : Nat) := by omega
    have hz : ((bs.length - n : Nat) : Int) = 0 ↔ n = bs.length := by omega
    simp only [Reader.ensureConsumed, Config.strictly, Source.remaining?, hr, hz, if_true]
    rfl
  unfold readWhole
  rw [Reader.bind_of_ok h]
  by_cases hl : n = bs.length
  · rw [if_pos hl] at he ⊢
    rw [Reader.bind_of_ok he]
    rfl
  · rw [if_neg hl] at he ⊢
    rw [Reader.bind_of_error he]

theorem RecordLayout.readWhole_strictly_ok (type : RecordType) (bs : Bytes) (v : Value)
    (s : Source) : type.readWhole (config.strictly true) (.ofBytes bs) = .ok v s ↔
      type.readWhole (config.strictly false) (.ofBytes bs) = .ok v s ∧
        s = .buffer bs bs.length := by
  rw [readWhole_lenient, ← readNew_strictly_ok]
  cases hr : type.readNew (config.strictly true) (.ofBytes bs) with
  | error e t =>
    unfold readWhole
    rw [Reader.bind_of_error hr]
    simp
  | ok w t =>
    obtain ⟨n, hn, rfl⟩ := exists_of_readNew hr
    rw [readWhole_strict hn hr]
    split
    · rename_i hl
      subst hl
      simp only [EStateM.Result.ok.injEq, iff_self_and, and_imp]
      exact fun _ h => h.symm
    · rename_i hl
      refine ⟨fun h => (by cases h), fun ⟨h, hs⟩ => ?_⟩
      cases h
      injection hs with _ hs
      omega

theorem RecordLayout.readWhole_leftover {type : RecordType} {bs : Bytes} {v : Value} {s : Source}
    (h : type.readWhole (config.strictly false) (.ofBytes bs) = .ok v s)
    (hs : s ≠ .buffer bs bs.length) :
    ∃ e t, type.readWhole (config.strictly true) (.ofBytes bs) = .error e t ∧
      e.HasClass .malformedInput := by
  rw [readWhole_lenient, ← readNew_strictly_ok] at h
  obtain ⟨n, hn, rfl⟩ := exists_of_readNew h
  have hl : n ≠ bs.length := fun hl => hs (by rw [hl])
  rw [readWhole_strict hn h, if_neg hl]
  exact ⟨_, _, rfl, _, _, _, rfl⟩

end

/-- Strict reading succeeds exactly where lenient reading does. Where it fails, lenient reading runs
out of input, unless the encoding has byte strings that are no text or a record type hides what
reading needs. A whole record is read strictly if nothing is left over. -/
theorem Layout.read_strictly (config : Config) (codec : Codec) (bs : Bytes) :
    (∀ v s, codec.read (config.strictly true) (.ofBytes bs) = .ok v s ↔
      codec.read (config.strictly false) (.ofBytes bs) = .ok v s) ∧
    (config.encoding.isTotal = true → codec.shows Operation.ofReading = true → ∀ e s,
      codec.read (config.strictly true) (.ofBytes bs) = .error e s →
        (e.HasClass .truncatedInput ∨ e.HasClass .malformedInput) ∧
          ∃ d t, codec.read (config.strictly false) (.ofBytes bs) = .error d t ∧
            d.HasClass .truncatedInput) ∧
    ∀ type : RecordType,
      (∀ v s, type.readWhole (config.strictly true) (.ofBytes bs) = .ok v s ↔
        type.readWhole (config.strictly false) (.ofBytes bs) = .ok v s ∧
          s = .buffer bs bs.length) ∧
      ∀ v s, type.readWhole (config.strictly false) (.ofBytes bs) = .ok v s →
        s ≠ .buffer bs bs.length →
          ∃ e t, type.readWhole (config.strictly true) (.ofBytes bs) = .error e t ∧
            e.HasClass .malformedInput := by
  refine ⟨read_strictly_ok codec bs, fun ht hs e s h => read_strictly_error ht hs h, fun type => ?_⟩
  exact ⟨type.readWhole_strictly_ok bs, fun v s h hs => RecordLayout.readWhole_leftover h hs⟩

theorem Layout.read_strictly_short :
    let config : Config := {}
    let codec : Codec := .list (.primitive (.int .uint8))
    let type : RecordType :=
      ⟨⟨0, "Item"⟩, "Item", "Item", [], [⟨"a", .primitive (.int .uint8), none⟩]⟩
    (∃ e s, codec.read (config.strictly true) (.ofBytes [2, 0, 0, 0, 7]) = .error e s ∧
      (e.HasClass .truncatedInput ∨ e.HasClass .malformedInput)) ∧
    (∃ d t, codec.read (config.strictly false) (.ofBytes [2, 0, 0, 0, 7]) = .error d t ∧
      d.HasClass .truncatedInput) ∧
    ∃ e t, type.readWhole (config.strictly true) (.ofBytes [2, 0, 0, 0, 7]) = .error e t ∧
      e.HasClass .malformedInput := by
  intro config codec type
  obtain ⟨-, hshort, hwhole⟩ := Layout.read_strictly config codec [2, 0, 0, 0, 7]
  obtain ⟨he, hd⟩ := hshort rfl (by decide) (.oversized .listCount 2 4 1) (.buffer _ 4) rfl
  refine ⟨⟨_, _, rfl, he⟩, hd, ?_⟩
  refine (hwhole type).2 (.newRecord type [.int 2]) (.buffer _ 1) rfl fun h => ?_
  injection h with _ h
  exact absurd h (by decide)

/-- A record type with a field that has the name of an operation: the size of the record is known,
but no such record can be read. -/
theorem Layout.read_strictly_hidden :
    let config : Config := {}
    let type : RecordType :=
      ⟨⟨0, "R"⟩, "R", "R", [], [⟨"read_data", .primitive (.int .uint8), none⟩]⟩
    let codec : Codec := .list (.record type)
    (∃ e s, codec.read (config.strictly true) (.ofBytes [5, 0, 0, 0]) = .error e s ∧
      e.HasClass .malformedInput) ∧
    ¬ ∃ d t, codec.read (config.strictly false) (.ofBytes [5, 0, 0, 0]) = .error d t ∧
      d.HasClass .truncatedInput := by
  intro config type codec
  refine ⟨⟨.oversized .listCount 5 4 0, .buffer _ 4, rfl, _, _, _, rfl⟩, ?_⟩
  rintro ⟨d, t, hd, message, hasCause, details, hr⟩
  have hf : codec.read (config.strictly false) (.ofBytes [5, 0, 0, 0]) =
    .error (.fault .unsupported) (.buffer [5, 0, 0, 0] 4) := rfl
  rw [hf] at hd
  cases hd
  cases hr

end RecordWire
