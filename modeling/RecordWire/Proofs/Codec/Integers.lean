import RecordWire.Proofs.Codec.Numbers
import RecordWire.Proofs.Codec.Refusal

/-!
Integers on the wire. The integers that a kind holds and the byte strings of its width stand for each
other in both directions. Every other integer is refused before anything is written, and a raw write
is handed only what fits it. The refusal is an invalid value if the integer can be put into words,
which takes too many digits for the largest integers.
-/

namespace RecordWire

open Source (amid)

namespace Primitive

/-- The integer is written as the bytes, also as a boolean that it equals, and the bytes are read as
the integer wherever they stand. -/
structure IsCode (config : Config) (kind : IntKind) (n : Int) (bs : Bytes) : Prop where
  held : kind.holds n = true
  width : bs.length = kind.width.bytes
  written : ∀ v : Value, v.toInt? = some n → (int kind).write config v = .chunk bs
  returned : ∀ before after, (int kind).read config (amid before (bs ++ after)) =
    .ok (.int n) (amid (before ++ bs) after)

variable {config : Config} {kind : IntKind} {n m : Int} {bs cs : Bytes} {v : Value}

theorem write_of_holds (hv : v.toInt? = some n) (hn : kind.holds n = true) :
    (int kind).write config v = .chunk (Output.intBytes config.byteOrder kind n) := by
  rw [write_int, hv]
  exact if_pos hn

theorem write_of_not_holds (hv : v.toInt? = some n) (hn : kind.holds n = false) :
    (int kind).write config v = .invalid (.outOfRange kind n) := by
  rw [write_int, hv]
  exact if_neg (by simp [hn])

theorem read_of_ofOctets (hl : bs.length = kind.width.bytes)
    (hn : kind.ofOctets (config.byteOrder.arrange bs) = n) (before after : Bytes) :
    (int kind).read config (amid before (bs ++ after)) = .ok (.int n) (amid (before ++ bs) after) := by
  have hspells : (int kind).Spells config.byteOrder config.encoding bs (.int n) :=
    ⟨hl, by rw [scalar?, hn]⟩
  exact ((int kind).reads config).complete hspells before after

theorem isCode_intBytes (hn : kind.holds n = true) :
    IsCode config kind n (Output.intBytes config.byteOrder kind n) where
  held := hn
  width := IntKind.length_intBytes _ _ _
  written _ hv := write_of_holds hv hn
  returned := read_of_ofOctets (IntKind.length_intBytes _ _ _) (IntKind.ofOctets_intBytes _ hn)

theorem isCode_ofOctets (hl : bs.length = kind.width.bytes) :
    IsCode config kind (kind.ofOctets (config.byteOrder.arrange bs)) bs where
  held := IntKind.holds_ofOctets ((ByteOrder.length_arrange _ _).trans hl)
  width := hl
  written v hv := by
    have hn := IntKind.holds_ofOctets ((ByteOrder.length_arrange config.byteOrder bs).trans hl)
    rw [write_of_holds hv hn, IntKind.intBytes_ofOctets _ hl]
  returned := read_of_ofOctets hl rfl

theorem IsCode.eq_iff (h : IsCode config kind n bs) (h' : IsCode config kind m cs) :
    n = m ↔ bs = cs := by
  constructor
  · rintro rfl
    have hw := (h.written (.int n) rfl).symm.trans (h'.written (.int n) rfl)
    simpa [Output.chunk] using hw
  · rintro rfl
    have hr := (h.returned [] []).symm.trans (h'.returned [] [])
    simpa using hr

theorem take_of_not_holds (hv : v.toInt? = some n) (hn : kind.holds n = false) (sink : Sink) :
    sink.take ((int kind).write config v) = (sink, some (.invalid (.outOfRange kind n))) := by
  rw [write_of_not_holds hv hn]
  rfl

theorem hasClass_outOfRange :
    (WireError.invalid (.outOfRange kind n)).HasClass .invalidValue ↔
      n.natAbs < 10 ^ Numeral.maxDigits := by
  rw [WireError.hasClass_invalid]
  simp only [InvalidValue.shownValues, List.mem_singleton, forall_eq, Value.isShowable,
    Atom.isShowable, decide_eq_true_eq]

theorem rawInt_of_holds {order : ByteOrder} (hv : v.toInt? = some n) (hn : kind.holds n = true) :
    Output.rawInt order kind v = .chunk (Output.intBytes order kind n) := by
  rw [Output.rawInt, hv]
  exact if_pos hn

theorem write_int_eq_rawInt (config : Config) (kind : IntKind) (v : Value) :
    (int kind).write config v =
      match v.toInt? with
      | none => .invalid (.notInteger kind v.kind)
      | some n =>
        if kind.holds n then Output.rawInt config.byteOrder kind v
        else .invalid (.outOfRange kind n) := by
  rw [write_int]
  cases hv : v.toInt? with
  | none => rfl
  | some n =>
    dsimp only
    split
    · rename_i hn
      rw [rawInt_of_holds hv hn]
    · rfl

theorem error_of_write_int {e : WireError} (h : ((int kind).write config v).error? = some e) :
    e = .invalid (.notInteger kind v.kind) ∨ ∃ n, e = .invalid (.outOfRange kind n) := by
  rw [write_int] at h
  split at h
  · cases h
    exact .inl rfl
  · rename_i n hv
    split at h
    · cases h
    · cases h
      exact .inr ⟨n, rfl⟩

/-- Writing and reading of a kind of integers are inverse to each other between the integers that the
kind holds and the byte strings of its width. Every other integer is refused, with nothing written: as
an invalid value if it has no more digits than can be shown, and else with the failure of showing it.
The raw write behind the two checks refuses nothing that they pass on. -/
theorem int_codes_bijective (config : Config) (kind : IntKind) :
    (∀ n, kind.holds n = true → ∃ bs, IsCode config kind n bs) ∧
    (∀ bs, bs.length = kind.width.bytes → ∃ n, IsCode config kind n bs) ∧
    (∀ n m bs cs, IsCode config kind n bs → IsCode config kind m cs → (n = m ↔ bs = cs)) ∧
    (∀ (v : Value) n, v.toInt? = some n → kind.holds n = false →
      (∀ sink : Sink, sink.take ((int kind).write config v) =
        (sink, some (.invalid (.outOfRange kind n)))) ∧
      ((WireError.invalid (.outOfRange kind n)).HasClass .invalidValue ↔
        n.natAbs < 10 ^ Numeral.maxDigits)) ∧
    ∀ v : Value,
      (int kind).write config v =
        (match v.toInt? with
        | none => .invalid (.notInteger kind v.kind)
        | some n =>
          if kind.holds n then Output.rawInt config.byteOrder kind v
          else .invalid (.outOfRange kind n)) ∧
      ∀ got format,
        ((int kind).write config v).error? ≠ some (.invalid (.unpackable got format)) := by
  refine ⟨fun n hn => ⟨_, isCode_intBytes hn⟩, fun bs hl => ⟨_, isCode_ofOctets hl⟩,
    fun n m bs cs h h' => h.eq_iff h', ?_, ?_⟩
  · intro v n hv hn
    exact ⟨take_of_not_holds hv hn, hasClass_outOfRange⟩
  · intro v
    refine ⟨write_int_eq_rawInt config kind v, fun got format he => ?_⟩
    rcases error_of_write_int he with h | ⟨n, h⟩ <;> cases h

theorem not_holds_uint8 {n : Nat} (hn : 2 ^ 8 ≤ n) : IntKind.uint8.holds n = false := by
  rw [Bool.eq_false_iff]
  intro h
  have hlt : (n : Int) < 2 ^ 8 := (IntKind.holds_unsigned.1 h).2
  omega

/-- The least integer that cannot be shown is refused as an octet, but not as an invalid value. -/
theorem int_codes_unshowable :
    ∃ n : Nat, n = 10 ^ Numeral.maxDigits ∧
      ((int .uint8).write {} (.int n)).error? = some (.invalid (.outOfRange .uint8 n)) ∧
      ¬ (WireError.invalid (.outOfRange .uint8 n)).HasClass .invalidValue := by
  obtain ⟨n, hn⟩ : ∃ n : Nat, n = 10 ^ Numeral.maxDigits := ⟨_, rfl⟩
  have hlarge : 2 ^ 8 ≤ n := by
    have hdigits : 3 ≤ Numeral.maxDigits := by decide
    rw [hn]
    exact Nat.le_trans (by decide) (Nat.pow_le_pow_right (by decide) hdigits)
  refine ⟨n, hn, congrArg Output.error? (write_of_not_holds rfl (not_holds_uint8 hlarge)), ?_⟩
  rw [hasClass_outOfRange, Int.natAbs_natCast, hn]
  exact Nat.lt_irrefl _

end Primitive

end RecordWire
