import RecordWire.Codec.Plain
import RecordWire.Proofs.Codec.Scalar
import RecordWire.Proofs.Codec.Refusal
import RecordWire.Proofs.Number.Narrowing

/-!
Numbers of single precision fields. Plain data is narrowed to single precision, and what is narrowed is
what can be written and is read again. A number of double precision is written only if narrowing leaves
it as it is.
-/

namespace RecordWire.Primitive

open Source (amid)

variable {config : Config} {x y : Binary64} {object : Nat} {bits : UInt32}

theorem fromPlain_float (hx : x.isNaN = false) : float.fromPlain (.atom (.float x object)) =
    match x.narrow? with
    | some y => .ok (.float y)
    | none => .error (.invalid (.tooLargeForSingle (.float x))) :=
  if_neg (Bool.eq_false_iff.1 hx)

theorem fromPlain_float_iff (hx : x.isNaN = false) :
    float.fromPlain (.atom (.float x object)) = .ok (.float y) ↔
      ∃ bits, x.toSingle? = some bits ∧ Binary64.ofSingle bits = y := by
  rw [fromPlain_float hx, Binary64.narrow?]
  cases x.toSingle? with
  | none => simp
  | some bits => simp [Value.float]

theorem fromPlain_ofSingle (hn : (Binary64.ofSingle bits).isNaN = false) :
    float.fromPlain (.float (.ofSingle bits)) = .ok (.float (.ofSingle bits)) :=
  (fromPlain_float_iff hn).2 ⟨bits, Binary64.toSingle?_ofSingle hn, rfl⟩

theorem writes_ofSingle (hn : (Binary64.ofSingle bits).isNaN = false) :
    (float.write config (.float (.ofSingle bits))).Writes (Output.singleBytes config.byteOrder bits) :=
  (writes_float config _ 0).2
    ⟨bits, Binary64.toSingle?_ofSingle hn, .inr (Binary64.equal_self hn), rfl⟩

theorem exists_writes_float_iff (hx : x.isNaN = false) :
    (∃ bs, (float.write config (.atom (.float x object))).Writes bs) ↔
      ∃ y, float.fromPlain (.atom (.float x object)) = .ok (.float y) ∧ x.equal y = true := by
  simp only [writes_float, fromPlain_float_iff hx, hx, Bool.false_eq_true, false_or]
  constructor
  · rintro ⟨_, bits, hbits, hequal, -⟩
    exact ⟨_, ⟨bits, hbits, rfl⟩, hequal⟩
  · rintro ⟨_, ⟨bits, hbits, rfl⟩, hequal⟩
    exact ⟨_, bits, hbits, hequal, rfl⟩

/-- Narrowing projects the numbers onto those that can be written. A finite number that rounds beyond the
largest of single precision is refused as an invalid value. Every other number but NaN becomes the one
of single precision nearest to it; that one stays as it is, is written, and is read from what was
written, wherever it stands. A number is written exactly if it equals what it becomes. -/
theorem float_narrows (config : Config) (x : Binary64) (object : Nat) (hx : x.isNaN = false) :
    let v : Value := .atom (.float x object)
    (x.RoundsBeyondSingle → ∃ e, float.fromPlain v = .error e ∧ e.HasClass .invalidValue) ∧
    (¬ x.RoundsBeyondSingle → ∃ y, float.fromPlain v = .ok (.float y) ∧ x.RoundsToSingle y ∧
      float.fromPlain (.float y) = .ok (.float y) ∧
      ∃ bs, bs.length = 4 ∧ (float.write config (.float y)).Writes bs ∧
        ∀ before after, float.read config (amid before (bs ++ after)) =
          .ok (.float y) (amid (before ++ bs) after)) ∧
    ((∃ bs, (float.write config v).Writes bs) ↔
      ∃ y, float.fromPlain v = .ok (.float y) ∧ x.equal y = true) := by
  refine ⟨fun hbeyond => ?_, fun hbeyond => ?_, exists_writes_float_iff hx⟩
  · refine ⟨.invalid (.tooLargeForSingle (.float x)), ?_, ?_⟩
    · rw [fromPlain_float hx, Binary64.narrow?, Binary64.toSingle?_of_roundsBeyond hbeyond]
      rfl
    · rw [WireError.hasClass_invalid]
      simp [InvalidValue.shownValues, Value.float, Value.isShowable, Atom.isShowable]
  · obtain ⟨bits, hbits, hrounds, hn⟩ := Binary64.exists_roundsToSingle hx hbeyond
    refine ⟨_, (fromPlain_float_iff hx).2 ⟨bits, hbits, rfl⟩, hrounds, fromPlain_ofSingle hn,
      _, Output.length_singleBytes _ _, writes_ofSingle hn, ?_⟩
    exact (float.reads config).complete (spells_single config bits)

/-- A negative number in the middle between the two least magnitudes. -/
theorem float_narrows_tie :
    let x : Binary64 := ⟨0xB6A8000000000000⟩
    let y : Binary64 := ⟨0xB6B0000000000000⟩
    x.isNaN = false ∧ ¬ x.RoundsBeyondSingle ∧ float.fromPlain (.float x) = .ok (.float y) ∧
      x.RoundsToSingle y ∧ ¬ ∃ bs, (float.write {} (.float x)).Writes bs := by
  intro x y
  have hx : x.isNaN = false := by decide +kernel
  have hbeyond : ¬ x.RoundsBeyondSingle := by
    rw [Binary64.roundsBeyondSingle_iff]
    decide +kernel
  have hplain : float.fromPlain (.float x) = .ok (.float y) := by
    rw [Value.float, fromPlain_float hx, show x.narrow? = some y by decide +kernel]
  obtain ⟨-, hsome, hwrites⟩ := float_narrows {} x 0 hx
  obtain ⟨z, hz, hrounds, -⟩ := hsome hbeyond
  obtain rfl : y = z := by simpa [Value.float] using hplain.symm.trans hz
  refine ⟨hx, hbeyond, hplain, hrounds, fun hw => ?_⟩
  obtain ⟨w, hw, hequal⟩ := hwrites.1 hw
  obtain rfl : y = w := by simpa [Value.float] using hplain.symm.trans hw
  exact absurd hequal (by decide +kernel)

end RecordWire.Primitive
