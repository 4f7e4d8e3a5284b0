import RecordWire.Proofs.Codec.Scalar
import RecordWire.Proofs.Number.Whole
import RecordWire.Proofs.Value.Order
import RecordWire.Proofs.Wire.Decision

/-!
Numbers that a scalar accepts, and what is read of them. Integer kinds and single precision accept
only what they keep. In double precision an integer is rounded, and of a number a boolean keeps no
more than whether it is zero.
-/

namespace RecordWire.Primitive

/-- Whether a number that is accepted is read as an equal one. -/
def Keeps : Primitive → Value → Prop
  | double, .atom (.int n) => BinaryFormat.binary64.Holds n
  | bool, v => v.toInt? = some 0 ∨ v.toInt? = some 1
  | _, _ => True

variable {config : Config} {v : Value} {n : Int} {x : Binary64} {object : Nat} {bs : Bytes}

theorem write_int (config : Config) (kind : IntKind) (v : Value) : (int kind).write config v =
    match v.toInt? with
    | none => .invalid (.notInteger kind v.kind)
    | some n =>
      if kind.holds n then .chunk (Output.intBytes config.byteOrder kind n)
      else .invalid (.outOfRange kind n) := rfl

theorem write_bool (config : Config) (v : Value) : bool.write config v =
    match v.toInt? with
    | none => .invalid (.notBool v.kind)
    | some n => .chunk [if n = 0 then 0 else 1] := rfl

theorem write_float_int (hn : Binary64.ofInt? n = some x) : float.write config (.int n) =
    Output.exactSingle config.byteOrder (.int n) x fun y => y.equalInt n := by
  generalize hp : float = p, hv : Value.int n = v
  fun_cases write config p v with
  | case4 => cases hv
  | case5 m hm =>
    cases hv
    cases hn.symm.trans hm
  | case6 m y hm =>
    cases hv
    cases hn.symm.trans hm
    rfl
  | case7 v hne hne' => exact (hne' n hv.symm).elim
  | _ => cases hp

theorem writes_int_iff {kind : IntKind} : ((int kind).write config v).Writes bs ↔
    ∃ n, v.toInt? = some n ∧ kind.holds n = true ∧
      bs = Output.intBytes config.byteOrder kind n := by
  rw [write_int]
  split
  · rename_i h
    simp [h]
  · rename_i n h
    split
    · rename_i hn
      simp [h, hn]
    · rename_i hn
      simp [h, hn]

theorem writes_bool_iff : (bool.write config v).Writes bs ↔
    ∃ n, v.toInt? = some n ∧ bs = [if n = 0 then 0 else 1] := by
  rw [write_bool]
  split
  · rename_i h
    simp [h]
  · rename_i n h
    simp [h]

theorem writes_float_int : (float.write config (.int n)).Writes bs ↔
    ∃ x bits, Binary64.ofInt? n = some x ∧ x.toSingle? = some bits ∧
      (Binary64.ofSingle bits).equalInt n = true ∧
      bs = Output.singleBytes config.byteOrder bits := by
  cases hn : Binary64.ofInt? n with
  | none => simp [write_float_of_large hn]
  | some x =>
    simp [write_float_int hn, Output.writes_exactSingle, Binary64.isNaN_of_ofInt? hn]

theorem writes_double_int : (double.write config (.int n)).Writes bs ↔
    ∃ x, Binary64.ofInt? n = some x ∧ bs = Output.doubleBytes config.byteOrder x := by
  rw [show double.write config (.int n) = Output.rawDouble config.byteOrder (.int n) from rfl,
    Output.rawDouble, Output.nearestDouble?_of_toInt? rfl]
  split
  · rename_i h
    simp [h]
  · rename_i x h
    simp [h]

/-- The bytes spell a value that is equal to the number exactly if the number is kept. -/
def ReturnsNumber (config : Config) (p : Primitive) (bs : Bytes) (v : Value) : Prop :=
  ∃ w, p.Spells config.byteOrder config.encoding bs w ∧ (v.equal w = true ↔ p.Keeps v)

theorem returnsNumber_int {kind : IntKind} (hw : ((int kind).write config v).Writes bs) :
    (int kind).ReturnsNumber config bs v := by
  obtain ⟨n, hv, hn, rfl⟩ := writes_int_iff.1 hw
  refine ⟨.int n, ⟨IntKind.length_intBytes _ _ _, ?_⟩, iff_of_true ?_ trivial⟩
  · rw [scalar?, IntKind.ofOctets_intBytes _ hn]
  · cases v with
    | atom a =>
      rw [Value.equal, Atom.equal_of_toInt hv rfl]
      exact beq_self_eq_true n
    | list | tuple | dict | record => cases hv

theorem equal_int_float (n : Int) (x : Binary64) :
    (Value.int n).equal (.float x) = x.equalInt n := by
  rw [Value.equal, Atom.equal_of_toInt_float rfl]

theorem equal_float (x y : Binary64) (object : Nat) :
    (Value.atom (.float x object)).equal (.float y) = x.equal y := by
  rw [Value.equal]
  rfl

theorem returnsNumber_float (hv : v.IsNumber) (hw : (float.write config v).Writes bs) :
    float.ReturnsNumber config bs v := by
  rcases hv with @⟨a, n, ha⟩ | @⟨x, object, hx⟩
  · cases a with
    | bool b => exact (Output.not_writes_invalid hw).elim
    | int m =>
      obtain ⟨x, bits, -, -, hsame, rfl⟩ := writes_float_int.1 hw
      refine ⟨_, spells_single config bits, iff_of_true ?_ trivial⟩
      rw [equal_int_float, hsame]
    | _ => cases ha
  · obtain ⟨y, hspells, hxy, -⟩ := exists_returns_float hw
    rcases hxy with rfl | ⟨hnan, -⟩
    · refine ⟨_, hspells, iff_of_true ?_ trivial⟩
      rw [equal_float, Binary64.equal_self hx]
    · rw [hx] at hnan
      cases hnan

theorem returnsNumber_double (hv : v.IsNumber) (hw : (double.write config v).Writes bs) :
    double.ReturnsNumber config bs v := by
  rcases hv with @⟨a, n, ha⟩ | @⟨x, object, hx⟩
  · cases a with
    | bool b => exact (Output.not_writes_invalid hw).elim
    | int m =>
      obtain ⟨x, hx, rfl⟩ := writes_double_int.1 hw
      refine ⟨_, spells_double config x, ?_⟩
      rw [equal_int_float]
      exact Binary64.equalInt_ofInt? hx
    | _ => cases ha
  · obtain rfl := (writes_double config x object).1 hw
    refine ⟨_, spells_double config x, iff_of_true ?_ trivial⟩
    rw [equal_float, Binary64.equal_self hx]

theorem returnsNumber_bool (hw : (bool.write config v).Writes bs) :
    bool.ReturnsNumber config bs v := by
  obtain ⟨n, hv, rfl⟩ := writes_bool_iff.1 hw
  refine ⟨.bool (n ≠ 0), ⟨rfl, ?_⟩, ?_⟩
  · rw [ByteOrder.arrange_singleton]
    by_cases hn : n = 0 <;> simp [hn, scalar?, Octets.toNat]
  · cases v with
    | atom a =>
      have hb : (Atom.bool (decide (n ≠ 0))).toInt? = some (if n = 0 then 0 else 1) := by
        by_cases hn : n = 0 <;> simp [hn, Atom.toInt?]
      change a.toInt? = some n at hv
      simp only [Value.equal, Atom.equal_of_toInt hv hb, Keeps, Value.toInt?, hv, beq_iff_eq,
        Option.some.injEq]
      split <;> omega
    | list | tuple | dict | record => cases hv

theorem returnsNumber {p : Primitive} (hv : v.IsNumber) (hw : (p.write config v).Writes bs) :
    p.ReturnsNumber config bs v := by
  cases p with
  | int kind => exact returnsNumber_int hw
  | float => exact returnsNumber_float hv hw
  | double => exact returnsNumber_double hv hw
  | bool => exact returnsNumber_bool hw
  | char =>
    rcases hv with @⟨a, n, ha⟩ | _
    · cases a <;> cases ha <;> exact (Output.not_writes_invalid hw).elim
    · exact (Output.not_writes_invalid hw).elim
  | string =>
    rcases hv with @⟨a, n, ha⟩ | _
    · cases a <;> cases ha <;> exact (Output.not_writes_fail hw).elim
    · exact (Output.not_writes_fail hw).elim

/-- A number that an empty stream takes as a scalar is read from it again, whatever follows, as an
equal value, except for integers in double precision of which bits are rounded away, and for
integers other than zero and one as booleans. -/
theorem read_write_number (config : Config) (p : Primitive) (v : Value) (bs : Bytes)
    (hv : v.IsNumber) (hw : ({} : Sink).take (p.write config v) = ({ written := bs }, none))
    (more : Bytes) :
    ∃ w, p.read config (.ofBytes (bs ++ more)) = .ok w (.buffer (bs ++ more) bs.length) ∧
      (v.equal w = true ↔ p.Keeps v) := by
  obtain ⟨w, hspells, hequal⟩ := returnsNumber hv hw
  exact ⟨w, (p.reads config).complete hspells [] more, hequal⟩

/-- An even integer of 54 bits in double precision. -/
theorem read_write_number_even :
    let config : Config := { byteOrder := .big }
    let v : Value := .int (-(2 ^ 53 + 2))
    let bs : Bytes := [0xC3, 0x40, 0, 0, 0, 0, 0, 1]
    v.IsNumber ∧ ({} : Sink).take (double.write config v) = ({ written := bs }, none) ∧
    double.Keeps v ∧
    ∀ more, ∃ w, double.read config (.ofBytes (bs ++ more)) =
        .ok w (.buffer (bs ++ more) bs.length) ∧
      (v.equal w = true ↔ double.Keeps v) := by
  intro config v bs
  have hv : v.IsNumber := .int rfl
  have hx : Binary64.ofInt? (-(2 ^ 53 + 2)) = some ⟨0xC340000000000001⟩ := by decide +kernel
  have hw : (double.write config v).Writes bs := writes_double_int.2 ⟨_, hx, by decide⟩
  have hkeeps : BinaryFormat.binary64.Holds (-(2 ^ 53 + 2)) := by decide +kernel
  exact ⟨hv, hw, hkeeps, read_write_number config double v bs hv hw⟩

/-- An odd integer of 54 bits in double precision and an integer that is neither zero nor one as a
boolean are taken, but not read again. -/
theorem read_write_number_lost :
    let config : Config := {}
    let v : Value := .int (2 ^ 53 + 1)
    let bs : Bytes := [0, 0, 0, 0, 0, 0, 0x40, 0x43]
    let w : Value := .float ⟨0x4340000000000000⟩
    (v.IsNumber ∧ ({} : Sink).take (double.write config v) = ({ written := bs }, none) ∧
      double.read config (.ofBytes bs) = .ok w (.buffer bs 8) ∧ v.equal w = false) ∧
    ((Value.int 2).IsNumber ∧
      ({} : Sink).take (bool.write config (.int 2)) = ({ written := [1] }, none) ∧
      bool.read config (.ofBytes [1]) = .ok (.bool true) (.buffer [1] 1) ∧
      (Value.int 2).equal (.bool true) = false) := by
  intro config v bs w
  have hx : Binary64.ofInt? (2 ^ 53 + 1) = some ⟨0x4340000000000000⟩ := by decide +kernel
  have hw : (double.write config v).Writes bs := writes_double_int.2 ⟨_, hx, by decide⟩
  have hne : v.equal w = false := by
    rw [equal_int_float]
    decide +kernel
  exact ⟨⟨.int rfl, hw, rfl, hne⟩, .int rfl, rfl, rfl, by cbv⟩

end RecordWire.Primitive
