import RecordWire.Codec.Plain
import RecordWire.Proofs.Wire.Decision

/-!
Reading over a record that is there already. What the record held says nothing about how reading
goes, which is as for a new record of the type. It shows only where reading ends early: in the field
that was not read to its end, of which no part is put into the record, and in all fields after it.
-/

namespace RecordWire

section

variable {config : Config} {field : Field} {fields : List Field} {v : Value} {old : List Value}
  {source mid after : Source} {e : WireError}

theorem readFields_cons_of_ok (h : field.layout.read config source = .ok v mid) :
    readFields config (field :: fields) source =
      match readFields config fields mid with
      | .ok vs after => .ok (v :: vs) after
      | .error e after => .error e after := by
  cases field
  rw [readFields, Reader.bind_of_ok h]
  cases hvs : readFields config fields mid with
  | ok vs after => rw [Reader.bind_of_ok hvs]; rfl
  | error e after => rw [Reader.bind_of_error hvs]

theorem readFields_cons_of_error (h : field.layout.read config source = .error e after) :
    readFields config (field :: fields) source = .error e after := by
  cases field
  exact Reader.bind_of_error h

theorem overwriteFields_of_ok {fresh : List Value} (hl : old.length = fields.length)
    (h : readFields config fields source = .ok fresh after) :
    overwriteFields config fields old source = (fresh, none, after) := by
  induction fields generalizing old source fresh with
  | nil =>
    obtain rfl := List.eq_nil_of_length_eq_zero hl
    cases h
    rfl
  | cons field fields ih =>
    obtain ⟨w, old, rfl⟩ := List.exists_cons_of_length_eq_add_one hl
    cases hv : field.layout.read config source with
    | error e mid => cases (readFields_cons_of_error hv).symm.trans h
    | ok v mid =>
      rw [readFields_cons_of_ok hv] at h
      cases hvs : readFields config fields mid with
      | error e last => rw [hvs] at h; cases h
      | ok vs last =>
        rw [hvs] at h
        cases h
        rw [overwriteFields, hv]
        simp only [ih (Nat.succ.inj hl) hvs]

/-- Fields that cannot all be read hold what was read up to the first that fails; from that one on
they hold what they held. -/
theorem exists_overwriteFields_of_error (hl : old.length = fields.length)
    (h : readFields config fields source = .error e after) :
    ∃ k field fresh mid, fields[k]? = some field ∧ fresh.length = k ∧
      readFields config (fields.take k) source = .ok fresh mid ∧
      field.layout.read config mid = .error e after ∧
      overwriteFields config fields old source = (fresh ++ old.drop k, some e, after) := by
  induction fields generalizing old source with
  | nil => cases h
  | cons field fields ih =>
    obtain ⟨w, old, rfl⟩ := List.exists_cons_of_length_eq_add_one hl
    cases hv : field.layout.read config source with
    | error e' mid =>
      rw [readFields_cons_of_error hv] at h
      cases h
      refine ⟨0, field, [], source, rfl, rfl, rfl, hv, ?_⟩
      rw [overwriteFields, hv]
      rfl
    | ok v mid =>
      rw [readFields_cons_of_ok hv] at h
      cases hvs : readFields config fields mid with
      | ok vs last => rw [hvs] at h; cases h
      | error e' last =>
        rw [hvs] at h
        cases h
        obtain ⟨k, g, fresh, s, hk, hn, hs, hg, ho⟩ := ih (Nat.succ.inj hl) hvs
        refine ⟨k + 1, g, v :: fresh, s, hk, congrArg Nat.succ hn, ?_, hg, ?_⟩
        · rw [List.take_succ_cons, readFields_cons_of_ok hv, hs]
        · rw [overwriteFields, hv]
          simp only [ho, List.drop_succ_cons, List.cons_append]

end

section

variable {head : RecordHead Value} {old : List Value}

theorem RecordLayout.read_of_hides {type : RecordType} (h : type.hides .fields = true)
    (config : Config) (source : Source) :
    type.read config source = .error (.fault .unsupported) source := by
  rw [read_eq, h]
  rfl

theorem RecordLayout.read_of_not_hides {type : RecordType} (h : type.hides .fields = false)
    (config : Config) (source : Source) :
    type.read config source =
      match readFields config type.fields source with
      | .ok fresh after => .ok (.newRecord type fresh) after
      | .error e after => .error e after := by
  have hfields : Reader.unless false source = .ok () source := rfl
  rw [read_eq, h, Reader.bind_of_ok hfields]
  cases hvs : readFields config type.fields source with
  | ok fresh after => rw [Reader.bind_of_ok hvs]; rfl
  | error e after => rw [Reader.bind_of_error hvs]

theorem RecordHead.overwrite_of_hides (h : head.hides .fields = true) (config : Config)
    (old : List Value) (source : Source) :
    head.overwrite config old source = (old, some (.fault .unsupported), source) :=
  if_pos h

theorem RecordHead.hides_of_others (h : ∀ p ∈ head.others, p.1 ≠ Operation.fields.name) :
    head.hides .fields = head.type.hides .fields := by
  have hn : (head.others.any fun p => p.1 == Operation.fields.name) = false := by
    simpa using h
  rw [RecordHead.hides, hn, Bool.or_false]

/-- What reading over a record comes to, by what reading a new record of its type from the same
source comes to. -/
def Overwritten (config : Config) (type : RecordType) (old : List Value) (source : Source) :
    EStateM.Result WireError Source Value → List Value × Option WireError × Source → Prop
  | .ok record after, (values, error?, last) =>
    record = .newRecord type values ∧ error? = none ∧ last = after
  | .error e after, (values, error?, last) =>
    error? = some e ∧ last = after ∧
      if type.hides .fields then values = old
      else ∃ k field fresh mid, type.fields[k]? = some field ∧ fresh.length = k ∧
        readFields config (type.fields.take k) source = .ok fresh mid ∧
        field.layout.read config mid = .error e after ∧
        values = fresh ++ old.drop k

theorem RecordHead.overwritten (config : Config) (head : RecordHead Value) (source : Source)
    (hl : old.length = head.type.fields.length)
    (ho : ∀ p ∈ head.others, p.1 ≠ Operation.fields.name) :
    Overwritten config head.type old source (head.type.read config source)
      (head.overwrite config old source) := by
  cases hf : head.type.hides .fields with
  | true =>
    rw [overwrite_of_hides ((hides_of_others ho).trans hf), RecordLayout.read_of_hides hf]
    exact ⟨rfl, rfl, (if_pos hf).mpr rfl⟩
  | false =>
    rw [RecordHead.overwrite, hides_of_others ho, hf, if_neg Bool.false_ne_true,
      RecordLayout.read_of_not_hides hf]
    cases hr : readFields config head.type.fields source with
    | ok fresh after =>
      rw [overwriteFields_of_ok hl hr]
      exact ⟨rfl, rfl, rfl⟩
    | error e after =>
      obtain ⟨k, field, fresh, mid, hk, hn, hfresh, he, hover⟩ :=
        exists_overwriteFields_of_error hl hr
      rw [hover]
      refine ⟨rfl, rfl, ?_⟩
      rw [hf, if_neg Bool.false_ne_true]
      exact ⟨k, field, fresh, mid, hk, hn, hfresh, he, rfl⟩

theorem Overwritten.outcome_unique {config : Config} {type : RecordType} {old old' : List Value}
    {source : Source} {result : EStateM.Result WireError Source Value}
    {state state' : List Value × Option WireError × Source}
    (h : Overwritten config type old source result state)
    (h' : Overwritten config type old' source result state') : state.2 = state'.2 := by
  cases result with
  | ok record after => exact Prod.ext (h.2.1.trans h'.2.1.symm) (h.2.2.trans h'.2.2.symm)
  | error e after => exact Prod.ext (h.1.trans h'.1.symm) (h.2.1.trans h'.2.1.symm)

end

/-- Reading over a record has the outcome of reading over a new one with the defaults in its fields,
and leaves the source where that leaves it. What the record held is gone, or else is still in all
fields from the one on that could not be read. -/
theorem RecordHead.overwrite_as_new (config : Config) (head : RecordHead Value) (old : List Value)
    (source : Source) (hl : old.length = head.type.fields.length)
    (ho : ∀ p ∈ head.others, p.1 ≠ Operation.fields.name) :
    let type := head.type
    let filled := head.overwrite config old source
    let made := overwrite config { type := type } (defaults type.fields) source
    filled.2 = made.2 ∧
      Overwritten config type old source (type.read config source) filled ∧
      Overwritten config type (defaults type.fields) source (type.read config source) made := by
  intro type filled made
  have hover := overwritten config head source hl ho
  have hmade : Overwritten config type (defaults type.fields) source (type.read config source)
      made :=
    overwritten config { type := type } source (by rw [defaults_eq_map, List.length_map])
      fun _ hp => absurd hp List.not_mem_nil
  exact ⟨hover.outcome_unique hmade, hover, hmade⟩

/-- The input ends in the list of the second field, which keeps the list that it had. -/
theorem RecordHead.overwrite_as_new_in_list :
    let a : Field := ⟨"a", .primitive (.int .uint8), none⟩
    let b : Field := ⟨"b", .list (.primitive (.int .uint8)), none⟩
    let type : RecordType := ⟨⟨0, "R"⟩, "R", "R", [], [a, b]⟩
    let head : RecordHead Value := { type := type, others := [("note", .int 3)] }
    let old : List Value := [.int 1, .list [.int 5]]
    let source := Source.ofBytes [7, 2, 0, 0, 0, 9]
    (old.length = head.type.fields.length ∧ ∀ p ∈ head.others, p.1 ≠ Operation.fields.name) ∧
      head.overwrite {} old source = ([.int 7, .list [.int 5]],
        some (.truncated 1 6 0 false), .buffer [7, 2, 0, 0, 0, 9] 6) ∧
      (head.overwrite {} old source).2 =
        (overwrite {} { type := type } (defaults type.fields) source).2 := by
  intro a b type head old source
  have ho : ∀ p ∈ head.others, p.1 ≠ Operation.fields.name := by decide
  exact ⟨⟨rfl, ho⟩, rfl, (overwrite_as_new {} head old source rfl ho).1⟩

/-- Where something else that was set on a record has the name of the operation that lists the
fields, nothing is read over the record, though a new one can be read. -/
theorem RecordHead.overwrite_displaced :
    let type : RecordType :=
      ⟨⟨0, "R"⟩, "R", "R", [], [⟨"a", .primitive (.int .uint8), none⟩]⟩
    let head : RecordHead Value := { type := type, others := [("fields", .int 5)] }
    let source := Source.ofBytes [7]
    head.overwrite {} [.int 0] source = ([.int 0], some (.fault .unsupported), source) ∧
      overwrite {} { type := type } (defaults type.fields) source =
        ([.int 7], none, .buffer [7] 1) := by
  exact ⟨rfl, rfl⟩

end RecordWire
