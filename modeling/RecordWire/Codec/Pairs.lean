import RecordWire.Codec.Collect
import RecordWire.Codec.Error
import RecordWire.Value.Parts

/-!
What a list or a map is written from. A list takes a list, a tuple or a changeable byte string; a map
takes a dictionary, or anything with parts that are pairs, in which a key may come twice.
-/

namespace RecordWire.Value

/-- The key and value of one part of the value that a map is given. -/
def pair (whole v : Value) : Except WireError (Value × Value) :=
  match v.parts? with
  | Option.none => .error (.invalid (.notPairs whole))
  | some parts =>
    if parts.length ≠ 2 then .error (.invalid (.notPair v))
    else match v.at? 0, v.at? 1 with
      | some (some a), some (some b) => .ok (a, b)
      | _, _ => .error (.fault .noEntry)

/-- The entries that a map is written from. -/
def pairs (v : Value) : Except WireError (List (Value × Value)) :=
  match v with
  | dict entries => .ok entries
  | atom (.text _) | atom (.bytes _) => .error (.invalid (.notMapping v))
  | _ =>
    match v.parts? with
    | Option.none => .error (.invalid (.notPairs v))
    | some parts => collect (parts.map (pair v))

def items (layout : Text) (v : Value) : Except WireError (List Value) :=
  match v with
  | dict _ | atom (.text _) | atom (.bytes _) =>
    .error (.invalid (.notList layout v.kind false))
  | _ =>
    match v.parts? with
    | Option.none => .error (.invalid (.notList layout v.kind true))
    | some parts => .ok parts

theorem depth_of_pair {whole v a b : Value} (h : pair whole v = .ok (a, b)) :
    a.depth ≤ v.depth - 1 ∧ b.depth ≤ v.depth - 1 := by
  unfold pair at h
  split at h
  · simp at h
  · split at h
    · simp at h
    · split at h
      · rename_i ha hb
        simp only [Except.ok.injEq, Prod.mk.injEq] at h
        obtain ⟨rfl, rfl⟩ := h
        exact ⟨depth_of_at ha, depth_of_at hb⟩
      · simp at h

theorem depth_of_mem_pairs {v : Value} {es : List (Value × Value)} {e : Value × Value}
    (h : v.pairs = .ok es) (he : e ∈ es) : e.1.depth ≤ v.depth ∧ e.2.depth ≤ v.depth := by
  unfold pairs at h
  split at h
  · cases h
    have := depth_le_entryDepths he
    simp only [depth]
    omega
  · cases h
  · cases h
  · split at h
    · cases h
    · rename_i hp
      obtain ⟨p, hp', hf⟩ := mem_of_collect h he
      have h1 := depth_of_mem_parts hp hp'
      have h2 := depth_of_pair hf
      omega

theorem depth_of_mem_items {layout : Text} {v p : Value} {ps : List Value}
    (h : v.items layout = .ok ps) (hp : p ∈ ps) : p.depth ≤ v.depth := by
  unfold items at h
  split at h
  · cases h
  · cases h
  · cases h
  · split at h
    · cases h
    · rename_i hv
      cases h
      have := depth_of_mem_parts hv hp
      omega

/-- What going through a value as if it had the fields of a type comes to: nothing if it has no parts,
and else a fault, since no part of a value is a field. -/
def asFields (v : Value) : Except Fault Unit :=
  match v.parts? with
  | Option.none => .error .unsupported
  | some [] => .ok ()
  | some (_ :: _) => .error .noMember

end RecordWire.Value

namespace RecordWire

/-- What going through the fields that a record has by its own account gives: what it gives for those of
its type, unless something else was set in the place of them. -/
def RecordHead.throughFields {α : Type} (head : RecordHead Value) (empty : α)
    (all : Except WireError α) : Except WireError α :=
  match head.others.lookup Operation.fieldsMember with
  | none => all
  | some v =>
    match v.asFields with
    | .ok () => .ok empty
    | .error why => .error (.fault why)

namespace RecordHead

variable {α : Type} {head : RecordHead Value} {empty : α} {all : Except WireError α} {v : Value}

theorem throughFields_of_none (h : head.others.lookup Operation.fieldsMember = none) :
    head.throughFields empty all = all := by
  rw [throughFields, h]

theorem throughFields_of_ok (h : head.others.lookup Operation.fieldsMember = some v)
    (hv : v.asFields = .ok ()) : head.throughFields empty all = .ok empty := by
  simp only [throughFields, h, hv]

theorem throughFields_of_error {why : Fault}
    (h : head.others.lookup Operation.fieldsMember = some v) (hv : v.asFields = .error why) :
    head.throughFields empty all = .error (.fault why) := by
  simp only [throughFields, h, hv]

end RecordHead

end RecordWire
