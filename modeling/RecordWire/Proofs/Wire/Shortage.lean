import RecordWire.Proofs.Text.Encoding
import RecordWire.Proofs.Wire.Decision
import RecordWire.Report.Basic

/-!
How reading fails. An error is either the news that the input is too short for what is being read,
or it stays the error of the input whatever is put behind it.
-/

namespace RecordWire

/-- The error is reported as one of a class. -/
def WireError.HasClass (e : WireError) (c : ErrorClass) : Prop :=
  ∃ message hasCause details, Report.ofWire e = .own c message hasCause details

theorem WireError.not_hasClass_fault {why : Fault} {c : ErrorClass} :
    ¬ (WireError.fault why).HasClass c := by
  rintro ⟨message, hasCause, details, h⟩
  cases h

/-- The error says that there is less input than is needed, which strict reading may find out from a
declared size already. -/
def WireError.IsShortage (strict : Bool) : WireError → Prop
  | .truncated .. => True
  | .oversized .. => strict = true
  | _ => False

theorem WireError.hasClass_of_isShortage {strict : Bool} {e : WireError} (h : e.IsShortage strict) :
    e.HasClass .truncatedInput ∨ strict = true ∧ e.HasClass .malformedInput := by
  cases e with
  | truncated => exact Or.inl ⟨_, _, _, rfl⟩
  | oversized => exact Or.inr ⟨h, _, _, _, rfl⟩
  | _ => exact h.elim

namespace Reader

open Source (amid)

variable {ε : Type} [TextEncoding ε] {α β : Type} {strict : Bool} {F : Bytes → WireError → Prop}

/-- A reader that fails in one of two ways: for want of input, or by an error of a kind, which may
depend on the input, that more input does not change. -/
def Fails (strict : Bool) (F : Bytes → WireError → Prop) (r : Reader α) : Prop :=
  ∀ before rest e s, r (amid before rest) = .error e s → e.IsShortage strict ∨
    F rest e ∧ ∀ more, ∃ t, r (amid before (rest ++ more)) = .error e t

/-- An error on an input is one of the same kind on the input with something in front. -/
def Persists (F : Bytes → WireError → Prop) : Prop := ∀ bs rest e, F rest e → F (bs ++ rest) e

theorem Fails.behind {r : Reader α} (h : r.Fails strict F) (hF : Persists F) (bs : Bytes) :
    r.Fails strict fun rest e => F (bs ++ rest) e :=
  fun before rest e s hr => (h before rest e s hr).imp_right (And.imp_left (hF bs rest e))

theorem fails_pure (x : α) : Fails strict F (pure x) := fun _ _ _ _ h => by cases h

theorem fails_throw {e : WireError} (h : ∀ rest, F rest e) :
    Fails strict F (throw e : Reader α) := by
  rintro before rest e s ⟨⟩
  exact Or.inr ⟨h rest, fun more => ⟨_, rfl⟩⟩

theorem Fails.bind {r : Reader α} {f : α → Reader β} {R : Bytes → α → Prop} (hr : r.Fails strict F)
    (hR : r.Reads R) (hf : ∀ bs x, R bs x → (f x).Fails strict fun rest e => F (bs ++ rest) e) :
    (r >>= f).Fails strict F := by
  intro before rest e s h
  cases hx : r (amid before rest) with
  | error d t =>
    rw [bind_of_error hx] at h
    cases h
    refine (hr _ _ _ _ hx).imp_right fun ⟨hF, hmore⟩ => ⟨hF, fun more => ?_⟩
    obtain ⟨t, ht⟩ := hmore more
    exact ⟨t, bind_of_error ht⟩
  | ok x t =>
    rw [bind_of_ok hx] at h
    obtain ⟨bs, after, rfl, rfl, hbs⟩ := hR.sound hx
    refine (hf bs x hbs _ _ _ _ h).imp_right fun ⟨hF, hmore⟩ => ⟨hF, fun more => ?_⟩
    obtain ⟨t, ht⟩ := hmore more
    refine ⟨t, ?_⟩
    rw [List.append_assoc, bind_of_ok (hR.complete hbs before (after ++ more)), ht]

theorem Fails.map {r : Reader α} {R : Bytes → α → Prop} (hr : r.Fails strict F) (hR : r.Reads R)
    (g : α → β) : Fails strict F (do return g (← r) : Reader β) :=
  hr.bind hR fun _ x _ => fails_pure (g x)

theorem Fails.pair {first : Reader α} {second : Reader β} {R : Bytes → α → Prop}
    {S : Bytes → β → Prop} (hf : first.Fails strict F) (hR : first.Reads R)
    (hs : second.Fails strict F) (hS : second.Reads S) (hF : Persists F) :
    (first.pair second).Fails strict F :=
  hf.bind hR fun bs x _ => (hs.behind hF bs).map hS fun y => (x, y)

theorem fails_bytes (n : Nat) : (bytes n).Fails strict F := by
  intro before rest e s h
  by_cases hn : rest.length < n
  · rw [bytes_amid_of_lt before hn] at h
    cases h
    exact Or.inl trivial
  · have ha := bytes_amid before (rest.take n) (rest.drop n)
    rw [List.take_append_drop, List.length_take_of_le (by omega), h] at ha
    cases ha

theorem fails_fixed (order : ByteOrder) (width : Nat) : (fixed order width).Fails strict F := by
  intro before rest e s h
  by_cases hn : rest.length < width
  · have ht : fixed order width (amid before rest) = _ :=
      bind_of_error (bytes_amid_of_lt before hn)
    rw [ht] at h
    cases h
    exact Or.inl trivial
  · have hl : (rest.take width).length = width := List.length_take_of_le (by omega)
    have ha := (reads_fixed order width).complete ⟨hl, rfl⟩ before (rest.drop width)
    rw [List.take_append_drop, h] at ha
    cases ha

theorem fails_ofFixed (order : ByteOrder) (width : Nat) (g : Bytes → α) :
    Fails strict F (do return g (← fixed order width) : Reader α) :=
  (fails_fixed order width).map (reads_fixed order width) g

theorem fails_unless {hidden : Bool} (h : hidden = true → ∀ rest, F rest (.fault .unsupported)) :
    (Reader.unless hidden).Fails strict F := by
  cases hidden with
  | false => exact fails_pure ()
  | true => exact fails_throw (h rfl)

theorem fails_items {item : Reader α} {R : Bytes → α → Prop} (h : item.Fails strict F)
    (hR : item.Reads R) (hF : Persists F) (n : Nat) : (readItems item n).Fails strict F := by
  induction n with
  | zero => exact fails_pure []
  | succ n ih => exact h.bind hR fun bs x _ => (ih.behind hF bs).map (reads_items hR n) (x :: ·)

theorem fails_int (order : ByteOrder) (kind : IntKind) : (int order kind).Fails strict F :=
  fails_ofFixed order kind.width.bytes kind.ofOctets

theorem fails_count (order : ByteOrder) : (count order).Fails strict F :=
  fails_ofFixed order Primitive.countSize Octets.toNat

theorem exists_oversized_of_checkFits {config : ConfigOf ε} {needed : Nat} {what : Declared}
    {s t : Source} {e : WireError} (h : checkFits config needed what s = .error e t) :
    config.strict = true ∧ ∃ offset remaining, e = .oversized what needed offset remaining := by
  unfold checkFits at h
  split at h
  · rename_i hs
    split at h
    · split at h
      · cases h
        exact ⟨hs, _, _, rfl⟩
      · cases h
    · cases h
  · cases h

theorem isShortage_of_checkFits {config : ConfigOf ε} {needed : Nat} {what : Declared} {s t : Source}
    {e : WireError} (h : checkFits config needed what s = .error e t) :
    e.IsShortage config.strict := by
  obtain ⟨hs, _, _, rfl⟩ := exists_oversized_of_checkFits h
  exact hs

theorem checkFits_append {config : ConfigOf ε} {needed : Nat} {what : Declared} {before rest : Bytes}
    {u : Unit} {t : Source} (h : checkFits config needed what (amid before rest) = .ok u t)
    (more : Bytes) : checkFits config needed what (amid before (rest ++ more)) =
      .ok () (amid before (rest ++ more)) := by
  by_cases hs : config.strict = true
  · simp only [checkFits, hs, if_true, Source.remaining?_amid] at h
    split at h
    · cases h
    · exact checkFits_amid_of_le config what before (by simp only [List.length_append]; omega)
  · simp only [checkFits, hs]
    rfl

theorem Fails.checkFits {config : ConfigOf ε} {r : Reader α} (hr : r.Fails config.strict F)
    (needed : Nat) (what : Declared) :
    Fails config.strict F (do Reader.checkFits config needed what; r) := by
  intro before rest e s h
  cases hc : Reader.checkFits config needed what (amid before rest) with
  | error d t =>
    rw [bind_of_error hc] at h
    cases h
    exact Or.inl (isShortage_of_checkFits hc)
  | ok u t =>
    obtain rfl := checkFits_source hc
    rw [bind_of_ok hc] at h
    refine (hr _ _ _ _ h).imp_right fun ⟨hF, hmore⟩ => ⟨hF, fun more => ?_⟩
    obtain ⟨t, ht⟩ := hmore more
    exact ⟨t, by rw [bind_of_ok (checkFits_append hc more), ht]⟩

end Reader

section

variable {ε : Type} [TextEncoding ε] (config : ConfigOf ε)

/-- A length, and behind it as many bytes, which the encoding does not decode. -/
def ConfigOf.NoText (bs : Bytes) (why : Fault) : Prop :=
  ∃ payload after, bs = config.byteOrder.countBytes payload.length ++ (payload ++ after) ∧
    TextEncoding.decode config.encoding payload = .error why

variable {F : Bytes → WireError → Prop}

theorem Primitive.read_fails (p : Primitive)
    (undecodable : ∀ rest why, config.NoText rest why → F rest (.fault why)) :
    (p.read config).Fails config.strict F := by
  cases p with
  | int kind => exact (Reader.fails_int _ kind).map (Reader.reads_int _ kind) Value.int
  | float =>
    exact (Reader.fails_ofFixed config.byteOrder 4 _).map (Reader.reads_single _) Value.float
  | double =>
    exact (Reader.fails_ofFixed config.byteOrder 8 _).map (Reader.reads_double _) Value.float
  | bool => exact (Reader.fails_ofFixed config.byteOrder 1 _).map (Reader.reads_bool _) Value.bool
  | char => exact (Reader.fails_int _ .uint8).map (Reader.reads_int _ .uint8) _
  | string =>
    refine (Reader.fails_count _).bind (Reader.reads_count _) fun _ length ⟨_, hc⟩ =>
      ((Reader.fails_bytes length).bind (Reader.reads_bytes length)
        fun _ payload ⟨hl, hp⟩ => ?_).checkFits _ _
    subst hc hp hl
    cases hd : TextEncoding.decode config.encoding payload with
    | ok t => exact Reader.fails_pure (Value.text t)
    | error why =>
      exact Reader.fails_throw fun after => undecodable _ why ⟨payload, after, rfl, hd⟩

theorem fails_fields {fields : List Field} (hF : Reader.Persists F)
    (h : ∀ f ∈ fields, (f.layout.read config).Fails config.strict F) :
    (readFields config fields).Fails config.strict F := by
  induction fields with
  | nil => exact Reader.fails_pure []
  | cons f fields ih =>
    obtain ⟨name, layout, default?⟩ := f
    have hr := reads_fields fun f (_ : f ∈ fields) => f.layout.reads config
    exact (h _ List.mem_cons_self).bind (layout.reads config) fun bs v _ =>
      ((ih fun g hg => h g (List.mem_cons_of_mem _ hg)).behind hF bs).map hr (v :: ·)

def Operation.ofReading : List Operation := [readData, fields, minEncodedSize] ++ ofMaking

theorem Operation.mem_ofReading_of_ofMaking :
    ∀ operation ∈ ofMaking, operation ∈ ofReading := by decide

/-- Reading with a layout fails for want of input, on an operation that a record type in the layout
hides, or on a length with no text behind it. -/
theorem Layout.read_fails_at {codec : Codec} (hF : Reader.Persists F)
    (hidden : codec.shows Operation.ofReading = false → ∀ rest, F rest (.fault .unsupported))
    (undecodable : ∀ rest why, config.NoText rest why → F rest (.fault why)) :
    (codec.read config).Fails config.strict F := by
  have unsized : ∀ layout : Codec,
      (layout.shows Operation.ofReading = false → ∀ rest, F rest (.fault .unsupported)) →
      (!layout.isSized) = true → ∀ rest, F rest (.fault .unsupported) := by
    intro layout h hs
    refine h (Bool.eq_false_iff.2 fun ht => ?_)
    rw [isSized_of_shows (by simp [Operation.ofReading]) ht] at hs
    cases hs
  induction codec using Layout.induct with
  | primitive p => exact p.read_fails config undecodable
  | rgb565 => exact (Reader.fails_int config.byteOrder .uint16).map (Reader.reads_int _ _) _
  | list element ih =>
    have he := element.reads config
    refine (Reader.fails_count _).bind (Reader.reads_count _) fun bs count _ => ?_
    refine Reader.Fails.behind ?_ hF bs
    refine (Reader.fails_unless (unsized element hidden)).bind (Reader.reads_unless _)
      fun cs _ _ => ?_
    refine Reader.Fails.behind ?_ hF cs
    exact ((Reader.fails_items (ih hidden) he hF count).map (Reader.reads_items he count)
      Value.list).checkFits _ _
  | map key value ih =>
    have hp := (key.reads config).pair (value.reads config)
    have hf := (key.read_fails config undecodable).pair (key.reads config) (ih hidden)
      (value.reads config) hF
    refine (Reader.fails_count _).bind (Reader.reads_count _) fun bs count _ => ?_
    refine Reader.Fails.behind ?_ hF bs
    refine (Reader.fails_unless (unsized value hidden)).bind (Reader.reads_unless _)
      fun cs _ _ => ?_
    refine Reader.Fails.behind ?_ hF cs
    rw [Reader.readEntries_eq, bind_assoc]
    exact ((Reader.fails_items hf hp hF count).map (Reader.reads_items hp count) fun pairs =>
      Value.dict (Value.ofPairs pairs)).checkFits _ _
  | record type ih =>
    have hides : ∀ operation ∈ Operation.ofReading, type.hides operation = true →
        ∀ rest, F rest (.fault .unsupported) := by
      intro operation ho hh
      refine hidden (Bool.eq_false_iff.2 fun ht => ?_)
      rw [(shows_record.1 ht).1 operation ho] at hh
      cases hh
    have hfields : ∀ f ∈ type.fields, (f.layout.read config).Fails config.strict F := by
      refine fun f hf => ih f hf fun hs => hidden (Bool.eq_false_iff.2 fun ht => ?_)
      rw [(shows_record.1 ht).2 f hf] at hs
      cases hs
    have hr := reads_fields fun f (_ : f ∈ type.fields) => f.layout.reads config
    have unfillable : (!type.isFillable) = true → ∀ rest, F rest (.fault .unsupported) := by
      intro hh
      refine hidden (Bool.eq_false_iff.2 fun ht => ?_)
      have hi : (Layout.record type).isInstantiable = true :=
        isInstantiable_of_shows Operation.mem_ofReading_of_ofMaking ht
      change type.isInstantiable = true at hi
      rw [RecordLayout.isFillable, hi, (shows_record.1 ht).1 .readData (by decide)] at hh
      cases hh
    refine (Reader.fails_unless unfillable).bind (Reader.reads_unless _) fun bs _ _ => ?_
    refine Reader.Fails.behind ?_ hF bs
    rw [RecordLayout.read_eq]
    refine (Reader.fails_unless (hides _ (by simp [Operation.ofReading]))).bind
      (Reader.reads_unless _) fun cs _ _ => ?_
    exact ((fails_fields config hF hfields).map hr _).behind hF cs

end

theorem Config.isTotal_of_noText {config : Config} {bs : Bytes} {why : Fault}
    (h : config.NoText bs why) : why = .undecodable ∧ config.encoding.isTotal = false := by
  obtain ⟨payload, _, -, hd⟩ := h
  obtain ⟨hwhy, hd⟩ := Encoding.decode_eq_error.1 hd
  refine ⟨hwhy, Bool.eq_false_iff.2 fun ht => ?_⟩
  have hs := Encoding.isSome_decode ht payload
  rw [hd] at hs
  cases hs

/-- Reading with a layout fails for want of input, on an operation that a record type in the layout
hides, or on bytes that are no text. -/
theorem Layout.read_fails (config : Config) {F : WireError → Prop} {codec : Codec}
    (hidden : codec.shows Operation.ofReading = false → F (.fault .unsupported))
    (undecodable : config.encoding.isTotal = false → F (.fault .undecodable)) :
    (codec.read config).Fails config.strict fun _ e => F e :=
  codec.read_fails_at config (fun _ _ _ h => h) (fun hs _ => hidden hs)
    fun _ _ hn => by
      obtain ⟨rfl, ht⟩ := Config.isTotal_of_noText hn
      exact undecodable ht

end RecordWire
