import RecordWire.Proofs.Wire.Strict

/-!
Reading from streams. A stream may return its bytes in portions of any size; put together they are
what a buffer with the same bytes holds. So a reader on a stream follows the same reader on a buffer
step by step, and both end alike. Where a stream does not know its end, strict reading has nothing to
compare a declared size with, and is lenient.
-/

namespace RecordWire

open Source (amid)

namespace ByteStream

def advance (s : ByteStream) (n : Nat) : ByteStream := { s with pos := s.pos + n }

theorem advance_zero (s : ByteStream) : s.advance 0 = s := rfl

theorem advance_advance (s : ByteStream) (m n : Nat) :
    (s.advance m).advance n = s.advance (m + n) := by
  simp only [advance, Nat.add_assoc]

/-- The stream has some bytes left, and returns at least one of them when it is asked for any. -/
structure Supplies (s : ByteStream) (bs : Bytes) : Prop where
  pos_le : s.pos ≤ s.data.length
  left : s.data.drop s.pos = bs
  grant_pos : ∀ pos asked, 0 < asked → 0 < s.grant pos asked

variable {s : ByteStream} {bs : Bytes}

theorem Supplies.length_eq (h : s.Supplies bs) : s.data.length - s.pos = bs.length := by
  rw [← h.left, List.length_drop]

theorem Supplies.advance (h : s.Supplies bs) {n : Nat} (hn : n ≤ bs.length) :
    (s.advance n).Supplies (bs.drop n) where
  pos_le := by
    have := h.length_eq
    have := h.pos_le
    simp only [ByteStream.advance]
    omega
  left := by
    rw [← h.left, List.drop_drop]
    rfl
  grant_pos := h.grant_pos

/-- A single read returns a beginning of the bytes that are left, which is empty only if nothing is
left. -/
theorem Supplies.read_eq (h : s.Supplies bs) {asked : Nat} (ha : 0 < asked) :
    ∃ n ≤ min asked bs.length, (bs ≠ [] → 0 < n) ∧ s.read asked = (bs.take n, s.advance n) := by
  have hg := h.grant_pos s.pos asked ha
  refine ⟨min (min asked (s.grant s.pos asked)) bs.length, by omega, fun hne => ?_, ?_⟩
  · have := List.length_pos_iff.2 hne
    omega
  · simp only [read, h.left, List.length_take, ← List.take_eq_take_min]
    rfl

theorem Supplies.gather_eq (h : s.Supplies bs) {fuel missing : Nat}
    (hf : min missing bs.length < fuel) :
    s.gather fuel missing = (bs.take missing, s.advance (min missing bs.length)) := by
  induction fuel generalizing s bs missing with
  | zero => omega
  | succ fuel ih =>
    unfold gather
    by_cases hm : missing = 0
    · subst hm
      simp [advance_zero]
    · obtain ⟨n, hn, hpos, hr⟩ := h.read_eq (Nat.pos_of_ne_zero hm)
      rw [if_neg hm, hr]
      by_cases hb : bs = []
      · subst hb
        obtain rfl : n = 0 := by simpa using hn
        simp
      · have hn' := hpos hb
        have hl : (bs.take n).length = n := List.length_take_of_le (by omega)
        have hne : (bs.take n).isEmpty = false := by
          rw [List.isEmpty_eq_false_iff, ← List.length_pos_iff, hl]
          exact hn'
        have hfuel : min (missing - n) (bs.drop n).length < fuel := by
          rw [List.length_drop]
          omega
        have hrest := ih (h.advance (by omega)) hfuel
        have htake : bs.take n ++ (bs.drop n).take (missing - n) = bs.take missing := by
          rw [← List.take_add, Nat.add_sub_cancel' (by omega)]
        have hadvance : n + min (missing - n) (bs.length - n) = min missing bs.length := by omega
        simp only [hne, hl, hrest, htake, advance_advance, List.length_drop, hadvance,
          Bool.false_eq_true, if_false]

theorem Supplies.readUpTo_eq (h : s.Supplies bs) (n : Nat) :
    s.readUpTo n = (bs.take n, s.advance (min n bs.length)) := by
  unfold readUpTo
  rw [h.length_eq]
  exact h.gather_eq (Nat.lt_succ_self _)

end ByteStream

def Source.along (s : ByteStream) (n : Nat) : Source := .stream (s.advance n) n

/-- The error as it is when the bytes come from a stream, whose end is told as such. -/
def WireError.streamed : WireError → WireError
  | truncated needed offset available _ => truncated needed offset available true
  | e => e

namespace Reader

variable {α β : Type} {s : ByteStream} {bs : Bytes}

/-- A reader on a stream does what another one does on a buffer: it reads the same, as far, or fails
with the same error. -/
structure Follows (s : ByteStream) (bs : Bytes) (streamed buffered : Reader α) : Prop where
  ok : ∀ {before rest x t}, bs = before ++ rest → buffered (amid before rest) = .ok x t →
    ∃ used after, rest = used ++ after ∧ t = amid (before ++ used) after ∧
      streamed (.along s before.length) = .ok x (.along s (before ++ used).length)
  error : ∀ {before rest e t}, bs = before ++ rest → buffered (amid before rest) = .error e t →
    ∃ u, streamed (.along s before.length) = .error e.streamed u

theorem follows_pure (x : α) : Follows s bs (pure x) (pure x) where
  ok := by
    rintro before rest y t - ⟨⟩
    exact ⟨[], rest, by simp⟩
  error := by
    rintro before rest e t - ⟨⟩

theorem follows_throw {e : WireError} (he : e.streamed = e) :
    Follows s bs (throw e : Reader α) (throw e) where
  ok := by
    rintro before rest y t - ⟨⟩
  error := by
    rintro before rest d t - ⟨⟩
    exact ⟨_, by rw [he]; rfl⟩

theorem Follows.bind {r r' : Reader α} {f f' : α → Reader β} (hr : r'.Follows s bs r)
    (hf : ∀ x, (f' x).Follows s bs (f x)) : (r' >>= f').Follows s bs (r >>= f) where
  ok := by
    intro before rest y t hbs h
    cases hx : r (amid before rest) with
    | error e u => rw [bind_of_error hx] at h; cases h
    | ok x u =>
      rw [bind_of_ok hx] at h
      obtain ⟨used, mid, rfl, rfl, hr'⟩ := hr.ok hbs hx
      obtain ⟨used', after, rfl, rfl, hf'⟩ := (hf x).ok (by simpa using hbs) h
      refine ⟨used ++ used', after, by simp, by simp, ?_⟩
      rw [bind_of_ok hr', hf', List.append_assoc]
  error := by
    intro before rest e t hbs h
    cases hx : r (amid before rest) with
    | error d u =>
      rw [bind_of_error hx] at h
      cases h
      obtain ⟨u, hu⟩ := hr.error hbs hx
      exact ⟨u, bind_of_error hu⟩
    | ok x u =>
      rw [bind_of_ok hx] at h
      obtain ⟨used, mid, rfl, rfl, hr'⟩ := hr.ok hbs hx
      obtain ⟨u, hu⟩ := (hf x).error (by simpa using hbs) h
      exact ⟨u, by rw [bind_of_ok hr', hu]⟩

theorem Follows.map {r r' : Reader α} (hr : r'.Follows s bs r) (g : α → β) :
    Follows s bs (do return g (← r') : Reader β) (do return g (← r)) :=
  hr.bind fun x => follows_pure (g x)

theorem supplies_along (h : s.Supplies bs) {before rest : Bytes} (hbs : bs = before ++ rest) :
    (s.advance before.length).Supplies rest := by
  have ha := h.advance (n := before.length) (by simp [hbs])
  rwa [hbs, List.drop_left] at ha

theorem bytes_along (h : s.Supplies bs) (n : Nat) {before rest : Bytes}
    (hbs : bs = before ++ rest) :
    bytes n (.along s before.length) =
      if rest.length < n then
        .error (.truncated n before.length rest.length true) (.along s bs.length)
      else .ok (rest.take n) (.along s (before ++ rest.take n).length) := by
  have hu := (supplies_along h hbs).readUpTo_eq n
  simp only [Source.along, bytes, Int.toNat_natCast, hu, ByteStream.advance_advance]
  by_cases hn : rest.length < n
  · have hlt : ((rest.take n).length : Int) < n := by
      rw [List.length_take]
      omega
    rw [if_pos hlt, if_pos hn, hbs, List.length_append, List.take_of_length_le (by omega),
      Nat.min_eq_right (by omega)]
  · have hge : ¬ ((rest.take n).length : Int) < n := by
      rw [List.length_take]
      omega
    rw [if_neg hge, if_neg hn, List.length_append, List.length_take]

theorem follows_bytes (h : s.Supplies bs) (n : Nat) : Follows s bs (bytes n) (bytes n) where
  ok := by
    intro before rest x t hbs hr
    obtain ⟨used, after, rfl, rfl, hl, rfl⟩ := (reads_bytes n).sound hr
    refine ⟨x, after, rfl, rfl, ?_⟩
    have hn : ¬ (x ++ after).length < n := by
      rw [List.length_append]
      omega
    rw [bytes_along h n hbs, if_neg hn, List.take_left' hl]
  error := by
    intro before rest e t hbs hr
    by_cases hn : rest.length < n
    · rw [bytes_amid_of_lt before hn] at hr
      cases hr
      exact ⟨_, by rw [bytes_along h n hbs, if_pos hn]; rfl⟩
    · have ha := bytes_amid before (rest.take n) (rest.drop n)
      rw [List.take_append_drop, List.length_take_of_le (by omega), hr] at ha
      cases ha

theorem follows_fixed (h : s.Supplies bs) (order : ByteOrder) (width : Nat) :
    Follows s bs (fixed order width) (fixed order width) := by
  refine (follows_bytes h width).bind fun octets => ?_
  split
  · exact follows_pure _
  · exact follows_throw rfl

theorem follows_ofFixed (h : s.Supplies bs) (order : ByteOrder) (width : Nat) (g : Bytes → α) :
    Follows s bs (do return g (← fixed order width) : Reader α)
      (do return g (← fixed order width)) :=
  (follows_fixed h order width).map g

theorem follows_int (h : s.Supplies bs) (order : ByteOrder) (kind : IntKind) :
    Follows s bs (int order kind) (int order kind) :=
  follows_ofFixed h order kind.width.bytes kind.ofOctets

theorem follows_count (h : s.Supplies bs) (order : ByteOrder) :
    Follows s bs (count order) (count order) :=
  follows_ofFixed h order Primitive.countSize Octets.toNat

theorem follows_unless (hidden : Bool) :
    Follows s bs (Reader.unless hidden) (Reader.unless hidden) := by
  cases hidden with
  | false => exact follows_pure ()
  | true => exact follows_throw rfl

theorem follows_items {item item' : Reader α} (h : item'.Follows s bs item) (n : Nat) :
    (readItems item' n).Follows s bs (readItems item n) := by
  induction n with
  | zero => exact follows_pure []
  | succ n ih => exact h.bind fun x => ih.map (x :: ·)

theorem follows_entries {key key' value value' : Reader Value} (hk : key'.Follows s bs key)
    (hv : value'.Follows s bs value) (n : Nat) (entries : List (Value × Value)) :
    (readEntries key' value' n entries).Follows s bs (readEntries key value n entries) := by
  induction n generalizing entries with
  | zero => exact follows_pure entries
  | succ n ih => exact hk.bind fun k => hv.bind fun v => ih (Value.assign k v entries)

end Reader

/-- The configuration for a buffer under which it is read as a stream is: strictness has no effect on
a stream that does not know its end. -/
def Config.knowing (config : Config) (s : ByteStream) : Config :=
  config.strictly (config.strict && s.seekable)

section

variable {config : Config} {s : ByteStream} {bs : Bytes}

theorem Reader.follows_checkFits (h : s.Supplies bs) (needed : Nat) (what : Declared) :
    Follows s bs (checkFits config needed what) (checkFits (config.knowing s) needed what) := by
  have heq : ∀ {before rest}, bs = before ++ rest →
      checkFits config needed what (.along s before.length) =
        match checkFits (config.knowing s) needed what (amid before rest) with
        | .ok u _ => .ok u (.along s before.length)
        | .error e _ => .error e (.along s before.length) := by
    intro before rest hbs
    have hs := supplies_along h hbs
    have hr : (Source.along s before.length).remaining? =
        if s.seekable then some (rest.length : Int) else none := by
      have hl := hs.length_eq
      have hp := hs.pos_le
      have hi : ((s.advance before.length).data.length : Int) - (s.advance before.length).pos =
          rest.length := by omega
      simp only [Source.along, Source.remaining?, ByteStream.remaining?, hi]
      rfl
    have hpos : (Source.along s before.length).position = (amid before rest).position := rfl
    simp only [checkFits, Config.knowing, Config.strictly, hr, hpos, Source.remaining?_amid]
    cases config.strict with
    | false => simp
    | true =>
      cases s.seekable with
      | false => simp
      | true =>
        simp only [↓reduceIte, Int.ofNat_lt, Bool.and_self]
        split <;> rfl
  constructor
  · intro before rest x t hbs hc
    obtain rfl := checkFits_source hc
    exact ⟨[], rest, rfl, by simp, by rw [heq hbs, hc, List.append_nil]⟩
  · intro before rest e t hbs hc
    refine ⟨.along s before.length, ?_⟩
    obtain ⟨-, _, _, rfl⟩ := exists_oversized_of_checkFits hc
    rw [heq hbs, hc]
    rfl

theorem Primitive.read_follows (h : s.Supplies bs) (p : Primitive) :
    (p.read config).Follows s bs (p.read (config.knowing s)) := by
  cases p with
  | int kind => exact (Reader.follows_int h _ kind).map Value.int
  | float => exact (Reader.follows_ofFixed h _ 4 _).map Value.float
  | double => exact (Reader.follows_ofFixed h _ 8 _).map Value.float
  | bool => exact (Reader.follows_ofFixed h _ 1 _).map Value.bool
  | char => exact (Reader.follows_int h _ .uint8).map _
  | string =>
    refine (Reader.follows_count h _).bind fun length =>
      (Reader.follows_checkFits h length .stringLength).bind fun _ =>
        (Reader.follows_bytes h length).bind fun payload => ?_
    dsimp only [Config.knowing, Config.strictly]
    cases TextEncoding.decode config.encoding payload with
    | ok t => exact Reader.follows_pure (Value.text t)
    | error why => exact Reader.follows_throw rfl

theorem follows_fields {fields : List Field} (h : ∀ f ∈ fields,
    (f.layout.read config).Follows s bs (f.layout.read (config.knowing s))) :
    (readFields config fields).Follows s bs (readFields (config.knowing s) fields) := by
  induction fields with
  | nil => exact Reader.follows_pure []
  | cons f fields ih =>
    obtain ⟨name, layout, default?⟩ := f
    exact (h _ List.mem_cons_self).bind fun v =>
      (ih fun g hg => h g (List.mem_cons_of_mem _ hg)).map (v :: ·)

theorem RecordLayout.read_follows {type : RecordType} (h : ∀ f ∈ type.fields,
    (f.layout.read config).Follows s bs (f.layout.read (config.knowing s))) :
    (type.read config).Follows s bs (type.read (config.knowing s)) := by
  rw [read_eq, read_eq]
  exact (Reader.follows_unless _).bind fun _ => (follows_fields h).map _

/-- Reading with a layout from a stream follows reading with it from a buffer. -/
theorem Layout.read_follows (h : s.Supplies bs) (codec : Codec) :
    (codec.read config).Follows s bs (codec.read (config.knowing s)) := by
  induction codec using Layout.induct with
  | primitive p => exact p.read_follows h
  | rgb565 => exact (Reader.follows_int h config.byteOrder .uint16).map _
  | list element ih =>
    exact (Reader.follows_count h _).bind fun count => (Reader.follows_unless _).bind fun _ =>
      (Reader.follows_checkFits h _ _).bind fun _ => (Reader.follows_items ih count).map Value.list
  | map key value ih =>
    exact (Reader.follows_count h _).bind fun count => (Reader.follows_unless _).bind fun _ =>
      (Reader.follows_checkFits h _ _).bind fun _ =>
        (Reader.follows_entries (key.read_follows h) ih count []).map Value.dict
  | record type ih =>
    exact (Reader.follows_unless _).bind fun _ => RecordLayout.read_follows ih

end

/-- How reading a value from a buffer and from a stream with the same bytes end alike. A value is read
in the same number of bytes from both; errors are the same, up to the wording for input that ends. -/
inductive EndsAlike (strict hidden : Bool) (s : ByteStream) (bs : Bytes) :
    EStateM.Result WireError Source Value → EStateM.Result WireError Source Value → Prop
  | value {v : Value} {n : Nat} (hn : n ≤ bs.length) :
    EndsAlike strict hidden s bs (.ok v (.buffer bs n)) (.ok v (.stream (s.advance n) n))
  | truncated {needed offset available : Int} {a b : Bool} {t u : Source} :
    EndsAlike strict hidden s bs (.error (.truncated needed offset available a) t)
      (.error (.truncated needed offset available b) u)
  | oversized (hs : strict = true) {what : Declared} {needed offset remaining : Int}
    {t u : Source} :
    EndsAlike strict hidden s bs (.error (.oversized what needed offset remaining) t)
      (.error (.oversized what needed offset remaining) u)
  | undecodable {t u : Source} :
    EndsAlike strict hidden s bs (.error (.fault .undecodable) t) (.error (.fault .undecodable) u)
  /-- A record type hides an operation that reading needs. -/
  | hidden (hh : hidden = true) {t u : Source} :
    EndsAlike strict hidden s bs (.error (.fault .unsupported) t) (.error (.fault .unsupported) u)

theorem Layout.endsAlike {s : ByteStream} {bs : Bytes} (h : s.Supplies bs) (config : Config)
    (codec : Codec) :
    EndsAlike (config.knowing s).strict (!codec.shows Operation.ofReading) s bs
      (codec.read (config.knowing s) (.ofBytes bs)) (codec.read config (.ofStream s)) := by
  have hfollows : (codec.read config).Follows s bs (codec.read (config.knowing s)) :=
    codec.read_follows h
  have hbs : bs = [] ++ bs := rfl
  cases hr : codec.read (config.knowing s) (.ofBytes bs) with
  | ok v t =>
    obtain ⟨used, after, rfl, rfl, hs⟩ := hfollows.ok hbs hr
    change codec.read config (.ofStream s) = _ at hs
    rw [hs]
    exact .value (by simp)
  | error e t =>
    obtain ⟨u, hu⟩ := hfollows.error hbs hr
    change codec.read config (.ofStream s) = _ at hu
    rw [hu]
    have hfails := codec.read_fails (config.knowing s)
      (F := fun e => e = .fault .undecodable ∨
        codec.shows Operation.ofReading = false ∧ e = .fault .unsupported)
      (fun hh => .inr ⟨hh, rfl⟩) (fun _ => .inl rfl)
    rcases hfails [] bs e t hr with hshort | ⟨rfl | ⟨hh, rfl⟩, -⟩
    · cases e with
      | truncated => exact .truncated
      | oversized => exact .oversized hshort
      | _ => exact hshort.elim
    · exact .undecodable
    · exact .hidden (by rw [hh]; rfl)

/-- A buffer and a stream with the same bytes end alike, in whatever portions the stream returns them.
In strict mode the stream has to know its end; one that does not is read as the buffer is leniently. -/
theorem Layout.read_stream (config : Config) (codec : Codec) (bs : Bytes) (s : ByteStream)
    (h : s.Supplies bs) :
    let hidden := !codec.shows Operation.ofReading
    (config.strict = false → EndsAlike false hidden s bs (codec.read config (.ofBytes bs))
      (codec.read config (.ofStream s))) ∧
    (config.strict = true → s.seekable = true → EndsAlike true hidden s bs
      (codec.read config (.ofBytes bs)) (codec.read config (.ofStream s))) ∧
    (config.strict = true → s.seekable = false → EndsAlike false hidden s bs
      (codec.read (config.strictly false) (.ofBytes bs)) (codec.read config (.ofStream s))) := by
  have ha := endsAlike h config codec
  have hself : config.strictly config.strict = config := rfl
  refine ⟨fun hs => ?_, fun hs hk => ?_, fun hs hk => ?_⟩
  · have hknowing : config.knowing s = config := by
      rw [Config.knowing, hs, Bool.false_and, ← hs, hself]
    rwa [hknowing, hs] at ha
  · have hknowing : config.knowing s = config := by
      rw [Config.knowing, hk, Bool.and_true, hself]
    rwa [hknowing, hs] at ha
  · have hknowing : config.knowing s = config.strictly false := by
      rw [Config.knowing, hk, Bool.and_false]
    rwa [hknowing] at ha

/-- A pipe that returns one byte or two at a time, read in strict mode. -/
theorem Layout.read_stream_pipe :
    let config : Config := { strict := true }
    let codec : Codec := .list (.primitive .string)
    let bs : Bytes := [2, 0, 0, 0, 1, 0, 0, 0, 0x41, 9, 0, 0, 0, 0x42]
    let s : ByteStream :=
      { data := bs, pos := 0, grant := fun pos _ => pos % 2 + 1, seekable := false }
    s.Supplies bs ∧ config.strict = true ∧ s.seekable = false ∧
    EndsAlike false false s bs (codec.read (config.strictly false) (.ofBytes bs))
      (codec.read config (.ofStream s)) := by
  intro config codec bs s
  have h : s.Supplies bs := ⟨Nat.zero_le _, rfl, fun _ _ _ => Nat.succ_pos _⟩
  exact ⟨h, rfl, rfl, (Layout.read_stream config codec bs s h).2.2 rfl rfl⟩

/-- A record type with a field that has the name of an operation: reading a record fails as soon as
the operation is needed, on a buffer as on a stream. -/
theorem Layout.read_stream_hidden :
    let config : Config := {}
    let type : RecordType :=
      ⟨⟨0, "R"⟩, "R", "R", [], [⟨"read_data", .primitive (.int .uint8), none⟩]⟩
    let bs : Bytes := [5]
    let s : ByteStream := { data := bs, pos := 0 }
    config.strict = false ∧ s.Supplies bs ∧
    ¬ EndsAlike false false s bs ((Layout.record type).read config (.ofBytes bs))
      ((Layout.record type).read config (.ofStream s)) := by
  intro config type bs s
  refine ⟨rfl, ⟨Nat.zero_le _, rfl, fun _ _ ha => ha⟩, fun h => ?_⟩
  have hf : (Layout.record type).read config (.ofBytes bs) =
    .error (.fault .unsupported) (.buffer bs 0) := rfl
  rw [hf] at h
  cases h with
  | hidden hh => cases hh

end RecordWire
