import RecordWire.Proofs.Wire.Stream

/-!
Errors of lenient reading. Without strictness no declared size is refused, so an input that is too
short is found out only where it ends. Other errors have two causes: a length in the input with no
text behind it, which takes an encoding that does not keep all bytes, and a record type that hides an
operation of reading.
-/

namespace RecordWire

namespace Encoding

/-- Where decoding UTF-16 gives up: at a single byte that is left, or at a unit that is half a pair only,
if the first byte is below 128 and so cannot be escaped. -/
inductive Refused (bigEndian : Bool) : Bytes → Prop
  | byte {a : UInt8} (ha : a < 0x80) : Refused bigEndian [a]
  | low {a b : UInt8} {r : Bytes} (ha : a < 0x80) (hu : isLowUnit (unit bigEndian a b) = true) :
    Refused bigEndian (a :: b :: r)
  | high {a b : UInt8} {r : Bytes} (ha : a < 0x80) (hu : isHighUnit (unit bigEndian a b) = true)
    (hr : ∀ c d s, r = c :: d :: s → isLowUnit (unit bigEndian c d) = false) :
    Refused bigEndian (a :: b :: r)

variable {bigEndian : Bool}

/-- A unit that is half a pair only is refused, or else what is behind one or both of its bytes. -/
theorem exists_refused_of_lone {a b : UInt8} {r : Bytes}
    (h : (if a < 0x80 then none
      else if b < 0x80 then (decodeUtf16 bigEndian (b :: r)).map (escape a :: ·)
      else (decodeUtf16 bigEndian r).map fun t => escape a :: escape b :: t) = none)
    (lone : a < 0x80 → Refused bigEndian (a :: b :: r))
    (ih : decodeUtf16 bigEndian (b :: r) = none → ∃ rest, rest <:+ b :: r ∧ Refused bigEndian rest)
    (ih' : decodeUtf16 bigEndian r = none → ∃ rest, rest <:+ r ∧ Refused bigEndian rest) :
    ∃ rest, rest <:+ a :: b :: r ∧ Refused bigEndian rest := by
  split at h
  · rename_i ha
    exact ⟨_, List.suffix_rfl, lone ha⟩
  · split at h
    · obtain ⟨rest, hs, hr⟩ := ih (Option.map_eq_none_iff.1 h)
      exact ⟨rest, hs.trans (List.suffix_cons a _), hr⟩
    · obtain ⟨rest, hs, hr⟩ := ih' (Option.map_eq_none_iff.1 h)
      exact ⟨rest, hs.trans (List.suffix_append [a, b] r), hr⟩

theorem exists_refused_of_decodeUtf16 {bs : Bytes} (h : decodeUtf16 bigEndian bs = none) :
    ∃ rest, rest <:+ bs ∧ Refused bigEndian rest := by
  fun_induction decodeUtf16 bigEndian bs with
  | case1 => cases h
  | case2 a ha => exact ⟨_, List.suffix_rfl, .byte ha⟩
  | case3 => cases h
  | case4 a b u hu c d s v hv ih ih' ih'' =>
    obtain ⟨rest, hs, hr⟩ := ih'' (Option.map_eq_none_iff.1 h)
    exact ⟨rest, hs.trans (List.suffix_append [a, b, c, d] s), hr⟩
  | case5 a b u hu c d s v hv lone ih ih' =>
    refine exists_refused_of_lone h (fun ha => .high ha hu ?_) ih ih'
    rintro _ _ _ ⟨⟩
    exact Bool.eq_false_iff.2 hv
  | case6 a b r u lone hu hr ih ih' =>
    exact exists_refused_of_lone h (fun ha => .high ha hu fun c d s he => (hr c d s he).elim) ih ih'
  | case7 a b r u lone hu hl ih ih' =>
    exact exists_refused_of_lone h (fun ha => .low ha hl) ih ih'
  | case8 a b r u hu hl ih ih' =>
    obtain ⟨rest, hs, hr⟩ := ih' (Option.map_eq_none_iff.1 h)
    exact ⟨rest, hs.trans (List.suffix_append [a, b] r), hr⟩

/-- The encoding is UTF-16, and somewhere in the bytes decoding gives up. -/
def GivesUp (encoding : Encoding) (bs : Bytes) : Prop :=
  (encoding = utf16le ∧ ∃ rest, rest <:+ bs ∧ Refused false rest) ∨
    encoding = utf16be ∧ ∃ rest, rest <:+ bs ∧ Refused true rest

theorem givesUp_of_decode {encoding : Encoding} {bs : Bytes} (h : encoding.decode bs = none) :
    encoding.GivesUp bs := by
  cases encoding with
  | utf8 | latin1 | ascii => cases h
  | utf16le => exact .inl ⟨rfl, exists_refused_of_decodeUtf16 h⟩
  | utf16be => exact .inr ⟨rfl, exists_refused_of_decodeUtf16 h⟩

end Encoding

/-- Somewhere in the bytes there is a length with as many bytes behind it that are no text. -/
def Config.HasNoText (config : Config) (bs : Bytes) : Prop :=
  ∃ skipped payload after,
    bs = skipped ++ (config.byteOrder.countBytes payload.length ++ (payload ++ after)) ∧
      config.encoding.decode payload = none ∧ config.encoding.GivesUp payload

section

variable {ε : Type} [TextEncoding ε] (config : ConfigOf ε) (codec : Codec) {bs : Bytes}

/-- Somewhere in the bytes there is a length with as many bytes behind it that are not decoded. -/
def ConfigOf.Undecoded (bs : Bytes) (why : Fault) : Prop :=
  ∃ skipped rest, bs = skipped ++ rest ∧ config.NoText rest why

/-- Reading with the layout has failed for another reason than that the input ends. -/
def Layout.Mishap (bs : Bytes) (e : WireError) : Prop :=
  (∃ why, e = .fault why ∧ config.Undecoded bs why) ∨
    e = .fault .unsupported ∧ codec.shows Operation.ofReading = false

theorem Layout.persists_mishap : Reader.Persists (codec.Mishap config) := by
  intro bs rest e h
  refine h.imp_left fun ⟨why, he, skipped, more, hr, hn⟩ => ⟨why, he, bs ++ skipped, more, ?_, hn⟩
  rw [hr, List.append_assoc]

theorem Layout.read_fails_mishap :
    (codec.read config).Fails config.strict (codec.Mishap config) :=
  codec.read_fails_at config (persists_mishap config codec) (fun hs _ => .inr ⟨rfl, hs⟩)
    fun rest why hn => .inl ⟨why, rfl, [], rest, rfl, hn⟩

theorem Layout.streamed_of_mishap {config : ConfigOf ε} {codec : Codec} {e : WireError}
    (h : codec.Mishap config bs e) : e.streamed = e := by
  obtain ⟨why, rfl, -⟩ | ⟨rfl, -⟩ := h <;> rfl

end

theorem Config.hasNoText_of_undecoded {config : Config} {bs : Bytes} {why : Fault}
    (h : config.Undecoded bs why) : why = .undecodable ∧ config.HasNoText bs := by
  obtain ⟨skipped, _, rfl, payload, after, rfl, hd⟩ := h
  obtain ⟨hwhy, hd⟩ := Encoding.decode_eq_error.1 hd
  exact ⟨hwhy, skipped, payload, after, rfl, hd, Encoding.givesUp_of_decode hd⟩

theorem Layout.fault_of_mishap {config : Config} {codec : Codec} {bs : Bytes} {e : WireError}
    (h : codec.Mishap config bs e) : e = .fault .undecodable ∧ config.HasNoText bs ∨
      e = .fault .unsupported ∧ codec.shows Operation.ofReading = false := by
  refine h.imp_left fun ⟨why, he, hu⟩ => ?_
  obtain ⟨rfl, hn⟩ := Config.hasNoText_of_undecoded hu
  exact ⟨he, hn⟩

/-- A source that is a buffer with the bytes, or a stream that has them left. -/
inductive Source.Provides (bs : Bytes) : Source → Prop
  | buffer : Provides bs (.ofBytes bs)
  | stream {s : ByteStream} (h : s.Supplies bs) : Provides bs (.ofStream s)

/-- A lenient reader fails with the news that the input is too short, or else on a length in the input
with bytes behind it in which UTF-16 gives up, or on an operation that a record type hides. -/
theorem Layout.read_leniently (config : Config) (codec : Codec) (bs : Bytes) (source t : Source)
    (e : WireError) (hs : config.strict = false) (hp : source.Provides bs)
    (h : codec.read config source = .error e t) :
    e.HasClass .truncatedInput ∨
      e = .fault .undecodable ∧ config.HasNoText bs ∨
      e = .fault .unsupported ∧ codec.shows Operation.ofReading = false := by
  have hbuffer : ∀ d u, codec.read config (.ofBytes bs) = .error d u →
      d.IsShortage false ∨ codec.Mishap config bs d := by
    intro d u hd
    have hf := codec.read_fails_mishap config [] bs d u hd
    rw [hs] at hf
    exact hf.imp_right And.left
  have hclass : ∀ d : WireError, d.IsShortage false → d.HasClass .truncatedInput :=
    fun d hd => (WireError.hasClass_of_isShortage hd).resolve_right (by simp)
  cases hp with
  | buffer => exact (hbuffer e t h).imp (hclass e) fault_of_mishap
  | @stream s hp =>
    have hknowing : config.knowing s = config := by
      rw [Config.knowing, hs, Bool.false_and, ← hs]
      rfl
    have hfollows : (codec.read config).Follows s bs (codec.read (config.knowing s)) :=
      codec.read_follows hp
    rw [hknowing] at hfollows
    have hbs : bs = [] ++ bs := rfl
    cases hr : codec.read config (.ofBytes bs) with
    | ok v u =>
      obtain ⟨_, _, -, -, hstream⟩ := hfollows.ok hbs hr
      cases h.symm.trans hstream
    | error d u =>
      obtain ⟨_, hstream⟩ := hfollows.error hbs hr
      cases h.symm.trans hstream
      rcases hbuffer d u hr with hshort | hmishap
      · cases d with
        | truncated => exact .inl (hclass _ trivial)
        | oversized => cases hshort
        | _ => exact hshort.elim
      · rw [streamed_of_mishap hmishap]
        exact .inr (fault_of_mishap hmishap)

/-- Texts in UTF-16 on a pipe that returns one byte at a time and ends within a text. -/
theorem Layout.read_leniently_pipe :
    let config : Config := { encoding := .utf16be }
    let codec : Codec := .list (.primitive .string)
    let bs : Bytes := [2, 0, 0, 0, 2, 0, 0, 0, 0x41]
    let s : ByteStream := { data := bs, pos := 0, grant := fun _ _ => 1, seekable := false }
    config.strict = false ∧ (Source.ofStream s).Provides bs ∧ ∃ e t,
      codec.read config (.ofStream s) = .error e t ∧ (e.HasClass .truncatedInput ∨
        e = .fault .undecodable ∧ config.HasNoText bs ∨
        e = .fault .unsupported ∧ codec.shows Operation.ofReading = false) := by
  intro config codec bs s
  have hs : s.Supplies bs := ⟨Nat.zero_le _, rfl, fun _ _ _ => Nat.succ_pos _⟩
  have hbuffer : codec.read (config.knowing s) (.ofBytes bs) =
      .error (.truncated 2 8 1 false) (.buffer bs 8) := rfl
  have hfollows : (codec.read config).Follows s bs (codec.read (config.knowing s)) :=
    codec.read_follows hs
  rw [Source.ofBytes_eq_amid] at hbuffer
  obtain ⟨t, h⟩ := hfollows.error rfl hbuffer
  exact ⟨rfl, .stream hs, _, t, h, codec.read_leniently config bs _ _ _ rfl (.stream hs) h⟩

/-- A single byte for a text in UTF-16 is no text, which is not reported as an input that ends. -/
theorem Layout.read_leniently_odd :
    let config : Config := { encoding := .utf16le }
    let bs : Bytes := [1, 0, 0, 0, 0x41]
    config.strict = false ∧
      (Layout.primitive .string).read config (.ofBytes bs) =
        .error (.fault .undecodable) (.buffer bs 5) ∧
      ¬ (WireError.fault .undecodable).HasClass .truncatedInput := by
  intro config bs
  exact ⟨rfl, rfl, WireError.not_hasClass_fault⟩

end RecordWire
