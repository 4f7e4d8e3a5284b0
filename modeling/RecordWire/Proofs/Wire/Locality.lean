import RecordWire.Proofs.Wire.Shortage

/-!
Reading is local: what it returns depends on the bytes that it goes past only, and on all of them.
So no encoding is the beginning of another one, and a cut anywhere in an encoding is found.
-/

namespace RecordWire

open Source (amid)

/-- Whatever is read from a buffer stood at its beginning, and is read from every buffer that begins
with the same bytes. -/
theorem Layout.exists_prefix_of_read {config : Config} {codec : Codec} {bs : Bytes} {v : Value}
    {s : Source} (h : codec.read config (.ofBytes bs) = .ok v s) :
    ∃ used rest, bs = used ++ rest ∧ s = .buffer bs used.length ∧
      ∀ more, codec.read config (.ofBytes (used ++ more)) =
        .ok v (.buffer (used ++ more) used.length) := by
  rw [Source.ofBytes_eq_amid] at h
  obtain ⟨used, rest, hbs, hs, hspell⟩ := (codec.reads config).sound h
  refine ⟨used, rest, hbs, ?_, fun more => (codec.reads config).complete hspell [] more⟩
  rw [hs, hbs]
  rfl

theorem Layout.read_take_of_lt {config : Config} {codec : Codec} {bs : Bytes} {v : Value}
    {n k : Nat} (h : codec.read config (.ofBytes bs) = .ok v (.buffer bs n)) (hk : k < n) :
    ∃ e t, codec.read config (.ofBytes (bs.take k)) = .error e t ∧ e.IsShortage config.strict := by
  cases hc : codec.read config (.ofBytes (bs.take k)) with
  | ok w t =>
    -- A value read from the beginning would be read from the whole as well, in fewer bytes.
    obtain ⟨used, rest, hu, rfl, hmore⟩ := exists_prefix_of_read hc
    have hw := hmore (rest ++ bs.drop k)
    rw [← List.append_assoc, ← hu, List.take_append_drop, h] at hw
    have hn : (n : Int) = used.length := by injection hw with _ hs; injection hs
    have hl : used.length ≤ k := by
      have := congrArg List.length hu
      simp only [List.length_take, List.length_append] at this
      omega
    omega
  | error e t =>
    have hf := codec.read_fails config (F := fun _ => True) (fun _ => trivial) (fun _ => trivial)
    refine ⟨e, t, rfl, (hf [] (bs.take k) e t hc).resolve_right fun ⟨_, hmore⟩ => ?_⟩
    obtain ⟨t, ht⟩ := hmore (bs.drop k)
    rw [List.take_append_drop] at ht
    have := h.symm.trans ht
    cases this

/-- A value that is read depends on the bytes it is read from, and on nothing behind them; a buffer
that ends within these bytes is found to be too short. -/
theorem Layout.read_local (config : Config) (codec : Codec) (bs : Bytes) (v : Value) (s : Source)
    (h : codec.read config (.ofBytes bs) = .ok v s) :
    ∃ n ≤ bs.length, s = .buffer bs n ∧
      (∀ bs' : Bytes, bs.take n <+: bs' →
        codec.read config (.ofBytes bs') = .ok v (.buffer bs' n)) ∧
      ∀ k < n, ∃ e t, codec.read config (.ofBytes (bs.take k)) = .error e t ∧
        (e.HasClass .truncatedInput ∨ config.strict = true ∧ e.HasClass .malformedInput) := by
  obtain ⟨used, rest, rfl, rfl, hmore⟩ := exists_prefix_of_read h
  refine ⟨used.length, by simp, rfl, fun bs' hp => ?_, fun k hk => ?_⟩
  · obtain ⟨more, rfl⟩ := hp
    rw [List.take_left]
    exact hmore more
  · obtain ⟨e, t, he, hs⟩ := read_take_of_lt h hk
    exact ⟨e, t, he, WireError.hasClass_of_isShortage hs⟩

theorem Layout.read_local_strings :
    let codec : Codec := .list (.primitive .string)
    let config : Config := { strict := true }
    let bs : Bytes := [2, 0, 0, 0, 1, 0, 0, 0, 0x41, 2, 0, 0, 0, 0xFF, 0x42, 7]
    let v : Value := .list [.text [0x41], .text [0xDCFF, 0x42]]
    codec.read config (.ofBytes bs) = .ok v (.buffer bs 15) ∧
    ∃ n ≤ bs.length, Source.buffer bs 15 = .buffer bs n ∧
      (∀ bs' : Bytes, bs.take n <+: bs' →
        codec.read config (.ofBytes bs') = .ok v (.buffer bs' n)) ∧
      ∀ k < n, ∃ e t, codec.read config (.ofBytes (bs.take k)) = .error e t ∧
        (e.HasClass .truncatedInput ∨ config.strict = true ∧ e.HasClass .malformedInput) := by
  refine ⟨by rfl, ?_⟩
  exact Layout.read_local _ _ _ _ _ (by rfl)

end RecordWire
