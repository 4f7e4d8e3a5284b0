import RecordWire.Codec.Read

/-!
Readers on buffers. What a reader reads is a relation between byte strings and values, in which it
makes no difference where in a buffer the bytes stand, and what follows them.
-/

namespace RecordWire

/-- A buffer read up to a place, given by the bytes before the place and those after it. -/
def Source.amid (before after : Bytes) : Source := .buffer (before ++ after) before.length

namespace Source

theorem ofBytes_eq_amid (bs : Bytes) : ofBytes bs = amid [] bs := rfl

@[simp] theorem remaining?_amid (before after : Bytes) :
    (amid before after).remaining? = some (after.length : Int) := by
  simp only [amid, remaining?, List.length_append, Option.some.injEq]
  omega

theorem stretch_amid (before bs after : Bytes) :
    stretch (before ++ (bs ++ after)) before.length (before.length + bs.length : Nat) = bs := by
  have h₁ : ¬ ((before.length : Int) < 0) := by omega
  have h₂ : ¬ (((before.length + bs.length : Nat) : Int) < 0) := by omega
  have h₃ : (before ++ (bs ++ after)).take (before.length + bs.length) = before ++ bs := by
    rw [← List.append_assoc]
    exact List.take_left' (by simp)
  simp only [stretch, h₁, h₂, if_false, Int.toNat_natCast, h₃, List.drop_left]

end Source

namespace Reader

open Source (amid)

variable {ε : Type} [TextEncoding ε] {α β : Type}

theorem bytes_amid (before bs after : Bytes) :
    bytes bs.length (amid before (bs ++ after)) = .ok bs (amid (before ++ bs) after) := by
  have h := Source.stretch_amid before bs after
  have hn : ¬ (((before ++ (bs ++ after)).length : Int) - before.length < bs.length) := by
    simp only [List.length_append]
    omega
  simp only [bytes, amid, hn, if_false, List.append_assoc]
  rw [List.length_append, ← Int.natCast_add, h]

theorem bytes_amid_of_lt {n : Nat} (before : Bytes) {after : Bytes} (h : after.length < n) :
    bytes n (amid before after) =
      .error (.truncated n before.length after.length false) (amid before after) := by
  have ha : ((before ++ after).length : Int) - before.length = after.length := by
    simp only [List.length_append]
    omega
  have hn : (after.length : Int) < n := by omega
  simp only [amid, bytes, ha, hn, if_true]

theorem bind_of_ok {r : Reader α} {f : α → Reader β} {s t : Source} {x : α} (h : r s = .ok x t) :
    (r >>= f) s = f x t := by
  simp [bind, EStateM.bind, h]

theorem bind_of_error {r : Reader α} {f : α → Reader β} {s t : Source} {e : WireError}
    (h : r s = .error e t) : (r >>= f) s = .error e t := by
  simp [bind, EStateM.bind, h]

@[simp] theorem pure_apply (x : α) (s : Source) : (pure x : Reader α) s = .ok x s := rfl

/-- The reader reads exactly the byte strings of a relation, each as the value it is related to:
what it returns stood at its place in the buffer, and what stands there is what it returns. -/
structure Reads (r : Reader α) (R : Bytes → α → Prop) : Prop where
  sound : ∀ {before rest x s}, r (amid before rest) = .ok x s →
    ∃ bs after, rest = bs ++ after ∧ s = amid (before ++ bs) after ∧ R bs x
  complete : ∀ {bs x}, R bs x → ∀ before after,
    r (amid before (bs ++ after)) = .ok x (amid (before ++ bs) after)

theorem Reads.congr {r : Reader α} {R S : Bytes → α → Prop} (h : r.Reads R)
    (hRS : ∀ bs x, R bs x ↔ S bs x) : r.Reads S := by
  have : R = S := by funext bs x; exact propext (hRS bs x)
  rwa [← this]

theorem reads_pure (x : α) : Reads (pure x) fun bs y => bs = [] ∧ y = x where
  sound := by
    rintro before rest y s ⟨⟩
    exact ⟨[], rest, by simp⟩
  complete := by
    rintro bs y ⟨rfl, rfl⟩ before after
    simp

theorem Reads.bind {r : Reader α} {f : α → Reader β} {R : Bytes → α → Prop}
    {S : α → Bytes → β → Prop} (hr : r.Reads R) (hf : ∀ x, (f x).Reads (S x)) :
    (r >>= f).Reads fun bs y => ∃ cs ds x, bs = cs ++ ds ∧ R cs x ∧ S x ds y where
  sound := by
    intro before rest y s h
    cases hx : r (amid before rest) with
    | error e t => rw [bind_of_error hx] at h; cases h
    | ok x t =>
      rw [bind_of_ok hx] at h
      obtain ⟨cs, mid, rfl, rfl, hR⟩ := hr.sound hx
      obtain ⟨ds, after, rfl, rfl, hS⟩ := (hf x).sound h
      exact ⟨cs ++ ds, after, by simp, by simp, cs, ds, x, rfl, hR, hS⟩
  complete := by
    rintro bs y ⟨cs, ds, x, rfl, hR, hS⟩ before after
    rw [List.append_assoc, bind_of_ok (hr.complete hR before (ds ++ after)),
      (hf x).complete hS, List.append_assoc]

theorem Reads.map {r : Reader α} {R : Bytes → α → Prop} (hr : r.Reads R) (g : α → β) :
    (do return g (← r) : Reader β).Reads fun bs y => ∃ x, R bs x ∧ y = g x :=
  (hr.bind fun x => reads_pure (g x)).congr fun bs y => by
    constructor
    · rintro ⟨cs, ds, x, rfl, hR, rfl, rfl⟩
      exact ⟨x, by simpa using hR, rfl⟩
    · rintro ⟨x, hR, rfl⟩
      exact ⟨bs, [], x, by simp, hR, rfl, rfl⟩

theorem reads_bytes (n : Nat) : Reads (bytes n) fun bs x => bs.length = n ∧ x = bs where
  sound := by
    intro before rest x s h
    by_cases hn : rest.length < n
    · rw [bytes_amid_of_lt before hn] at h; cases h
    · have hl : (rest.take n).length = n := by simp; omega
      have ha := bytes_amid before (rest.take n) (rest.drop n)
      rw [List.take_append_drop, hl, h] at ha
      obtain ⟨rfl, rfl⟩ := EStateM.Result.ok.inj ha
      exact ⟨rest.take n, rest.drop n, (List.take_append_drop n rest).symm, rfl, hl, rfl⟩
  complete := by
    rintro bs x ⟨rfl, rfl⟩ before after
    exact bytes_amid before x after

theorem reads_fixed (order : ByteOrder) (width : Nat) :
    Reads (fixed order width) fun bs x => bs.length = width ∧ x = order.arrange bs := by
  refine ((reads_bytes width).bind fun bs => (?_ : Reads _
    fun cs x => bs.length = width ∧ cs = [] ∧ x = order.arrange bs)).congr fun bs x => ?_
  · by_cases h : bs.length = width
    · rw [if_pos h]
      exact (reads_pure (order.arrange bs)).congr fun cs x => by simp [h]
    · rw [if_neg h]
      exact ⟨fun hr => (by cases hr), fun hr => absurd hr.1 h⟩
  · constructor
    · rintro ⟨cs, ds, y, rfl, ⟨rfl, rfl⟩, -, rfl, rfl⟩
      simp
    · rintro ⟨rfl, rfl⟩
      exact ⟨bs, [], bs, by simp, ⟨rfl, rfl⟩, rfl, rfl, rfl⟩

/-- Byte strings that follow each other, each related to an item. -/
inductive SpellAll (R : Bytes → α → Prop) : Bytes → List α → Prop
  | nil : SpellAll R [] []
  | cons {bs cs : Bytes} {x : α} {xs : List α} (head : R bs x) (tail : SpellAll R cs xs) :
    SpellAll R (bs ++ cs) (x :: xs)

theorem SpellAll.length_mul_le {R : Bytes → α → Prop} {n : Nat} (h : ∀ bs x, R bs x → n ≤ bs.length)
    {bs : Bytes} {xs : List α} (hs : SpellAll R bs xs) : xs.length * n ≤ bs.length := by
  induction hs with
  | nil => simp
  | cons head tail ih =>
    have := h _ _ head
    simp only [List.length_cons, List.length_append, Nat.succ_mul]
    omega

theorem reads_items {item : Reader α} {R : Bytes → α → Prop} (h : item.Reads R) (n : Nat) :
    (readItems item n).Reads fun bs xs => xs.length = n ∧ SpellAll R bs xs := by
  induction n with
  | zero =>
    refine (reads_pure []).congr fun bs xs => ?_
    constructor
    · rintro ⟨rfl, rfl⟩
      exact ⟨rfl, .nil⟩
    · rintro ⟨hn, hs⟩
      cases hs with
      | nil => exact ⟨rfl, rfl⟩
      | cons => simp at hn
  | succ n ih =>
    refine (h.bind fun x => ih.map (x :: ·)).congr fun bs ys => ?_
    constructor
    · rintro ⟨cs, ds, x, rfl, hx, xs, ⟨hn, hs⟩, rfl⟩
      exact ⟨by simp [hn], .cons hx hs⟩
    · rintro ⟨hn, hs⟩
      cases hs with
      | nil => simp at hn
      | cons head tail =>
        exact ⟨_, _, _, rfl, head, _, ⟨by simpa using hn, tail⟩, rfl⟩

/-- Two byte strings that follow each other, related to the two parts of a pair. -/
def SpellPair (R : Bytes → α → Prop) (S : Bytes → β → Prop) (bs : Bytes) (p : α × β) : Prop :=
  ∃ cs ds, bs = cs ++ ds ∧ R cs p.1 ∧ S ds p.2

def pair (first : Reader α) (second : Reader β) : Reader (α × β) := do
  let x ← first
  let y ← second
  return (x, y)

theorem Reads.pair {first : Reader α} {second : Reader β} {R : Bytes → α → Prop}
    {S : Bytes → β → Prop} (hf : first.Reads R) (hs : second.Reads S) :
    (first.pair second).Reads (SpellPair R S) :=
  (hf.bind fun x => hs.map fun y => (x, y)).congr fun bs p => by
    constructor
    · rintro ⟨cs, ds, x, rfl, hx, y, hy, rfl⟩
      exact ⟨cs, ds, rfl, hx, hy⟩
    · rintro ⟨cs, ds, rfl, hx, hy⟩
      exact ⟨cs, ds, p.1, rfl, hx, p.2, hy, rfl⟩

theorem readEntries_eq (key value : Reader Value) (n : Nat) (entries : List (Value × Value)) :
    readEntries key value n entries = do
      let pairs ← readItems (pair key value) n
      return pairs.foldl (fun es p => Value.assign p.1 p.2 es) entries := by
  induction n generalizing entries with
  | zero => rfl
  | succ n ih => simp [readEntries, readItems, pair, ih]

theorem reads_unless (hidden : Bool) :
    (Reader.unless hidden).Reads fun bs _ => bs = [] ∧ hidden = false := by
  cases hidden with
  | false => exact (reads_pure ()).congr fun bs x => by simp
  | true => exact ⟨fun h => (by cases h), fun h => by simp at h⟩

theorem checkFits_amid_of_le (config : ConfigOf ε) {needed : Nat} (what : Declared) (before : Bytes)
    {after : Bytes} (h : needed ≤ after.length) :
    checkFits config needed what (amid before after) = .ok () (amid before after) := by
  have hn : ¬ ((after.length : Int) < needed) := by omega
  simp only [checkFits, Source.remaining?_amid, hn, if_false]
  split <;> rfl

theorem checkFits_source {config : ConfigOf ε} {needed : Nat} {what : Declared} {s t : Source}
    {u : Unit} (h : checkFits config needed what s = .ok u t) : s = t := by
  unfold checkFits at h
  split at h
  · split at h
    · split at h
      · cases h
      · cases h; rfl
    · cases h; rfl
  · cases h; rfl

theorem Reads.checkFits {r : Reader α} {R : Bytes → α → Prop} (hr : r.Reads R) (config : ConfigOf ε)
    {needed : Nat} (what : Declared) (h : ∀ bs x, R bs x → needed ≤ bs.length) :
    Reads (do checkFits config needed what; r) R where
  sound := by
    intro before rest x s hs
    cases hc : Reader.checkFits config needed what (amid before rest) with
    | error e t => rw [bind_of_error hc] at hs; cases hs
    | ok u t =>
      obtain rfl := checkFits_source hc
      rw [bind_of_ok hc] at hs
      exact hr.sound hs
  complete := by
    intro bs x hx before after
    have hl : needed ≤ (bs ++ after).length := by
      have := h bs x hx
      simp only [List.length_append]
      omega
    rw [bind_of_ok (checkFits_amid_of_le config what before hl)]
    exact hr.complete hx before after

end Reader
end RecordWire
