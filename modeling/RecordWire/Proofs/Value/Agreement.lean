import RecordWire.Value.Compare

/-!
Agreement of values: what encoding keeps of a value. It is finer than equality on everything but
NaN: an integer does not agree with a floating-point number, and zero not with its negative, but
every NaN agrees with every other. Dictionaries agree in any order of their entries.
-/

namespace RecordWire

namespace Value

mutual

def every (p : Value → Bool) : Value → Bool
  | atom a => p (atom a)
  | list items => p (list items) && everyOf p items
  | tuple items => p (tuple items) && everyOf p items
  | dict entries => p (dict entries) && everyOfEntries p entries
  | record head fields => p (record head fields) && everyOf p fields

def everyOf (p : Value → Bool) : List Value → Bool
  | [] => true
  | v :: vs => every p v && everyOf p vs

def everyOfEntries (p : Value → Bool) : List (Value × Value) → Bool
  | [] => true
  | (k, v) :: es => every p k && every p v && everyOfEntries p es

end

section

variable {p : Value → Bool}

theorem everyOf_eq_true {vs : List Value} :
    everyOf p vs = true ↔ ∀ v ∈ vs, every p v = true := by
  induction vs with
  | nil => simp [everyOf]
  | cons v vs ih => simp [everyOf, ih]

theorem everyOfEntries_eq_true {es : List (Value × Value)} :
    everyOfEntries p es = true ↔ ∀ e ∈ es, every p e.1 = true ∧ every p e.2 = true := by
  induction es with
  | nil => simp [everyOfEntries]
  | cons e es ih => simp [everyOfEntries, ih]

end

def isNaN : Value → Bool
  | atom (.float x _) => x.isNaN
  | _ => false

def isFreeOfNaN (v : Value) : Bool := v.every fun w => !w.isNaN

def hasNoNaNKey (v : Value) : Bool :=
  v.every fun
    | dict entries => entries.all fun e => !e.1.isNaN
    | _ => true

end Value

/-- The same atom, whichever object it is; any NaN for NaN. -/
def Atom.Agrees : Atom → Atom → Prop
  | float x _, float y _ => x = y ∨ x.isNaN = true ∧ y.isNaN = true
  | a, b => a = b

theorem Atom.Agrees.refl (a : Atom) : a.Agrees a := by
  cases a with
  | float x object => exact .inl rfl
  | _ => rfl

namespace Value

mutual

inductive Agrees : Value → Value → Prop
  | atom {a b : Atom} (h : a.Agrees b) : Agrees (atom a) (atom b)
  | list {xs ys : List Value} (h : AgreeAll xs ys) : Agrees (list xs) (list ys)
  | tuple {xs ys : List Value} (h : AgreeAll xs ys) : Agrees (tuple xs) (tuple ys)
  /-- The entries agree one by one after they have been put into another order. -/
  | dict {es fs gs : List (Value × Value)} (hp : es.Perm fs) (h : AgreeEntries fs gs) :
    Agrees (dict es) (dict gs)
  | record {s t : RecordHead Value} {xs ys : List Value} (ht : s.type = t.type)
    (h : AgreeAll xs ys) : Agrees (record s xs) (record t ys)

inductive AgreeAll : List Value → List Value → Prop
  | nil : AgreeAll [] []
  | cons {x y : Value} {xs ys : List Value} (head : Agrees x y) (tail : AgreeAll xs ys) :
    AgreeAll (x :: xs) (y :: ys)

inductive AgreeEntries : List (Value × Value) → List (Value × Value) → Prop
  | nil : AgreeEntries [] []
  | cons {e f : Value × Value} {es fs : List (Value × Value)} (key : Agrees e.1 f.1)
    (value : Agrees e.2 f.2) (tail : AgreeEntries es fs) : AgreeEntries (e :: es) (f :: fs)

end

theorem AgreeEntries.length_eq {es fs : List (Value × Value)} (h : AgreeEntries es fs) :
    es.length = fs.length := by
  induction es generalizing fs with
  | nil =>
    cases h
    rfl
  | cons e es ih =>
    cases h with
    | cons key value tail => simp [ih tail]

theorem alikeEntries_eq_true {es fs : List (Value × Value)} : alikeEntries es fs = true ↔
    ∀ e ∈ es, ∃ f ∈ fs, e.1.alike f.1 = true ∧ e.2.alike f.2 = true := by
  induction es with
  | nil => simp [alikeEntries]
  | cons e es ih =>
    obtain ⟨k, v⟩ := e
    rw [alikeEntries, Bool.and_eq_true, ih, List.any_eq_true, List.forall_mem_cons]
    simp only [Bool.and_eq_true]
    exact Iff.rfl

theorem alike_of_equal {v w : Value} (h : v.equal w = true) : v.alike w = true := by
  simp [alike, h]

end Value

theorem Binary64.equal_self {x : Binary64} (h : x.isNaN = false) : x.equal x = true := by
  simp [equal, h]

theorem Moment.exists_common?_self (m : Moment) : ∃ n, common? m m = some (n, n) := by
  unfold common?
  cases m.offset? with
  | none => exact ⟨_, rfl⟩
  | some a => exact ⟨_, rfl⟩

theorem Moment.equal_self (m : Moment) : m.equal m = true := by
  obtain ⟨n, hn⟩ := m.exists_common?_self
  rw [equal, hn, Option.any_some, beq_self_eq_true]

theorem Atom.equal_of_agrees {a b : Atom} (hn : (Value.atom a).isNaN = false) (h : a.Agrees b) :
    a.equal b = true := by
  cases a with
  | float x m =>
    cases b with
    | float y n =>
      rcases h with rfl | ⟨hx, -⟩
      · exact Binary64.equal_self hn
      · rw [Value.isNaN, hx] at hn
        cases hn
    | _ => cases h
  | moment m =>
    cases h
    exact m.equal_self
  | _ =>
    cases h
    simp [equal, toInt?, toBytes?]

namespace Value

mutual

theorem equal_of_agrees {v w : Value} (hn : v.isFreeOfNaN = true) : v.Agrees w → v.equal w = true
  | .atom h => by
    rw [equal]
    exact Atom.equal_of_agrees (by simpa [isFreeOfNaN, every] using hn) h
  | .list h => by
    simp only [isFreeOfNaN, every, Bool.and_eq_true] at hn
    rw [equal]
    exact alikeAll_of_agreeAll hn.2 h
  | .tuple h => by
    simp only [isFreeOfNaN, every, Bool.and_eq_true] at hn
    rw [equal]
    exact alikeAll_of_agreeAll hn.2 h
  | .dict hp h => by
    simp only [isFreeOfNaN, every, Bool.and_eq_true, everyOfEntries_eq_true] at hn
    simp only [equal, Bool.and_eq_true, beq_iff_eq, alikeEntries_eq_true]
    refine ⟨hp.length_eq.trans h.length_eq, fun e he => ?_⟩
    exact exists_alike_of_agreeEntries (fun e he => hn.2 e (hp.mem_iff.2 he)) h e (hp.mem_iff.1 he)
  | .record ht h => by
    simp only [isFreeOfNaN, every, Bool.and_eq_true] at hn
    simp only [equal, ht, beq_self_eq_true, Bool.true_and]
    exact equalAll_of_agreeAll hn.2 h

theorem equalAll_of_agreeAll {xs ys : List Value}
    (hn : everyOf (fun w => !w.isNaN) xs = true) : AgreeAll xs ys → equalAll xs ys = true
  | .nil => by rw [equalAll]
  | .cons head tail => by
    simp only [everyOf, Bool.and_eq_true] at hn
    simp only [equalAll, equal_of_agrees hn.1 head, equalAll_of_agreeAll hn.2 tail, Bool.and_self]

theorem alikeAll_of_agreeAll {xs ys : List Value}
    (hn : everyOf (fun w => !w.isNaN) xs = true) : AgreeAll xs ys → alikeAll xs ys = true
  | .nil => by rw [alikeAll]
  | .cons head tail => by
    simp only [everyOf, Bool.and_eq_true] at hn
    simp only [alikeAll, equal_of_agrees hn.1 head, alikeAll_of_agreeAll hn.2 tail, Bool.or_true,
      Bool.and_self]

theorem exists_alike_of_agreeEntries {es fs : List (Value × Value)}
    (hn : ∀ e ∈ es, every (fun w => !w.isNaN) e.1 = true ∧ every (fun w => !w.isNaN) e.2 = true) :
    AgreeEntries es fs →
      ∀ e ∈ es, ∃ f ∈ fs, e.1.alike f.1 = true ∧ e.2.alike f.2 = true
  | .nil => by simp
  | .cons key value tail => by
    obtain ⟨he, hes⟩ := List.forall_mem_cons.1 hn
    have hkey := alike_of_equal (equal_of_agrees he.1 key)
    have hvalue := alike_of_equal (equal_of_agrees he.2 value)
    have htail := exists_alike_of_agreeEntries hes tail
    refine List.forall_mem_cons.2 ⟨⟨_, List.mem_cons_self, hkey, hvalue⟩, fun d hd => ?_⟩
    obtain ⟨f, hf, ha⟩ := htail d hd
    exact ⟨f, List.mem_cons_of_mem _ hf, ha⟩

end

end Value

end RecordWire
