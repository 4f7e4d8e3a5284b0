import Mathlib.Data.List.Induction
import RecordWire.Config.Settings

/-!
Settings that are assigned one after the other, whether or not some are refused. A byte order that
is refused changes nothing. Any other value is stored even if it is refused, and stays until the
next assignment to the same setting; as long as it stays, every assignment to one of the others is
refused as well.
-/

namespace RecordWire

/-- The settings that are stored first and checked afterwards, all at once. -/
def Setting.checkedLate : List Setting := [sortMapKeys, strict, stringEncoding]

namespace Settings

def value (s : Settings) : Setting → Value
  | .byteOrder => .text s.byteOrder.name
  | .sortMapKeys => s.sortMapKeys
  | .strict => s.strict
  | .stringEncoding => s.stringEncoding
  | .orderLetter => .text s.byteOrder.letter

section

variable {ε : Type} (find : Value → Except ConfigError ε)

/-- Whether a value is one that a setting can have. -/
def Fits : Setting → Value → Prop
  | .byteOrder, v => ∃ order, ByteOrder.ofValue v = .ok order
  | .sortMapKeys, v | .strict, v => ∃ b, v = .bool b
  | .stringEncoding, v => ∃ encoding, find v = .ok encoding
  | .orderLetter, _ => False

def IsNew (s : Settings) : Prop :=
  (∃ given, ofNamedBy find given = .ok s) ∨ ∃ v, ofDictBy find v = .ok s

/-- The settings after assignments, each made whatever became of the ones before. -/
def assignAll (s : Settings) (assigned : List (Setting × Value)) : Settings :=
  assigned.foldl (fun s a => (s.setBy find a.1 a.2).1) s

def last? (assigned : List (Setting × Value)) (a : Setting) : Option Value :=
  assigned.reverse.lookup a

def order? (a : Setting × Value) : Option ByteOrder :=
  if a.1 = .byteOrder then (ByteOrder.ofValue a.2).toOption else none

def lastOrder? (assigned : List (Setting × Value)) : Option ByteOrder :=
  assigned.reverse.findSome? order?

theorem last?_append_singleton (assigned : List (Setting × Value)) (a : Setting × Value)
    (b : Setting) :
    last? (assigned ++ [a]) b = if b = a.1 then some a.2 else last? assigned b := by
  rw [last?, List.reverse_append, List.reverse_singleton, List.singleton_append, List.lookup_cons]
  by_cases hba : b = a.1
  · simp [hba]
  · have hne : (b == a.1) = false := by simpa using hba
    rw [hne, if_neg hba, last?]

theorem lastOrder?_append_singleton (assigned : List (Setting × Value)) (a : Setting × Value) :
    lastOrder? (assigned ++ [a]) = (order? a).or (lastOrder? assigned) := by
  rw [lastOrder?, List.reverse_append, List.reverse_singleton, List.singleton_append,
    List.findSome?_cons]
  cases order? a <;> rfl

/-- The value that is assigned last to a setting does not fit. -/
def Spoiled (assigned : List (Setting × Value)) (a : Setting) : Prop :=
  ∃ v, last? assigned a = some v ∧ ¬ Fits find a v

variable {find} {s s₀ : Settings} {a b : Setting} {v : Value}
  {assigned : List (Setting × Value)}

theorem exists_meaningBy_iff : (∃ m, s.meaningBy find = .ok m) ↔
    ∀ a ∈ Setting.checkedLate, Fits find a (s.value a) := by
  simp only [Setting.checkedLate, List.forall_mem_cons, List.not_mem_nil, false_imp_iff,
    implies_true, and_true, value, Fits]
  fun_cases meaningBy find s with
  | case1 sorts strict hsorts hstrict =>
    simp only [hsorts, hstrict]
    cases find s.stringEncoding with
    | ok e => exact iff_of_true ⟨_, rfl⟩ ⟨⟨_, rfl⟩, ⟨_, rfl⟩, _, rfl⟩
    | error e => exact iff_of_false (by rintro ⟨_, ⟨⟩⟩) (by rintro ⟨-, -, _, ⟨⟩⟩)
  | case2 sorts hsorts hstrict =>
    refine iff_of_false (by rintro ⟨_, ⟨⟩⟩) ?_
    rintro ⟨-, ⟨b, hb⟩, -⟩
    exact hstrict b hb
  | case3 hsorts =>
    refine iff_of_false (by rintro ⟨_, ⟨⟩⟩) ?_
    rintro ⟨⟨b, hb⟩, -⟩
    exact hsorts b hb

theorem fits_of_makeBy {given : List (Text × Value)} (h : makeBy find given = .ok s) :
    ∀ a ∈ Setting.checkedLate, Fits find a (s.value a) := by
  simp only [makeBy] at h
  split at h
  · cases h
  · rename_i order _
    refine exists_meaningBy_iff.1 ?_
    revert h
    generalize Settings.mk order _ _ _ = t
    intro h
    rw [checkedBy] at h
    cases hm : t.meaningBy find with
    | error e =>
      rw [hm] at h
      cases h
    | ok m =>
      rw [hm] at h
      cases h
      exact ⟨m, hm⟩

theorem IsNew.fits (h : IsNew find s) : ∀ a ∈ Setting.checkedLate, Fits find a (s.value a) := by
  rcases h with ⟨given, h⟩ | ⟨v, h⟩
  · rw [ofNamedBy] at h
    split at h
    · exact fits_of_makeBy h
    · cases h
  · simp only [ofDictBy] at h
    split at h
    · exact fits_of_makeBy h
    · split at h
      · cases h
      · split at h
        · exact fits_of_makeBy h
        · cases h
    · cases h

/-- The settings with a value in the place of another, fitting or not. -/
def stored (s : Settings) (v : Value) : Setting → Settings
  | .sortMapKeys => { s with sortMapKeys := v }
  | .strict => { s with strict := v }
  | .stringEncoding => { s with stringEncoding := v }
  | .byteOrder | .orderLetter => s

@[simp] theorem byteOrder_stored (s : Settings) (v : Value) (a : Setting) :
    (s.stored v a).byteOrder = s.byteOrder := by
  cases a <;> rfl

theorem value_stored (s : Settings) (v : Value) (ha : a ∈ Setting.checkedLate) (b : Setting) :
    (s.stored v a).value b = if b = a then v else s.value b := by
  cases a <;> first | simp [Setting.checkedLate] at ha; done | (cases b <;> rfl)

theorem setBy_of_mem (s : Settings) (v : Value) (ha : a ∈ Setting.checkedLate) :
    (s.setBy find a v).1 = s.stored v a ∧
      ((s.setBy find a v).2 = none ↔ ∃ m, (s.stored v a).meaningBy find = .ok m) := by
  simp only [Setting.checkedLate, List.mem_cons, List.not_mem_nil, or_false] at ha
  rcases ha with rfl | rfl | rfl
  all_goals
    simp only [setBy, stored]
    split
    · rename_i m hm
      exact ⟨rfl, iff_of_true rfl ⟨m, hm⟩⟩
    · rename_i e he
      refine ⟨rfl, iff_of_false (by simp) ?_⟩
      rintro ⟨m, hm⟩
      rw [hm] at he
      cases he

theorem setBy_of_not_mem (s : Settings) (v : Value) (ha : a ∉ Setting.checkedLate) :
    (s.setBy find a v).1 = { s with byteOrder := (order? (a, v)).getD s.byteOrder } ∧
      ((s.setBy find a v).2 = none ↔ Fits find a v) := by
  cases a with
  | byteOrder =>
    simp only [setBy, Fits, order?, if_true]
    split
    · rename_i order ho
      exact ⟨by rw [ho]; rfl, iff_of_true rfl ⟨order, ho⟩⟩
    · rename_i e he
      refine ⟨by rw [he]; rfl, iff_of_false (by simp) ?_⟩
      rintro ⟨order, ho⟩
      rw [ho] at he
      cases he
  | orderLetter => exact ⟨rfl, iff_of_false (by simp [setBy]) id⟩
  | sortMapKeys | strict | stringEncoding => simp [Setting.checkedLate] at ha

theorem order?_of_not_fits (hv : ¬ Fits find a v) : order? (a, v) = none := by
  rw [order?]
  split
  · rename_i ha
    rw [show a = .byteOrder from ha] at hv
    cases ho : ByteOrder.ofValue v with
    | ok order => exact (hv ⟨order, ho⟩).elim
    | error e => rfl
  · rfl

theorem setBy_of_refused (ha : a ∉ Setting.checkedLate) (hr : (s.setBy find a v).2 ≠ none) :
    (s.setBy find a v).1 = s := by
  have hv : ¬ Fits find a v := fun hv => hr ((setBy_of_not_mem s v ha).2.2 hv)
  rw [(setBy_of_not_mem s v ha).1, order?_of_not_fits hv]
  rfl

theorem byteOrder_setBy (s : Settings) (a : Setting) (v : Value) :
    (s.setBy find a v).1.byteOrder = (order? (a, v)).getD s.byteOrder := by
  by_cases ha : a ∈ Setting.checkedLate
  · have hne : a ≠ .byteOrder := by
      rintro rfl
      simp [Setting.checkedLate] at ha
    rw [(setBy_of_mem s v ha).1, byteOrder_stored, order?, if_neg hne, Option.getD_none]
  · rw [(setBy_of_not_mem s v ha).1]

theorem value_setBy (s : Settings) (v : Value) (hb : b ∈ Setting.checkedLate) :
    (s.setBy find a v).1.value b = if b = a then v else s.value b := by
  by_cases ha : a ∈ Setting.checkedLate
  · rw [(setBy_of_mem s v ha).1, value_stored s v ha]
  · have hne : b ≠ a := by
      rintro rfl
      exact ha hb
    rw [(setBy_of_not_mem s v ha).1, if_neg hne]
    cases b <;> first | rfl | simp [Setting.checkedLate] at hb

/-- An assignment is refused if its value does not fit and, unless it is to the byte order, also if
another value does not fit that is stored already. -/
theorem setBy_eq_none_iff (s : Settings) (a : Setting) (v : Value) :
    (s.setBy find a v).2 = none ↔ Fits find a v ∧
      (a ∈ Setting.checkedLate → ∀ b ∈ Setting.checkedLate, b ≠ a → Fits find b (s.value b)) := by
  by_cases ha : a ∈ Setting.checkedLate
  · rw [(setBy_of_mem s v ha).2, exists_meaningBy_iff]
    simp only [value_stored s v ha, ha, true_imp_iff]
    constructor
    · intro h
      refine ⟨by simpa using h a ha, fun b hb hne => by simpa [hne] using h b hb⟩
    · rintro ⟨hfits, hothers⟩ b hb
      by_cases hne : b = a
      · simpa [hne] using hfits
      · simpa [hne] using hothers b hb hne
  · simp [(setBy_of_not_mem s v ha).2, ha]

theorem assignAll_append_singleton (s : Settings) (assigned : List (Setting × Value))
    (a : Setting × Value) :
    assignAll find s (assigned ++ [a]) = ((assignAll find s assigned).setBy find a.1 a.2).1 := by
  simp [assignAll]

theorem byteOrder_assignAll (s : Settings) (assigned : List (Setting × Value)) :
    (assignAll find s assigned).byteOrder = (lastOrder? assigned).getD s.byteOrder := by
  induction assigned using List.reverseRecOn with
  | nil => rfl
  | append_singleton assigned a ih =>
    rw [assignAll_append_singleton, byteOrder_setBy, ih, lastOrder?_append_singleton]
    cases order? a <;> rfl

theorem value_assignAll (s : Settings) (assigned : List (Setting × Value))
    (hb : b ∈ Setting.checkedLate) :
    (assignAll find s assigned).value b = (last? assigned b).getD (s.value b) := by
  induction assigned using List.reverseRecOn with
  | nil => rfl
  | append_singleton assigned a ih =>
    rw [assignAll_append_singleton, value_setBy _ _ hb, ih, last?_append_singleton]
    split <;> rfl

/-- What is stored for a setting fits, unless the value that is assigned last does not. -/
theorem fits_assignAll_iff (h : IsNew find s) (assigned : List (Setting × Value))
    (hb : b ∈ Setting.checkedLate) :
    Fits find b ((assignAll find s assigned).value b) ↔ ¬ Spoiled find assigned b := by
  rw [value_assignAll s assigned hb, Spoiled]
  cases last? assigned b with
  | none => simp [h.fits b hb]
  | some v => simp

/-- After any assignments, whatever became of them, the byte order is the one that was given last,
and what is stored for the other settings is what was assigned to them last, whether or not it fits.
The settings fit if all of that does. A further assignment is refused if its value does not fit and,
unless it is to the byte order, also if what was assigned last to another setting does not. If it is
refused, nothing changes, or its own setting alone, and to the very value that is refused. -/
theorem assign_run (find : Value → Except ConfigError ε) (s₀ : Settings) (h : IsNew find s₀)
    (assigned : List (Setting × Value)) :
    let s := assignAll find s₀ assigned
    s.byteOrder = (lastOrder? assigned).getD s₀.byteOrder ∧
    (∀ a ∈ Setting.checkedLate, s.value a = (last? assigned a).getD (s₀.value a)) ∧
    ((∃ m, s.meaningBy find = .ok m) ↔
      ∀ a ∈ Setting.checkedLate, ¬ Spoiled find assigned a) ∧
    ∀ a v,
      ((s.setBy find a v).2 = none ↔ Fits find a v ∧ (a ∈ Setting.checkedLate →
        ∀ b ∈ Setting.checkedLate, b ≠ a → ¬ Spoiled find assigned b)) ∧
      ((s.setBy find a v).2 ≠ none →
        if a ∈ Setting.checkedLate then
          ∀ b, (s.setBy find a v).1.value b = if b = a then v else s.value b
        else (s.setBy find a v).1 = s) := by
  intro s
  have hfits := fun b hb => fits_assignAll_iff h assigned (b := b) hb
  refine ⟨byteOrder_assignAll s₀ assigned, fun b hb => value_assignAll s₀ assigned hb, ?_, ?_⟩
  · rw [exists_meaningBy_iff]
    exact forall₂_congr hfits
  · intro a v
    constructor
    · rw [setBy_eq_none_iff]
      refine and_congr_right fun _ => forall_congr' fun _ => forall₂_congr fun b hb => ?_
      rw [hfits b hb]
    · intro hrefused
      split
      · rename_i ha
        intro b
        rw [(setBy_of_mem s v ha).1, value_stored s v ha]
      · rename_i ha
        exact setBy_of_refused ha hrefused

/-- Strictness that is refused stays, an unknown byte order does not, and a known one is taken. -/
theorem assign_run_mixed :
    let s₀ : Settings := { byteOrder := .native }
    let assigned : List (Setting × Value) :=
      [(.byteOrder, .text "BIG"), (.strict, .text "no"), (.byteOrder, .text "middle"),
        (.sortMapKeys, .bool false)]
    let s := assignAll Encoding.ofValue s₀ assigned
    IsNew Encoding.ofValue s₀ ∧ s.byteOrder = .big ∧ s.strict = .text "no" ∧
    s.byteOrder = (lastOrder? assigned).getD s₀.byteOrder ∧
    (∀ a ∈ Setting.checkedLate, s.value a = (last? assigned a).getD (s₀.value a)) ∧
    ((∃ m, s.meaningBy Encoding.ofValue = .ok m) ↔
      ∀ a ∈ Setting.checkedLate, ¬ Spoiled Encoding.ofValue assigned a) ∧
    ∀ a v,
      ((s.setBy Encoding.ofValue a v).2 = none ↔ Fits Encoding.ofValue a v ∧
        (a ∈ Setting.checkedLate →
          ∀ b ∈ Setting.checkedLate, b ≠ a → ¬ Spoiled Encoding.ofValue assigned b)) ∧
      ((s.setBy Encoding.ofValue a v).2 ≠ none →
        if a ∈ Setting.checkedLate then
          ∀ b, (s.setBy Encoding.ofValue a v).1.value b = if b = a then v else s.value b
        else (s.setBy Encoding.ofValue a v).1 = s) := by
  intro s₀ assigned s
  have h : IsNew Encoding.ofValue s₀ := .inl ⟨[("byte_order", .text "native")], rfl⟩
  exact ⟨h, rfl, rfl, assign_run Encoding.ofValue s₀ h assigned⟩

/-- A refused value of one setting stays in new settings, and a fitting value of another one is
refused after it. -/
theorem assign_run_kept :
    let s : Settings := {}
    let t := (s.set .strict (.text "no")).1
    IsNew Encoding.ofValue s ∧ (s.set .strict (.text "no")).2 = some .strict ∧
    s.strict = .bool false ∧ t.strict = .text "no" ∧
    (t.set .sortMapKeys (.bool false)).2 = some .strict :=
  ⟨.inl ⟨[], rfl⟩, rfl, rfl, rfl, rfl⟩

end

end Settings

end RecordWire
