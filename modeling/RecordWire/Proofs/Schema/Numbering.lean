import RecordWire.Proofs.Schema.Lexis

/-!
The numbers of lines. What is read of a line depends on the number of the line in one way only: the
structs and the fields that the line declares carry it. So lines under other numbers give what they
gave before, with these numbers in it.
-/

namespace RecordWire

/-- The field with the number that its line has under another count. -/
def FieldDecl.renumber (g : Nat → Nat) (f : FieldDecl) : FieldDecl := { f with line := g f.line }

/-- The struct with the numbers that its lines have under another count. -/
def StructDecl.renumber (g : Nat → Nat) (s : StructDecl) : StructDecl :=
  { s with fields := s.fields.map (.renumber g), line := g s.line }

/-- The schema with the numbers that its lines have under another count. -/
def SchemaModule.renumber (g : Nat → Nat) (m : SchemaModule) : SchemaModule :=
  { m with structs := m.structs.map (.renumber g) }

namespace Schema

/-- What has been read, with the numbers that its lines have under another count. -/
def State.renumber (g : Nat → Nat) : State → State
  | start => start
  | versioned version => versioned version
  | outside version package structs => outside version package (structs.map (.renumber g))
  | inside version package structs current =>
    inside version package (structs.map (.renumber g)) (current.renumber g)

variable {g : Nat → Nat}

theorem parseDeclaration_renumber (g : Nat → Nat) (type : TypeExpr) (number column : Nat)
    (segment : Text) :
    parseDeclaration type (g number) column segment =
      (parseDeclaration type number column segment).map (.renumber g) := by
  unfold parseDeclaration
  dsimp only
  split
  · rfl
  · split
    · rfl
    · split
      · rfl
      · split
        · rfl
        · cases parseDefault type _ _ <;> rfl

theorem parseDeclarations_renumber (g : Nat → Nat) (type : TypeExpr) (number column : Nat)
    (segments : List Text) :
    parseDeclarations type (g number) column segments =
      (parseDeclarations type number column segments).map (List.map (.renumber g)) := by
  induction segments generalizing column with
  | nil => rfl
  | cons segment segments ih =>
    rw [parseDeclarations, parseDeclarations, parseDeclaration_renumber]
    cases parseDeclaration type number column segment with
    | error e => rfl
    | ok f =>
      dsimp only [Except.map]
      rw [ih]
      cases parseDeclarations type number (column + segment.length + 1) segments <;> rfl

theorem parseFields_renumber (g : Nat → Nat) (number indent : Nat) (line : Text) :
    parseFields (g number) indent line =
      (parseFields number indent line).map (List.map (.renumber g)) := by
  unfold parseFields
  split
  · rfl
  · split
    · rfl
    · split
      · rfl
      · dsimp only
        split
        · rfl
        · split
          · rfl
          · exact parseDeclarations_renumber ..

theorem addFields_renumber (g : Nat → Nat) (fields fs : List FieldDecl) :
    addFields (fields.map (.renumber g)) (fs.map (.renumber g)) =
      (addFields fields fs).map (List.map (.renumber g)) := by
  induction fs generalizing fields with
  | nil => rfl
  | cons f fs ih =>
    have hany : ((fields.map (FieldDecl.renumber g)).any fun h => h.name == (f.renumber g).name) =
        fields.any fun h => h.name == f.name := by
      rw [List.any_map]
      rfl
    have hrest := ih (fields ++ [f])
    rw [List.map_append] at hrest
    rw [List.map_cons, addFields, addFields, hany]
    split
    · rfl
    · exact hrest

theorem State.step_renumber (g : Nat → Nat) (state : State) (number indent : Nat) (line : Text) :
    (state.renumber g).step (g number) indent line =
      (state.step number indent line).map (.renumber g) := by
  cases state with
  | start =>
    simp only [renumber, step]
    cases parseVersion indent line <;> rfl
  | versioned version =>
    simp only [renumber, step]
    cases parsePackage indent line <;> rfl
  | outside version package structs =>
    have hnames : (structs.map (StructDecl.renumber g)).map (·.name) = structs.map (·.name) := by
      rw [List.map_map]
      rfl
    simp only [renumber, step, hnames]
    cases parseHeader (structs.map (·.name)) indent line with
    | error e => rfl
    | ok header =>
      cases hc : header.closed <;> simp [Except.map, hc, renumber, StructDecl.renumber]
  | inside version package structs current =>
    simp only [renumber, step]
    split
    · simp [Except.map, renumber]
    · rw [parseFields_renumber]
      cases parseFields number indent line with
      | error e => rfl
      | ok fields =>
        have hfields := addFields_renumber g current.fields fields
        simp only [Except.map, StructDecl.renumber] at hfields ⊢
        rw [hfields]
        cases addFields current.fields fields <;> rfl

/-- Lines under other numbers are read as they were, with these numbers in what they declare. -/
theorem State.run_renumber {source : Text} {lines : List Text} {state final : State}
    {number number' : Nat} (hg : ∀ i < lines.length, g (number + i) = number' + i)
    (h : state.run source number lines = .ok final) :
    (state.renumber g).run source number' lines = .ok (final.renumber g) := by
  induction lines generalizing state number number' with
  | nil =>
    cases h
    rfl
  | cons raw lines ih =>
    have hnumber : g number = number' := hg 0 (Nat.succ_pos _)
    have hnext : ∀ i < lines.length, g (number + 1 + i) = number' + 1 + i := by
      intro i hi
      have hsucc := hg (i + 1) (Nat.succ_lt_succ hi)
      rwa [Nat.add_comm i 1, ← Nat.add_assoc, ← Nat.add_assoc] at hsucc
    by_cases hbody : body raw = []
    · rw [run_blank hbody] at h ⊢
      exact ih hnext h
    · have hstep := state.step_renumber g number (indentOf raw) (body raw)
      cases hs : state.step number (indentOf raw) (body raw) with
      | error e =>
        rw [run_error hbody hs] at h
        cases h
      | ok next =>
        rw [hs, hnumber] at hstep
        rw [run_ok hbody hs] at h
        rw [run_ok hbody hstep]
        exact ih hnext h

theorem State.run_append {source : Text} {before : List Text} {state : State} {number : Nat}
    (after : List Text) :
    state.run source number (before ++ after) =
      match state.run source number before with
      | .error e => .error e
      | .ok state => state.run source (number + before.length) after := by
  induction before generalizing state number with
  | nil => rfl
  | cons raw before ih =>
    rw [List.cons_append]
    by_cases hbody : body raw = []
    · rw [run_blank hbody, run_blank hbody, ih, List.length_cons, Nat.add_right_comm, Nat.add_assoc]
    · cases hs : state.step number (indentOf raw) (body raw) with
      | error e => rw [run_error hbody hs, run_error hbody hs]
      | ok next =>
        rw [run_ok hbody hs, run_ok hbody hs, ih, List.length_cons, Nat.add_right_comm,
          Nat.add_assoc]

theorem State.finish_renumber (g : Nat → Nat) {source : Text} {state : State} {m : SchemaModule}
    (h : state.finish source = .ok m) : (state.renumber g).finish source = .ok (m.renumber g) := by
  cases state <;> cases h
  rfl

end Schema

end RecordWire
