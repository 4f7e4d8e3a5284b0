import RecordWire.Registry.Batch

/-!
The order in which the structs of a batch are built: depth first, so that every struct comes after
those that it refers to. A reference has to be to a struct of the batch or to a type known before,
and no struct may refer to itself, directly or through others.
-/

namespace RecordWire.BatchStruct

def find? (declared : List BatchStruct) (name : Text) : Option BatchStruct :=
  declared.find? fun d => d.name == name

/-- The names of a batch that a path does not lead through. -/
def offPath (declared : List BatchStruct) (path : List Text) : List BatchStruct :=
  declared.filter fun d => !path.contains d.name

theorem length_offPath_lt {declared : List BatchStruct} {path : List Text} {name : Text}
    {d : BatchStruct} (hd : find? declared name = some d) (hn : ¬ path.contains name = true) :
    (offPath declared (path ++ [name])).length < (offPath declared path).length := by
  have hm := List.mem_of_find?_eq_some hd
  have hname : d.name = name := by simpa using List.find?_some hd
  have hsub : offPath declared (path ++ [name]) =
      (offPath declared path).filter fun e => decide (e.name ≠ name) := by
    simp only [offPath, List.filter_filter]
    apply List.filter_congr
    intro e _
    simp [List.contains_eq_mem, Bool.and_comm]
  rw [hsub]
  refine Nat.lt_of_le_of_ne (List.length_filter_le _ _) fun h => ?_
  have hall := List.length_filter_eq_length_iff.1 h
  have hmem : d ∈ offPath declared path := by
    simp only [offPath, List.mem_filter]
    exact ⟨hm, by simpa [hname] using hn⟩
  simpa [hname] using hall d hmem

mutual

/-- Adds a struct to the order, after those that it refers to. The path has the names of the structs
whose references led to it. -/
def visit (declared : List BatchStruct) (known : Text → Bool) (path order : List Text)
    (name : Text) : Except SchemaError (List Text) :=
  if order.contains name then .ok order
  else
    match _hd : find? declared name with
    | none => .ok order
    | some d =>
      if _hp : path.contains name then
        .error (d.problem (.cycle (path.dropWhile (fun n => n ≠ name) ++ [name])))
      else
        (visitRefs declared known (path ++ [name]) d d.refs order).map (· ++ [name])
termination_by ((offPath declared path).length, 0)
decreasing_by
  have := length_offPath_lt _hd _hp
  simp only [Prod.lex_def]
  omega

def visitRefs (declared : List BatchStruct) (known : Text → Bool) (path : List Text) (d : BatchStruct)
    (refs : List (FieldDecl × StructRef)) (order : List Text) : Except SchemaError (List Text) :=
  match refs with
  | [] => .ok order
  | (f, ref) :: refs =>
    let target := ref.qualified d.module.package
    if (find? declared target).isSome then
      match visit declared known path order target with
      | .error e => .error e
      | .ok order => visitRefs declared known path d refs order
    else if known target then visitRefs declared known path d refs order
    else .error (d.problemAt f (.unknownType ref))
termination_by ((offPath declared path).length, refs.length + 1)

end

def visitAll (declared : List BatchStruct) (known : Text → Bool) :
    (order : List Text) → List BatchStruct → Except SchemaError (List Text)
  | order, [] => .ok order
  | order, d :: ds =>
    match visit declared known [] order d.name with
    | .error e => .error e
    | .ok order => visitAll declared known order ds

/-- The names of a batch in the order in which its structs are built. -/
def buildOrder (known : Text → Bool) (declared : List BatchStruct) : Except SchemaError (List Text) :=
  visitAll declared known [] declared

end RecordWire.BatchStruct
