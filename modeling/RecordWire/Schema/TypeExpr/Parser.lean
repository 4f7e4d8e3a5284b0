import RecordWire.Schema.Error

/-!
Reading type expressions. Blanks do not count. A list has one type in its brackets and a map two,
separated by the one comma that stands in no further brackets; everything else is a primitive or a
struct.
-/

namespace RecordWire

def CodePoint.startsName (c : CodePoint) : Bool := c.isLetter || c = CodePoint.ofChar '_'

def CodePoint.isInName (c : CodePoint) : Bool := c.startsName || c.isDigit

/-- ASCII letters, digits and underscores, with no digit in front. -/
def Text.isIdentifier : Text → Bool
  | [] => false
  | c :: t => c.startsName && t.all CodePoint.isInName

namespace TypeExpr

def depthAfter (depth : Int) (c : CodePoint) : Int :=
  if c = CodePoint.openBracket then depth + 1
  else if c = CodePoint.closeBracket then depth - 1
  else depth

def consPart (c : CodePoint) : List Text → List Text
  | [] => [[c]]
  | p :: ps => (c :: p) :: ps

/-- The parts between the commas that stand in no brackets; the depth counts the open ones. -/
def splitParts (depth : Int) : Text → List Text
  | [] => [[]]
  | c :: t =>
    if c = CodePoint.comma && depth = 0 then [] :: splitParts depth t
    else consPart c (splitParts (depthAfter depth c) t)

/-- What stands between a head and the closing bracket at the end. -/
def bracketed? (head t : Text) : Option Text :=
  match Text.dropPrefix? head t with
  | some rest => if rest.getLast? = some CodePoint.closeBracket then some rest.dropLast else none
  | none => none

theorem length_of_mem_splitParts {d : Int} {t p : Text} (h : p ∈ splitParts d t) :
    p.length ≤ t.length := by
  induction t generalizing d p with
  | nil => simp_all [splitParts]
  | cons c t ih =>
    rw [splitParts] at h
    split at h
    · rcases List.mem_cons.1 h with rfl | h
      · simp
      · exact Nat.le_succ_of_le (ih h)
    · generalize hp : splitParts (depthAfter d c) t = parts at h
      cases parts with
      | nil => simp_all [consPart]
      | cons q qs =>
        rcases List.mem_cons.1 h with rfl | h
        · exact Nat.succ_le_succ (ih (hp ▸ List.mem_cons_self))
        · exact Nat.le_succ_of_le (ih (hp ▸ List.mem_cons_of_mem q h))

theorem eq_of_bracketed {head t inner : Text} (h : bracketed? head t = some inner) :
    t = head ++ inner ++ [CodePoint.closeBracket] := by
  unfold bracketed? at h
  split at h
  · rename_i rest hr
    rw [Text.dropPrefix?_eq_some] at hr
    split at h
    · rename_i hl
      cases h
      obtain ⟨ys, hys⟩ := List.getLast?_eq_some_iff.1 hl
      subst hys
      simp [hr]
    · cases h
  · cases h

theorem length_of_bracketed {head t inner : Text} (h : bracketed? head t = some inner) :
    inner.length < t.length := by
  have := congrArg List.length (eq_of_bracketed h)
  simp at this
  omega

def listHead : Text := "list["
def mapHead : Text := "map["

/-- A primitive or a struct, or what is wrong with an expression that is neither list nor map. -/
def parseName (whole t : Text) : Except SchemaProblem TypeExpr :=
  if (Text.isPrefix "list" t || Text.isPrefix "map" t) && t.contains CodePoint.openBracket then
    .error (.parametricType (t.takeWhile (· ≠ CodePoint.openBracket)) whole)
  else
    match Text.splitOn '.' t with
    | [name] => if name.isIdentifier then .ok (.struct name none) else .error (.typeName whole)
    | [package, name] =>
      if package.isIdentifier && name.isIdentifier then .ok (.struct name (some package))
      else .error (.typeName whole)
    | _ => .error (.typeName whole)

def parseCompact (whole t : Text) : Except SchemaProblem TypeExpr :=
  match PrimitiveName.ofText? t with
  | some name => .ok (.primitive name)
  | none =>
    match _h : bracketed? listHead t with
    | some inner =>
      if inner.isEmpty then .error (.listType whole)
      else (parseCompact whole inner).map .list
    | none =>
      match _h : bracketed? mapHead t with
      | some inner =>
        match _h' : splitParts 0 inner with
        | [key, value] =>
          if key.isEmpty || value.isEmpty then .error (.mapType whole)
          else
            match parseCompact whole key with
            | .error e => .error e
            | .ok k => (parseCompact whole value).map (.map k)
        | _ => .error (.mapType whole)
      | none => parseName whole t
termination_by t.length
decreasing_by
  · exact length_of_bracketed _h
  · have h1 := length_of_bracketed _h
    have h2 := length_of_mem_splitParts (_h' ▸ List.mem_cons_self : key ∈ splitParts 0 inner)
    omega
  · have h1 := length_of_bracketed _h
    have h2 := length_of_mem_splitParts
      (_h' ▸ List.mem_cons_of_mem _ List.mem_cons_self : value ∈ splitParts 0 inner)
    omega

/-- Reads a type expression. -/
def parse (t : Text) : Except SchemaProblem TypeExpr := parseCompact t t.compact

end TypeExpr

end RecordWire
