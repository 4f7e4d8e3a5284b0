import RecordWire.Yaml.Node.Basic
import RecordWire.Yaml.Token.Lexer

/-!
From tokens to nodes. A text has one document at most. What is left out is the empty node: the value
of a key, a key after its mark, an entry without anything. Every function takes an amount of
fuel that bounds the tokens to come.
-/

namespace RecordWire.Yaml

abbrev Parsed (α : Type) := Option (α × List Token)

def goesOn (next : List Token) : List Token → Bool
  | [] => true
  | t :: _ => next.contains t

mutual

/-- Reads a node. The flags say whether it may be a block collection, and whether it may be a list
whose entries are not indented. -/
def parseNode (block indentless : Bool) : (fuel : Nat) → List Token → Parsed Node
  | 0, _ => none
  | fuel + 1, tokens =>
    match tokens with
    | .entry :: _ =>
      if indentless then
        (parseIndentless fuel tokens).map fun (items, rest) => (.list items, rest)
      else none
    | .scalar text plain :: rest => some (.scalar text plain, rest)
    | .openList :: rest =>
      (parseFlowList true fuel rest).map fun (items, rest) => (.list items, rest)
    | .openMap :: rest =>
      (parseFlowMap true fuel rest).map fun (entries, rest) => (.map entries, rest)
    | .blockList :: rest =>
      if block then (parseBlockList fuel rest).map fun (items, rest) => (.list items, rest)
      else none
    | .blockMap :: rest =>
      if block then (parseBlockMap fuel rest).map fun (entries, rest) => (.map entries, rest)
      else none
    | _ => none

/-- Reads a node, unless the tokens go on with one of those given. -/
def parseOr (next : List Token) (block indentless : Bool) :
    (fuel : Nat) → List Token → Parsed Node
  | 0, _ => none
  | fuel + 1, tokens =>
    if goesOn next tokens then some (.empty, tokens) else parseNode block indentless fuel tokens

def parseBlockList : (fuel : Nat) → List Token → Parsed (List Node)
  | 0, _ => none
  | fuel + 1, tokens =>
    match tokens with
    | .entry :: rest =>
      match parseOr [.entry, .blockEnd] true false fuel rest with
      | none => none
      | some (item, rest) =>
        (parseBlockList fuel rest).map fun (items, rest) => (item :: items, rest)
    | .blockEnd :: rest => some ([], rest)
    | _ => none

def parseIndentless : (fuel : Nat) → List Token → Parsed (List Node)
  | 0, _ => none
  | fuel + 1, tokens =>
    match tokens with
    | .entry :: rest =>
      match parseOr [.entry, .key, .value, .blockEnd] true false fuel rest with
      | none => none
      | some (item, rest) =>
        (parseIndentless fuel rest).map fun (items, rest) => (item :: items, rest)
    | _ => some ([], tokens)

def parseBlockMap : (fuel : Nat) → List Token → Parsed (List (Node × Node))
  | 0, _ => none
  | fuel + 1, tokens =>
    let ends : List Token := [.key, .value, .blockEnd]
    match tokens with
    | .key :: rest =>
      match parseOr ends true true fuel rest with
      | none => none
      | some (key, .value :: rest) =>
        match parseOr ends true true fuel rest with
        | none => none
        | some (value, rest) =>
          (parseBlockMap fuel rest).map fun (entries, rest) => ((key, value) :: entries, rest)
      | some (key, rest) =>
        (parseBlockMap fuel rest).map fun (entries, rest) => ((key, .empty) :: entries, rest)
    | .blockEnd :: rest => some ([], rest)
    | _ => none

/-- Reads the value of an entry of a flow collection, if there is a colon. -/
def parseFlowValue (ends : List Token) : (fuel : Nat) → List Token → Parsed Node
  | 0, _ => none
  | fuel + 1, tokens =>
    match tokens with
    | .value :: rest => parseOr ends false false fuel rest
    | _ => some (.empty, tokens)

/-- Reads the items of a flow list, of which the first has no comma before it. An item with a key is
a map of one entry. -/
def parseFlowList (first : Bool) : (fuel : Nat) → List Token → Parsed (List Node)
  | 0, _ => none
  | fuel + 1, tokens =>
    match tokens with
    | .closeList :: rest => some ([], rest)
    | _ =>
      let tokens? : Option (List Token) :=
        if first then some tokens
        else match tokens with
          | .comma :: rest => some rest
          | _ => none
      match tokens? with
      | none => none
      | some (.closeList :: rest) => some ([], rest)
      | some (.key :: rest) =>
        match parseOr [.value, .comma, .closeList] false false fuel rest with
        | none => none
        | some (key, rest) =>
          match parseFlowValue [.comma, .closeList] fuel rest with
          | none => none
          | some (value, rest) =>
            (parseFlowList false fuel rest).map fun (items, rest) =>
              (.map [(key, value)] :: items, rest)
      | some tokens =>
        match parseNode false false fuel tokens with
        | none => none
        | some (item, rest) =>
          (parseFlowList false fuel rest).map fun (items, rest) => (item :: items, rest)

/-- Reads the entries of a flow map, of which the first has no comma before it. -/
def parseFlowMap (first : Bool) : (fuel : Nat) → List Token → Parsed (List (Node × Node))
  | 0, _ => none
  | fuel + 1, tokens =>
    match tokens with
    | .closeMap :: rest => some ([], rest)
    | _ =>
      let tokens? : Option (List Token) :=
        if first then some tokens
        else match tokens with
          | .comma :: rest => some rest
          | _ => none
      match tokens? with
      | none => none
      | some (.closeMap :: rest) => some ([], rest)
      | some (.key :: rest) =>
        match parseOr [.value, .comma, .closeMap] false false fuel rest with
        | none => none
        | some (key, rest) =>
          match parseFlowValue [.comma, .closeMap] fuel rest with
          | none => none
          | some (value, rest) =>
            (parseFlowMap false fuel rest).map fun (entries, rest) =>
              ((key, value) :: entries, rest)
      | some tokens =>
        match parseNode false false fuel tokens with
        | none => none
        | some (key, rest) =>
          (parseFlowMap false fuel rest).map fun (entries, rest) =>
            ((key, .empty) :: entries, rest)

end

/-- Reads the one document that tokens may have, and nothing after it. -/
def parseDocument (tokens : List Token) : Option (Option Node) :=
  let fuel := 4 * tokens.length + 4
  let ends (rest : List Token) : Bool := rest.all fun t => t = .documentEnd
  match tokens with
  | [] => some none
  | .documentStart :: rest =>
    match parseOr [.documentStart, .documentEnd] true false fuel rest with
    | none => none
    | some (node, rest) => if ends rest then some (some node) else none
  | tokens =>
    match parseNode true false fuel tokens with
    | none => none
    | some (node, rest) => if ends rest then some (some node) else none

end RecordWire.Yaml
