import ScriptLint.Yaml.Scan

/-! The nodes of a document. -/
namespace ScriptLint.Yaml

/-- A node with the tag it was given. An alias has the number of the anchor it refers to. -/
inductive Node where
  | scalar (tag? : Option (List Char)) (text : List Char) (plain : Bool)
  | sequence (tag? : Option (List Char)) (items : List Node)
  | mapping (tag? : Option (List Char)) (entries : List (Node × Node))
  | alias (anchor : Nat)
  deriving Repr

/-- A scalar that is not written. -/
def Node.blank : Node := .scalar none [] true

/-- What is read, and the anchors seen on the way. -/
structure Reading where
  rest : List Lexeme
  /-- What tag handles stand for. -/
  handles : List (List Char × List Char)
  /-- The numbers of anchors by their names. -/
  names : List (List Char × Nat)
  /-- The anchored nodes that anchors stand for, by the order in which those begin; the last one
  given to an anchor counts. -/
  owners : List (Nat × Nat)
  /-- The anchored nodes that are complete. -/
  nodes : List (Nat × Node)
  /-- The number of anchored nodes that have begun. -/
  begun : Nat
  /-- The number of nodes and of ends of collections. -/
  events : Nat

/-- What a tag handle stands for unless it is declared otherwise. -/
def standardHandles : List (List Char × List Char) :=
  [(['!'],['!']),(['!','!'],"tag:yaml.org,2002:".toList)]

abbrev NodeReader := StateT Reading Option

namespace NodeReader

def peek? : NodeReader (Option Lexeme) := do return (← get).rest.head?

/-- Passes over a lexeme. -/
def pass : NodeReader Unit := modify fun r => { r with rest := r.rest.drop 1 }

/-- Passes over a given lexeme if it comes next. -/
def passIf (l : Lexeme) : NodeReader Bool := do
  if (← peek?) == some l then
    pass
    return true
  else return false

def fail {α : Type} : NodeReader α := fun _ => none

def count (n : Nat) : NodeReader Unit := modify fun r => { r with events := r.events + n }

/-- A scalar that is not written. -/
def blank : NodeReader Node := do
  count 1
  return .blank

/-- Gives an anchor its number: as many as there are names yet. -/
def bindAnchor (name : List Char) : NodeReader Nat := do
  let r ← get
  let number := r.names.length
  let names := (r.names.filter (·.1 != name)) ++ [(name,number)]
  set { r with names := names, owners := (number,r.begun) :: r.owners, begun := r.begun + 1 }
  return r.begun

/-- The tag that a handle and a suffix stand for. -/
def resolveTag (handle suffix : List Char) : NodeReader (List Char) := do
  if handle.isEmpty then return suffix
  else
    match (← get).handles.lookup handle with
    | some stem => return stem ++ suffix
    | none => fail

/-- The anchor and the tag before a node, in any order. -/
def properties : NodeReader (Option (List Char) × Option (List Char)) := do
  match ← peek? with
  | some (.anchor name) =>
    pass
    match ← peek? with
    | some (.tag handle suffix) =>
      pass
      return (some name,some (← resolveTag handle suffix))
    | _ => return (some name,none)
  | some (.tag handle suffix) =>
    pass
    match ← peek? with
    | some (.anchor name) =>
      pass
      return (some name,some (← resolveTag handle suffix))
    | _ => return (none,some (← resolveTag handle suffix))
  | _ => return (none,none)

/-- Whether what comes next ends an entry of a collection. -/
def endsEntry (ends : List Lexeme) : NodeReader Bool := do
  match ← peek? with
  | none => return false
  | some l => return ends.contains l

/-- Passes over the comma before an item that is not the first one. -/
def separate (first : Bool) : NodeReader Unit := do
  if first then return
  else if ← passIf .flowEntry then return
  else fail

mutual

/-- Reads a node. Block collections may stand only in blocks, and entries without a collection of
their own only after a key. -/
def node : Nat → (inBlock afterKey : Bool) → NodeReader Node
  | 0, _, _ => fail
  | fuel + 1, inBlock, afterKey => do
    match ← peek? with
    | some (.alias name) =>
      pass
      count 1
      match (← get).names.lookup name with
      | some number => return .alias number
      | none => fail
    | _ =>
      let (anchor?,tag?) ← properties
      let owner? ← anchor?.mapM bindAnchor
      let found ← content fuel inBlock afterKey tag? (anchor?.isSome || tag?.isSome)
      match owner? with
      | none => return found
      | some owner =>
        modify fun r => { r with nodes := (owner,found) :: r.nodes }
        return found

/-- Reads a node after its anchor and tag. -/
def content : Nat → (inBlock afterKey : Bool) → Option (List Char) → (marked : Bool) → NodeReader Node
  | 0, _, _, _, _ => fail
  | fuel + 1, inBlock, afterKey, tag?, marked => do
    match ← peek? with
    | some .blockEntry =>
      if afterKey then
        count 2
        return .sequence tag? (← bareItems fuel)
      else if marked then
        count 1
        return .scalar tag? [] true
      else fail
    | some (.scalar text plain) =>
      pass
      count 1
      return .scalar tag? text plain
    | some .flowSequence =>
      pass
      count 2
      return .sequence tag? (← flowItems fuel true)
    | some .flowMapping =>
      pass
      count 2
      return .mapping tag? (← flowEntries fuel true)
    | some .blockSequence =>
      if inBlock then
        pass
        count 2
        return .sequence tag? (← blockItems fuel)
      else if marked then
        count 1
        return .scalar tag? [] true
      else fail
    | some .blockMapping =>
      if inBlock then
        pass
        count 2
        return .mapping tag? (← blockEntries fuel)
      else if marked then
        count 1
        return .scalar tag? [] true
      else fail
    | _ =>
      if marked then
        count 1
        return .scalar tag? [] true
      else fail

/-- Reads the items of a block sequence up to its end. -/
def blockItems : Nat → NodeReader (List Node)
  | 0 => fail
  | fuel + 1 => do
    if ← passIf .blockEntry then
      let item ← if ← endsEntry [.blockEntry,.blockEnd] then blank else node fuel true false
      return item :: (← blockItems fuel)
    else if ← passIf .blockEnd then return []
    else fail

/-- Reads the items of a sequence that stands at the column of its key. -/
def bareItems : Nat → NodeReader (List Node)
  | 0 => fail
  | fuel + 1 => do
    if ← passIf .blockEntry then
      let item ←
        if ← endsEntry [.blockEntry,.key,.value,.blockEnd] then blank else node fuel true false
      return item :: (← bareItems fuel)
    else return []

/-- Reads the entries of a block mapping up to its end. -/
def blockEntries : Nat → NodeReader (List (Node × Node))
  | 0 => fail
  | fuel + 1 => do
    if ← passIf .key then
      let key ← if ← endsEntry [.key,.value,.blockEnd] then blank else node fuel true true
      let value ←
        if ← passIf .value then
          if ← endsEntry [.key,.value,.blockEnd] then blank else node fuel true true
        else blank
      return (key,value) :: (← blockEntries fuel)
    else if ← passIf .blockEnd then return []
    else fail

/-- Reads the items of a sequence in brackets. An item with a colon is a mapping of one entry. -/
def flowItems : Nat → (first : Bool) → NodeReader (List Node)
  | 0, _ => fail
  | fuel + 1, first => do
    if ← passIf .flowSequenceEnd then return []
    separate first
    if ← passIf .flowSequenceEnd then return []
    else if ← passIf .key then
      count 2
      let key ← if ← endsEntry [.value,.flowEntry,.flowSequenceEnd] then blank else node fuel false false
      let value ←
        if ← passIf .value then
          if ← endsEntry [.flowEntry,.flowSequenceEnd] then blank else node fuel false false
        else blank
      return .mapping none [(key,value)] :: (← flowItems fuel false)
    else
      let item ← node fuel false false
      return item :: (← flowItems fuel false)

/-- Reads the entries of a mapping in braces. -/
def flowEntries : Nat → (first : Bool) → NodeReader (List (Node × Node))
  | 0, _ => fail
  | fuel + 1, first => do
    if ← passIf .flowMappingEnd then return []
    separate first
    if ← passIf .flowMappingEnd then return []
    else if ← passIf .key then
      let key ← if ← endsEntry [.value,.flowEntry,.flowMappingEnd] then blank else node fuel false false
      let value ←
        if ← passIf .value then
          if ← endsEntry [.flowEntry,.flowMappingEnd] then blank else node fuel false false
        else blank
      return (key,value) :: (← flowEntries fuel false)
    else
      let key ← node fuel false false
      let value ← blank
      return (key,value) :: (← flowEntries fuel false)

end

/-- Reads the directives before a document. A version may be given once, and a handle once. -/
def directives : Nat → (version? : Option (Nat × Nat)) → List (List Char × List Char) →
    NodeReader (List (List Char × List Char))
  | 0, _, _ => fail
  | fuel + 1, version?, handles => do
    match ← peek? with
    | some (.version major minor) =>
      pass
      if version?.isSome || major != 1 || (minor != 1 && minor != 2) then fail
      else directives fuel (some (major,minor)) handles
    | some (.tagHandle handle stem) =>
      pass
      if (handles.lookup handle).isSome then fail
      else directives fuel version? (handles ++ [(handle,stem)])
    | _ => return handles

/-- Passes over marks that end a document. -/
def passEnds : Nat → NodeReader Unit
  | 0 => pure ()
  | fuel + 1 => do if ← passIf .documentEnd then passEnds fuel

/-- Reads the only document of a text; a text may also have none. Directives need a mark that starts the
document. -/
def document (fuel : Nat) : NodeReader (Option Node) := do
  match ← peek? with
  | none => return none
  | some first =>
    let declared ← directives fuel none []
    modify fun r => { r with handles := declared ++ standardHandles }
    let directed := match first with
      | .version .. => true
      | .tagHandle .. => true
      | _ => false
    let started ← passIf .documentStart
    if directed && !started then fail
    else
      let ended := match ← peek? with
        | none => started
        | some .documentStart => started
        | some .documentEnd => started
        | some (.version ..) => started
        | some (.tagHandle ..) => started
        | _ => false
      let root ← if ended then blank else node fuel true false
      passEnds fuel
      match ← peek? with
      | none => return some root
      | some _ => fail

end NodeReader

/-- A document that was read: its root and, by the numbers of anchors, the nodes they stand for. -/
structure Document where
  root? : Option Node
  anchors : List (Nat × Node)
  events : Nat

/-- Reads a text of one document at most. -/
def Document.read? (text : List Char) : Option Document := do
  let ls ← lexemes? text
  let (root?,r) ← (NodeReader.document (4 * ls.length + 8)).run ⟨ls,[],[],[],[],0,0⟩
  let anchors := r.owners.filterMap fun (number,owner) => (r.nodes.lookup owner).map (number,·)
  some ⟨root?,anchors,r.events⟩

end ScriptLint.Yaml
