import ScriptLint.Yaml.Node
import ScriptLint.Yaml.Number

/-! The values of documents. A plain scalar is a value of the kind it looks like, aliases are
replaced by what they stand for, and a mapping has each of its keys once. -/
namespace ScriptLint.Yaml

inductive Value where
  | null
  | bool (b : Bool)
  | number (n : Number)
  | string (s : String)
  | sequence (items : List Value)
  | mapping (entries : List (Value × Value))
  /-- A value with a tag that only the document itself gives a meaning to. -/
  | tagged (tag : String) (value : Value)

namespace Value

mutual

/-- Equality of values. The order of the entries of a mapping does not count. -/
def same : Value → Value → Bool
  | .null, .null => true
  | .bool a, .bool b => a == b
  | .number a, .number b => a == b
  | .string a, .string b => a == b
  | .sequence as, .sequence bs => sameItems as bs
  | .mapping as, .mapping bs => as.length == bs.length && sameEntries as bs
  | .tagged s a, .tagged t b => s == t && same a b
  | _, _ => false

def sameItems : List Value → List Value → Bool
  | [], [] => true
  | a :: as, b :: bs => same a b && sameItems as bs
  | _, _ => false

/-- Whether every entry of the first list is in the second. -/
def sameEntries : List (Value × Value) → List (Value × Value) → Bool
  | [], _ => true
  | a :: as, bs => bs.any (fun b => sameEntry a b) && sameEntries as bs

def sameEntry : Value × Value → Value × Value → Bool
  | (k,v), (l,w) => same k l && same v w

end

/-- A value without its tags. -/
def untagged : Value → Value
  | .tagged _ v => untagged v
  | v => v

def asBool? (v : Value) : Option Bool :=
  match v.untagged with
  | .bool b => some b
  | _ => none

def asString? (v : Value) : Option String :=
  match v.untagged with
  | .string s => some s
  | _ => none

def asItems? (v : Value) : Option (List Value) :=
  match v.untagged with
  | .sequence items => some items
  | _ => none

def asEntries? (v : Value) : Option (List (Value × Value)) :=
  match v.untagged with
  | .mapping entries => some entries
  | _ => none

/-- The value of an entry whose key is a text without a tag. -/
def entry? (entries : List (Value × Value)) (key : String) : Option Value :=
  (entries.find? fun (k,_) => same k (.string key)).map (·.2)

def isNull (cs : List Char) : Bool := ["null","Null","NULL","~"].contains (String.ofList cs)

def bool? (cs : List Char) : Option Bool :=
  let text := String.ofList cs
  if ["true","True","TRUE"].contains text then some true
  else if ["false","False","FALSE"].contains text then some false
  else none

/-- An integer of at most 64 bits. -/
def fits (n : Int) : Bool := -(Nat.pow 2 63 : Nat) ≤ n && n < (Nat.pow 2 64 : Nat)

/-- An integer of at most 128 bits. -/
def fitsTwice (n : Int) : Bool := -(Nat.pow 2 127 : Nat) ≤ n && n < (Nat.pow 2 128 : Nat)

/-- The integer that a text stands for, with `none` inside if it is of a size that is refused. -/
def integer? (cs : List Char) : Option (Option Value) :=
  match Number.integer? cs with
  | none => none
  | some n =>
    if fits n then some (some (.number (.integer n))) else if fitsTwice n then some none else none

/-- The value of a plain scalar. Integers that do not fit into 64 bits but into 128 are refused. -/
def ofPlain? (cs : List Char) : Option Value :=
  if cs.isEmpty || isNull cs then some .null
  else
    match bool? cs with
    | some b => some (.bool b)
    | none =>
      match integer? cs with
      | some v? => v?
      | none =>
        if Number.isPadded cs then some (.string (String.ofList cs))
        else
          match Number.other? cs with
          | some n => some (.number n)
          | none => some (.string (String.ofList cs))

/-- The value of a scalar without a tag of its own. -/
def ofScalar? (text : List Char) (plain : Bool) : Option Value :=
  if plain then ofPlain? text else some (.string (String.ofList text))

/-- The kinds of scalars that a tag can ask for. -/
inductive ScalarTag where
  | bool | int | float | null | other

def scalarTag (tag : List Char) : ScalarTag :=
  let text := String.ofList tag
  if text == "tag:yaml.org,2002:bool" then .bool
  else if text == "tag:yaml.org,2002:int" then .int
  else if text == "tag:yaml.org,2002:float" then .float
  else if text == "tag:yaml.org,2002:null" then .null
  else .other

/-- The value of a scalar with a tag that has a meaning everywhere. Tags of other kinds than the
listed ones make a text of it. -/
def ofTagged? (tag text : List Char) : Option Value :=
  match scalarTag tag with
  | .bool => (bool? text).map .bool
  | .int => (integer? text).bind id
  | .float => (Number.other? text).map .number
  | .null => if isNull text then some .null else none
  | .other => some (.string (String.ofList text))

/-- The number of collections that may lie in one another. -/
def maxDepth : Nat := 128

/-- The number of aliases that may be followed, for each node of the document. -/
def maxAliases : Nat := 100

/-- Reads the value of nodes while counting the aliases followed. -/
abbrev Expansion := StateT Nat Option

/-- The tag of a node if only the document itself gives it a meaning. -/
def localTag? (tag? : Option (List Char)) : Option (List Char) :=
  match tag? with
  | some ('!' :: name) => some name
  | _ => none

/-- Adds the tag of a node to its value. The empty tag is refused. -/
def addTag (tag? : Option (List Char)) (v : Value) : Expansion Value :=
  match localTag? tag? with
  | none => return v
  | some [] => fun _ => none
  | some name => return .tagged (String.ofList ('!' :: name)) v

/-- Adds an entry to those of a mapping, the last one first, if its key is new. -/
def addEntry (entries : List (Value × Value)) (key value : Value) : Expansion (List (Value × Value)) :=
  if entries.any fun (k,_) => same k key then fun _ => none else return (key,value) :: entries

/-- Takes what may be absent, without following an alias. -/
def given {α : Type} (a? : Option α) : Expansion α := fun n => a?.map (·,n)

/-- The value of a scalar. -/
def scalarValue (tag? : Option (List Char)) (text : List Char) (plain : Bool) : Expansion Value :=
  match tag? with
  | none => given (ofScalar? text plain)
  | some ('!' :: _) => do addTag tag? (← given (ofScalar? text plain))
  | some tag => given (ofTagged? tag text)

/-- The value of a node that is no alias, by the values of the nodes below it. There are none if
collections may not lie any deeper. -/
def directValue (below? : Option (Node → Expansion Value)) : Node → Expansion Value
  | .scalar tag? text plain => scalarValue tag? text plain
  | .sequence tag? items => do
    let below ← given below?
    addTag tag? (.sequence (← items.mapM below))
  | .mapping tag? entries => do
    let below ← given below?
    let es ← entries.foldlM (fun found e => do addEntry found (← below e.1) (← below e.2)) []
    addTag tag? (.mapping es.reverse)
  | .alias _ => given none

/-- The value of a node by the values of the nodes below it. -/
def nodeValue (doc : Document) (below? : Option (Node → Expansion Value)) : Node → Expansion Value
  | .alias anchor => do
    let followed ← get
    if maxAliases * doc.events ≤ followed then given none
    else
      set (followed + 1)
      directValue below? (← given (doc.anchors.lookup anchor))
  | node => directValue below? node

/-- The value of a node; `depth` more collections may lie in one another. -/
def ofNode (doc : Document) : (depth : Nat) → Node → Expansion Value
  | 0 => nodeValue doc none
  | depth + 1 => nodeValue doc (some (ofNode doc depth))

/-- The value of a text, if it is a document or empty. -/
def parse? (text : List Char) : Option Value := do
  let doc ← Document.read? text
  match doc.root? with
  | none => some .null
  | some root => ((ofNode doc maxDepth root).run 0).map (·.1)

end Value
end ScriptLint.Yaml
