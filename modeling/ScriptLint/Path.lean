/-! Names of files and folders. A path is its text; what it means is the list of its components, in
which repeated slashes, inner dots and a slash at the end leave no trace. -/
namespace ScriptLint
namespace Path

/-- A step on the way that a path describes. -/
inductive Component where
  /-- The slash at the beginning. -/
  | root
  /-- A dot at the beginning. -/
  | here
  /-- Two dots. -/
  | up
  | name (s : List Char)
  deriving Repr, DecidableEq

/-- The parts of a text between its slashes. -/
def split : List Char → List (List Char)
  | [] => [[]]
  | c :: rest =>
    if c = '/' then [] :: split rest
    else
      match split rest with
      | [] => [[c]]
      | part :: parts => (c :: part) :: parts

/-- Puts slashes between parts. -/
def unite : List (List Char) → List Char
  | [] => []
  | [part] => part
  | part :: parts => part ++ '/' :: unite parts

/-- Parts that lead nowhere. -/
def isIdle (part : List Char) : Bool := part == [] || part == ['.']

/-- The component of a part that is not the first. -/
def inner? (part : List Char) : Option Component :=
  if isIdle part then none
  else if part = ['.','.'] then some .up
  else some (.name part)

/-- The component of the first part; there is `more` after it if a slash follows. -/
def first? (part : List Char) (more : Bool) : Option Component :=
  if part = [] then (if more then some .root else none)
  else if part = ['.'] then some .here
  else inner? part

/-- The parts of a path, each with its component. -/
def labelled (path : String) : List (List Char × Option Component) :=
  match split path.toList with
  | [] => []
  | part :: parts => (part,first? part !parts.isEmpty) :: parts.map fun p => (p,inner? p)

def components (path : String) : List Component := (labelled path).filterMap (·.2)

/-- The order of components: the root, a dot, two dots, and names by their code points, which is the
order of their bytes. -/
def Component.order : Component → Component → Ordering
  | .root, .root => .eq
  | .root, _ => .lt
  | _, .root => .gt
  | .here, .here => .eq
  | .here, _ => .lt
  | _, .here => .gt
  | .up, .up => .eq
  | .up, _ => .lt
  | _, .up => .gt
  | .name a, .name b => compare (String.ofList a) (String.ofList b)

/-- Compares lists of components one after the other. -/
def orderComponents : List Component → List Component → Ordering
  | [], [] => .eq
  | [], _ => .lt
  | _, [] => .gt
  | a :: as, b :: bs => (a.order b).then (orderComponents as bs)

/-- The order of paths. -/
def order (a b : String) : Ordering := orderComponents (components a) (components b)

/-- Whether two paths have the same components. -/
def same (a b : String) : Bool := components a == components b

/-- Leaves out every path that is the same as the one before it. -/
def dropRepeats : List String → List String
  | [] => []
  | p :: ps =>
    match dropRepeats ps with
    | [] => [p]
    | q :: qs => if same p q then p :: qs else p :: q :: qs

/-- Paths in order, each once. Of paths that are the same the first one stays. -/
def sortUnique (paths : List String) : List String :=
  dropRepeats (paths.mergeSort fun a b => (order a b).isLE)

/-- Leaves out idle parts at the end, all but the first part of a path. -/
def trimEnd (parts : List (List Char × Option Component)) : List (List Char × Option Component) :=
  match parts with
  | [] => []
  | p :: ps => p :: (ps.reverse.dropWhile (·.2.isNone)).reverse

/-- The text of parts that begin a path. -/
def textOf (parts : List (List Char × Option Component)) : String :=
  match parts with
  | [(_,some .root)] => "/"
  | _ => String.ofList (unite (parts.map (·.1)))

/-- The parts after those that make up some given components. -/
def dropComponents : List Component → List (List Char × Option Component) →
    Option (List (List Char × Option Component))
  | [], parts => some parts
  | _ :: _, [] => none
  | c :: cs, (_,none) :: parts => dropComponents (c :: cs) parts
  | c :: cs, (_,some d) :: parts => if c = d then dropComponents cs parts else none
  termination_by _ parts => parts.length

/-- What is left of a path below a folder. -/
def relativeTo? (dir path : String) : Option String :=
  match components dir with
  | [] => some (textOf (trimEnd (labelled path)))
  | c :: cs =>
    (dropComponents (c :: cs) (labelled path)).map fun parts =>
      let tail := parts.dropWhile (·.2.isNone)
      String.ofList (unite ((tail.reverse.dropWhile (·.2.isNone)).reverse.map (·.1)))

/-- A path without the dot at its beginning. -/
def undotted (path : String) : String := (relativeTo? "./" path).getD path

/-- The folder that a path lies in. The root and the empty path lie in none. -/
def parent? (path : String) : Option String :=
  let parts := labelled path
  match (parts.reverse.dropWhile (·.2.isNone)) with
  | [] => none
  | (_,some .root) :: _ => none
  | _ :: rest => some (textOf (trimEnd rest.reverse))

/-- The path of something in a folder. -/
def join (dir name : String) : String :=
  if dir.isEmpty || dir.endsWith "/" then dir ++ name else dir ++ "/" ++ name

/-- The name that a path ends in, if it ends in one. -/
def fileName? (path : String) : Option (List Char) :=
  match (components path).getLast? with
  | some (.name s) => some s
  | _ => none

/-- What follows the last dot of a name. A dot at the beginning of a name does not count. -/
def extension? (path : String) : Option (List Char) :=
  match fileName? path with
  | none => none
  | some s =>
    let ending := s.reverse.takeWhile (· ≠ '.')
    if ending.length + 1 < s.length then some ending.reverse else none

/-- The extensions of script files. -/
def scriptExtensions : List String := ["js","mjs","cjs"]

def isScript (path : String) : Bool :=
  match extension? path with
  | some e => scriptExtensions.contains (String.ofList e)
  | none => false

end Path
end ScriptLint
