import RouteScaffold.Text.Separate

/-! Paths.

A path is held as it was spelled and printed as it is held. What it means is its
list of components: repeated slashes, a slash at the end and a dot in the middle
do not count, while `..` does. Two spellings of the same components name the same
file, and paths are ordered by their components.

Operations that take a path apart keep the spelling of the part that is left,
except that what does not count is cut off at its ends. -/
namespace RouteScaffold
open Text

structure Path where
  text : String
  deriving DecidableEq, Repr, Inhabited

namespace Path

inductive Component where
  | root
  /-- A dot in front of a relative path. -/
  | current
  | parent
  | normal (name : String)
  deriving DecidableEq, Repr

namespace Component

def rank : Component → Nat
  | .root => 0
  | .current => 1
  | .parent => 2
  | .normal _ => 3

def name : Component → String
  | .normal name => name
  | _ => ""

/-- The root comes first, then the dot, then `..`, then names in the order of their characters. -/
def compare (a b : Component) : Ordering :=
  (Ord.compare a.rank b.rank).then (compareOfLessAndEq a.name b.name)

end Component

/-! ### Taking a path apart -/

/-- A part of a path that does not count. -/
def isIdle (part : List Char) : Bool := part == [] || part == ['.']

/-- What a path starts with, apart from names. -/
inductive Lead where
  | root
  | current
  | nothing
  deriving DecidableEq, Repr

/-- A path as its lead and the parts behind it, those that do not count included. -/
structure Parts where
  lead : Lead
  body : List (List Char)
  deriving Repr

def parts (p : Path) : Parts :=
  match separate (· == '/') p.text.toList with
  | [] => ⟨.nothing, []⟩
  | first :: rest =>
    if first == ['.'] then ⟨.current, rest⟩
    else if first == [] && !rest.isEmpty then ⟨.root, rest⟩
    else ⟨.nothing, first :: rest⟩

def Parts.toPath (parts : Parts) : Path :=
  let body := List.intercalate ['/'] parts.body
  ⟨String.ofList <|
    match parts.lead with
    | .root => '/' :: body
    | .current => if parts.body.isEmpty then ['.'] else '.' :: '/' :: body
    | .nothing => body⟩

def Lead.components : Lead → List Component
  | .root => [.root]
  | .current => [.current]
  | .nothing => []

/-- The component that a part of the body stands for. -/
def component? (part : List Char) : Option Component :=
  if isIdle part then none
  else if part == ['.', '.'] then some .parent
  else some (.normal (String.ofList part))

def components (p : Path) : List Component :=
  p.parts.lead.components ++ p.parts.body.filterMap component?

/-- The names among the components. -/
def names (p : Path) : List String :=
  p.components.filterMap fun
    | .normal name => some name
    | _ => none

def isAbsolute (p : Path) : Bool := p.parts.lead == .root

/-! ### Comparing -/

/-- Whether two paths have the same components. -/
def same (p q : Path) : Bool := p.components == q.components

def compareComponents : List Component → List Component → Ordering
  | [], [] => .eq
  | [], _ :: _ => .lt
  | _ :: _, [] => .gt
  | a :: as, b :: bs => (a.compare b).then (compareComponents as bs)

def compare (p q : Path) : Ordering := compareComponents p.components q.components

def startsWith (p base : Path) : Bool := base.components.isPrefixOf p.components

def endsWith (p tail : Path) : Bool := tail.components.isSuffixOf p.components

/-! ### Joining -/

/-- `p` within `base`: an absolute path stands for itself. -/
def join (base p : Path) : Path :=
  if p.isAbsolute then p
  else if base.text == "" || base.text.toList.getLast? == some '/' then ⟨base.text ++ p.text⟩
  else ⟨base.text ++ "/" ++ p.text⟩

/-- `p`, taken from `base` if it is relative. -/
def resolve (base p : Path) : Path := if p.isAbsolute then p else base.join p

/-! ### The ends of a path -/

def dropIdle (body : List (List Char)) : List (List Char) := body.dropWhile isIdle

def dropIdleEnd (body : List (List Char)) : List (List Char) := (dropIdle body.reverse).reverse

/-- The path without its last component. The root has no parent, nor has the empty path. -/
def parent? (p : Path) : Option Path :=
  match dropIdle p.parts.body.reverse with
  | _ :: before => some (Parts.toPath ⟨p.parts.lead, (dropIdle before).reverse⟩)
  | [] => if p.parts.lead == .current then some ⟨""⟩ else none

/-- The last component, if it is a name. -/
def fileName? (p : Path) : Option String :=
  match dropIdle p.parts.body.reverse with
  | last :: _ => if last == ['.', '.'] then none else some (String.ofList last)
  | [] => none

/-- The body behind its first `n` parts that count. -/
def dropParts : Nat → List (List Char) → List (List Char)
  | 0, body => body
  | _, [] => []
  | n + 1, part :: body =>
    if isIdle part then dropParts (n + 1) body else dropParts n body

/-- What is left of `p` behind `base`, if `p` starts with it. -/
def stripBase? (p base : Path) : Option Path :=
  if p.startsWith base then
    match base.components.length, p.parts.lead with
    | 0, lead => some (Parts.toPath ⟨lead, dropIdleEnd p.parts.body⟩)
    | n + 1, .nothing =>
      some (Parts.toPath ⟨.nothing, dropIdleEnd (dropIdle (dropParts (n + 1) p.parts.body))⟩)
    | n + 1, _ =>
      some (Parts.toPath ⟨.nothing, dropIdleEnd (dropIdle (dropParts n p.parts.body))⟩)
  else none

end Path
end RouteScaffold
