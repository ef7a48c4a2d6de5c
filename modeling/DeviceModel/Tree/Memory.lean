import DeviceModel.Backend
import DeviceModel.Path
import DeviceModel.Trie

/-!
A file system held in memory. Each node stands at its place, the names from the root down to
it; a directory holds the names of its children in the order in which they were first put
there.

Links are followed for every name on the way, and each time the way starts again from the
root. After forty links a path counts as leading nowhere.
-/

namespace DeviceModel

inductive MemoryNode where
  | directory (children : List String)
  | file (content : Text.Bytes) (mode : UInt32)
  | link (target : String)
  deriving DecidableEq

/-- The names from the root down to a node. -/
abbrev Place := List String

structure MemoryTree where
  nodes : Trie String MemoryNode
  unreadable : List Place

namespace MemoryTree

def empty : MemoryTree := ⟨Trie.empty.put [] (.directory []), []⟩

def node? (t : MemoryTree) (place : Place) : Option MemoryNode := t.nodes.get? place

/-- Where a path starts to be looked up. A path that is not absolute is read from the root by
the names of its normal form, and those that go up are found nowhere. -/
def address (path : String) : Place := Path.names (Path.normalize path)

/-! ### Edits -/

def set (t : MemoryTree) (place : Place) (n : MemoryNode) : MemoryTree :=
  { t with nodes := t.nodes.put place n }

theorem node?_set (t : MemoryTree) (p q : Place) (n : MemoryNode) :
    (t.set p n).node? q = if q = p then some n else t.node? q := t.nodes.get?_put p q n

/-- Adds a name to the children of a directory. A name that is there keeps its position. -/
def addChild (t : MemoryTree) (place : Place) (name : String) : MemoryTree :=
  match t.node? place with
  | some (.directory children) =>
    if name ∈ children then t else t.set place (.directory (children ++ [name]))
  | _ => t

/-- Puts a node in its place. A directory that is there stays, with its children. -/
def put (t : MemoryTree) (place : Place) (n : MemoryNode) : MemoryTree :=
  match n, t.node? place with
  | .directory _, some (.directory _) => t
  | n, _ => t.set place n

/-- Puts a node at the end of the way `rest` below `here`. Whatever stands on the way becomes
a directory. -/
def insertBelow (t : MemoryTree) (here : Place) (n : MemoryNode) : List String → MemoryTree
  | [] => t
  | [name] => (t.addChild here name).put (here ++ [name]) n
  | name :: next :: rest =>
    (((t.addChild here name).put (here ++ [name]) (.directory [])).insertBelow
      (here ++ [name]) n (next :: rest))

/-- Puts a node at a path. One that is not absolute only enters its first name among the
children of the root. -/
def insert (t : MemoryTree) (path : String) (n : MemoryNode) : MemoryTree :=
  if Path.isAbsolute path then t.insertBelow [] n (address path)
  else
    match address path with
    | name :: _ => t.addChild [] name
    | [] => t

inductive Edit where
  | directory (path : String)
  | file (path value : String) (mode : UInt32)
  | link (path target : String)
  | unreadable (path : String)
  deriving DecidableEq

def apply (t : MemoryTree) : Edit → MemoryTree
  | .directory path => t.insert path (.directory [])
  | .file path value mode => t.insert path (.file (Text.encode value) mode)
  | .link path target => t.insert path (.link target)
  | .unreadable path =>
    let t := t.insert path (.directory [])
    if Path.isAbsolute path then { t with unreadable := address path :: t.unreadable } else t

def applyAll (t : MemoryTree) (edits : List Edit) : MemoryTree := edits.foldl apply t

@[simp] theorem applyAll_nil (t : MemoryTree) : t.applyAll [] = t := rfl
@[simp] theorem applyAll_cons (t : MemoryTree) (e : Edit) (es : List Edit) :
    t.applyAll (e :: es) = (t.apply e).applyAll es := rfl

/-! ### Reading -/

/-- Goes down from `here` by the names of `rest`. At a link it goes on with `onLink` and the
way that is then left from the root; a link at the end counts only if `last` holds. -/
def follow (t : MemoryTree) (last : Bool) (onLink : List String → Except Error Place) :
    Place → List String → Except Error Place
  | here, [] => .ok here
  | here, name :: rest =>
    match t.node? (here ++ [name]) with
    | none => .error .notFound
    | some (.link target) =>
      if last || !rest.isEmpty then onLink (Path.walk target here ++ rest)
      else t.follow last onLink (here ++ [name]) rest
    | some _ => t.follow last onLink (here ++ [name]) rest

/-- Follows at most `hops` links. -/
def resolveWithin (t : MemoryTree) (last : Bool) : Nat → List String → Except Error Place
  | 0 => t.follow last (fun _ => .error .notFound) []
  | hops + 1 => t.follow last (t.resolveWithin last hops) []

def maxHops : Nat := 40

def resolve (t : MemoryTree) (path : String) : Except Error Place :=
  t.resolveWithin true maxHops (address path)

def stat (t : MemoryTree) (path : String) : Except Error NodeKind := do
  match t.node? (← t.resolve path) with
  | some (.directory _) => return .directory
  | some (.file _ _) => return .file
  | some (.link _) => return .symlink
  | none => throw .notFound

/-- The entry of a child. A name without a node has none. -/
def entry? (t : MemoryTree) (place : Place) (name : String) : Option Entry :=
  (t.node? (place ++ [name])).map fun
    | .directory _ => ⟨name, .directory, 0o755⟩
    | .file _ mode => ⟨name, .file, mode⟩
    | .link _ => ⟨name, .symlink, 0o777⟩

def readDir (t : MemoryTree) (path : String) : Except Error Listing := do
  let place ← t.resolve path
  if place ∈ t.unreadable then throw .readError
  match t.node? place with
  | some (.directory children) => return { entries := children.filterMap (t.entry? place) }
  | _ => throw .notFound

def readLink (t : MemoryTree) (path : String) : Except Error String := do
  match t.node? (← t.resolveWithin false maxHops (address path)) with
  | some (.link target) => return target
  | some _ => throw .invalidArgument
  | none => throw .notFound

def readAttr (t : MemoryTree) (path : String) : Except Error Text.Bytes := do
  match t.node? (← t.resolve path) with
  | some (.file content _) => return content
  | some _ => throw .invalidArgument
  | none => throw .notFound

def realPath (t : MemoryTree) (path : String) : Except Error String := do
  return Path.render (← t.resolve path)

/-- One more than the length of the longest place: no chain of directories is longer. -/
def depth (t : MemoryTree) : Nat := t.nodes.height + 1

def backend (t : MemoryTree) : Backend where
  stat := t.stat
  readDir := t.readDir
  readLink := t.readLink
  readAttr := t.readAttr
  realPath := t.realPath
  depth := t.depth

end MemoryTree

end DeviceModel
