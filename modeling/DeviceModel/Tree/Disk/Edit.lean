import DeviceModel.Tree.Disk

/-!
Edits of a file system by one who has no rights but an owner's. Directories are made and taken
away by several requests, each of which resolves its path anew.
-/

namespace DeviceModel.DiskTree

/-- The directory that holds `scratch` and what is below it belong to the one who edits. -/
def isOwn (t : DiskTree) (place : List Text.Bytes) : Bool := t.scratch.dropLast.isPrefixOf place

def put (t : DiskTree) (place : List Text.Bytes) (n : DiskNode) : Except Refusal DiskTree :=
  if t.isOwn place then .ok { t with nodes := t.nodes.put place n } else .error .denied

/-- The directory in which the last entry of a path is looked for, and the entry's name. -/
def lastEntry (t : DiskTree) (path : Text.Bytes) :
    Except Refusal (List Text.Bytes × Text.Bytes) := do
  accepts .entry path
  let names := Text.parts (· == 47) path
  let here ← t.resolveWithin .entry maxHops (t.start path) (names.dropLast ++ [[]])
  return (here, names.getLast?.getD [])

/-- The place of the entry that a path leaves to be made. -/
def vacancy (t : DiskTree) (path : Text.Bytes) : Except Refusal (List Text.Bytes) := do
  let (here, name) ← t.lastEntry path
  let place := here ++ [name]
  if isStep name then throw .occupied
  if name.length > maxName then throw .nameTooLong
  if (t.node? place).isSome then throw .occupied
  return place

/-! ### Directories -/

/-- Makes one directory, which may be there. -/
def makeDirectory (t : DiskTree) (path : Text.Bytes) : Except Refusal DiskTree :=
  match t.vacancy path with
  | .ok place => t.put place .directory
  | .error .occupied =>
    match t.stat path with
    | .ok .directory => .ok t
    | _ => .error .occupied
  | .error r => .error r

/-- Makes a directory. Where the way to it is missing, that is made first; its names stand in
`above`, the last one first. -/
def makeWay (t : DiskTree) : Text.Bytes → List Text.Bytes → Except Refusal DiskTree
  | path, [] => t.makeDirectory path
  | path, name :: above =>
    match t.makeDirectory path with
    | .error .noEntry => do
      (← t.makeWay (render (name :: above).reverse) above).makeDirectory path
    | r => r

/-- The names on the way to what holds the last entry of a path, the last one first. -/
def holders (path : Text.Bytes) : List Text.Bytes :=
  ((Text.parts (· == 47) path).filter (· ≠ [46])).dropLast.reverse

/-- Makes a directory and those above it. -/
def makeDirectories (t : DiskTree) (path : Text.Bytes) : Except Refusal DiskTree :=
  t.makeWay path (holders path)

/-- Makes the directories above the last entry of a path. -/
def makeHolders (t : DiskTree) (path : Text.Bytes) : Except Refusal DiskTree :=
  t.makeDirectories (render (holders path).reverse)

/-! ### Files and links -/

/-- Makes a file, or writes the one to which a path leads. -/
def write (t : DiskTree) (path content : Text.Bytes) (mode : UInt32) :
    Except Refusal DiskTree := do
  let place ← t.resolve .writing path
  match t.node? place with
  | none => pure ()
  | some (.file _ old) => if old &&& 0o200 = 0 then throw .denied
  | some _ => throw .isDirectory
  t.put place (.file content (mode &&& 0o7777))

def makeLink (t : DiskTree) (path target : Text.Bytes) : Except Refusal DiskTree := do
  if 0 ∈ path then throw .invalid
  accepts .entry target
  let place ← t.vacancy path
  if path.getLast? = some 47 then throw .noEntry
  t.put place (.link target)

/-! ### Taking away -/

/-- Takes away the directory, empty by now, that is the last entry of a path. Where the way
there has gone with what was in it, the directory stays. -/
def removeDirectory (t : DiskTree) (path : Text.Bytes) : Except Refusal DiskTree :=
  match t.lastEntry path with
  | .error .noEntry => .ok t
  | .error r => .error r
  | .ok (here, name) =>
    if name = [46] then .error .invalid
    else if name = [46, 46] then .error .notEmpty
    else
      match t.node? (here ++ [name]) with
      | none => .ok t
      | some .directory => .ok { t with nodes := t.nodes.prune (here ++ [name]) }
      | some _ => .error .notDirectory

/-- Takes away what a path leads to. A directory is emptied first, with all below it. -/
def remove (t : DiskTree) (path : Text.Bytes) : Except Refusal DiskTree := do
  let place ← t.resolve .entry path
  if !t.isOwn place then throw .denied
  if t.isDirectory place then
    ({ t with nodes := t.nodes.bare place } : DiskTree).removeDirectory path
  else return { t with nodes := t.nodes.prune place }

/-! ### Edits -/

/-- Paths are below `scratch`. With `parents`, the directories missing on the way are made. -/
inductive Edit where
  | directory (path : Text.Bytes)
  | file (parents : Bool) (path content : Text.Bytes) (mode : UInt32)
  | link (parents : Bool) (path target : Text.Bytes)
  | remove (path : Text.Bytes)
  deriving DecidableEq

def below (t : DiskTree) (path : Text.Bytes) : Text.Bytes :=
  render t.scratch ++ 47 :: path.dropWhile (· == 47)

/-- The tree after an edit that is not refused. -/
def apply (t : DiskTree) : Edit → Except Refusal DiskTree
  | .directory path => t.makeDirectories (t.below path)
  | .file parents path content mode => do
    let made ← if parents then t.makeHolders (t.below path) else pure t
    made.write (t.below path) content mode
  | .link parents path target => do
    let made ← if parents then t.makeHolders (t.below path) else pure t
    made.makeLink (t.below path) target
  | .remove path => t.remove (t.below path)

/-- Makes a directory at a place and all directories above it, whoever owns them. -/
def furnish (nodes : Trie Text.Bytes DiskNode) (place : List Text.Bytes) :
    Trie Text.Bytes DiskNode :=
  ((List.range (place.length + 1)).map place.take).foldl (·.put · .directory) nodes

/-- Nothing but an empty scratch directory, an empty directory to work in and the directories
above them. -/
def ofPlaces (scratch work : List Text.Bytes) : DiskTree :=
  ⟨furnish (furnish .empty scratch) work, scratch, work⟩

end DeviceModel.DiskTree
