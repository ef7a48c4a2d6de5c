import DeviceModel.Backend
import DeviceModel.Text.Split
import DeviceModel.Tree.Refusal
import DeviceModel.Trie

/-!
A file system as the kernel resolves paths in it. Names are octets. A way is gone name by
name: every link on it is followed where it stands, and `..` goes to the parent of the
directory that has been reached. A path that ends in a slash must lead to a directory.

Listings hold the names that are text, in the order of their octets.
-/

namespace DeviceModel

inductive DiskNode where
  | directory
  | file (content : Text.Bytes) (mode : UInt32)
  | link (target : Text.Bytes)
  deriving DecidableEq

/-- Edits are made in the directory `scratch`. A path that does not begin with a slash starts
from the directory `work`. -/
structure DiskTree where
  nodes : Trie Text.Bytes DiskNode
  scratch : List Text.Bytes
  work : List Text.Bytes

/-- An entry of a directory as the kernel enumerates it, with all bits of its mode. -/
structure Dirent where
  name : Text.Bytes
  kind : NodeKind
  mode : UInt32
  deriving DecidableEq

def DiskNode.entry (name : Text.Bytes) : DiskNode → Dirent
  | directory => ⟨name, .directory, 0o755⟩
  | file _ mode => ⟨name, .file, mode⟩
  | link _ => ⟨name, .symlink, 0o777⟩

/-- An entry whose name is text, with the bits of its mode that are permissions. -/
def Dirent.entry? (e : Dirent) : Option Entry :=
  (Text.decode? e.name).map fun name => ⟨name, e.kind, e.mode &&& 0o7777⟩

/-- The listing of the entries of a directory, in whatever order they are enumerated. -/
def Listing.ofDirents (raw : List Dirent) : Listing :=
  let entries := raw.filterMap Dirent.entry?
  ⟨entries.mergeSort fun a b => Text.octetsLE a.name b.name, raw.length - entries.length⟩

namespace DiskTree

/-- The names of a path. After a slash at the end stands an empty one, which must be looked
for in a directory as the others are. -/
def way (path : Text.Bytes) : List Text.Bytes :=
  let names := Text.parts (· == 47) path
  if names.isEmpty || path.getLast? != some 47 then names else names ++ [[]]

/-- A name that leads from a directory to a directory and is no entry's: none, `.` or `..`. -/
def isStep (name : Text.Bytes) : Bool := name == [] || name == [46] || name == [46, 46]

def isRooted (path : Text.Bytes) : Bool := path.head? == some 47

def node? (t : DiskTree) (place : List Text.Bytes) : Option DiskNode := t.nodes.get? place

def isDirectory (t : DiskTree) (place : List Text.Bytes) : Bool :=
  t.node? place == some .directory

def maxName : Nat := 255

def maxPath : Nat := 4096

def maxHops : Nat := 40

def render (place : List Text.Bytes) : Text.Bytes := 47 :: Text.join 47 place

/-- What a way is gone for. -/
inductive Aim where
  /-- The entry at the end, be it a link. -/
  | entry
  /-- What the entry at the end leads to. -/
  | target
  /-- The same, and every place on the way is written out. -/
  | spelling
  /-- What the entry at the end leads to, or the place where it is still to be made. -/
  | writing
  deriving DecidableEq

/-! ### Resolution -/

/-- Goes down from `here` by the names of `rest`. At a link it goes on with `onLink`, from
where the link's target starts; a link at the end may be the entry that is looked for. -/
def follow (t : DiskTree) (aim : Aim)
    (onLink : List Text.Bytes → List Text.Bytes → Except Refusal (List Text.Bytes)) :
    List Text.Bytes → List Text.Bytes → Except Refusal (List Text.Bytes)
  | here, [] => .ok here
  | here, name :: rest =>
    if !t.isDirectory here then .error .notDirectory
    else if aim = .spelling ∧
        (render (here ++ [if isStep name then [] else name])).length ≥ maxPath then
      .error .nameTooLong
    else if isStep name then
      t.follow aim onLink (if name = [46, 46] then here.dropLast else here) rest
    else if aim = .writing ∧ rest = [[]] then .error .isDirectory
    else if name.length > maxName then .error .nameTooLong
    else
      match t.node? (here ++ [name]) with
      | none => if aim = .writing ∧ rest = [] then .ok (here ++ [name]) else .error .noEntry
      | some (.link target) =>
        if aim = .entry ∧ rest = [] then .ok (here ++ [name])
        else onLink (if isRooted target then [] else here) (way target ++ rest)
      | some _ => t.follow aim onLink (here ++ [name]) rest

/-- Follows at most `hops` links. -/
def resolveWithin (t : DiskTree) (aim : Aim) :
    Nat → List Text.Bytes → List Text.Bytes → Except Refusal (List Text.Bytes)
  | 0 => t.follow aim fun _ _ => .error .linkLoop
  | hops + 1 => t.follow aim (t.resolveWithin aim hops)

/-- A path handed over as a whole holds no NUL and is short enough, unless its places are
written out one by one: then each of them is. -/
def accepts (aim : Aim) (path : Text.Bytes) : Except Refusal Unit :=
  if 0 ∈ path then .error .invalid
  else if aim ≠ .spelling ∧ path.length ≥ maxPath then .error .nameTooLong
  else if path.isEmpty then .error .noEntry
  else .ok ()

/-- Where the way of a path begins. -/
def start (t : DiskTree) (path : Text.Bytes) : List Text.Bytes :=
  if isRooted path then [] else t.work

def resolve (t : DiskTree) (aim : Aim) (path : Text.Bytes) :
    Except Refusal (List Text.Bytes) := do
  accepts aim path
  t.resolveWithin aim maxHops (t.start path) (way path)

/-! ### Reading -/

/-- The entries right below a place. -/
def enumerate (t : DiskTree) (place : List Text.Bytes) : List Dirent :=
  (t.nodes.children place).map fun (name, n) => n.entry name

def stat (t : DiskTree) (path : Text.Bytes) : Except Refusal NodeKind := do
  match t.node? (← t.resolve .target path) with
  | some .directory => return .directory
  | some (.file _ _) => return .file
  | some (.link _) => return .symlink
  | none => throw .noEntry

def readDir (t : DiskTree) (path : Text.Bytes) : Except Refusal (List Dirent) := do
  let place ← t.resolve .target path
  if t.isDirectory place then return t.enumerate place else throw .notDirectory

def readLink (t : DiskTree) (path : Text.Bytes) : Except Refusal Text.Bytes := do
  match t.node? (← t.resolve .entry path) with
  | some (.link target) => return target
  | some _ => throw .invalid
  | none => throw .noEntry

def readFile (t : DiskTree) (path : Text.Bytes) : Except Refusal Text.Bytes := do
  match t.node? (← t.resolve .target path) with
  | some (.file content mode) => if mode &&& 0o400 = 0 then throw .denied else return content
  | some _ => throw .isDirectory
  | none => throw .noEntry

def realPath (t : DiskTree) (path : Text.Bytes) : Except Refusal Text.Bytes := do
  return render (← t.resolve .spelling path)

/-- One more than the length of the longest place: no chain of directories is longer. -/
def depth (t : DiskTree) : Nat := t.nodes.height + 1

/-- Octets that are no text cannot be read as a path. -/
def readText (r : Except Refusal Text.Bytes) : Except Error String :=
  match r with
  | .ok bytes =>
    match Text.decode? bytes with
    | some s => .ok s
    | none => .error .readError
  | .error e => .error e.error

def backend (t : DiskTree) : Backend where
  stat path := (t.stat (Text.encode path)).mapError Refusal.error
  readDir path := ((t.readDir (Text.encode path)).map Listing.ofDirents).mapError Refusal.error
  readLink path := readText (t.readLink (Text.encode path))
  readAttr path := (t.readFile (Text.encode path)).mapError Refusal.error
  realPath path := readText (t.realPath (Text.encode path))
  depth := t.depth

end DiskTree

end DeviceModel
