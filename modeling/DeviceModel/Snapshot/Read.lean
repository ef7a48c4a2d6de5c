import DeviceModel.Backend
import DeviceModel.Snapshot.Directory

/-!
Reading directories. A read replaces all that the directory held, or fails and leaves it as
it was; a link or a value that cannot be read is left out and costs a notice only.

`readAll` goes down in pre-order and stops at the first directory that fails. It hands back
the directory in either case, with all that was read up to there.
-/

namespace DeviceModel

/-- An entry of a listing once it has been looked at. -/
inductive Item where
  | attr (a : Attribute)
  | link (l : Link)
  | subdir (d : Directory)

namespace Item

def attr? : Item → Option Attribute
  | attr a => some a
  | _ => none

def link? : Item → Option Link
  | link l => some l
  | _ => none

def subdir? : Item → Option Directory
  | subdir d => some d
  | _ => none

end Item

namespace Directory

variable (b : Backend)

/-- Checks that a directory is there and makes its snapshot, unread. -/
def locate (path : String) : Scan Directory := do
  if path = "" then throw .invalidArgument
  let path := Path.normalize path
  let name ← Path.nameOf path
  match ← b.askStat path with
  | .directory =>
    Scan.emit [.opened .directory path]
    return unread name path
  | _ => throw .notFound

/-- The value of an attribute that may be shown. -/
def readValue (path : String) : Logged (Option String) := do
  match ← (b.askAttr path).run with
  | .ok bytes => return some (Text.decodeLossy bytes)
  | .error e =>
    Logged.note (.attributeUnreadable path e)
    return none

/-- Looks at one entry of the directory `dir`, whose links are read from `base`. -/
def readEntry (dir base : String) (e : Entry) : Logged (Option Item) := do
  let path := Path.join dir e.name
  match e.kind with
  | .directory =>
    Logged.emit [.opened .directory path]
    return some (.subdir (unread e.name path))
  | .symlink =>
    match ← (b.askLink path).run with
    | .ok target => return some (.link ⟨e.name, path, Path.resolve base target⟩)
    | .error cause =>
      Logged.note (.linkUnreadable path cause)
      return none
  | .file =>
    let access := Access.ofMode e.mode
    let value ← if access.shows then readValue b path else pure none
    return some (.attr ⟨e.name, path, value, access⟩)

def readEntries (dir base : String) : List Entry → Logged (List Item)
  | [] => return []
  | e :: es => do
    let item ← readEntry b dir base e
    let items ← readEntries dir base es
    return item.toList ++ items

@[simp] theorem readEntries_nil (dir base : String) : readEntries b dir base [] = pure [] := rfl
theorem readEntries_cons (dir base : String) (e : Entry) (es : List Entry) :
    readEntries b dir base (e :: es) = (do
      let item ← readEntry b dir base e
      let items ← readEntries b dir base es
      return item.toList ++ items) := rfl

/-- Where the links of a directory are read from: its real place. A listing without links
does not ask for it. -/
def linkBase (dir : String) (es : List Entry) : Scan String :=
  if es.any (·.kind = .symlink) then b.askRealPath dir else return dir

def read (d : Directory) : Scan Directory := do
  let es ← b.askDir d.path
  let base ← linkBase b d.path es
  let items ← readEntries b d.path base es
  Scan.emit (closingAll d.subdirs)
  return listed d.name d.path (items.filterMap Item.attr?) (items.filterMap Item.link?)
    (items.filterMap Item.subdir?)

/-- Locates a directory and reads it. -/
def load (path : String) : Scan Directory := do
  let d ← locate b path
  match ← ExceptT.lift (d.read b).run with
  | .ok d => return d
  | .error e =>
    Scan.emit d.closing
    throw e

/-- Runs `f` along a list until it fails, and keeps what it hands back. -/
def untilFailure (f : Directory → Logged (Directory × Except Error Unit)) :
    List Directory → Logged (List Directory × Except Error Unit)
  | [] => return ([], .ok ())
  | d :: ds => do
    match ← f d with
    | (d, .ok ()) =>
      let (ds, r) ← untilFailure f ds
      return (d :: ds, r)
    | (d, .error e) => return (d :: ds, .error e)

/-- Reads a directory and all directories below it, at most `depth` levels. -/
def readBelow : Nat → Directory → Logged (Directory × Except Error Unit)
  | 0, d => return (d, .error .readError)
  | depth + 1, d => do
    match ← (d.read b).run with
    | .error e => return (d, .error e)
    | .ok d =>
      let (subdirs, r) ← untilFailure (readBelow depth) d.subdirs
      return (listed d.name d.path d.attributes d.links subdirs, r)

mutual

/-- Reads what is still unread in a directory and below it. -/
def readAll : Directory → Logged (Directory × Except Error Unit)
  | unread name path => readBelow b b.depth (unread name path)
  | listed name path attributes links subdirs => do
    let (subdirs, r) ← readAllIn subdirs
    return (listed name path attributes links subdirs, r)

def readAllIn : List Directory → Logged (List Directory × Except Error Unit)
  | [] => return ([], .ok ())
  | d :: ds => do
    match ← readAll d with
    | (d, .ok ()) =>
      let (ds, r) ← readAllIn ds
      return (d :: ds, r)
    | (d, .error e) => return (d :: ds, .error e)

end

@[simp] theorem untilFailure_nil (f : Directory → Logged (Directory × Except Error Unit)) :
    untilFailure f [] = pure ([], .ok ()) := rfl

theorem readAllIn_eq (ds : List Directory) : readAllIn b ds = untilFailure (readAll b) ds := by
  induction ds with
  | nil => simp [readAllIn]
  | cons d ds ih => simp only [readAllIn, untilFailure, ih]

theorem readAll_unread (name path : String) :
    readAll b (unread name path) = readBelow b b.depth (unread name path) := by
  simp [readAll]

theorem readAll_listed (name path : String) (as : List Attribute) (ls : List Link)
    (ds : List Directory) :
    readAll b (listed name path as ls ds) =
      (fun r => (listed name path as ls r.1, r.2)) <$> untilFailure (readAll b) ds := by
  simp [readAll, readAllIn_eq]

end Directory

end DeviceModel
