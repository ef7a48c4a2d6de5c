import DeviceModel.Log.Logged
import DeviceModel.Text.Utf8

/-!
A file system as the answers it gives about paths. Nothing else of it is seen by a scan, so
one value stands for a file system that does not change while it is scanned.
-/

namespace DeviceModel

inductive NodeKind where
  | directory
  | symlink
  | file
  deriving DecidableEq

/-- One line of a listing. The kind is that of the entry itself: links are not followed. -/
structure Entry where
  name : String
  kind : NodeKind
  mode : UInt32
  deriving DecidableEq

/-- The entries of a directory in scan order, and how many names were no text. -/
structure Listing where
  entries : List Entry
  skipped : Nat := 0

/-- `stat` follows links. `depth` bounds the nesting of directories: a scan refuses to read
below it. -/
structure Backend where
  stat : String → Except Error NodeKind
  readDir : String → Except Error Listing
  readLink : String → Except Error String
  readAttr : String → Except Error Text.Bytes
  realPath : String → Except Error String
  depth : Nat

namespace Backend

variable (b : Backend) (path : String)

def askStat : Scan NodeKind := .ask .stat path (b.stat path)

def askDir : Scan (List Entry) := do
  let listing ← Scan.ask .readDir path (b.readDir path)
  Scan.emit (List.replicate listing.skipped (.noticed (.nameNotText path)))
  return listing.entries

def askLink : Scan String := .ask .readLink path (b.readLink path)

def askAttr : Scan Text.Bytes := .ask .readAttr path (b.readAttr path)

def askRealPath : Scan String := .ask .realPath path (b.realPath path)

end Backend

end DeviceModel
