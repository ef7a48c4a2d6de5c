import DeviceModel.Snapshot.Read
import DeviceModel.Text.Quoted

/-!
A file system with the place where it is mounted: what every operation on devices is handed.
-/

namespace DeviceModel

/-- `mount` never ends in a slash; the file system mounted at the root has an empty one. -/
structure Mounted where
  mount : String
  backend : Backend

namespace Mounted

def ofMount (mount : String) (backend : Backend) : Mounted := ⟨Path.trimEnd mount, backend⟩

variable (sys : Mounted)

def classPath (name : String) : String := Path.join (Path.join sys.mount "class") name

def busPath : String := Path.join sys.mount "bus"

/-- The context as one line of text. -/
def describe : String := "Sysfs \x7b mnt_path: " ++ Text.quote sys.mount ++ ", .. \x7d"

/-- The directories right below a part of the mount, by name. -/
def subsystem (part : String) : Scan (List String) := do
  let d ← Directory.load sys.backend (Path.join sys.mount part)
  Scan.emit d.closing
  return d.subdirs.map (·.name)

def buses : Scan (List String) := sys.subsystem "bus"

def classes : Scan (List String) := sys.subsystem "class"

end Mounted

end DeviceModel
