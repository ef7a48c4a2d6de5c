import DeviceModel.Graph.Device

/-!
Drivers. A driver owns its directory; of its device it knows only which one it is.
-/

namespace DeviceModel

/-- `device` is set once, when the driver is bound. -/
structure Driver where
  directory : Directory
  device : Option Serial

namespace Driver

def name (d : Driver) : String := d.directory.name

def path (d : Driver) : String := d.directory.path

def closing (d : Driver) : List Event := .closed .driver d.path :: d.directory.closing

def load (sys : Mounted) (path : String) : Scan Driver := do
  if path = "" then throw .invalidArgument
  let directory ← (Directory.load sys.backend path).noting (.invalid .driver path)
  Scan.emit [.opened .driver directory.path]
  return ⟨directory, none⟩

end Driver

end DeviceModel
