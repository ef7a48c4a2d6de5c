import DeviceModel.Graph.Binding

/-!
Classes and their devices. A class device owns the device and the driver that its links lead
to: of the links of each role the first whose target can be loaded counts.
-/

namespace DeviceModel

structure ClassDevice where
  name : String
  directory : Directory
  device : Option (Shared Device)
  driver : Option (Shared Driver)

/-- Which shared objects have another owner. -/
abbrev Kept := Role → Serial → Bool

/-- Release of an object that may have other owners. -/
def Shared.closing {α : Type} (kept : Serial → Bool) (closing : α → List Event) :
    Option (Shared α) → List Event
  | none => []
  | some d => if kept d.serial then [] else closing d.object

namespace ClassDevice

def path (c : ClassDevice) : String := c.directory.path

/-- Loads a class device with all directories below it. Only its own directory must be
readable. -/
def load (sys : Mounted) (serial : Serial) (path : String) : Scan ClassDevice := do
  if path = "" then throw .invalidArgument
  let name ← Scan.noting (Path.nameOf path) fun _ => .classDeviceUnnamed path
  let directory ← (Directory.load sys.backend path).noting (.classDeviceUnreadable path)
  let (directory, r) ← ExceptT.lift (directory.readAll sys.backend)
  if let .error e := r then
    ExceptT.lift (Logged.note (.subdirsIncomplete path e))
  Scan.emit [.opened .classDevice directory.path]
  let bound ← ExceptT.lift (Bound.followAll sys serial directory.links .empty)
  return ⟨name, directory, bound.device, bound.driver⟩

/-- Loads the device `name` of a class. -/
def loadNamed (sys : Mounted) (serial : Serial) (cls name : String) : Scan ClassDevice := do
  if cls = "" ∨ name = "" then throw .invalidArgument
  load sys serial (Path.join (sys.classPath cls) name)

/-- Release of a class device. The device and the driver go with it unless they are kept. -/
def closing (kept : Kept) (c : ClassDevice) : List Event :=
  .closed .classDevice c.path :: c.directory.closing ++
    Shared.closing (kept .device) Device.closing c.device ++
    Shared.closing (kept .driver) Driver.closing c.driver

end ClassDevice

/-- `devices` stand in reverse scan order. -/
structure DeviceClass where
  name : String
  directory : Directory
  devices : List ClassDevice

namespace DeviceClass

def path (c : DeviceClass) : String := c.directory.path

def device? (c : DeviceClass) (name : String) : Option ClassDevice :=
  c.devices.find? (·.name = name)

/-- Loads the class devices of the given directories, the latest in front, numbered from
`serial`. One that fails is left out. -/
def loadDevices (sys : Mounted) : Serial → List Directory → List ClassDevice →
    Logged (List ClassDevice)
  | _, [], devices => return devices
  | serial, d :: ds, devices => do
    match ← (ClassDevice.load sys serial d.path).run with
    | .ok c => loadDevices sys (serial + 1) ds (c :: devices)
    | .error e =>
      Logged.note (.classDeviceLeftOut d.path e)
      loadDevices sys (serial + 1) ds devices

def load (sys : Mounted) (serial : Serial) (name : String) : Scan DeviceClass := do
  if name = "" then throw .invalidArgument
  let directory ← (Directory.load sys.backend (sys.classPath name)).noting (.classUnsupported name)
  let devices ← ExceptT.lift (loadDevices sys serial directory.subdirs [])
  Scan.emit [.opened .deviceClass directory.path]
  return ⟨name, directory, devices⟩

def closing (kept : Kept) (c : DeviceClass) : List Event :=
  .closed .deviceClass c.path :: c.directory.closing ++ c.devices.flatMap (·.closing kept)

end DeviceClass

end DeviceModel
