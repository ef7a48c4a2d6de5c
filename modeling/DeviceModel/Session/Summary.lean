import DeviceModel.Session.Held

/-!
Summaries: what is shown of an object at a glance.
-/

namespace DeviceModel

structure DirectorySummary where
  name : String
  path : String
  listed : Bool
  attributes : Nat
  links : Nat
  subdirs : Nat
  deriving DecidableEq

/-- `driver` is the path of the driver to which the device is bound. -/
structure DeviceSummary where
  busId : String
  busName : String
  name : String
  path : String
  children : Nat
  descendants : Nat
  driver : Option String
  deriving DecidableEq

/-- `device` is the path of the device to which the driver is bound. -/
structure DriverSummary where
  name : String
  path : String
  links : List String
  device : Option String
  deriving DecidableEq

/-- `bound` says that there are a device and a driver and that each is bound to the other. -/
structure ClassDeviceSummary where
  name : String
  path : String
  bound : Bool
  device : Option DeviceSummary
  driver : Option DriverSummary
  deriving DecidableEq

structure ClassSummary where
  name : String
  path : String
  devices : List ClassDeviceSummary
  deriving DecidableEq

inductive Summary where
  | directory (s : DirectorySummary)
  | device (s : DeviceSummary)
  | driver (s : DriverSummary)
  | classDevice (s : ClassDeviceSummary)
  | deviceClass (s : ClassSummary)
  deriving DecidableEq

def Directory.summary (d : Directory) : DirectorySummary :=
  ⟨d.name, d.path, d.isListed, d.attributes.length, d.links.length, d.subdirs.length⟩

namespace Living

variable (l : Living)

def deviceSummary (d : Device) : DeviceSummary :=
  ⟨d.busId, d.busName, d.name, d.path, d.children.length, d.descendants,
    (l.driverOf d).map (·.object.path)⟩

def driverSummary (d : Driver) : DriverSummary :=
  ⟨d.name, d.path, d.directory.links.map (·.name), (l.deviceOf d).map (·.object.path)⟩

def isBound (c : ClassDevice) : Bool :=
  match c.device, c.driver with
  | some device, some driver =>
    (l.driverOf device.object).map (·.serial) == some driver.serial &&
      (l.deviceOf driver.object).map (·.serial) == some device.serial
  | _, _ => false

def classDeviceSummary (c : ClassDevice) : ClassDeviceSummary :=
  ⟨c.name, c.path, l.isBound c, c.device.map fun d => l.deviceSummary d.object,
    c.driver.map fun d => l.driverSummary d.object⟩

def classSummary (c : DeviceClass) : ClassSummary :=
  ⟨c.name, c.path, c.devices.map l.classDeviceSummary⟩

def summary : Held → Summary
  | .directory d => .directory d.summary
  | .device d => .device (l.deviceSummary d.object)
  | .driver d => .driver (l.driverSummary d.object)
  | .classDevice c => .classDevice (l.classDeviceSummary c)
  | .deviceClass c => .deviceClass (l.classSummary c)

end Living

end DeviceModel
