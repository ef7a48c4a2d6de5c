import DeviceModel.Graph.Class

/-!
What a handle of a session holds, who owns a shared object, and what a release leaves alive.

A device or driver lives as long as somebody holds it. Its back reference leads to the other
end while that end lives, and nowhere after.
-/

namespace DeviceModel

inductive Held where
  | directory (d : Directory)
  | device (d : Shared Device)
  | driver (d : Shared Driver)
  | classDevice (c : ClassDevice)
  | deviceClass (c : DeviceClass)

namespace Held

def snapshot : Held → Directory
  | directory d => d
  | device d => d.object.directory
  | driver d => d.object.directory
  | classDevice c => c.directory
  | deviceClass c => c.directory

/-- The shared devices that it owns. -/
def devices : Held → List (Shared Device)
  | device d => [d]
  | classDevice c => c.device.toList
  | deviceClass c => c.devices.flatMap (·.device.toList)
  | directory _ | driver _ => []

/-- The shared drivers that it owns. -/
def drivers : Held → List (Shared Driver)
  | driver d => [d]
  | classDevice c => c.driver.toList
  | deviceClass c => c.devices.flatMap (·.driver.toList)
  | directory _ | device _ => []

def closing (kept : Kept) : Held → List Event
  | directory d => d.closing
  | device d => Shared.closing (kept .device) Device.closing (some d)
  | driver d => Shared.closing (kept .driver) Driver.closing (some d)
  | classDevice c => c.closing kept
  | deviceClass c => c.closing kept

end Held

/-- The shared objects that are owned by something. -/
structure Living where
  devices : List (Shared Device)
  drivers : List (Shared Driver)

namespace Living

def ofHeld (hs : List Held) : Living := ⟨hs.flatMap (·.devices), hs.flatMap (·.drivers)⟩

def device? (l : Living) (s : Serial) : Option (Shared Device) := l.devices.find? (·.serial = s)

def driver? (l : Living) (s : Serial) : Option (Shared Driver) := l.drivers.find? (·.serial = s)

/-- The driver to which a device is bound, while it lives. -/
def driverOf (l : Living) (d : Device) : Option (Shared Driver) := d.driver.bind l.driver?

/-- The device to which a driver is bound, while it lives. -/
def deviceOf (l : Living) (d : Driver) : Option (Shared Device) := d.device.bind l.device?

def kept (l : Living) : Kept
  | .device, s => (l.device? s).isSome
  | .driver, s => (l.driver? s).isSome

end Living

end DeviceModel
