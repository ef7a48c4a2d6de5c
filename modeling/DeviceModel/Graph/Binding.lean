import DeviceModel.Graph.Driver

/-!
The binding of a driver to a device: each end knows the other by its serial number and owns
nothing of it. A pair is bound as soon as the links of a class device have led to both ends,
in whichever order.
-/

namespace DeviceModel

/-- An object that may have several owners. Two owners hold the same object if the serial
numbers agree. -/
structure Shared (α : Type) where
  serial : Serial
  object : α

/-- Sets a cell that is still empty. -/
def setOnce (cell : Option Serial) (s : Serial) : Option Serial := cell.or (some s)

@[simp] theorem setOnce_none (s : Serial) : setOnce none s = some s := rfl
@[simp] theorem setOnce_some (s t : Serial) : setOnce (some t) s = some t := rfl

/-- The role of a link, by how its name begins. -/
def Role.ofLink (name : String) : Option Role :=
  if "device".toList.isPrefixOf name.toList then some .device
  else if "driver".toList.isPrefixOf name.toList then some .driver
  else none

/-- What the links of a class device have led to so far. -/
structure Bound where
  device : Option (Shared Device)
  driver : Option (Shared Driver)

namespace Bound

def empty : Bound := ⟨none, none⟩

/-- Makes two objects known to each other. An end that is bound already stays as it is. -/
def couple (device : Shared Device) (driver : Shared Driver) : Logged Bound := do
  if device.object.driver.isSome then
    Logged.note (.alreadyBound .device device.object.path)
  if driver.object.device.isSome then
    Logged.note (.alreadyBound .driver driver.object.path)
  return {
    device := some { device with object := { device.object with
      driver := setOnce device.object.driver driver.serial } }
    driver := some { driver with object := { driver.object with
      device := setOnce driver.object.device device.serial } } }

def addDevice (bound : Bound) (device : Shared Device) : Logged Bound :=
  match bound.driver with
  | none => return ⟨some device, none⟩
  | some driver => couple device driver

def addDriver (bound : Bound) (driver : Shared Driver) : Logged Bound :=
  match bound.device with
  | none => return ⟨none, some driver⟩
  | some device => couple device driver

/-- Follows one link. Both ends get the number `serial`. -/
def follow (sys : Mounted) (serial : Serial) (bound : Bound) (link : Link) : Logged Bound :=
  match Role.ofLink link.name with
  | none => return bound
  | some .device => do
    if bound.device.isSome then
      Logged.note (.linkSurplus .device link.path)
      return bound
    match ← (Device.load sys link.target).run with
    | .ok device => bound.addDevice ⟨serial, device⟩
    | .error e =>
      Logged.note (.linkSkipped .device link.path e)
      return bound
  | some .driver => do
    if bound.driver.isSome then
      Logged.note (.linkSurplus .driver link.path)
      return bound
    match ← (Driver.load sys link.target).run with
    | .ok driver => bound.addDriver ⟨serial, driver⟩
    | .error e =>
      Logged.note (.linkSkipped .driver link.path e)
      return bound

def followAll (sys : Mounted) (serial : Serial) : List Link → Bound → Logged Bound
  | [], bound => return bound
  | link :: links, bound => do
    let bound ← bound.follow sys serial link
    followAll sys serial links bound

@[simp] theorem followAll_nil (sys : Mounted) (serial : Serial) (bound : Bound) :
    followAll sys serial [] bound = pure bound := rfl
theorem followAll_cons (sys : Mounted) (serial : Serial) (link : Link) (links : List Link)
    (bound : Bound) :
    followAll sys serial (link :: links) bound =
      bound.follow sys serial link >>= followAll sys serial links := rfl

end Bound

end DeviceModel
