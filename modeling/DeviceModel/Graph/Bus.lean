import DeviceModel.Mounted

/-!
Which bus a device is on. Each bus lists its devices by bus id in a directory `devices`, so
the buses are asked one after another, and the first that answers is the one.
-/

namespace DeviceModel

/-- The buses in scan order: their names and their `devices` directories. -/
structure BusList where
  buses : List (String × String)

namespace BusList

def empty : BusList := ⟨[]⟩

def load (sys : Mounted) : Scan BusList := do
  let d ← Directory.load sys.backend sys.busPath
  Scan.emit d.closing
  return ⟨d.subdirs.map fun bus => (bus.name, Path.join bus.path "devices")⟩

/-- No buses if they cannot be listed. -/
def available (sys : Mounted) : Logged BusList := do
  match ← (load sys).run with
  | .ok buses => return buses
  | .error e =>
    Logged.note (.busesUnavailable e)
    return empty

/-- The first bus whose `devices` directory has an entry `busId` that can be reached. -/
def firstWith (b : Backend) (busId : String) : List (String × String) → Logged (Option String)
  | [] => return none
  | (name, devices) :: rest => do
    match ← (b.askStat (Path.join devices busId)).run with
    | .ok _ => return some name
    | .error _ => firstWith b busId rest

def find (buses : BusList) (b : Backend) (busId : String) : Scan String := do
  if busId = "" then throw .invalidArgument
  match ← ExceptT.lift (firstWith b busId buses.buses) with
  | some name => return name
  | none =>
    ExceptT.lift (Logged.note (.onNoBus busId))
    throw .notFound

/-- The bus name that a device gets: empty if no bus knows it. -/
def nameFor (buses : BusList) (b : Backend) (busId : String) : Logged String := do
  match ← (buses.find b busId).run with
  | .ok name => return name
  | .error _ => return ""

end BusList

/-- The bus of the device with the given bus id. -/
def Mounted.findBus (sys : Mounted) (busId : String) : Scan String := do
  if busId = "" then throw .invalidArgument
  let buses ← BusList.load sys
  buses.find sys.backend busId

end DeviceModel
