import DeviceModel.Graph.Bus

/-!
Devices, alone or with all devices below them. A device owns its directory and its
children; of its driver it knows only which one it is.
-/

namespace DeviceModel

/-- Tells apart the objects of one role that may have several owners. -/
abbrev Serial := Nat

/-- `children` stand in reverse scan order. `driver` is set once, when the device is bound. -/
structure Device where
  busName : String
  name : String
  directory : Directory
  children : List Device
  driver : Option Serial

namespace Device

/-- Induction in which the claim is known of all children. -/
@[elab_as_elim] theorem induction {P : Device → Prop}
    (step : ∀ d : Device, (∀ c ∈ d.children, P c) → P d) : ∀ d, P d
  | ⟨busName, name, directory, children, driver⟩ =>
    step ⟨busName, name, directory, children, driver⟩ fun c _ => induction step c

def busId (d : Device) : String := d.directory.name

def path (d : Device) : String := d.directory.path

def child? (d : Device) (busId : String) : Option Device := d.children.find? (·.busId = busId)

/-- The device reached by going down by the given bus ids. -/
def descend (d : Device) : List String → Option Device
  | [] => some d
  | busId :: rest => (d.child? busId).bind (·.descend rest)

mutual

/-- The number of devices below a device. -/
def descendants : Device → Nat
  | ⟨_, _, _, children, _⟩ => countAll children

def countAll : List Device → Nat
  | [] => 0
  | d :: ds => 1 + descendants d + countAll ds

end

mutual

/-- Children are released before their parent, and a device before its directory. -/
def closing : Device → List Event
  | ⟨_, _, directory, children, _⟩ =>
    closingAll children ++ .closed .device directory.path :: directory.closing

def closingAll : List Device → List Event
  | [] => []
  | d :: ds => closing d ++ closingAll ds

end

mutual

/-- A device and all below it with their depths, each before its children. -/
def flatten (depth : Nat) : Device → List (Nat × Device)
  | ⟨busName, name, directory, children, driver⟩ =>
    (depth, ⟨busName, name, directory, children, driver⟩) :: flattenAll (depth + 1) children

def flattenAll (depth : Nat) : List Device → List (Nat × Device)
  | [] => []
  | d :: ds => flatten depth d ++ flattenAll depth ds

end

theorem closing_eq (d : Device) :
    d.closing = closingAll d.children ++ .closed .device d.path :: d.directory.closing := by
  cases d; rfl

theorem descendants_eq (d : Device) : d.descendants = countAll d.children := by
  cases d; rfl

@[simp] theorem closingAll_nil : closingAll [] = [] := rfl
@[simp] theorem closingAll_cons (d : Device) (ds : List Device) :
    closingAll (d :: ds) = d.closing ++ closingAll ds := rfl
@[simp] theorem countAll_nil : countAll [] = 0 := rfl
@[simp] theorem countAll_cons (d : Device) (ds : List Device) :
    countAll (d :: ds) = 1 + d.descendants + countAll ds := rfl

/-! ### Loading -/

/-- The name in an attribute: its value without one line end. -/
def trimLineEnd (value : String) : String :=
  match value.toList.getLast? with
  | some '\n' => String.ofList value.toList.dropLast
  | _ => value

/-- Loads one device, with the buses already listed. -/
def loadOn (sys : Mounted) (buses : BusList) (path : String) : Scan Device := do
  if path = "" then throw .invalidArgument
  let directory ← (Directory.load sys.backend path).noting (.invalid .device path)
  let busName ← ExceptT.lift (buses.nameFor sys.backend directory.name)
  let name := ((directory.valueOf "name").map trimLineEnd).getD ""
  Scan.emit [.opened .device directory.path]
  return ⟨busName, name, directory, [], none⟩

def load (sys : Mounted) (path : String) : Scan Device := do
  let buses ← ExceptT.lift (BusList.available sys)
  loadOn sys buses path

/-- Loads the children one after another with `f`, the latest in front, and stops at the
first that fails. -/
def loadChildren (f : String → Scan Device) :
    List String → List Device → Logged (List Device × Option Error)
  | [], children => return (children, none)
  | path :: paths, children => do
    match ← (f path).run with
    | .ok child => loadChildren f paths (child :: children)
    | .error e =>
      Logged.note (.treeAbandoned path e)
      return (children, some e)

/-- Loads a device and all below it, at most `depth` levels. A failure anywhere releases what
was loaded. -/
def loadTreeOn (sys : Mounted) (buses : BusList) : Nat → String → Scan Device
  | 0, _ => throw .readError
  | depth + 1, path => do
    let root ← loadOn sys buses path
    match ← ExceptT.lift (loadChildren (loadTreeOn sys buses depth)
        (root.directory.subdirs.map (·.path)) []) with
    | (children, none) => return { root with children := children }
    | (children, some e) =>
      Scan.emit { root with children := children }.closing
      throw e

def loadTree (sys : Mounted) (path : String) : Scan Device := do
  let buses ← ExceptT.lift (BusList.available sys)
  loadTreeOn sys buses sys.backend.depth path

end Device

end DeviceModel
