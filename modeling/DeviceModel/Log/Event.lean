import DeviceModel.Error

/-!
What an operation does besides answering: questions put to the file system, objects made and
released, and notices for whoever reads the log.

Making an object is an event of its own, though nothing is written for it, so that objects
made and objects released can be compared.
-/

namespace DeviceModel

/-- The five questions a scan may ask about a path. -/
inductive Query where
  | stat
  | readDir
  | readLink
  | readAttr
  | realPath
  deriving DecidableEq

inductive ObjectKind where
  | directory
  | device
  | driver
  | classDevice
  | deviceClass
  deriving DecidableEq

def ObjectKind.word : ObjectKind → String
  | directory => "directory"
  | device => "device"
  | driver => "driver"
  | classDevice => "class device"
  | deviceClass => "class"

/-- The two ends of a binding. -/
inductive Role where
  | device
  | driver
  deriving DecidableEq

namespace Role

def word : Role → String
  | device => "device"
  | driver => "driver"

def other : Role → Role
  | device => driver
  | driver => device

@[simp] theorem other_other (r : Role) : r.other.other = r := by cases r <;> rfl

end Role

inductive Level where
  | debug
  | trace
  | warn
  deriving DecidableEq

structure LogRecord where
  level : Level
  message : String
  deriving DecidableEq

/-- Something worth a line in the log, by its cause. -/
inductive Notice where
  | linkUnreadable (path : String) (cause : Error)
  | attributeUnreadable (path : String) (cause : Error)
  | nameNotText (dir : String)
  | busesUnavailable (cause : Error)
  | onNoBus (busId : String)
  | invalid (role : Role) (path : String) (cause : Error)
  | treeAbandoned (path : String) (cause : Error)
  | alreadyBound (role : Role) (path : String)
  | classDeviceUnnamed (path : String)
  | classDeviceUnreadable (path : String) (cause : Error)
  | subdirsIncomplete (path : String) (cause : Error)
  | linkSurplus (role : Role) (path : String)
  | linkSkipped (role : Role) (path : String) (cause : Error)
  | classUnsupported (name : String) (cause : Error)
  | classDeviceLeftOut (path : String) (cause : Error)
  | mountFromEnvironment (setting path : String)
  | mountTableUnreadable (table reason : String)
  | mountFromTable (path : String)
  deriving DecidableEq

namespace Notice

def level : Notice → Level
  | nameNotText _ => .trace
  | treeAbandoned _ _ | classDeviceLeftOut _ _ => .warn
  | _ => .debug

def message : Notice → String
  | linkUnreadable path cause => s!"skip unreadable link {path}: {cause.message}"
  | attributeUnreadable path cause => s!"attribute {path} has no value: {cause.message}"
  | nameNotText dir => s!"skip non-utf8 entry in {dir}"
  | busesUnavailable cause => s!"bus directory unavailable: {cause.message}"
  | onNoBus busId => s!"device {busId} is not on any bus"
  | invalid role path cause => s!"invalid {role.word} at {path}: {cause.message}"
  | treeAbandoned path cause => s!"error opening device tree at {path}: {cause.message}"
  | alreadyBound role path => s!"{role.word} {path} already bound to a {role.other.word}"
  | classDeviceUnnamed path => s!"invalid class device path {path}"
  | classDeviceUnreadable path cause => s!"error opening class device at {path}: {cause.message}"
  | subdirsIncomplete path cause => s!"incomplete subdirectories under {path}: {cause.message}"
  | linkSurplus role path => s!"ignore extra {role.word} link {path}"
  | linkSkipped role path cause => s!"skip {role.word} link {path}: {cause.message}"
  | classUnsupported name cause => s!"class {name} not supported on this system: {cause.message}"
  | classDeviceLeftOut path cause => s!"error opening class device at {path}: {cause.message}"
  | mountFromEnvironment setting path => s!"sysfs mount point from {setting}: {path}"
  | mountTableUnreadable table reason => s!"cannot read {table}: {reason}"
  | mountFromTable path => s!"sysfs mounted at {path}"

def record (n : Notice) : LogRecord := ⟨n.level, n.message⟩

end Notice

inductive Event where
  | asked (query : Query) (path : String)
  | opened (kind : ObjectKind) (path : String)
  | closed (kind : ObjectKind) (path : String)
  | noticed (notice : Notice)
  deriving DecidableEq

namespace Event

/-- The line that an event leaves in the log. -/
def record? : Event → Option LogRecord
  | closed kind path => some ⟨.trace, s!"close {kind.word} {path}"⟩
  | noticed n => some n.record
  | asked _ _ | opened _ _ => none

def query? : Event → Option (Query × String)
  | asked q path => some (q, path)
  | _ => none

/-- The object that an event makes. -/
def opened? : Event → Option (ObjectKind × String)
  | opened kind path => some (kind, path)
  | _ => none

/-- The object that an event releases. -/
def closed? : Event → Option (ObjectKind × String)
  | closed kind path => some (kind, path)
  | _ => none

end Event

end DeviceModel
