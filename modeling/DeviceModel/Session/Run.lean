import DeviceModel.Session.View

/-!
Sessions: handles that are filled, used and released step by step. What is loaded takes the
place of what its handle held, and that is released only then; a failure changes no handle.

Each step is given the file system anew, so nothing that happens to it between two steps is
ruled out.
-/

namespace DeviceModel

namespace Session

variable (s : Session)

/-- Takes a handle out of the session and releases what it held. -/
def release (h : String) : Logged Session := do
  let rest : Session := { s with handles := s.handles.erase h }
  match s.held? h with
  | none => return rest
  | some x =>
    Logged.emit (x.closing rest.living.kept)
    return rest

/-- Puts something into a handle and releases what it held before. -/
def store (h : String) (x : Held) : Logged Session := do
  let after : Session := { s with handles := s.handles.put h x }
  match s.held? h with
  | none => return after
  | some old =>
    Logged.emit (old.closing after.living.kept)
    return after

/-- Loads what is asked for. Serial numbers are given out from `serial` on; the first that is
still free is handed back. -/
def loadHeld (sys : Mounted) (serial : Serial) : Opening → Scan (Held × Serial)
  | .directory path => return (.directory (← Directory.locate sys.backend path), serial)
  | .device path => return (.device ⟨serial, ← Device.load sys path⟩, serial + 1)
  | .deviceTree path => return (.device ⟨serial, ← Device.loadTree sys path⟩, serial + 1)
  | .driver path => return (.driver ⟨serial, ← Driver.load sys path⟩, serial + 1)
  | .classDevice path => return (.classDevice (← ClassDevice.load sys serial path), serial + 1)
  | .classDeviceNamed cls name =>
    return (.classDevice (← ClassDevice.loadNamed sys serial cls name), serial + 1)
  | .deviceClass name => do
    let c ← DeviceClass.load sys serial name
    return (.deviceClass c, serial + c.directory.subdirs.length)

/-- Fills a handle with something that the session may own already, and shows it. -/
def fill (h : String) (x : Held) (next : Serial) : Logged (Session × Reply) := do
  let shown := (Living.ofHeld (x :: s.handles.values)).summary x
  let s ← { s with next := next }.store h x
  return (s, { outcome := .ok (.summary shown) })

def load (sys : Mounted) (what : Opening) (into : String) : Logged (Session × Reply) := do
  match ← (loadHeld sys s.next what).run with
  | .ok (x, next) => s.fill into x next
  | .error e => return (s, { outcome := .failed e })

/-- Reads the directory that a handle holds, as `f` does it. -/
def readWith (h : String) (f : Directory → Logged (Directory × Except Error Unit)) :
    Logged (Session × Reply) := do
  match s.held? h with
  | some (.directory d) => do
    let (d, r) ← f d
    return ({ s with handles := s.handles.put h (.directory d) },
      { outcome := .ofExcept (fun _ => .nothing) r, state := some d.summary })
  | some _ => return (s, { outcome := .badHandle })
  | none => return (s, { outcome := .noHandle })

/-- A read that hands the directory back, read or as it was. -/
def readOnce (b : Backend) (d : Directory) : Logged (Directory × Except Error Unit) := do
  match ← (d.read b).run with
  | .ok d => return (d, .ok ())
  | .error e => return (d, .error e)

/-- The part of an object that another owner may take. The outer `none` says that it has no
such part at all. -/
def part? (l : Living) (role : Role) (name : String) : Held → Option (Option Held)
  | .classDevice c => some (ofClassDevice c)
  | .deviceClass k => some ((k.device? name).bind ofClassDevice)
  | .driver d =>
    match role with
    | .device => some ((l.deviceOf d.object).map .device)
    | .driver => none
  | .device d =>
    match role with
    | .driver => some ((l.driverOf d.object).map .driver)
    | .device => none
  | .directory _ => none
where
  ofClassDevice (c : ClassDevice) : Option Held :=
    match role with
    | .device => c.device.map .device
    | .driver => c.driver.map .driver

def take (h : String) (role : Role) (name into : String) : Logged (Session × Reply) :=
  match s.held? h with
  | none => return (s, { outcome := .noHandle })
  | some x =>
    match part? s.living role name x with
    | none => return (s, { outcome := .badHandle })
    | some none => return (s, { outcome := .ok .nothing })
    | some (some y) => s.fill into y s.next

def ask (b : Backend) (path : String) : Query → Logged Reply
  | .stat => (b.askStat path).reply .kind
  | .readDir => (b.askDir path).reply .entries
  | .readLink => (b.askLink path).reply .text
  | .readAttr => (b.askAttr path).reply .bytes
  | .realPath => (b.askRealPath path).reply .text

/-- One step. -/
def step (sys : Mounted) (s : Session) : Step → Logged (Session × Reply)
  | .look v => return (s, { outcome := s.look sys v })
  | .ask query path => return (s, ← ask sys.backend path query)
  | .findBus busId => return (s, ← (sys.findBus busId).reply .text)
  | .buses => return (s, ← sys.buses.reply .names)
  | .classes => return (s, ← sys.classes.reply .names)
  | .load what into => s.load sys what into
  | .readDirectory h => s.readWith h (readOnce sys.backend)
  | .readDirectories h => s.readWith h (Directory.readAll sys.backend)
  | .take h role name into => s.take h role name into
  | .drop h => do
    let after ← s.release h
    return (after, { outcome := .ok (.flag (s.held? h).isSome) })

/-- Steps one after another, each with the file system as it then is. -/
def run : Session → List (Mounted × Step) → Logged Session
  | s, [] => return s
  | s, (sys, st) :: rest => do
    let (s, _) ← s.step sys st
    run s rest

@[simp] theorem run_nil : s.run [] = pure s := rfl
theorem run_cons (sys : Mounted) (st : Step) (rest : List (Mounted × Step)) :
    s.run ((sys, st) :: rest) = s.step sys st >>= fun r => run r.1 rest := rfl
theorem run_append (as bs : List (Mounted × Step)) :
    s.run (as ++ bs) = s.run as >>= fun s => s.run bs := by
  induction as generalizing s with
  | nil => simp
  | cons a as ih =>
    obtain ⟨sys, st⟩ := a
    simp [run_cons, ih]

/-- Releases the given handles in their order. -/
def releaseAll : Session → List String → Logged Session
  | s, [] => return s
  | s, h :: hs => do
    let s ← s.release h
    releaseAll s hs

@[simp] theorem releaseAll_nil : s.releaseAll [] = pure s := rfl
theorem releaseAll_cons (h : String) (hs : List String) :
    s.releaseAll (h :: hs) = s.release h >>= fun s => releaseAll s hs := rfl

/-- Ends a session: what is left is released in the order of the names of the handles. -/
def finish : Logged Session :=
  s.releaseAll (s.handles.keys.mergeSort Text.octetsLE)

end Session

end DeviceModel
