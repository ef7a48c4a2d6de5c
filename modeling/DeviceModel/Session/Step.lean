import DeviceModel.Session.Summary

/-!
The steps of a session and the replies to them. A view changes nothing and asks the file
system nothing.
-/

namespace DeviceModel

/-- What is to be loaded into a handle. -/
inductive Opening where
  | directory (path : String)
  | device (path : String)
  | deviceTree (path : String)
  | driver (path : String)
  | classDevice (path : String)
  | classDeviceNamed (cls name : String)
  | deviceClass (name : String)
  deriving DecidableEq

/-- What is looked for in a directory. -/
inductive Facet where
  | attr
  | link
  | subdir
  | value
  deriving DecidableEq

/-- `h` names a handle. `down` are the names by which to go down from what it holds. -/
inductive View where
  | context
  | classPath (name : String)
  | summary (h : String)
  | dump (h : String) (down : List String)
  | tree (h : String)
  | child (h : String) (down : List String)
  | attr (h name : String)
  | links (h : String)
  | lookup (h : String) (down : List String) (what : Facet) (name : String)
  | classDevice (h name : String)
  deriving DecidableEq

/-- A step names the handle that it uses `h`, and the one that it fills `into`. -/
inductive Step where
  | look (v : View)
  | ask (query : Query) (path : String)
  | findBus (busId : String)
  | buses
  | classes
  | load (what : Opening) (into : String)
  | readDirectory (h : String)
  | readDirectories (h : String)
  | take (h : String) (part : Role) (name : String) (into : String)
  | drop (h : String)
  deriving DecidableEq

/-- What a step that succeeds answers. -/
inductive Value where
  | nothing
  | flag (b : Bool)
  | text (s : String)
  | names (ns : List String)
  | kind (k : NodeKind)
  | entries (es : List Entry)
  | bytes (bs : Text.Bytes)
  | context (mount buses line : String)
  | summary (s : Summary)
  | attr (a : Attribute)
  | links (ls : List Link)
  | link (l : Link)
  | directories (ds : List (Nat × Directory))
  | devices (ds : List (Nat × Device))

/-- `noHandle` and `badHandle` are for a handle that holds nothing, or nothing of the kind
that the step is about. -/
inductive Outcome where
  | ok (v : Value)
  | failed (e : Error)
  | noHandle
  | badHandle

/-- `state` is what has become of a directory that was to be read. -/
structure Reply where
  outcome : Outcome
  state : Option DirectorySummary := none

def Value.ofOption {α : Type} (f : α → Value) : Option α → Value
  | some a => f a
  | none => nothing

def Outcome.ofExcept {α : Type} (f : α → Value) : Except Error α → Outcome
  | .ok a => ok (f a)
  | .error e => failed e

/-- The reply of a scan that leaves nothing behind but its answer. -/
def Scan.reply {α : Type} (x : Scan α) (f : α → Value) : Logged Reply :=
  return { outcome := .ofExcept f (← x.run) }

end DeviceModel
