import DeviceModel.Error

/-!
Why the kernel refuses a path, or a change of what is at it.
-/

namespace DeviceModel

inductive Refusal where
  | noEntry
  | denied
  | occupied
  | notDirectory
  | isDirectory
  | invalid
  | nameTooLong
  | notEmpty
  | linkLoop
  deriving DecidableEq

namespace Refusal

def errno : Refusal → Int
  | noEntry => 2
  | denied => 13
  | occupied => 17
  | notDirectory => 20
  | isDirectory => 21
  | invalid => 22
  | nameTooLong => 36
  | notEmpty => 39
  | linkLoop => 40

/-- What one who edits is told. -/
def message : Refusal → String
  | noEntry => "entity not found"
  | denied => "permission denied"
  | occupied => "entity already exists"
  | notDirectory => "not a directory"
  | isDirectory => "is a directory"
  | invalid => "invalid input parameter"
  | nameTooLong => "invalid filename"
  | notEmpty => "directory not empty"
  | linkLoop => "filesystem loop or indirection limit (e.g. symlink loop)"

/-- What one who reads is told. -/
def error (r : Refusal) : Error := .ofErrno r.errno

end Refusal

end DeviceModel
