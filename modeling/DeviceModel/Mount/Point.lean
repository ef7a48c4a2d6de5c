import DeviceModel.Mount.Table
import DeviceModel.Log.Logged
import DeviceModel.Path

/-!
Where the file system is mounted: at the place that the environment names, and otherwise at
the first place in the mount table.
-/

namespace DeviceModel.Mount

def environmentVariable : String := "SYSFS_PATH"

def tablePath : String := "/proc/mounts"

/-- The place named by the value of the environment variable, if that is text and more than
slashes. -/
def ofEnvironment (value : Text.Bytes) : Option String :=
  match (Text.decode? value).map Path.trimEnd with
  | some "" => none
  | place => place

/-- Finds the mount point. The table is its text, or the reason why it cannot be read. -/
def point (environment : Option Text.Bytes) (table : Except String String) : Scan String :=
  match environment.bind ofEnvironment with
  | some path => do
    Scan.emit [.noticed (.mountFromEnvironment environmentVariable path)]
    return path
  | none =>
    match table with
    | .error reason => do
      Scan.emit [.noticed (.mountTableUnreadable tablePath reason)]
      throw .notFound
    | .ok text =>
      match find text with
      | none => throw .notFound
      | some path => do
        Scan.emit [.noticed (.mountFromTable path)]
        return path

end DeviceModel.Mount
