import DeviceModel.Backend

/-!
Answers laid over those of a backend: failures, contents and listings for single paths, just
as the path is written. A failure goes before any other answer.
-/

namespace DeviceModel

/-- The latest answer for a path stands first. -/
structure Overlay where
  faults : List ((Query × String) × Error)
  contents : List (String × Text.Bytes)
  listings : List (String × List Entry)

namespace Overlay

def empty : Overlay := ⟨[], [], []⟩

inductive Edit where
  | fault (query : Query) (path : String) (error : Error)
  | content (path : String) (bytes : Text.Bytes)
  | listing (path : String) (entries : List Entry)
  | clear
  deriving DecidableEq

def apply (o : Overlay) : Edit → Overlay
  | .fault query path error => { o with faults := ((query, path), error) :: o.faults }
  | .content path bytes => { o with contents := (path, bytes) :: o.contents }
  | .listing path entries => { o with listings := (path, entries) :: o.listings }
  | .clear => empty

/-- The answer to a query unless it is to fail. -/
def guard {α : Type} (o : Overlay) (query : Query) (path : String) (answer : Except Error α) :
    Except Error α :=
  match o.faults.lookup (query, path) with
  | some error => .error error
  | none => answer

/-- A backend with the overlay on top. Between two listings of the overlay a chain of
directories is no longer than in the backend alone. -/
def laidOn (o : Overlay) (b : Backend) : Backend where
  stat path := o.guard .stat path (b.stat path)
  readDir path := o.guard .readDir path <|
    match o.listings.lookup path with
    | some entries => .ok { entries := entries }
    | none => b.readDir path
  readLink path := o.guard .readLink path (b.readLink path)
  readAttr path := o.guard .readAttr path <|
    match o.contents.lookup path with
    | some bytes => .ok bytes
    | none => b.readAttr path
  realPath path := o.guard .realPath path (b.realPath path)
  depth := (o.listings.length + 1) * (b.depth + 1)

@[simp] theorem guard_empty {α : Type} (query : Query) (path : String) (a : Except Error α) :
    empty.guard query path a = a := rfl

end Overlay

end DeviceModel
