import DeviceModel.Path
import DeviceModel.Log.Event

/-!
Snapshots of directories. A directory is known by its path at first and holds something only
once it has been listed; what it holds is never read again behind its owner's back.
-/

namespace DeviceModel

/-- How an attribute may be used, by the bits of its owner. -/
structure Access where
  shows : Bool
  stores : Bool
  deriving DecidableEq

namespace Access

def ofMode (mode : UInt32) : Access := ⟨mode &&& 0o400 != 0, mode &&& 0o200 != 0⟩

def bits (a : Access) : Nat := (if a.shows then 1 else 0) + (if a.stores then 2 else 0)

def isEmpty (a : Access) : Bool := !a.shows && !a.stores

end Access

/-- A file of a directory. It has no value if it may not be shown or could not be read. -/
structure Attribute where
  name : String
  path : String
  value : Option String
  access : Access
  deriving DecidableEq

/-- A link of a directory, with its target as an absolute path in normal form. -/
structure Link where
  name : String
  path : String
  target : String
  deriving DecidableEq

inductive Directory where
  | unread (name path : String)
  | listed (name path : String) (attributes : List Attribute) (links : List Link)
      (subdirs : List Directory)

namespace Directory

/-- Induction in which the claim is known of all directories right below. -/
@[elab_as_elim] theorem induction {P : Directory → Prop} (unread : ∀ n p, P (unread n p))
    (listed : ∀ n p as ls ds, (∀ d ∈ ds, P d) → P (listed n p as ls ds)) : ∀ d, P d
  | .unread n p => unread n p
  | .listed n p as ls ds => listed n p as ls ds fun d _ => induction unread listed d

def name : Directory → String
  | unread name _ | listed name _ _ _ _ => name

def path : Directory → String
  | unread _ path | listed _ path _ _ _ => path

def attributes : Directory → List Attribute
  | unread _ _ => []
  | listed _ _ attributes _ _ => attributes

def links : Directory → List Link
  | unread _ _ => []
  | listed _ _ _ links _ => links

def subdirs : Directory → List Directory
  | unread _ _ => []
  | listed _ _ _ _ subdirs => subdirs

def isListed : Directory → Bool
  | unread _ _ => false
  | listed _ _ _ _ _ => true

def attribute? (d : Directory) (name : String) : Option Attribute :=
  d.attributes.find? (·.name = name)

def link? (d : Directory) (name : String) : Option Link := d.links.find? (·.name = name)

def subdir? (d : Directory) (name : String) : Option Directory :=
  d.subdirs.find? (·.name = name)

def valueOf (d : Directory) (name : String) : Option String :=
  (d.attribute? name).bind (·.value)

/-- The directory reached by going down by the given names. -/
def descend (d : Directory) : List String → Option Directory
  | [] => some d
  | name :: rest => (d.subdir? name).bind (·.descend rest)

/-! ### Release -/

mutual

/-- A directory is released before those it holds, and these from first to last. -/
def closing : Directory → List Event
  | unread _ path => [.closed .directory path]
  | listed _ path _ _ subdirs => .closed .directory path :: closingAll subdirs

def closingAll : List Directory → List Event
  | [] => []
  | d :: ds => closing d ++ closingAll ds

end

theorem closing_eq (d : Directory) :
    d.closing = .closed .directory d.path :: closingAll d.subdirs := by
  cases d <;> rfl

@[simp] theorem closingAll_nil : closingAll [] = [] := rfl
@[simp] theorem closingAll_cons (d : Directory) (ds : List Directory) :
    closingAll (d :: ds) = d.closing ++ closingAll ds := rfl

/-! ### Pre-order -/

mutual

/-- A directory and all below it with their depths, each before those it holds. -/
def flatten (depth : Nat) : Directory → List (Nat × Directory)
  | unread name path => [(depth, unread name path)]
  | listed name path attributes links subdirs =>
    (depth, listed name path attributes links subdirs) :: flattenAll (depth + 1) subdirs

def flattenAll (depth : Nat) : List Directory → List (Nat × Directory)
  | [] => []
  | d :: ds => flatten depth d ++ flattenAll depth ds

end

@[simp] theorem name_unread (n p : String) : (unread n p).name = n := rfl
@[simp] theorem path_unread (n p : String) : (unread n p).path = p := rfl
@[simp] theorem subdirs_unread (n p : String) : (unread n p).subdirs = [] := rfl
@[simp] theorem name_listed (n p : String) (as : List Attribute) (ls : List Link)
    (ds : List Directory) : (listed n p as ls ds).name = n := rfl
@[simp] theorem path_listed (n p : String) (as : List Attribute) (ls : List Link)
    (ds : List Directory) : (listed n p as ls ds).path = p := rfl
@[simp] theorem subdirs_listed (n p : String) (as : List Attribute) (ls : List Link)
    (ds : List Directory) : (listed n p as ls ds).subdirs = ds := rfl

end Directory

end DeviceModel
