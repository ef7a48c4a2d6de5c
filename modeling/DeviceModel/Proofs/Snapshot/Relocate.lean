import Mathlib.Tactic.Lemma
import DeviceModel.Snapshot.Read

/-!
Snapshots that differ in their paths only. A snapshot is relocated by changing every path in it,
and placed at a path by writing the path in front of all of its own.
-/

namespace DeviceModel

def Attribute.relocate (f : String → String) (a : Attribute) : Attribute :=
  { a with path := f a.path }

def Link.relocate (f : String → String) (l : Link) : Link := { l with path := f l.path }

namespace Directory

mutual

/-- Changes every path of a snapshot. Names, values, access and targets stay. -/
def relocate (f : String → String) : Directory → Directory
  | unread name path => unread name (f path)
  | listed name path attributes links subdirs =>
    listed name (f path) (attributes.map (·.relocate f)) (links.map (·.relocate f))
      (relocateAll f subdirs)

def relocateAll (f : String → String) : List Directory → List Directory
  | [] => []
  | d :: ds => relocate f d :: relocateAll f ds

end

/-- Gives a directory another name; those below it keep theirs. -/
def rename (name : String) : Directory → Directory
  | unread _ path => unread name path
  | listed _ path attributes links subdirs => listed name path attributes links subdirs

/-- A directory under a name and with `path` in front of all its paths. -/
def placed (name path : String) (d : Directory) : Directory :=
  (d.relocate (path ++ ·)).rename name

variable {f g : String → String} {name path : String}

lemma relocateAll_eq_map (f : String → String) (ds : List Directory) :
    relocateAll f ds = ds.map (·.relocate f) := by
  induction ds with
  | nil => rfl
  | cons d ds ih => rw [relocateAll, ih, List.map_cons]

lemma relocate_relocate (d : Directory) :
    (d.relocate g).relocate f = d.relocate fun p => f (g p) := by
  induction d using Directory.induction with
  | unread name path => rfl
  | listed name path as ls ds ih =>
    have hds : (ds.map (·.relocate g)).map (·.relocate f) =
        ds.map (·.relocate fun p => f (g p)) := by
      rw [List.map_map]
      exact List.map_congr_left ih
    simp only [relocate, relocateAll_eq_map, hds, List.map_map]
    rfl

@[simp] lemma name_relocate (d : Directory) : (d.relocate f).name = d.name := by
  cases d <;> rfl

@[simp] lemma path_relocate (d : Directory) : (d.relocate f).path = f d.path := by
  cases d <;> rfl

lemma relocate_rename (d : Directory) :
    (d.rename name).relocate f = (d.relocate f).rename name := by
  cases d <;> rfl

/-- What is placed below a path is placed with it. -/
lemma relocate_placed (d : Directory) (name path pre : String) :
    (d.placed name path).relocate (pre ++ ·) = d.placed name (pre ++ path) := by
  rw [placed, relocate_rename, relocate_relocate, placed]
  simp only [String.append_assoc]

@[simp] lemma name_placed (d : Directory) : (d.placed name path).name = name := by
  cases d <;> rfl

@[simp] lemma path_placed (d : Directory) : (d.placed name path).path = path ++ d.path := by
  cases d <;> rfl

end Directory

namespace Item

def relocate (f : String → String) : Item → Item
  | attr a => attr (a.relocate f)
  | link l => link (l.relocate f)
  | subdir d => subdir (d.relocate f)

variable {f : String → String}

lemma attr?_relocate (i : Item) : (i.relocate f).attr? = i.attr?.map (·.relocate f) := by
  cases i <;> rfl

lemma link?_relocate (i : Item) : (i.relocate f).link? = i.link?.map (·.relocate f) := by
  cases i <;> rfl

lemma subdir?_relocate (i : Item) : (i.relocate f).subdir? = i.subdir?.map (·.relocate f) := by
  cases i <;> rfl

/-- What is picked of the items is relocated with them. -/
lemma filterMap_relocate {α : Type} {pick : Item → Option α} {g : α → α}
    (h : ∀ i, pick (i.relocate f) = (pick i).map g) (items : List Item) :
    (items.map (·.relocate f)).filterMap pick = (items.filterMap pick).map g := by
  rw [List.filterMap_map, List.map_filterMap]
  exact congrArg (items.filterMap ·) (funext h)

end Item

end DeviceModel
