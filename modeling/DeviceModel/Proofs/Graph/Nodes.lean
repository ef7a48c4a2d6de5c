import Mathlib.Data.List.Perm.Basic
import Mathlib.Tactic.Lemma
import DeviceModel.Graph.Device

/-!
The nodes of a tree in pre-order, of directories and of devices, without their depths.
-/

namespace DeviceModel

namespace Directory

def nodes (d : Directory) : List Directory := (d.flatten 0).map (·.2)

lemma flattenAll_eq (depth : Nat) (ds : List Directory) :
    flattenAll depth ds = ds.flatMap (flatten depth) := by
  induction ds with
  | nil => rfl
  | cons d ds ih => simp only [flattenAll, ih, List.flatMap_cons]

/-- The depth is only written down. -/
lemma map_flatten (d : Directory) : ∀ depth, (d.flatten depth).map (·.2) = d.nodes := by
  induction d using Directory.induction with
  | unread n p => exact fun _ => rfl
  | listed n p as ls ds ih =>
    have hall : ∀ depth, (flattenAll depth ds).map (·.2) = ds.flatMap nodes := by
      intro depth
      rw [flattenAll_eq, List.map_flatMap, List.flatMap_def, List.flatMap_def]
      exact congrArg _ (List.map_congr_left fun d hd => ih d hd depth)
    intro depth
    rw [nodes, flatten, flatten, List.map_cons, List.map_cons, hall, hall]

theorem nodes_eq (d : Directory) : d.nodes = d :: d.subdirs.flatMap nodes := by
  cases d with
  | unread n p => rfl
  | listed n p as ls ds =>
    rw [nodes, flatten, List.map_cons, flattenAll_eq, List.map_flatMap]
    simp only [map_flatten, subdirs_listed]

end Directory

namespace Device

def nodes (d : Device) : List Device := (d.flatten 0).map (·.2)

lemma flattenAll_eq (depth : Nat) (ds : List Device) :
    flattenAll depth ds = ds.flatMap (flatten depth) := by
  induction ds with
  | nil => rfl
  | cons d ds ih => simp only [flattenAll, ih, List.flatMap_cons]

lemma closingAll_eq_flatMap (ds : List Device) : closingAll ds = ds.flatMap closing := by
  induction ds with
  | nil => rfl
  | cons d ds ih => rw [closingAll_cons, ih, List.flatMap_cons]

lemma flatten_eq (depth : Nat) (d : Device) :
    d.flatten depth = (depth, d) :: d.children.flatMap (flatten (depth + 1)) := by
  cases d
  rw [flatten, flattenAll_eq]

lemma map_flatten (d : Device) : ∀ depth, (d.flatten depth).map (·.2) = d.nodes := by
  induction d using Device.induction with
  | step d ih =>
    have hall : ∀ depth, (d.children.flatMap (flatten depth)).map (·.2) =
        d.children.flatMap nodes := by
      intro depth
      rw [List.map_flatMap, List.flatMap_def, List.flatMap_def]
      exact congrArg _ (List.map_congr_left fun c hc => ih c hc depth)
    intro depth
    rw [nodes, flatten_eq, flatten_eq, List.map_cons, List.map_cons, hall, hall]

theorem nodes_eq (d : Device) : d.nodes = d :: d.children.flatMap nodes := by
  rw [nodes, flatten_eq, List.map_cons, List.map_flatMap]
  simp only [map_flatten]

mutual

/-- A device and all below it in the order in which they were opened: children stand in reverse
scan order. -/
def scanned : Device → List Device
  | ⟨busName, name, directory, children, driver⟩ =>
    ⟨busName, name, directory, children, driver⟩ :: scannedAll children

def scannedAll : List Device → List Device
  | [] => []
  | d :: ds => scannedAll ds ++ scanned d

end

lemma scanned_eq (d : Device) : d.scanned = d :: d.children.reverse.flatMap scanned := by
  have hall (ds : List Device) : scannedAll ds = ds.reverse.flatMap scanned := by
    induction ds with
    | nil => rfl
    | cons d ds ih => simp [scannedAll, ih]
  cases d
  rw [scanned, hall]

/-- The nodes are the same in either order. -/
theorem scanned_perm (d : Device) : d.scanned.Perm d.nodes := by
  induction d using Device.induction with
  | step d ih =>
    rw [scanned_eq, nodes_eq]
    refine .cons d ?_
    have hreverse : (d.children.reverse.flatMap scanned).Perm (d.children.flatMap scanned) :=
      (List.reverse_perm d.children).flatMap_right scanned
    exact hreverse.trans (List.Perm.flatMap_left d.children ih)

/-- The device itself is the one node that does not count as a descendant. -/
theorem length_nodes (d : Device) : d.nodes.length = d.descendants + 1 := by
  induction d using Device.induction with
  | step d ih =>
    have hall {cs : List Device} (h : ∀ c ∈ cs, c.nodes.length = c.descendants + 1) :
        (cs.flatMap nodes).length = countAll cs := by
      induction cs with
      | nil => rfl
      | cons c cs ihs =>
        rw [List.flatMap_cons, List.length_append, countAll_cons, h c List.mem_cons_self,
          ihs fun x hx => h x (List.mem_cons_of_mem _ hx)]
        omega
    rw [nodes_eq, List.length_cons, hall ih, descendants_eq]

end Device

end DeviceModel
