import DeviceModel.Proofs.Graph.Nodes

/-!
Directories by their positions below another: the numbers of the steps that lead down to them.

A position precedes another if its directory comes first in pre-order.
-/

namespace DeviceModel.Directory

/-- One position comes before another in pre-order: it is above it, or it turns off earlier. -/
def Precedes : List Nat → List Nat → Prop
  | _, [] => False
  | [], _ :: _ => True
  | i :: p, j :: q => i < j ∨ i = j ∧ Precedes p q

@[simp] lemma not_precedes_nil (p : List Nat) : ¬ Precedes p [] := by
  cases p <;> exact id
@[simp] lemma nil_precedes_cons (j : Nat) (q : List Nat) : Precedes [] (j :: q) := trivial
@[simp] lemma cons_precedes_cons (i j : Nat) (p q : List Nat) :
    Precedes (i :: p) (j :: q) ↔ i < j ∨ i = j ∧ Precedes p q := Iff.rfl

/-- The directory at a position. -/
def at? (d : Directory) : List Nat → Option Directory
  | [] => some d
  | i :: q => d.subdirs[i]?.bind (·.at? q)

/-- The directory at a position below some directories side by side. -/
def pick (ds : List Directory) : List Nat → Option Directory
  | [] => none
  | i :: q => ds[i]?.bind (·.at? q)

@[simp] lemma at?_nil (d : Directory) : d.at? [] = some d := rfl
@[simp] lemma at?_cons (d : Directory) (i : Nat) (q : List Nat) :
    d.at? (i :: q) = pick d.subdirs (i :: q) := rfl
@[simp] lemma pick_nil (q : List Nat) : pick [] q = none := by cases q <;> rfl
@[simp] lemma pick_root (ds : List Directory) : pick ds [] = none := rfl
@[simp] lemma pick_zero (d : Directory) (ds : List Directory) (q : List Nat) :
    pick (d :: ds) (0 :: q) = d.at? q := rfl
@[simp] lemma pick_succ (d : Directory) (ds : List Directory) (i : Nat) (q : List Nat) :
    pick (d :: ds) ((i + 1) :: q) = pick ds (i :: q) := rfl

lemma unread_of_pick {ds : List Directory} (h : ∀ d ∈ ds, d.isListed = false) {q : List Nat}
    {x : Directory} (hx : pick ds q = some x) : x.isListed = false := by
  rcases q with _ | ⟨i, q⟩
  · cases hx
  · obtain ⟨d, hd, hx⟩ := Option.bind_eq_some_iff.1 hx
    have hun := h d (List.mem_of_getElem? hd)
    rcases d with ⟨n, p⟩ | _
    · rcases q with _ | ⟨j, q⟩
      · cases hx
        rfl
      · simp at hx
    · cases hun

/-! ### What a directory holds by itself -/

/-- Where a directory stands, and nothing of what it holds. -/
def stub (d : Directory) : Directory := unread d.name d.path

/-- A directory by itself: what it holds, but of those below only where they stand. -/
def alone : Directory → Directory
  | unread n p => unread n p
  | listed n p as ls ds => listed n p as ls (ds.map stub)

/-- A directory with other directories below it. -/
def holding (d : Directory) (ds : List Directory) : Directory :=
  listed d.name d.path d.attributes d.links ds

@[simp] lemma name_stub (d : Directory) : d.stub.name = d.name := rfl
@[simp] lemma path_stub (d : Directory) : d.stub.path = d.path := rfl
@[simp] lemma subdirs_holding (d : Directory) (ds : List Directory) :
    (d.holding ds).subdirs = ds := rfl
@[simp] lemma name_holding (d : Directory) (ds : List Directory) :
    (d.holding ds).name = d.name := rfl
@[simp] lemma path_holding (d : Directory) (ds : List Directory) :
    (d.holding ds).path = d.path := rfl
@[simp] lemma isListed_holding (d : Directory) (ds : List Directory) :
    (d.holding ds).isListed = true := rfl
@[simp] lemma holding_holding (d : Directory) (ds es : List Directory) :
    (d.holding ds).holding es = d.holding es := rfl

lemma holding_subdirs {d : Directory} (h : d.isListed = true) : d.holding d.subdirs = d := by
  cases d with
  | unread n p => cases h
  | listed n p as ls ds => rfl

lemma alone_holding {d : Directory} (h : d.isListed = true) {ds : List Directory}
    (hstub : ds.map stub = d.subdirs.map stub) : (d.holding ds).alone = d.alone := by
  cases d with
  | unread n p => cases h
  | listed n p as ls es => exact congrArg (listed n p as ls) hstub

lemma eq_stub {d : Directory} (h : d.isListed = false) : d = d.stub := by
  cases d with
  | unread n p => rfl
  | listed n p as ls ds => cases h

end DeviceModel.Directory
