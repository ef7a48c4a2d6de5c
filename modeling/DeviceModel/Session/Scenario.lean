import DeviceModel.Session.Run
import DeviceModel.Tree.Disk.Edit
import DeviceModel.Tree.Memory
import DeviceModel.Tree.Overlay

/-!
Scenarios: a session over a file system that is edited between the steps. An edit that is
refused ends it.
-/

namespace DeviceModel

/-- File systems of one kind, with the edits they take. -/
structure World (σ ε : Type) where
  apply : σ → ε → Except Refusal σ
  backend : σ → Backend

def World.memory : World MemoryTree MemoryTree.Edit :=
  ⟨fun t e => .ok (t.apply e), MemoryTree.backend⟩

def World.disk : World DiskTree DiskTree.Edit := ⟨DiskTree.apply, DiskTree.backend⟩

structure Scenario (σ : Type) where
  mount : String
  tree : σ
  overlay : Overlay
  session : Session

inductive Change (ε : Type) where
  | tree (e : ε)
  | overlay (e : Overlay.Edit)

inductive Action (ε : Type) where
  | edit (changes : List (Change ε))
  | step (s : Step)

namespace Scenario

variable {σ ε : Type} (w : World σ ε)

def ofTree (mount : String) (tree : σ) : Scenario σ := ⟨mount, tree, .empty, .empty⟩

def change (s : Scenario σ) : Change ε → Except Refusal (Scenario σ)
  | .tree e => return { s with tree := ← w.apply s.tree e }
  | .overlay e => return { s with overlay := s.overlay.apply e }

def changeAll (s : Scenario σ) (changes : List (Change ε)) : Except Refusal (Scenario σ) :=
  changes.foldlM (change w) s

def mounted (s : Scenario σ) : Mounted := .ofMount s.mount (s.overlay.laidOn (w.backend s.tree))

def step (s : Scenario σ) (st : Step) : Logged (Scenario σ × Reply) := do
  let (session, reply) ← s.session.step (s.mounted w) st
  return ({ s with session := session }, reply)

def act (s : Scenario σ) : Action ε → Except Refusal (Logged (Scenario σ × Reply))
  | .edit changes => do
    let s ← s.changeAll w changes
    return pure (s, { outcome := .ok .nothing })
  | .step st => return s.step w st

def finish (s : Scenario σ) : Logged (Scenario σ) := do
  let session ← s.session.finish
  return { s with session := session }

end Scenario

end DeviceModel
