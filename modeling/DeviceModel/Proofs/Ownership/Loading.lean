import DeviceModel.Proofs.Ownership.Ledger
import DeviceModel.Proofs.Binding.FirstLink
import DeviceModel.Proofs.Graph.Nodes

/-!
What loading leaves alive.

An operation that succeeds leaves alive what its answer owns and nothing else; one that fails
leaves nothing. In particular what is made on the way, or before a failure, is released.
-/

namespace DeviceModel

open Logged (Turns)

/-! ### Directories -/

namespace Directory

/-- A directory and all below it. -/
def objects (d : Directory) : Multiset Object := d.nodes.map fun x => (ObjectKind.directory, x.path)

/-- Some directories and all below them. -/
def allObjects (ds : List Directory) : Multiset Object := (ds.map objects).sum

@[simp] lemma allObjects_cons (d : Directory) (ds : List Directory) :
    allObjects (d :: ds) = d.objects + allObjects ds := rfl
lemma allObjects_append (ds es : List Directory) :
    allObjects (ds ++ es) = allObjects ds + allObjects es := by
  simp [allObjects]

lemma objects_eq (d : Directory) :
    d.objects = (.directory, d.path) ::ₘ allObjects d.subdirs := by
  have hall (ds : List Directory) : (((ds.flatMap nodes).map fun x =>
      (ObjectKind.directory, x.path) : List Object) : Multiset Object) = allObjects ds := by
    induction ds with
    | nil => rfl
    | cons d ds ih =>
      rw [List.flatMap_cons, List.map_append, ← Multiset.coe_add, ih]
      rfl
  rw [objects, nodes_eq, List.map_cons, ← Multiset.cons_coe, hall]

theorem replay_closing (d : Directory) : replay d.objects d.closing = some 0 := by
  induction d using Directory.induction with
  | unread n p => rw [objects_eq, closing_eq, replay_closed]; rfl
  | listed n p as ls ds ih =>
    rw [objects_eq, closing_eq, replay_closed, closingAll_eq_flatMap]
    exact replay_flatMap ih

lemma replay_closingAll (ds : List Directory) :
    replay (allObjects ds) (closingAll ds) = some 0 := by
  rw [closingAll_eq_flatMap]
  exact replay_flatMap fun d _ => replay_closing d

variable (b : Backend)

lemma locate_turns (path : String) : (locate b path).Turns 0 objects 0 := by
  unfold locate
  refine Scan.turns_unless fun _ => ?_
  refine (Scan.turns_liftM _).bind fun name => (Scan.turns_ask _ _ _).bind fun kind => ?_
  cases kind with
  | directory =>
    refine (Scan.turns_opened .directory (Path.normalize path) 0).bind fun _ => ?_
    exact Scan.turns_pure (unread name _) objects 0
  | symlink | file => exact Scan.turns_throw _ _

lemma readValue_turns (path : String) : (readValue b path).Turns 0 fun _ => 0 := by
  refine Turns.bind (Scan.turns_run_ask _ _ _) fun r => ?_
  cases r with
  | ok bytes => exact Logged.turns_pure _ _
  | error e => exact (Logged.turns_note _).bind fun _ => Logged.turns_pure _ _

/-- What the items found in a directory own. -/
def itemObjects (items : List Item) : Multiset Object := allObjects (items.filterMap Item.subdir?)

lemma itemObjects_append (xs ys : List Item) :
    itemObjects (xs ++ ys) = itemObjects xs + itemObjects ys := by
  rw [itemObjects, List.filterMap_append, allObjects_append]
  rfl

lemma readEntry_turns (dir base : String) (e : Entry) :
    (readEntry b dir base e).Turns 0 fun item => itemObjects item.toList := by
  unfold readEntry
  cases e.kind with
  | directory =>
    refine (Logged.turns_opened .directory (Path.join dir e.name)).bind fun _ => ?_
    exact Logged.turns_pure (some (.subdir (unread e.name (Path.join dir e.name))))
      fun item => itemObjects item.toList
  | symlink =>
    refine Turns.bind (Scan.turns_run_ask _ _ _) fun r => ?_
    cases r with
    | ok target => exact Logged.turns_pure _ _
    | error cause => exact (Logged.turns_note _).bind fun _ => Logged.turns_pure _ _
  | file =>
    by_cases h : (Access.ofMode e.mode).shows = true
    · simp only [h, if_true]
      exact (readValue_turns b _).bind fun _ => Logged.turns_pure _ _
    · simp only [h]
      exact (Logged.turns_pure none fun _ => 0).bind fun _ => Logged.turns_pure _ _

lemma readEntries_turns (dir base : String) (es : List Entry) :
    (readEntries b dir base es).Turns 0 itemObjects := by
  induction es with
  | nil => exact Logged.turns_pure _ _
  | cons e es ih =>
    rw [readEntries_cons]
    refine (readEntry_turns b dir base e).bind fun item => ?_
    have hrest := ih.frame (itemObjects item.toList)
    rw [zero_add] at hrest
    refine hrest.bind fun items => ?_
    exact (Logged.turns_pure (item.toList ++ items) itemObjects).congr
      (by rw [itemObjects_append, add_comm]) fun _ => rfl

lemma askDir_turns (before : Multiset Object) (path : String) :
    (b.askDir path).Turns before (fun _ => before) before := by
  unfold Backend.askDir
  refine (Scan.turns_ask _ _ _).bind fun listing => ?_
  have hskip (n : Nat) : replay before (List.replicate n (.noticed (.nameNotText path))) =
      some before := by
    induction n with
    | zero => rfl
    | succ n ih => exact ih
  exact (Scan.turns_emit (hskip _) _).bind fun _ =>
    Scan.turns_pure listing.entries (fun _ => before) before

lemma linkBase_turns (before : Multiset Object) (dir : String) (es : List Entry) :
    (linkBase b dir es).Turns before (fun _ => before) before := by
  unfold linkBase
  split
  · exact Scan.turns_ask _ _ _
  · exact Scan.turns_pure dir (fun _ => before) before

/-- A read replaces what the directory held, or leaves it as it was. -/
lemma read_turns (d : Directory) : (d.read b).Turns d.objects objects d.objects := by
  unfold Directory.read
  refine (askDir_turns b _ _).bind fun es => (linkBase_turns b _ _ _).bind fun base => ?_
  have hitems := (readEntries_turns b d.path base es).frame d.objects
  rw [zero_add] at hitems
  refine (Scan.turns_lift hitems _).bind fun items => ?_
  have hold := replay_frame (replay_closingAll d.subdirs)
    ((.directory, d.path) ::ₘ itemObjects items)
  refine ((Scan.turns_emit hold _).congr ?_ (fun _ => rfl) rfl).bind fun _ => ?_
  · rw [objects_eq, Multiset.add_cons, Multiset.add_cons, add_comm]
  · refine (Scan.turns_pure (listed d.name d.path (items.filterMap Item.attr?)
      (items.filterMap Item.link?) (items.filterMap Item.subdir?)) objects _).congr ?_
      (fun _ => rfl) rfl
    rw [objects_eq, zero_add]
    rfl

lemma load_turns (path : String) : (load b path).Turns 0 objects 0 := by
  unfold load
  refine (locate_turns b path).bind fun d => ?_
  refine Scan.Turns.bind (Scan.turns_lift (read_turns b d) 0) fun r => ?_
  cases r with
  | ok d => exact Scan.turns_pure d objects 0
  | error e =>
    exact (Scan.turns_emit (replay_closing d) 0).bind fun _ => Scan.turns_throw e objects

lemma untilFailure_turns {f : Directory → Logged (Directory × Except Error Unit)}
    {ds : List Directory} (h : ∀ d ∈ ds, (f d).Turns d.objects fun r => r.1.objects) :
    (untilFailure f ds).Turns (allObjects ds) fun r => allObjects r.1 := by
  induction ds with
  | nil => exact Logged.turns_pure _ _
  | cons d ds ih =>
    refine ((h d List.mem_cons_self).frame (allObjects ds)).bind fun r => ?_
    obtain ⟨d, e | u⟩ := r
    · exact Logged.turns_pure (d :: ds, Except.error e) fun r => allObjects r.1
    · have hrest := (ih fun x hx => h x (List.mem_cons_of_mem _ hx)).frame d.objects
      rw [add_comm] at hrest
      refine hrest.bind fun r => ?_
      exact (Logged.turns_pure (d :: r.1, r.2) fun r => allObjects r.1).congr
        (by rw [allObjects_cons, add_comm]) fun _ => rfl

lemma readBelow_turns (depth : Nat) (d : Directory) :
    (readBelow b depth d).Turns d.objects fun r => r.1.objects := by
  induction depth generalizing d with
  | zero => exact Logged.turns_pure (d, Except.error Error.readError) fun r => r.1.objects
  | succ depth ih =>
    refine Turns.bind (read_turns b d) fun r => ?_
    cases r with
    | error e => exact Logged.turns_pure (d, Except.error e) fun r => r.1.objects
    | ok d =>
      have hbelow := (untilFailure_turns fun x (_ : x ∈ d.subdirs) => ih x).frame
        {(.directory, d.path)}
      refine (hbelow.congr ?_ fun _ => rfl).bind fun r => ?_
      · change _ = d.objects
        rw [objects_eq, Multiset.add_comm, Multiset.singleton_add]
      · refine (Logged.turns_pure (listed d.name d.path d.attributes d.links r.1, r.2)
          fun r => r.1.objects).congr ?_ fun _ => rfl
        rw [objects_eq, Multiset.add_comm, Multiset.singleton_add]
        rfl

theorem readAll_turns (d : Directory) :
    (readAll b d).Turns d.objects fun r => r.1.objects := by
  induction d using Directory.induction with
  | unread n p =>
    rw [readAll_unread]
    exact readBelow_turns b _ _
  | listed n p as ls ds ih =>
    rw [readAll_listed]
    refine Turns.map (((untilFailure_turns ih).frame {(.directory, p)}).congr ?_ fun r => ?_)
    · rw [objects_eq, Multiset.add_comm, Multiset.singleton_add]
      rfl
    · rw [objects_eq, Multiset.add_comm, Multiset.singleton_add]
      rfl

end Directory

/-! ### Buses -/

namespace BusList

/-- The list of the buses owns nothing: the directory it is read from is released. -/
lemma load_turns (sys : Mounted) : (load sys).Turns 0 (fun _ => 0) 0 := by
  unfold load
  refine (Directory.load_turns _ _).bind fun d => ?_
  exact (Scan.turns_emit (Directory.replay_closing d) 0).bind fun _ =>
    Scan.turns_pure _ (fun _ => 0) 0

lemma available_turns (sys : Mounted) : (available sys).Turns 0 fun _ => 0 := by
  refine Turns.bind (load_turns sys) fun r => ?_
  cases r with
  | ok buses => exact Logged.turns_pure _ _
  | error e => exact (Logged.turns_note _).bind fun _ => Logged.turns_pure _ _

lemma firstWith_turns (b : Backend) (busId : String) (buses : List (String × String)) :
    (firstWith b busId buses).Turns 0 fun _ => 0 := by
  induction buses with
  | nil => exact Logged.turns_pure _ _
  | cons bus rest ih =>
    refine Turns.bind (Scan.turns_run_ask _ _ _) fun r => ?_
    cases r with
    | ok kind => exact Logged.turns_pure _ _
    | error e => exact ih

lemma find_turns (buses : BusList) (b : Backend) (busId : String) :
    (buses.find b busId).Turns 0 (fun _ => 0) 0 := by
  unfold find
  refine Scan.turns_unless fun _ => ?_
  refine (Scan.turns_lift (firstWith_turns b busId _) 0).bind fun r => ?_
  cases r with
  | some name => exact Scan.turns_pure name (fun _ => 0) 0
  | none =>
    exact (Scan.turns_lift (Logged.turns_note _) 0).bind fun _ => Scan.turns_throw _ _

lemma nameFor_turns (buses : BusList) (b : Backend) (busId : String) :
    (buses.nameFor b busId).Turns 0 fun _ => 0 := by
  refine Turns.bind (find_turns buses b busId) fun r => ?_
  cases r <;> exact Logged.turns_pure _ _

end BusList

namespace Mounted

variable (sys : Mounted)

lemma findBus_turns (busId : String) : (sys.findBus busId).Turns 0 (fun _ => 0) 0 := by
  unfold findBus
  refine Scan.turns_unless fun _ => ?_
  exact (BusList.load_turns sys).bind fun buses => buses.find_turns _ _

lemma subsystem_turns (part : String) : (sys.subsystem part).Turns 0 (fun _ => 0) 0 := by
  unfold subsystem
  refine (Directory.load_turns _ _).bind fun d => ?_
  exact (Scan.turns_emit (Directory.replay_closing d) 0).bind fun _ =>
    Scan.turns_pure _ (fun _ => 0) 0

end Mounted

/-! ### Devices -/

namespace Device

/-- A device and its directory, without what is below. -/
def bareObjects (d : Device) : Multiset Object := (.device, d.path) ::ₘ d.directory.objects

/-- A device and all below it, each with its directory. -/
def objects (d : Device) : Multiset Object := (d.nodes.map bareObjects).sum

def allObjects (ds : List Device) : Multiset Object := (ds.map objects).sum

@[simp] lemma allObjects_nil : allObjects [] = 0 := rfl

lemma objects_eq (d : Device) :
    d.objects = (.device, d.path) ::ₘ (d.directory.objects + allObjects d.children) := by
  have hall (ds : List Device) : ((ds.flatMap nodes).map bareObjects).sum = allObjects ds := by
    induction ds with
    | nil => rfl
    | cons d ds ih =>
      rw [List.flatMap_cons, List.map_append, List.sum_append, ih]
      rfl
  rw [objects, nodes_eq, List.map_cons, List.sum_cons, hall, bareObjects, Multiset.cons_add]

lemma objects_with_children (d : Device) (children : List Device) :
    ({ d with children := children } : Device).objects =
      allObjects children + d.bareObjects := by
  rw [objects_eq, bareObjects, Multiset.add_cons, add_comm (allObjects children)]
  rfl

/-- What a device owns does not depend on what it is bound to. -/
lemma objects_bind (d : Device) (s : Option Serial) :
    ({ d with driver := s } : Device).objects = d.objects := by
  rw [objects_eq, objects_eq]
  rfl

theorem replay_closing (d : Device) : replay d.objects d.closing = some 0 := by
  induction d using Device.induction with
  | step d ih =>
    have hc := replay_frame (replay_flatMap ih) ((.device, d.path) ::ₘ d.directory.objects)
    rw [zero_add, Multiset.add_cons, add_comm] at hc
    rw [objects_eq, closing_eq, closingAll_eq_flatMap, allObjects, replay_append_of hc,
      replay_closed]
    exact d.directory.replay_closing

variable (sys : Mounted)

lemma loadBareOn_turns (buses : BusList) (path : String) :
    (loadOn sys buses path).Turns 0 bareObjects 0 := by
  unfold loadOn
  refine Scan.turns_unless fun _ => ?_
  refine ((Directory.load_turns _ _).noting _).bind fun d => ?_
  have hname := (buses.nameFor_turns sys.backend d.name).frame d.objects
  rw [zero_add] at hname
  refine (Scan.turns_lift hname 0).bind fun name => ?_
  refine (Scan.turns_opened .device d.path 0).bind fun _ => ?_
  exact Scan.turns_pure (⟨name, _, d, [], none⟩ : Device) bareObjects 0

lemma loadOn_turns (buses : BusList) (path : String) :
    (loadOn sys buses path).Turns 0 objects 0 := by
  have h := loadBareOn_turns sys buses path
  unfold Scan.Turns Logged.Turns at *
  rw [h]
  rcases hr : (loadOn sys buses path).run.value with e | d
  · rfl
  · change some d.bareObjects = some d.objects
    rw [objects_eq, (Device.driver_of_loadOn hr).2, allObjects_nil, add_zero]
    rfl

lemma load_turns (path : String) : (load sys path).Turns 0 objects 0 :=
  (Scan.turns_lift (BusList.available_turns sys) 0).bind fun buses => loadOn_turns sys buses path

lemma loadChildren_turns {f : String → Scan Device} (h : ∀ p, (f p).Turns 0 objects 0)
    (paths : List String) (children : List Device) :
    (loadChildren f paths children).Turns (allObjects children) fun r => allObjects r.1 := by
  induction paths generalizing children with
  | nil => exact Logged.turns_pure (children, none) fun r => allObjects r.1
  | cons p paths ih =>
    have hp := Logged.Turns.frame (h p) (allObjects children)
    rw [zero_add] at hp
    refine hp.bind fun r => ?_
    cases r with
    | ok child => exact ih (child :: children)
    | error e =>
      refine ((Logged.turns_note _).bind fun _ =>
        Logged.turns_pure (children, some e) fun r => allObjects r.1).congr ?_ fun _ => rfl
      exact (zero_add _).symm

/-- A tree that cannot be loaded in full leaves nothing of it. -/
lemma loadTreeOn_turns (buses : BusList) (depth : Nat) (path : String) :
    (loadTreeOn sys buses depth path).Turns 0 objects 0 := by
  induction depth generalizing path with
  | zero => exact Scan.turns_throw _ _
  | succ depth ih =>
    unfold loadTreeOn
    refine (loadBareOn_turns sys buses path).bind fun root => ?_
    have hbelow := (loadChildren_turns ih (root.directory.subdirs.map (·.path)) []).frame
      root.bareObjects
    rw [allObjects_nil, zero_add] at hbelow
    refine Scan.Turns.bind (Scan.turns_lift hbelow 0) fun r => ?_
    obtain ⟨children, _ | e⟩ := r
    · refine (Scan.turns_pure ({ root with children := children } : Device) objects 0).congr ?_
        (fun _ => rfl) rfl
      exact objects_with_children root children
    · have hclosing := replay_closing { root with children := children }
      rw [objects_with_children] at hclosing
      exact (Scan.turns_emit hclosing 0).bind fun _ => Scan.turns_throw e objects

lemma loadTree_turns (path : String) : (loadTree sys path).Turns 0 objects 0 :=
  (Scan.turns_lift (BusList.available_turns sys) 0).bind fun buses =>
    loadTreeOn_turns sys buses _ path

end Device

/-! ### Drivers -/

namespace Driver

/-- A driver and its directory. -/
def objects (d : Driver) : Multiset Object := (.driver, d.path) ::ₘ d.directory.objects

theorem replay_closing (d : Driver) : replay d.objects d.closing = some 0 := by
  rw [objects, closing, replay_closed]
  exact d.directory.replay_closing

lemma load_turns (sys : Mounted) (path : String) : (load sys path).Turns 0 objects 0 := by
  unfold load
  refine Scan.turns_unless fun _ => ?_
  refine ((Directory.load_turns _ _).noting _).bind fun d => ?_
  refine (Scan.turns_opened .driver d.path 0).bind fun _ => ?_
  exact Scan.turns_pure (⟨d, none⟩ : Driver) objects 0

end Driver

end DeviceModel
