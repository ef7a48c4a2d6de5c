import DeviceModel.Proofs.Ownership.Classes
import DeviceModel.Session.Run

/-!
What a handle owns, and what is released with it: all that it owns alone, and of the devices
and drivers that it shares with others those that nobody else keeps.
-/

namespace DeviceModel

open Logged (Turns)

/-! ### Either role -/

/-- What plays a role. -/
abbrev Role.Obj : Role → Type
  | device => Device
  | driver => Driver

def Role.objects : (role : Role) → role.Obj → Multiset Object
  | device => Device.objects
  | driver => Driver.objects

def Role.closing : (role : Role) → role.Obj → List Event
  | device => Device.closing
  | driver => Driver.closing

def Living.shared (l : Living) : (role : Role) → List (Shared role.Obj)
  | .device => l.devices
  | .driver => l.drivers

lemma Living.kept_iff {l : Living} {role : Role} {i : Serial} :
    l.kept role i = true ↔ ∃ d ∈ l.shared role, d.serial = i := by
  cases role <;> simp [kept, device?, driver?, shared]

/-- The end that plays a role. -/
def Bound.end? (p : Bound) : (role : Role) → Option (Shared role.Obj)
  | .device => p.device
  | .driver => p.driver

namespace Held

/-- The shared objects of a role that a handle owns. -/
def shared (x : Held) : (role : Role) → List (Shared role.Obj)
  | .device => x.devices
  | .driver => x.drivers

/-- The ends that came into being together: those of each class device, and each device or
driver that was loaded by itself. -/
def ends : Held → List Bound
  | directory _ => []
  | device d => [⟨some d, none⟩]
  | driver d => [⟨none, some d⟩]
  | classDevice c => [⟨c.device, c.driver⟩]
  | deviceClass k => k.devices.map fun c => ⟨c.device, c.driver⟩

lemma shared_eq (x : Held) (role : Role) :
    x.shared role = x.ends.flatMap fun p => (p.end? role).toList := by
  cases role <;> cases x <;> simp [shared, devices, drivers, ends, Bound.end?, List.flatMap_map]

lemma mem_shared {x : Held} {role : Role} {d : Shared role.Obj} :
    d ∈ x.shared role ↔ ∃ p ∈ x.ends, d ∈ p.end? role := by
  rw [shared_eq, List.mem_flatMap]
  simp only [Option.mem_toList, Option.mem_def]

end Held

/-! ### Owners in common -/

/-- What is owned by those of the shared objects that nobody keeps. -/
def Shared.loose {α : Type} (f : α → Multiset Object) (kept : Serial → Bool)
    (ds : List (Shared α)) : Multiset Object :=
  ((ds.filter fun d => !kept d.serial).map fun d => f d.object).sum

namespace Shared

variable {α : Type} (f : α → Multiset Object) (kept : Serial → Bool)

lemma loose_append (ds es : List (Shared α)) :
    loose f kept (ds ++ es) = loose f kept ds + loose f kept es := by
  simp [loose]

/-- If nobody keeps anything, all is loose. -/
lemma loose_toList (d : Option (Shared α)) : loose f (fun _ => false) d.toList = objects f d := by
  cases d <;> simp [loose, objects]

/-- Release of one end, if its release is known to release what it owns. -/
lemma replay_closing {f : α → Multiset Object} {closing : α → List Event}
    (h : ∀ a, replay (f a) (closing a) = some 0) (kept : Serial → Bool)
    (d : Option (Shared α)) :
    replay (loose f kept d.toList) (Shared.closing kept closing d) = some 0 := by
  cases d with
  | none => rfl
  | some d =>
    by_cases hk : kept d.serial = true
    · simp [loose, Shared.closing, hk]
    · simpa [loose, Shared.closing, hk] using h d.object

/-- What nobody keeps is released in full. -/
lemma closing_eq (kept : Serial → Bool) {c : Option (Shared α)} {d : Shared α} (hd : d ∈ c)
    (hk : kept d.serial = false) (closing : α → List Event) :
    Shared.closing kept closing c = closing d.object := by
  cases hd
  simp [Shared.closing, hk]

end Shared

/-! ### Class devices -/

namespace ClassDevice

variable (kept : Kept)

/-- What goes when a class device is released. -/
def released (c : ClassDevice) : Multiset Object :=
  c.ownObjects + (Shared.loose Device.objects (kept .device) c.device.toList +
    Shared.loose Driver.objects (kept .driver) c.driver.toList)

lemma released_all (c : ClassDevice) : c.released (fun _ _ => false) = c.objects := by
  rw [released, Shared.loose_toList, Shared.loose_toList]
  rfl

theorem replay_closing (c : ClassDevice) : replay (c.released kept) (c.closing kept) = some 0 := by
  have hown :
      replay c.ownObjects (.closed .classDevice c.path :: c.directory.closing) = some 0 := by
    rw [ownObjects, replay_closed]
    exact c.directory.replay_closing
  have hdevice := Shared.replay_closing Device.replay_closing (kept .device) c.device
  have hdriver := Shared.replay_closing Driver.replay_closing (kept .driver) c.driver
  rw [closing, released, List.append_assoc, replay_append_of (replay_frame hown _), zero_add,
    replay_append_of (replay_frame hdevice _), zero_add]
  exact hdriver

end ClassDevice

/-! ### Handles -/

namespace Held

/-- What a handle owns alone. -/
def ownObjects : Held → Multiset Object
  | directory d => d.objects
  | device _ | driver _ => 0
  | classDevice c => c.ownObjects
  | deviceClass c =>
    (.deviceClass, c.path) ::ₘ (c.directory.objects + (c.devices.map (·.ownObjects)).sum)

/-- What goes when a handle is released. -/
def released (kept : Kept) (x : Held) : Multiset Object :=
  x.ownObjects + (Shared.loose Device.objects (kept .device) x.devices +
    Shared.loose Driver.objects (kept .driver) x.drivers)

/-- All that a handle owns, alone or with others. -/
def objects (x : Held) : Multiset Object := x.released fun _ _ => false

lemma released_deviceClass (kept : Kept) (c : DeviceClass) :
    (deviceClass c).released kept =
      (.deviceClass, c.path) ::ₘ (c.directory.objects + (c.devices.map (·.released kept)).sum) := by
  -- by class device instead of by kind, which a sum does not tell apart
  have hsum (cs : List ClassDevice) :
      (cs.map (·.ownObjects)).sum +
        (Shared.loose Device.objects (kept .device) (cs.flatMap (·.device.toList)) +
          Shared.loose Driver.objects (kept .driver) (cs.flatMap (·.driver.toList))) =
      (cs.map (·.released kept)).sum := by
    induction cs with
    | nil => rfl
    | cons c cs ih =>
      rw [List.flatMap_cons, List.flatMap_cons, Shared.loose_append, Shared.loose_append,
        List.map_cons, List.map_cons, List.sum_cons, List.sum_cons, ← ih, ClassDevice.released]
      abel
  rw [← hsum, released, ownObjects, Multiset.cons_add, add_assoc]
  rfl

lemma objects_directory (d : Directory) : (directory d).objects = d.objects := add_zero _

lemma objects_device (d : Shared Device) : (device d).objects = d.object.objects := by
  simp [objects, released, ownObjects, devices, drivers, Shared.loose]

lemma objects_driver (d : Shared Driver) : (driver d).objects = d.object.objects := by
  simp [objects, released, ownObjects, devices, drivers, Shared.loose]

lemma objects_classDevice (c : ClassDevice) : (classDevice c).objects = c.objects :=
  c.released_all

lemma objects_deviceClass (c : DeviceClass) : (deviceClass c).objects = c.objects := by
  rw [objects, released_deviceClass]
  simp only [ClassDevice.released_all]
  rfl

theorem replay_closing (kept : Kept) (x : Held) :
    replay (x.released kept) (x.closing kept) = some 0 := by
  cases x with
  | directory d =>
    have h := d.replay_closing
    rwa [← add_zero d.objects] at h
  | device d =>
    have h := Shared.replay_closing Device.replay_closing (kept .device) (some d)
    rwa [← zero_add (Shared.loose _ _ _), ← add_zero (Shared.loose _ _ _)] at h
  | driver d =>
    have h := Shared.replay_closing Driver.replay_closing (kept .driver) (some d)
    rwa [← zero_add (Shared.loose _ _ _), ← zero_add (Shared.loose _ _ _)] at h
  | classDevice c => exact c.replay_closing kept
  | deviceClass c =>
    rw [released_deviceClass]
    change replay _ (.closed .deviceClass c.path :: (c.directory.closing ++ _)) = _
    rw [replay_closed, replay_append_of (replay_frame c.directory.replay_closing _), zero_add]
    exact replay_flatMap fun d _ => d.replay_closing kept

/-- The release of a pair, whatever it came with. -/
lemma infix_closing_of_mem_ends (kept : Kept) {x : Held} {p : Bound} (hp : p ∈ x.ends) :
    Shared.closing (kept .device) Device.closing p.device ++
      Shared.closing (kept .driver) Driver.closing p.driver <:+: x.closing kept := by
  -- within a class device the pair is released last
  have hclass (c : ClassDevice) : Shared.closing (kept .device) Device.closing c.device ++
      Shared.closing (kept .driver) Driver.closing c.driver <:+: c.closing kept := by
    rw [ClassDevice.closing, List.append_assoc]
    exact (List.suffix_append _ _).isInfix
  cases x with
  | directory d => cases hp
  | device d =>
    cases List.mem_singleton.1 hp
    exact (List.append_nil _).symm ▸ List.infix_rfl
  | driver d =>
    cases List.mem_singleton.1 hp
    exact List.infix_rfl
  | classDevice c =>
    cases List.mem_singleton.1 hp
    exact hclass c
  | deviceClass k =>
    obtain ⟨c, hc, rfl⟩ := List.mem_map.1 hp
    have hall : c.closing kept <:+: k.devices.flatMap (·.closing kept) :=
      List.infix_of_mem_flatten (List.mem_map_of_mem hc)
    exact (hclass c).trans (hall.trans (List.suffix_append _ _).isInfix)

/-- A device or driver that nobody keeps is released in full with the handle. -/
theorem infix_closing {kept : Kept} {x : Held} {role : Role} {d : Shared role.Obj}
    (hd : d ∈ x.shared role) (hk : kept role d.serial = false) :
    role.closing d.object <:+: x.closing kept := by
  obtain ⟨p, hp, hpd⟩ := mem_shared.1 hd
  refine List.IsInfix.trans ?_ (infix_closing_of_mem_ends kept hp)
  cases role with
  | device =>
    have he : Shared.closing (kept .device) Device.closing p.device = Device.closing d.object :=
      Shared.closing_eq (kept .device) hpd hk Device.closing
    exact he ▸ (List.prefix_append _ _).isInfix
  | driver =>
    have he : Shared.closing (kept .driver) Driver.closing p.driver = Driver.closing d.object :=
      Shared.closing_eq (kept .driver) hpd hk Driver.closing
    exact he ▸ (List.suffix_append _ _).isInfix

end Held

/-! ### Loading into a handle -/

/-- A load leaves alive what it hands out, and nothing if it fails. -/
theorem Session.loadHeld_turns (sys : Mounted) (serial : Serial) (what : Opening) :
    (loadHeld sys serial what).Turns 0 (fun r => r.1.objects) 0 := by
  cases what with
  | directory path =>
    -- each load hands out what it leaves alive, put into a handle of its own
    refine (Directory.locate_turns sys.backend path).bind fun d => ?_
    rw [← Held.objects_directory d]
    exact Scan.turns_pure (Held.directory d, serial) (fun r => r.1.objects) 0
  | device path =>
    refine (Device.load_turns sys path).bind fun d => ?_
    rw [← Held.objects_device ⟨serial, d⟩]
    exact Scan.turns_pure (Held.device ⟨serial, d⟩, serial + 1) (fun r => r.1.objects) 0
  | deviceTree path =>
    refine (Device.loadTree_turns sys path).bind fun d => ?_
    rw [← Held.objects_device ⟨serial, d⟩]
    exact Scan.turns_pure (Held.device ⟨serial, d⟩, serial + 1) (fun r => r.1.objects) 0
  | driver path =>
    refine (Driver.load_turns sys path).bind fun d => ?_
    rw [← Held.objects_driver ⟨serial, d⟩]
    exact Scan.turns_pure (Held.driver ⟨serial, d⟩, serial + 1) (fun r => r.1.objects) 0
  | classDevice path =>
    refine (ClassDevice.load_turns sys serial path).bind fun c => ?_
    rw [← Held.objects_classDevice c]
    exact Scan.turns_pure (Held.classDevice c, serial + 1) (fun r => r.1.objects) 0
  | classDeviceNamed cls name =>
    refine (ClassDevice.loadNamed_turns sys serial cls name).bind fun c => ?_
    rw [← Held.objects_classDevice c]
    exact Scan.turns_pure (Held.classDevice c, serial + 1) (fun r => r.1.objects) 0
  | deviceClass name =>
    refine (DeviceClass.load_turns sys serial name).bind fun c => ?_
    rw [← Held.objects_deviceClass c]
    exact Scan.turns_pure (Held.deviceClass c, serial + c.directory.subdirs.length)
      (fun r => r.1.objects) 0

end DeviceModel
