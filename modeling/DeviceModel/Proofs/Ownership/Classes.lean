import DeviceModel.Proofs.Ownership.Loading

/-!
What loading a class device or a class leaves alive: besides what it owns alone, the devices
and drivers that its links have led to. These may get other owners later, so they are counted
apart.
-/

namespace DeviceModel

open Logged (Turns)

/-- What an end of a binding owns, if it is there. -/
def Shared.objects {α : Type} (f : α → Multiset Object) (d : Option (Shared α)) :
    Multiset Object :=
  d.elim 0 fun d => f d.object

@[simp] lemma Shared.objects_none {α : Type} (f : α → Multiset Object) : objects f none = 0 := rfl
@[simp] lemma Shared.objects_some {α : Type} (f : α → Multiset Object) (d : Shared α) :
    objects f (some d) = f d.object := rfl

/-! ### Links -/

namespace Bound

def objects (bound : Bound) : Multiset Object :=
  Shared.objects Device.objects bound.device + Shared.objects Driver.objects bound.driver

/-- Binding takes nothing over: each end keeps what it owned. -/
lemma couple_turns (device : Shared Device) (driver : Shared Driver) :
    (couple device driver).Turns (device.object.objects + driver.object.objects) objects := by
  have hbound (d : Option Serial) (r : Option Serial) :
      Turns (device.object.objects + driver.object.objects)
        (pure ⟨some { device with object := { device.object with driver := d } },
          some { driver with object := { driver.object with device := r } }⟩) objects := by
    refine (Logged.turns_pure _ objects).congr ?_ fun _ => rfl
    rw [objects, Shared.objects_some, Shared.objects_some, Device.objects_bind]
    rfl
  unfold couple
  split <;> split
  · exact (Logged.turns_note _).bind fun _ => (Logged.turns_note _).bind fun _ => hbound _ _
  · exact (Logged.turns_note _).bind fun _ => hbound _ _
  · exact (Logged.turns_note _).bind fun _ => hbound _ _
  · exact hbound _ _

lemma addDevice_turns {bound : Bound} (device : Shared Device) (h : bound.device = none) :
    (bound.addDevice device).Turns (device.object.objects + bound.objects) objects := by
  obtain ⟨_, driver⟩ := bound
  cases h
  cases driver with
  | none => exact (Logged.turns_pure (⟨some device, none⟩ : Bound) objects).congr rfl fun _ => rfl
  | some driver =>
    refine (couple_turns device driver).congr ?_ fun _ => rfl
    rw [objects, Shared.objects_none, Shared.objects_some, zero_add]

lemma addDriver_turns {bound : Bound} (driver : Shared Driver) (h : bound.driver = none) :
    (bound.addDriver driver).Turns (driver.object.objects + bound.objects) objects := by
  obtain ⟨device, _⟩ := bound
  cases h
  cases device with
  | none =>
    refine (Logged.turns_pure (⟨none, some driver⟩ : Bound) objects).congr ?_ fun _ => rfl
    simp only [objects, Shared.objects_none, Shared.objects_some, zero_add, add_zero]
  | some device =>
    refine (couple_turns device driver).congr ?_ fun _ => rfl
    rw [objects, Shared.objects_none, Shared.objects_some, add_zero, add_comm]

variable (sys : Mounted) (serial : Serial)

lemma follow_turns (bound : Bound) (link : Link) :
    (bound.follow sys serial link).Turns bound.objects objects := by
  unfold follow
  rcases Role.ofLink link.name with _ | _ | _
  · exact Logged.turns_pure bound objects
  · rcases hd : bound.device with _ | d
    · have hload := Turns.frame (Device.load_turns sys link.target) bound.objects
      rw [zero_add] at hload
      refine hload.bind fun r => ?_
      cases r with
      | ok device => exact addDevice_turns ⟨serial, device⟩ hd
      | error e =>
        rw [zero_add]
        exact (Logged.turns_note _).bind fun _ => Logged.turns_pure bound objects
    · exact (Logged.turns_note _).bind fun _ => Logged.turns_pure bound objects
  · rcases hd : bound.driver with _ | d
    · have hload := Turns.frame (Driver.load_turns sys link.target) bound.objects
      rw [zero_add] at hload
      refine hload.bind fun r => ?_
      cases r with
      | ok driver => exact addDriver_turns ⟨serial, driver⟩ hd
      | error e =>
        rw [zero_add]
        exact (Logged.turns_note _).bind fun _ => Logged.turns_pure bound objects
    · exact (Logged.turns_note _).bind fun _ => Logged.turns_pure bound objects

lemma followAll_turns (links : List Link) (bound : Bound) :
    (followAll sys serial links bound).Turns bound.objects objects := by
  induction links generalizing bound with
  | nil => exact Logged.turns_pure bound objects
  | cons l links ih =>
    rw [followAll_cons]
    exact (follow_turns sys serial bound l).bind fun bound => ih bound

end Bound

/-! ### Class devices and classes -/

namespace ClassDevice

/-- What a class device owns alone. -/
def ownObjects (c : ClassDevice) : Multiset Object := (.classDevice, c.path) ::ₘ c.directory.objects

def objects (c : ClassDevice) : Multiset Object :=
  c.ownObjects + (Shared.objects Device.objects c.device + Shared.objects Driver.objects c.driver)

variable (sys : Mounted) (serial : Serial)

/-- With the directory at hand, the rest of the loading cannot fail. -/
lemma build_turns (name : String) (d : Directory) :
    Scan.Turns d.objects (do
      Scan.emit [.opened .classDevice d.path]
      let bound ← ExceptT.lift (Bound.followAll sys serial d.links .empty)
      return ⟨name, d, bound.device, bound.driver⟩) objects 0 := by
  refine (Scan.turns_opened .classDevice d.path 0).bind fun _ => ?_
  have hlinks := (Bound.followAll_turns sys serial d.links .empty).frame
    ((.classDevice, d.path) ::ₘ d.objects)
  rw [show Bound.empty.objects = 0 from rfl, zero_add] at hlinks
  refine Scan.Turns.bind (Scan.turns_lift hlinks 0) fun bound => ?_
  refine (Scan.turns_pure (⟨name, d, bound.device, bound.driver⟩ : ClassDevice) objects 0).congr
    ?_ (fun _ => rfl) rfl
  exact add_comm _ _

lemma load_turns (path : String) : (load sys serial path).Turns 0 objects 0 := by
  unfold load
  refine Scan.turns_unless fun _ => ?_
  refine ((Scan.turns_liftM _).noting _).bind fun name => ?_
  refine ((Directory.load_turns _ _).noting _).bind fun d => ?_
  refine Scan.Turns.bind (Scan.turns_lift (Directory.readAll_turns _ d) 0) fun r => ?_
  obtain ⟨d, e | u⟩ := r
  · exact (Scan.turns_lift (Logged.turns_note _) 0).bind fun _ => build_turns sys serial name d
  · exact build_turns sys serial name d

lemma loadNamed_turns (cls name : String) : (loadNamed sys serial cls name).Turns 0 objects 0 := by
  unfold loadNamed
  refine Scan.turns_unless fun _ => ?_
  exact load_turns sys serial _

end ClassDevice

namespace DeviceClass

def allObjects (cs : List ClassDevice) : Multiset Object := (cs.map ClassDevice.objects).sum

def objects (c : DeviceClass) : Multiset Object :=
  (.deviceClass, c.path) ::ₘ (c.directory.objects + allObjects c.devices)

variable (sys : Mounted)

lemma loadDevices_turns (serial : Serial) (ds : List Directory) (devices : List ClassDevice) :
    (loadDevices sys serial ds devices).Turns (allObjects devices) allObjects := by
  induction ds generalizing serial devices with
  | nil => exact Logged.turns_pure devices allObjects
  | cons d ds ih =>
    have hload := Turns.frame (ClassDevice.load_turns sys serial d.path) (allObjects devices)
    rw [zero_add] at hload
    refine hload.bind fun r => ?_
    cases r with
    | ok c => exact ih (serial + 1) (c :: devices)
    | error e =>
      rw [zero_add]
      exact (Logged.turns_note _).bind fun _ => ih (serial + 1) devices

lemma load_turns (serial : Serial) (name : String) : (load sys serial name).Turns 0 objects 0 := by
  unfold load
  refine Scan.turns_unless fun _ => ?_
  refine ((Directory.load_turns _ _).noting _).bind fun d => ?_
  have hdevices := (loadDevices_turns sys serial d.subdirs []).frame d.objects
  rw [show allObjects [] = 0 from rfl, zero_add] at hdevices
  refine Scan.Turns.bind (Scan.turns_lift hdevices 0) fun devices => ?_
  refine (Scan.turns_opened .deviceClass d.path 0).bind fun _ => ?_
  refine (Scan.turns_pure (⟨name, d, devices⟩ : DeviceClass) objects 0).congr ?_
    (fun _ => rfl) rfl
  rw [objects, add_comm (allObjects devices)]
  rfl

end DeviceClass

end DeviceModel
