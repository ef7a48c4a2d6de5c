import DeviceModel.Proofs.Log.Emits
import DeviceModel.Proofs.Snapshot.Opening
import DeviceModel.Session.Held

/-!
Which device and which driver a class device gets.

The links are followed in their order, and two searches go on side by side: one for a device
and one for a driver. Each ends with the first link of its role whose target can be loaded,
whatever stands between, and what both have found is bound to each other at once.
-/

namespace DeviceModel

open Event (OfSnapshot OfLoading)

lemma Role.ofLink_eq_some_iff {name : String} {role : Role} :
    ofLink name = some role ↔ role.word.toList <+: name.toList := by
  -- no name begins in both ways
  have hne (h1 : "device".toList <+: name.toList) : ¬ "driver".toList <+: name.toList := by
    intro h2
    have h := List.prefix_of_prefix_length_le h1 h2 (by decide)
    exact absurd h (by decide)
  unfold ofLink
  simp only [List.isPrefixOf_iff_prefix]
  cases role with
  | device =>
    change _ ↔ "device".toList <+: name.toList
    split
    · simpa only [true_iff]
    · split <;> simpa only [Option.some.injEq, reduceCtorEq, false_iff]
  | driver =>
    change _ ↔ "driver".toList <+: name.toList
    split
    · rename_i h1
      simpa only [Option.some.injEq, reduceCtorEq, false_iff] using hne h1
    · split <;> simpa only [reduceCtorEq, true_iff, false_iff]

namespace Link

variable {α : Type} (load : String → Scan α) (role : Role)

/-- What a link of the given role leads to. -/
def lead (l : Link) : Option α :=
  if role.word.toList <+: l.name.toList then (load l.target).run.value.toOption else none

/-- What the first link of the given role leads to, of those that lead to anything. -/
def firstLead (links : List Link) : Option α := links.findSome? (lead load role)

/-- What is done about a link of the given role: once the role is settled, its target is not
looked at. -/
def attempt (settled : Bool) (l : Link) : List Event :=
  if settled then [.noticed (.linkSurplus role l.path)]
  else
    (load l.target).run.events ++
      match (load l.target).run.value with
      | .ok _ => []
      | .error e => [.noticed (.linkSkipped role l.path e)]

end Link

open Link (lead firstLead attempt)

namespace Bound

variable (sys : Mounted)

/-- What is done about a link that follows the links `earlier`. -/
def attend (earlier : List Link) (l : Link) : List Event :=
  match Role.ofLink l.name with
  | none => []
  | some .device =>
    attempt (Device.load sys) .device (firstLead (Device.load sys) .device earlier).isSome l
  | some .driver =>
    attempt (Driver.load sys) .driver (firstLead (Driver.load sys) .driver earlier).isSome l

def attendAll (earlier : List Link) : List Link → List Event
  | [] => []
  | l :: links => attend sys earlier l ++ attendAll (earlier ++ [l]) links

/-- Some of the links `earlier` has led to an object of the given role. -/
def settled (earlier : List Link) : Role → Bool
  | .device => (firstLead (Device.load sys) .device earlier).isSome
  | .driver => (firstLead (Driver.load sys) .driver earlier).isSome

/-- A device and a driver that are bound to each other, as far as they are there. -/
def joined (serial : Serial) (device : Option Device) (driver : Option Driver) : Bound where
  device := device.map fun d => ⟨serial, { d with driver := driver.map fun _ => serial }⟩
  driver := driver.map fun d => ⟨serial, { d with device := device.map fun _ => serial }⟩

end Bound

/-! ### Objects fresh from loading -/

/-- A device is loaded just where a directory is, and shows what that holds. -/
lemma Device.value_loadOn (sys : Mounted) (buses : BusList) (path : String) :
    (loadOn sys buses path).run.value =
      (Directory.load sys.backend path).run.value.map fun d =>
        ⟨(buses.nameFor sys.backend d.name).value,
          ((d.valueOf "name").map trimLineEnd).getD "", d, [], none⟩ := by
  by_cases h : path = ""
  · subst h
    rfl
  · rw [loadOn, if_neg h, Scan.value_run_bind, Scan.value_run_noting]
    cases (Directory.load sys.backend path).run.value <;> rfl

lemma Device.value_load (sys : Mounted) (path : String) :
    (load sys path).run.value = (loadOn sys (BusList.available sys).value path).run.value := by
  rw [load, Scan.value_run_bind]
  rfl

/-- A driver is loaded just where a directory is. -/
lemma Driver.value_load (sys : Mounted) (path : String) :
    (load sys path).run.value =
      (Directory.load sys.backend path).run.value.map fun d => ⟨d, none⟩ := by
  by_cases h : path = ""
  · subst h
    rfl
  · rw [load, if_neg h, Scan.value_run_bind, Scan.value_run_noting]
    cases (Directory.load sys.backend path).run.value <;> rfl

lemma Device.driver_of_loadOn {sys : Mounted} {buses : BusList} {path : String} {d : Device}
    (h : (loadOn sys buses path).run.value = .ok d) : d.driver = none ∧ d.children = [] := by
  rw [value_loadOn] at h
  obtain ⟨r, -, rfl⟩ := map_eq_ok_iff.1 h
  exact ⟨rfl, rfl⟩

/-- A device is made of the directory at its path. -/
lemma Device.load_of_loadOn {sys : Mounted} {buses : BusList} {path : String} {d : Device}
    (h : (loadOn sys buses path).run.value = .ok d) :
    (Directory.load sys.backend path).run.value = .ok d.directory := by
  rw [value_loadOn] at h
  obtain ⟨r, hr, rfl⟩ := map_eq_ok_iff.1 h
  exact hr

lemma Device.driver_of_load {sys : Mounted} {path : String} {d : Device}
    (h : (load sys path).run.value = .ok d) : d.driver = none ∧ d.children = [] := by
  rw [value_load] at h
  exact driver_of_loadOn h

lemma Driver.device_of_load {sys : Mounted} {path : String} {d : Driver}
    (h : (load sys path).run.value = .ok d) : d.device = none := by
  rw [value_load] at h
  obtain ⟨r, -, rfl⟩ := map_eq_ok_iff.1 h
  rfl

/-! ### One link after another -/

lemma Link.lead_of_role {α : Type} (load : String → Scan α) {role : Role} {l : Link}
    (h : Role.ofLink l.name = some role) :
    lead load role l = (load l.target).run.value.toOption := by
  rw [Role.ofLink_eq_some_iff] at h
  simp only [lead, if_pos h]

lemma Link.lead_of_ne {α : Type} (load : String → Scan α) {role : Role} {l : Link}
    (h : Role.ofLink l.name ≠ some role) : lead load role l = none := by
  rw [Ne, Role.ofLink_eq_some_iff] at h
  simp only [lead, if_neg h]

namespace Bound

variable (sys : Mounted) (serial : Serial) {device : Option Device} {driver : Option Driver}

/-- A device link is tried unless there is a device, and what it leads to is bound to the
driver if there is one. The driver's cell is still empty then: so no note is left. -/
lemma follow_device {l : Link} (hl : Role.ofLink l.name = some .device) :
    (joined serial device driver).follow sys serial l =
      ⟨attempt (Device.load sys) .device device.isSome l,
        joined serial (device.or (Device.load sys l.target).run.value.toOption) driver⟩ := by
  simp only [follow, hl]
  cases device with
  | some d => ext <;> simp [joined, attempt]
  | none =>
    rcases hr : (Device.load sys l.target).run.value with e | d
    · ext <;> simp [joined, attempt, hr, Except.toOption]
    · have hd := (Device.driver_of_load hr).1
      have he : { d with driver := none } = d := by
        obtain ⟨_, _, _, _, c⟩ := d
        cases hd
        rfl
      cases driver with
      | none => ext <;> simp [joined, attempt, hr, Except.toOption, addDevice, he]
      | some r => ext <;> simp [joined, attempt, hr, Except.toOption, addDevice, couple, hd]

lemma follow_driver {l : Link} (hl : Role.ofLink l.name = some .driver) :
    (joined serial device driver).follow sys serial l =
      ⟨attempt (Driver.load sys) .driver driver.isSome l,
        joined serial device (driver.or (Driver.load sys l.target).run.value.toOption)⟩ := by
  simp only [follow, hl]
  cases driver with
  | some d => ext <;> simp [joined, attempt]
  | none =>
    rcases hr : (Driver.load sys l.target).run.value with e | r
    · ext <;> simp [joined, attempt, hr, Except.toOption]
    · have hd := Driver.device_of_load hr
      have he : { r with device := none } = r := by rw [← hd]
      cases device with
      | none => ext <;> simp [joined, attempt, hr, Except.toOption, addDriver, he]
      | some d => ext <;> simp [joined, attempt, hr, Except.toOption, addDriver, couple, hd]

/-- One link takes each search one step on. -/
lemma follow_joined (earlier : List Link) (l : Link) :
    (joined serial (firstLead (Device.load sys) .device earlier)
        (firstLead (Driver.load sys) .driver earlier)).follow sys serial l =
      ⟨attend sys earlier l,
        joined serial (firstLead (Device.load sys) .device (earlier ++ [l]))
          (firstLead (Driver.load sys) .driver (earlier ++ [l]))⟩ := by
  have hstep {α : Type} (load : String → Scan α) (role : Role) :
      firstLead load role (earlier ++ [l]) =
        (firstLead load role earlier).or (lead load role l) := by
    simp [firstLead, List.findSome?_append, List.findSome?_cons]
    cases lead load role l <;> rfl
  rw [hstep, hstep]
  rcases hl : Role.ofLink l.name with _ | _ | _
  · rw [Link.lead_of_ne _ (by simp [hl]), Link.lead_of_ne _ (by simp [hl])]
    ext <;> simp [follow, attend, hl]
  · rw [Link.lead_of_role _ hl, Link.lead_of_ne _ (by simp [hl]), follow_device sys serial hl]
    simp [attend, hl]
  · rw [Link.lead_of_ne _ (by simp [hl]), Link.lead_of_role _ hl, follow_driver sys serial hl]
    simp [attend, hl]

lemma followAll_joined (earlier links : List Link) :
    followAll sys serial links (joined serial (firstLead (Device.load sys) .device earlier)
        (firstLead (Driver.load sys) .driver earlier)) =
      ⟨attendAll sys earlier links,
        joined serial (firstLead (Device.load sys) .device (earlier ++ links))
          (firstLead (Driver.load sys) .driver (earlier ++ links))⟩ := by
  induction links generalizing earlier with
  | nil => ext <;> simp [attendAll]
  | cons l links ih =>
    rw [followAll_cons, follow_joined]
    have h := ih (earlier ++ [l])
    rw [List.append_assoc, List.singleton_append] at h
    ext <;> simp [h, attendAll]

/-- **First link**: each search finds what the first link of its role leads to. -/
theorem followAll_empty (links : List Link) :
    followAll sys serial links empty =
      ⟨attendAll sys [] links,
        joined serial (firstLead (Device.load sys) .device links)
          (firstLead (Driver.load sys) .driver links)⟩ :=
  followAll_joined sys serial [] links

/-! ### What loading a class device leaves -/

end Bound

/-- What loading a class device may leave. -/
inductive Event.OfClassDevice : Event → Prop
  | loading {role : Role} {e : Event} (h : e.OfLoading role) : OfClassDevice e
  | opened (path : String) : OfClassDevice (.opened .classDevice path)
  | unnamed (path : String) : OfClassDevice (.noticed (.classDeviceUnnamed path))
  | unreadable (path : String) (e : Error) :
    OfClassDevice (.noticed (.classDeviceUnreadable path e))
  | incomplete (path : String) (e : Error) : OfClassDevice (.noticed (.subdirsIncomplete path e))
  | surplus (role : Role) (path : String) : OfClassDevice (.noticed (.linkSurplus role path))
  | skipped (role : Role) (path : String) (e : Error) :
    OfClassDevice (.noticed (.linkSkipped role path e))

open Event (OfClassDevice)

/-- A scan of directories is part of loading either end of a binding. -/
lemma Event.OfSnapshot.ofClassDevice {p : String → Prop} (e : Event) (h : e.OfSnapshot p) :
    e.OfClassDevice := by
  have hdevice : e.OfLoading .device := OfSnapshot.ofLoading e h
  exact .loading hdevice

lemma Event.not_ofClassDevice_alreadyBound (role : Role) (path : String) :
    ¬ (noticed (.alreadyBound role path)).OfClassDevice := by
  intro h
  cases h with
  | loading h => exact h

namespace Bound

variable (sys : Mounted)

lemma attend_ofClassDevice (earlier : List Link) (l : Link) :
    ∀ e ∈ attend sys earlier l, e.OfClassDevice := by
  -- the two roles differ in how they are loaded and in nothing else
  have hattempt {α : Type} {load : String → Scan α} {r : Role} (settled : Bool)
      (hload : ∀ p, (load p).run.Emits (OfLoading r)) :
      ∀ e ∈ attempt load r settled l, e.OfClassDevice := by
    unfold attempt
    intro e h
    split at h
    · rw [List.mem_singleton.1 h]
      exact .surplus _ _
    · rcases List.mem_append.1 h with h | h
      · exact .loading (hload _ _ h)
      · split at h
        · cases h
        · rw [List.mem_singleton.1 h]
          exact .skipped _ _ _
  unfold attend
  split
  · simp
  · exact hattempt _ (Device.load_emits sys)
  · exact hattempt _ (Driver.load_emits sys)

lemma attendAll_ofClassDevice (earlier links : List Link) :
    ∀ e ∈ attendAll sys earlier links, e.OfClassDevice := by
  induction links generalizing earlier with
  | nil => simp [attendAll]
  | cons l links ih =>
    intro e h
    rw [attendAll, List.mem_append] at h
    exact h.elim (attend_ofClassDevice sys earlier l e) (ih _ e)

lemma attendAll_not_alreadyBound (earlier links : List Link) (role : Role) (path : String) :
    .noticed (.alreadyBound role path) ∉ attendAll sys earlier links :=
  fun h => Event.not_ofClassDevice_alreadyBound role path (attendAll_ofClassDevice sys _ _ _ h)

end Bound

namespace ClassDevice

/-- What is done before the links are followed: directories are read and nothing else. -/
def beforeLinks (b : Backend) (path : String) (d : Directory) : List Event :=
  (Directory.load b path).run.events ++ (d.readAll b).events ++
    (match (d.readAll b).value.2 with
    | .ok _ => []
    | .error e => [.noticed (.subdirsIncomplete path e)]) ++ [.opened .classDevice d.path]

/-- A class device whose device and driver are what the first links of their roles lead to,
each knowing exactly the other. -/
structure Resolved (sys : Mounted) (serial : Serial) (links : List Link) (c : ClassDevice) :
    Prop where
  device : c.device = (firstLead (Device.load sys) .device links).map fun d =>
    ⟨serial, { d with driver := c.driver.map (·.serial) }⟩
  driver : c.driver = (firstLead (Driver.load sys) .driver links).map fun d =>
    ⟨serial, { d with device := c.device.map (·.serial) }⟩
  driverOf : ∀ d ∈ c.device, (Living.ofHeld [.classDevice c]).driverOf d.object = c.driver
  deviceOf : ∀ d ∈ c.driver, (Living.ofHeld [.classDevice c]).deviceOf d.object = c.device

lemma resolved_of_joined {sys : Mounted} {serial : Serial} {links : List Link}
    {c : ClassDevice}
    (h : (⟨c.device, c.driver⟩ : Bound) = .joined serial
      (firstLead (Device.load sys) .device links) (firstLead (Driver.load sys) .driver links)) :
    c.Resolved sys serial links := by
  obtain ⟨name, directory, device, driver⟩ := c
  simp only [Bound.joined, Bound.mk.injEq] at h
  obtain ⟨rfl, rfl⟩ := h
  refine ⟨by simp [Function.comp_def], by simp [Function.comp_def], fun d hd => ?_, fun d hd => ?_⟩
  · obtain ⟨x, -, rfl⟩ := Option.map_eq_some_iff.1 hd
    cases firstLead (Driver.load sys) .driver links <;>
      simp [Living.driverOf, Living.ofHeld, Held.drivers, Living.driver?]
  · obtain ⟨x, -, rfl⟩ := Option.map_eq_some_iff.1 hd
    cases firstLead (Device.load sys) .device links <;>
      simp [Living.deviceOf, Living.ofHeld, Held.devices, Living.device?]

lemma value_noting_nameOf {path name : String} (hn : Path.nameOf path = .ok name) :
    (Scan.noting (Path.nameOf path) fun _ => .classDeviceUnnamed path).run.value = .ok name := by
  rw [Scan.value_run_noting, Scan.run_liftM, hn]

lemma run_load {sys : Mounted} (serial : Serial) {path name : String} {d : Directory}
    (hn : Path.nameOf path = .ok name) (h : (Directory.load sys.backend path).run.value = .ok d) :
    (load sys serial path).run =
      ⟨beforeLinks sys.backend path d ++ (Bound.followAll sys serial d.links .empty).events,
        .ok ⟨name, (d.readAll sys.backend).value.1,
          (Bound.followAll sys serial d.links .empty).value.device,
          (Bound.followAll sys serial d.links .empty).value.driver⟩⟩ := by
  have he : path ≠ "" := (Directory.exists_name_of_load _ h).1
  obtain ⟨hlinks, hpath⟩ :=
    Directory.readAll_keeps sys.backend (Directory.isListed_of_load _ h)
  have hload : ((Directory.load sys.backend path).noting
      (.classDeviceUnreadable path)).run.value = .ok d :=
    (Scan.value_run_noting _ _).trans h
  rw [load, if_neg he, Scan.run_bind_of_ok (value_noting_nameOf hn), Scan.run_bind_of_ok hload,
    Scan.run_noting_of_ok h, ExceptT.run_bind_lift, beforeLinks, ← hlinks, ← hpath, hn]
  -- whether all below could be read or not, the links are followed; a failure is noted before
  rcases d.readAll sys.backend with ⟨es, all, e | u⟩
  · ext : 1
    · simp only [Scan.emit, ExceptT.run_bind_lift, ExceptT.run_pure, Logged.events_bind,
        Logged.events_emit, Logged.events_note, Logged.events_pure, List.append_assoc,
        List.append_nil]
      rfl
    · rfl
  · ext : 1
    · simp only [Scan.emit, ExceptT.run_bind_lift, ExceptT.run_pure, Logged.events_bind,
        Logged.events_emit, Logged.events_pure, List.append_assoc, List.append_nil]
      rfl
    · rfl

lemma beforeLinks_ofClassDevice (b : Backend) (path : String) (d : Directory) :
    ∀ e ∈ beforeLinks b path d, e.OfClassDevice := by
  have hload : (Directory.load b path).run.Emits (OfSnapshot fun _ => True) :=
    Directory.load_emits b trivial
  unfold beforeLinks
  intro e h
  simp only [List.mem_append, List.mem_singleton] at h
  rcases h with ((h | h) | h) | rfl
  · exact (hload _ h).ofClassDevice
  · exact (Directory.readAll_emits b d _ h).ofClassDevice
  · split at h
    · cases h
    · rw [List.mem_singleton.1 h]
      exact .incomplete _ _
  · exact .opened _

lemma beforeLinks_not_alreadyBound (b : Backend) (path : String) (d : Directory) (role : Role)
    (p : String) : .noticed (.alreadyBound role p) ∉ beforeLinks b path d :=
  fun h => Event.not_ofClassDevice_alreadyBound role p (beforeLinks_ofClassDevice b path d _ h)

/-- **First link wins.** Wherever the directory of a class device can be read, the class device
is loaded, with what the first links of the two roles lead to. Each of the two knows exactly
the other. A link that comes after the one that counted is not followed, and nothing is ever
found to be bound already. -/
theorem load_takes_first_links {sys : Mounted} {path : String} {d : Directory}
    (h : (Directory.load sys.backend path).run.value = .ok d) (serial : Serial) :
    ∃ c, (load sys serial path).run.value = .ok c ∧ c.directory.links = d.links ∧
      c.Resolved sys serial d.links ∧
      (load sys serial path).run.events =
        beforeLinks sys.backend path d ++ Bound.attendAll sys [] d.links ∧
      (∀ earlier l later role, d.links = earlier ++ l :: later →
        role.word.toList <+: l.name.toList → Bound.settled sys earlier role = true →
        Bound.attend sys earlier l = [.noticed (.linkSurplus role l.path)]) ∧
      ∀ role p, .noticed (.alreadyBound role p) ∉ (load sys serial path).run.events := by
  obtain ⟨-, name, hn⟩ := Directory.exists_name_of_load _ h
  have hlinks := (Directory.readAll_keeps sys.backend (Directory.isListed_of_load _ h)).1
  have hrun := run_load serial hn h
  rw [Bound.followAll_empty] at hrun
  rw [hrun]
  refine ⟨_, rfl, hlinks, resolved_of_joined rfl, rfl, ?_, ?_⟩
  · intro earlier l later role _ hl hs
    rw [← Role.ofLink_eq_some_iff] at hl
    cases role with
    | device =>
      have hs' : (firstLead (Device.load sys) .device earlier).isSome = true := hs
      simp only [Bound.attend, hl, attempt, hs', if_true]
    | driver =>
      have hs' : (firstLead (Driver.load sys) .driver earlier).isSome = true := hs
      simp only [Bound.attend, hl, attempt, hs', if_true]
  · intro role p hm
    rcases List.mem_append.1 hm with hm | hm
    · exact beforeLinks_not_alreadyBound _ _ _ _ _ hm
    · exact Bound.attendAll_not_alreadyBound _ _ _ _ _ hm

/-- A lamp under `/c/lamp`. Its first driver link leads nowhere, and it has one device link
too many. -/
def lampBackend : Backend where
  stat path := if path = "/gone" then .error .notFound else .ok .directory
  readDir path :=
    if path = "/c/lamp" then .ok { entries := [⟨"driver_old", .symlink, 0o777⟩,
      ⟨"subsystem", .symlink, 0o777⟩, ⟨"driver", .symlink, 0o777⟩, ⟨"device", .symlink, 0o777⟩,
      ⟨"device2", .symlink, 0o777⟩] }
    else .ok { entries := [] }
  readLink path :=
    if path = "/c/lamp/driver_old" then .ok "/gone"
    else if path = "/c/lamp/driver" then .ok "../../r"
    else .ok "/d"
  readAttr _ := .error .notFound
  realPath path := .ok path
  depth := 2

def lampSystem : Mounted := .ofMount "/" lampBackend

/-- The directory of the lamp as it is read. -/
def lampDirectory : Directory := .listed "lamp" "/c/lamp" []
  [⟨"driver_old", "/c/lamp/driver_old", "/gone"⟩, ⟨"subsystem", "/c/lamp/subsystem", "/d"⟩,
    ⟨"driver", "/c/lamp/driver", "/r"⟩, ⟨"device", "/c/lamp/device", "/d"⟩,
    ⟨"device2", "/c/lamp/device2", "/d"⟩] []

theorem load_lamp_takes_first_links :
    (Directory.load lampSystem.backend "/c/lamp").run.value = .ok lampDirectory ∧
      ∃ c, (load lampSystem 0 "/c/lamp").run.value = .ok c ∧
        c.Resolved lampSystem 0 lampDirectory.links ∧
        c.device.map (·.object.path) = some "/d" ∧ c.driver.map (·.object.path) = some "/r" := by
  have h : (Directory.load lampSystem.backend "/c/lamp").run.value = .ok lampDirectory := by
    rfl
  obtain ⟨c, hc, -, hr, -⟩ := load_takes_first_links h 0
  refine ⟨h, c, hc, hr, ?_, ?_⟩
  · rw [hr.device]
    rfl
  · rw [hr.driver]
    rfl

end ClassDevice

end DeviceModel
