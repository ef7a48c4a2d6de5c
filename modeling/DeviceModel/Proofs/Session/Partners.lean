import DeviceModel.Proofs.Session.Origin

/-!
Who is whose partner, in every session.

A device that lives has a driver exactly if one class device was loaded with both and the
driver lives too; the same holds the other way round. Who holds them, and through what, plays
no part: either end may have been taken from the class device, and the class device may be
gone.
-/

namespace DeviceModel.Session

/-- One class device was loaded with both of them. -/
def Attached (past : List Held) (d : Shared Device) (r : Shared Driver) : Prop :=
  ∃ x ∈ past, ∃ c ∈ x.classDevices, c.device = some d ∧ c.driver = some r

/-- What is known of the partners in a session that has loaded `past`. -/
structure Partnered (past : List Held) (s : Session) : Prop where
  /-- A device has the driver it was attached to, while that lives. -/
  driverOf_iff : ∀ d ∈ s.living.devices, ∀ r,
    s.living.driverOf d.object = some r ↔ Attached past d r ∧ r ∈ s.living.drivers
  /-- A driver has the device it was attached to, while that lives. -/
  deviceOf_iff : ∀ r ∈ s.living.drivers, ∀ d,
    s.living.deviceOf r.object = some d ↔ Attached past d r ∧ d ∈ s.living.devices
  /-- Partners are partners of each other. -/
  mutual_iff : ∀ d ∈ s.living.devices, ∀ r ∈ s.living.drivers,
    s.living.driverOf d.object = some r ↔ s.living.deviceOf r.object = some d
  /-- A living device is the one that was loaded under its number, unchanged. -/
  device_loaded : ∀ d ∈ s.living.devices, (∃ x ∈ past, d ∈ x.devices) ∧
    ∀ x ∈ past, ∀ e ∈ x.devices, e.serial = d.serial → e = d
  driver_loaded : ∀ r ∈ s.living.drivers, (∃ x ∈ past, r ∈ x.drivers) ∧
    ∀ x ∈ past, ∀ e ∈ x.drivers, e.serial = r.serial → e = r
  /-- A device or a tree that was loaded by itself has no driver, nor has a device in it. -/
  loaded_device : ∀ d, .device d ∈ past → ∀ n ∈ d.object.nodes, ∀ l : Living, l.driverOf n = none
  loaded_driver : ∀ r, .driver r ∈ past → ∀ l : Living, l.deviceOf r.object = none
  /-- No device that has a parent has a driver. -/
  below : ∀ d ∈ s.living.devices, ∀ c ∈ d.object.children, ∀ n ∈ c.nodes, ∀ l : Living,
    l.driverOf n = none

/-- From `now` to `later` no living object changes, and its partner neither, but that it may
cease to live. -/
structure KeepsPartners (now later : Session) : Prop where
  device : ∀ d ∈ now.living.devices, ∀ e ∈ later.living.devices, e.serial = d.serial →
    e = d ∧ ∀ r, now.living.driverOf d.object = some r →
      ∀ r', later.living.driverOf d.object = some r' ↔ r' = r ∧ r ∈ later.living.drivers
  driver : ∀ r ∈ now.living.drivers, ∀ e ∈ later.living.drivers, e.serial = r.serial →
    e = r ∧ ∀ d, now.living.deviceOf r.object = some d →
      ∀ d', later.living.deviceOf r.object = some d' ↔ d' = d ∧ d ∈ later.living.devices

/-! ### Pairs of the history -/

lemma attached_iff {past : List Held} {d : Shared Device} {r : Shared Driver} :
    Attached past d r ↔ (⟨some d, some r⟩ : Bound) ∈ past.flatMap Held.ends := by
  simp only [Attached, List.mem_flatMap, Held.exists_of_mem_ends]

lemma Attached.mono {past : List Held} {d : Shared Device} {r : Shared Driver}
    (h : Attached past d r) (more : List Held) : Attached (past ++ more) d r :=
  h.imp fun _ hx => ⟨List.mem_append_left _ hx.1, hx.2⟩

namespace Traced

variable {past : List Held} {s : Session} (h : Traced past s)

include h

/-- What is looked for by the number that an end has in its pair is that end, if it lives. -/
lemma find?_end_iff (role : Role) {p : Bound} (hp : p ∈ past.flatMap Held.ends)
    {x : Shared role.Obj} :
    (((p.end? role).map (·.serial)).bind fun i => (s.living.shared role).find? (·.serial = i)) =
      some x ↔ x ∈ p.end? role ∧ x ∈ s.living.shared role := by
  constructor
  · intro hx
    obtain ⟨i, hi, hf⟩ := Option.bind_eq_some_iff.1 hx
    obtain ⟨y, hy, rfl⟩ := Option.map_eq_some_iff.1 hi
    have hliving := List.mem_of_find?_eq_some hf
    have hs : x.serial = y.serial := by simpa using List.find?_some hf
    -- the number was given to one object only, which is the one still living
    have he := h.end_eq role ⟨p, hp, hy⟩ (h.exists_end role hliving) hs
    subst he
    exact ⟨hy, hliving⟩
  · rintro ⟨hx, hliving⟩
    rw [Option.mem_def.1 hx]
    exact (h.coherent role).find?_eq hliving

lemma driverOf_iff {d : Shared Device} (hd : d ∈ s.living.devices) {r : Shared Driver} :
    s.living.driverOf d.object = some r ↔ Attached past d r ∧ r ∈ s.living.drivers := by
  obtain ⟨p, hp, hpd⟩ : ∃ p ∈ past.flatMap Held.ends, d ∈ p.device := h.exists_end .device hd
  rw [Living.driverOf, ((h.numbered.cells hp).1 d hpd).1, attached_iff]
  refine (h.find?_end_iff .driver hp).trans (and_congr_left fun _ => ⟨fun hr => ?_, fun hpair => ?_⟩)
  · obtain ⟨_, _⟩ := p
    cases hpd
    cases hr
    exact hp
  · rw [h.pair_eq .device hp hpair hpd rfl rfl]
    rfl

lemma deviceOf_iff {r : Shared Driver} (hr : r ∈ s.living.drivers) {d : Shared Device} :
    s.living.deviceOf r.object = some d ↔ Attached past d r ∧ d ∈ s.living.devices := by
  obtain ⟨p, hp, hpr⟩ : ∃ p ∈ past.flatMap Held.ends, r ∈ p.driver := h.exists_end .driver hr
  rw [Living.deviceOf, (h.numbered.cells hp).2 r hpr, attached_iff]
  refine (h.find?_end_iff .device hp).trans (and_congr_left fun _ => ⟨fun hd => ?_, fun hpair => ?_⟩)
  · obtain ⟨_, _⟩ := p
    cases hpr
    cases hd
    exact hp
  · rw [h.pair_eq .driver hp hpair hpr rfl rfl]
    rfl

/-- An object is attached to one other only. -/
lemma driver_unique {d : Shared Device} {r r' : Shared Driver} (hr : Attached past d r)
    (hr' : Attached past d r') : r' = r := by
  have he := h.pair_eq .device (attached_iff.1 hr) (attached_iff.1 hr') rfl rfl rfl
  simpa [eq_comm] using he

lemma device_unique {r : Shared Driver} {d d' : Shared Device} (hd : Attached past d r)
    (hd' : Attached past d' r) : d' = d := by
  have he := h.pair_eq .driver (attached_iff.1 hd) (attached_iff.1 hd') rfl rfl rfl
  simpa [eq_comm] using he

/-- A living object was loaded, and nothing else was loaded under its number. -/
lemma loaded (role : Role) {d : Shared role.Obj} (hd : d ∈ s.living.shared role) :
    (∃ x ∈ past, d ∈ x.shared role) ∧
      ∀ x ∈ past, ∀ e ∈ x.shared role, e.serial = d.serial → e = d := by
  have hpast {e : Shared role.Obj} :
      (∃ x ∈ past, e ∈ x.shared role) ↔ ∃ p ∈ past.flatMap Held.ends, e ∈ p.end? role := by
    simp only [Held.mem_shared, List.mem_flatMap]
    exact ⟨fun ⟨x, hx, p, hp, he⟩ => ⟨p, ⟨x, hx, hp⟩, he⟩,
      fun ⟨p, ⟨x, hx, hp⟩, he⟩ => ⟨x, hx, p, hp, he⟩⟩
  exact ⟨hpast.2 (h.exists_end role hd), fun x hx e he hs =>
    h.end_eq role (h.exists_end role hd) (hpast.1 ⟨x, hx, he⟩) hs⟩

/-- What lives on is what it was. -/
lemma eq_later {more : List Held} {later : Session} (h' : Traced (past ++ more) later)
    (role : Role) {d e : Shared role.Obj} (hd : d ∈ s.living.shared role)
    (he : e ∈ later.living.shared role) (hs : e.serial = d.serial) : e = d :=
  h.coherent_append h' role d (List.mem_append_left _ hd) e (List.mem_append_right _ he) hs

end Traced

/-- A device that is unbound has no driver, whoever lives. -/
lemma driverOf_of_unbound {d : Device} (hd : d.Unbound) :
    ∀ n ∈ d.nodes, ∀ l : Living, l.driverOf n = none := by
  intro n hn l
  rw [Living.driverOf, hd n hn]
  rfl

/-- The history accounts for all partners. -/
theorem Traced.partnered {past : List Held} {s : Session} (h : Traced past s) :
    Partnered past s where
  driverOf_iff d hd r := h.driverOf_iff hd
  deviceOf_iff r hr d := h.deviceOf_iff hr
  mutual_iff d hd r hr := by
    rw [h.driverOf_iff hd, h.deviceOf_iff hr, and_iff_left hr, and_iff_left hd]
  device_loaded d hd := h.loaded .device hd
  driver_loaded r hr := h.loaded .driver hr
  loaded_device d hd := by
    have hp : (⟨some d, none⟩ : Bound) ∈ past.flatMap Held.ends :=
      List.mem_flatMap.2 ⟨_, hd, List.mem_singleton_self _⟩
    exact driverOf_of_unbound (Device.unbound_iff.2 ((h.numbered.cells hp).1 d rfl))
  loaded_driver r hr l := by
    have hp : (⟨none, some r⟩ : Bound) ∈ past.flatMap Held.ends :=
      List.mem_flatMap.2 ⟨_, hr, List.mem_singleton_self _⟩
    rw [Living.deviceOf, (h.numbered.cells hp).2 r rfl]
    rfl
  below d hd c hc := by
    obtain ⟨p, hp, hpd⟩ := h.exists_end .device hd
    exact driverOf_of_unbound (((h.numbered.cells hp).1 d hpd).2 c hc)

/-- A longer history tells the same of what was there before. -/
lemma Traced.keepsPartners {past more : List Held} {now later : Session} (h : Traced past now)
    (h' : Traced (past ++ more) later) : KeepsPartners now later where
  device d hd e he hs := by
    have hed : e = d := h.eq_later h' .device hd he hs
    subst hed
    refine ⟨rfl, fun r hr r' => ?_⟩
    -- to be attached is a fact of the past, so it is still one later
    have ha := ((h.driverOf_iff hd).1 hr).1.mono more
    rw [h'.driverOf_iff he]
    constructor
    · rintro ⟨ha', hr'⟩
      cases h'.driver_unique ha ha'
      exact ⟨rfl, hr'⟩
    · rintro ⟨rfl, hr'⟩
      exact ⟨ha, hr'⟩
  driver r hr e he hs := by
    have her : e = r := h.eq_later h' .driver hr he hs
    subst her
    refine ⟨rfl, fun d hd d' => ?_⟩
    have ha := ((h.deviceOf_iff hr).1 hd).1.mono more
    rw [h'.deviceOf_iff he]
    constructor
    · rintro ⟨ha', hd'⟩
      cases h'.device_unique ha ha'
      exact ⟨rfl, hd'⟩
    · rintro ⟨rfl, hd'⟩
      exact ⟨ha, hd'⟩

/-- **Partners**: after any steps of a session, each living object has exactly the partner it
was attached to by one class device, as long as that lives; and whatever steps follow, it
never gets another. -/
theorem run_partners (steps more : List (Mounted × Step)) :
    Partnered (empty.loadedIn steps) (empty.run steps).value ∧
      KeepsPartners (empty.run steps).value (empty.run (steps ++ more)).value := by
  have hnow : Traced (empty.loadedIn steps) (empty.run steps).value :=
    traced_run Traced.empty steps
  refine ⟨hnow.partnered, ?_⟩
  rw [run_append]
  exact hnow.keepsPartners (traced_run hnow more)

/-- The lamp is opened twice, its driver is taken once and its device once, and the class
devices are dropped. -/
def lampSteps : List (Mounted × Step) :=
  [.load (.classDevice "/c/lamp") "a", .load (.classDevice "/c/lamp") "b",
    .take "a" .driver "" "r", .take "b" .device "" "d", .take "r" .device "" "e",
    .drop "a", .drop "b"].map fun st => (ClassDevice.lampSystem, st)

/-- The first driver still has its device, which was taken through it; the second device has
lost its driver. -/
theorem run_lamp_partners :
    Partnered (empty.loadedIn lampSteps) (empty.run lampSteps).value ∧
      (empty.run lampSteps).value.living.devices.map (fun d =>
        (d.serial, ((empty.run lampSteps).value.living.driverOf d.object).map (·.serial))) =
        [(0, some 0), (1, none)] ∧
      (empty.run lampSteps).value.living.drivers.map (fun r =>
        (r.serial, ((empty.run lampSteps).value.living.deviceOf r.object).map (·.serial))) =
        [(0, some 0)] :=
  ⟨(run_partners lampSteps []).1, by decide +kernel, by decide +kernel⟩

end DeviceModel.Session
