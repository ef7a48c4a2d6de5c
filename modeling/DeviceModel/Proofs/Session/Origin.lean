import DeviceModel.Proofs.Graph.Building
import DeviceModel.Proofs.Graph.Class
import DeviceModel.Proofs.Ownership.Shares
import DeviceModel.Proofs.Session.Effect

/-!
Where the objects of a session come from.

A session remembers nothing of what it has loaded, so the history is followed beside it: all
that its steps have loaded so far. Each number in it belongs to one device, or one driver, or
the two that the links of one class device have led to; and what a handle holds is always a
part of the history.
-/

namespace DeviceModel

/-- What was loaded under one number, before it was bound. -/
structure Origin where
  serial : Serial
  device : Option Device
  driver : Option Driver

namespace Origin

def bound (o : Origin) : Bound := .joined o.serial o.device o.driver

/-- Nothing that was loaded knows another object. -/
structure Fresh (o : Origin) : Prop where
  device : ∀ d ∈ o.device, d.Unbound
  driver : ∀ d ∈ o.driver, d.device = none

end Origin

/-- The ends that have been joined, numbered apart from `lo` up to `hi`. -/
def Numbered (lo hi : Serial) (ps : List Bound) : Prop :=
  ∃ os : List Origin, os.map Origin.bound = ps ∧ (os.map (·.serial)).Nodup ∧
    ∀ o ∈ os, lo ≤ o.serial ∧ o.serial < hi ∧ o.Fresh

namespace Numbered

variable {lo mid hi : Serial} {ps qs : List Bound}

lemma nil (lo hi : Serial) : Numbered lo hi [] := ⟨[], rfl, .nil, by simp⟩

lemma single (o : Origin) (h : o.Fresh) : Numbered o.serial (o.serial + 1) [o.bound] := by
  refine ⟨[o], rfl, by simp, fun p hp => ?_⟩
  cases List.mem_singleton.1 hp
  exact ⟨le_rfl, Nat.lt_succ_self _, h⟩

lemma weaken {lo' hi' : Serial} (h : Numbered lo hi ps) (hlo : lo' ≤ lo) (hhi : hi ≤ hi') :
    Numbered lo' hi' ps := by
  obtain ⟨os, rfl, hn, hos⟩ := h
  exact ⟨os, rfl, hn, fun o ho =>
    ⟨hlo.trans (hos o ho).1, (hos o ho).2.1.trans_le hhi, (hos o ho).2.2⟩⟩

/-- Later numbers are other numbers. -/
lemma append (h : Numbered lo mid ps) (h' : Numbered mid hi qs) (hlo : lo ≤ mid)
    (hhi : mid ≤ hi) : Numbered lo hi (ps ++ qs) := by
  obtain ⟨os, rfl, hn, hos⟩ := h
  obtain ⟨os', rfl, hn', hos'⟩ := h'
  refine ⟨os ++ os', List.map_append, ?_, fun o ho => ?_⟩
  · rw [List.map_append, List.nodup_append]
    refine ⟨hn, hn', fun i hi j hj => ?_⟩
    obtain ⟨o, ho, rfl⟩ := List.mem_map.1 hi
    obtain ⟨o', ho', rfl⟩ := List.mem_map.1 hj
    exact ((hos o ho).2.1.trans_le (hos' o' ho').1).ne
  · rcases List.mem_append.1 ho with ho | ho
    · exact ⟨(hos o ho).1, (hos o ho).2.1.trans_le hhi, (hos o ho).2.2⟩
    · exact ⟨hlo.trans (hos' o ho).1, (hos' o ho).2⟩

lemma swap (h : Numbered lo hi (ps ++ qs)) : Numbered lo hi (qs ++ ps) := by
  obtain ⟨os, hos, hn, h⟩ := h
  obtain ⟨as, bs, rfl, rfl, rfl⟩ := List.map_eq_append_iff.1 hos
  refine ⟨bs ++ as, List.map_append, ?_, fun o ho => h o ?_⟩
  · rw [List.map_append] at hn ⊢
    exact List.nodup_append_comm.1 hn
  · exact List.mem_append.2 (List.mem_append.1 ho).symm

end Numbered

/-! ### One number, one pair -/

namespace Bound

/-- The numbers that its ends bear. -/
def serials (p : Bound) : List Serial :=
  p.device.toList.map (·.serial) ++ p.driver.toList.map (·.serial)

lemma serial_mem {p : Bound} {role : Role} {d : Shared role.Obj} (h : d ∈ p.end? role) :
    d.serial ∈ p.serials := by
  cases role with
  | device => exact List.mem_append_left _ (List.mem_map_of_mem (Option.mem_toList.2 h))
  | driver => exact List.mem_append_right _ (List.mem_map_of_mem (Option.mem_toList.2 h))

end Bound

lemma Origin.eq_of_mem_serials {o : Origin} {i : Serial} (h : i ∈ o.bound.serials) :
    i = o.serial := by
  obtain ⟨serial, device, driver⟩ := o
  cases device <;> cases driver <;> simp [Bound.serials, bound, Bound.joined] at h <;> exact h

namespace Numbered

variable {lo hi : Serial} {ps : List Bound}

theorem unique (h : Numbered lo hi ps) {p q : Bound} (hp : p ∈ ps) (hq : q ∈ ps) {i : Serial}
    (hi : i ∈ p.serials) (hj : i ∈ q.serials) : p = q := by
  obtain ⟨os, rfl, hn, -⟩ := h
  obtain ⟨o, ho, rfl⟩ := List.mem_map.1 hp
  obtain ⟨o', ho', rfl⟩ := List.mem_map.1 hq
  have he : o.serial = o'.serial :=
    (Origin.eq_of_mem_serials hi).symm.trans (Origin.eq_of_mem_serials hj)
  rw [List.inj_on_of_nodup_map hn ho ho' he]

lemma range (h : Numbered lo hi ps) {p : Bound} (hp : p ∈ ps) {i : Serial}
    (hm : i ∈ p.serials) : lo ≤ i ∧ i < hi := by
  obtain ⟨os, rfl, -, hos⟩ := h
  obtain ⟨o, ho, rfl⟩ := List.mem_map.1 hp
  rw [Origin.eq_of_mem_serials hm]
  exact ⟨(hos o ho).1, (hos o ho).2.1⟩

/-- The ends of a pair know each other's number and no other. -/
theorem cells (h : Numbered lo hi ps) {p : Bound} (hp : p ∈ ps) :
    (∀ d ∈ p.device, d.object.driver = p.driver.map (·.serial) ∧
      ∀ c ∈ d.object.children, c.Unbound) ∧
    ∀ r ∈ p.driver, r.object.device = p.device.map (·.serial) := by
  obtain ⟨os, rfl, -, hos⟩ := h
  obtain ⟨o, ho, rfl⟩ := List.mem_map.1 hp
  refine ⟨fun d hd => ?_, fun r hr => ?_⟩
  · obtain ⟨x, hx, rfl⟩ := Option.map_eq_some_iff.1 hd
    refine ⟨by simp [Origin.bound, Bound.joined, Function.comp_def], ?_⟩
    exact (Device.unbound_iff.1 ((hos o ho).2.2.device x hx)).2
  · obtain ⟨x, hx, rfl⟩ := Option.map_eq_some_iff.1 hr
    simp [Origin.bound, Bound.joined, Function.comp_def]

/-- The objects of one role bear different numbers. -/
lemma nodup_serials (h : Numbered lo hi ps) (role : Role) :
    ((ps.flatMap fun p => (p.end? role).toList).map (·.serial)).Nodup := by
  obtain ⟨os, rfl, hn, -⟩ := h
  refine hn.sublist ?_
  clear hn
  induction os with
  | nil => exact List.Sublist.slnil
  | cons o os ih =>
    rw [List.map_cons, List.flatMap_cons, List.map_append, List.map_cons, ← List.singleton_append]
    refine List.Sublist.append ?_ ih
    rcases hd : o.bound.end? role with _ | d
    · exact List.nil_sublist _
    · rw [← Origin.eq_of_mem_serials (Bound.serial_mem hd)]
      exact List.Sublist.refl _

end Numbered

/-! ### What a load hands out -/

namespace Held

def classDevices : Held → List ClassDevice
  | classDevice c => [c]
  | deviceClass k => k.devices
  | directory _ | device _ | driver _ => []

/-- Two ends come together only from a class device. -/
lemma exists_of_mem_ends {x : Held} {d : Shared Device} {r : Shared Driver} :
    (⟨some d, some r⟩ : Bound) ∈ x.ends ↔
      ∃ c ∈ x.classDevices, c.device = some d ∧ c.driver = some r := by
  cases x <;> simp [ends, classDevices, eq_comm]

end Held

lemma Link.exists_of_firstLead {α : Type} {load : String → Scan α} {role : Role}
    {links : List Link} {x : α} (h : firstLead load role links = some x) :
    ∃ p, (load p).run.value = .ok x := by
  obtain ⟨l, -, hl⟩ := List.exists_of_findSome?_eq_some h
  unfold lead at hl
  by_cases hr : role.word.toList <+: l.name.toList
  · rw [if_pos hr] at hl
    rcases hx : (load l.target).run.value with e | y
    · simp [hx, Except.toOption] at hl
    · simp only [hx, Except.toOption, Option.some.injEq] at hl
      exact ⟨l.target, by rw [hx, hl]⟩
  · simp [if_neg hr] at hl

variable {sys : Mounted} {serial : Serial}

lemma ClassDevice.numbered_of_load {path : String} {c : ClassDevice}
    (h : (load sys serial path).run.value = .ok c) :
    Numbered serial (serial + 1) [⟨c.device, c.driver⟩] := by
  obtain ⟨d, name, -, -, rfl⟩ := exists_of_load_eq_ok sys serial h
  refine Numbered.single ⟨serial, Link.firstLead (Device.load sys) .device d.links,
    Link.firstLead (Driver.load sys) .driver d.links⟩ ⟨fun x hx => ?_, fun x hx => ?_⟩
  · obtain ⟨p, hp⟩ := Link.exists_of_firstLead hx
    exact Device.unbound_of_load sys hp
  · obtain ⟨p, hp⟩ := Link.exists_of_firstLead hx
    exact Driver.device_of_load hp

lemma ClassDevice.numbered_of_loadNamed {cls name : String} {c : ClassDevice}
    (h : (loadNamed sys serial cls name).run.value = .ok c) :
    Numbered serial (serial + 1) [⟨c.device, c.driver⟩] := by
  unfold loadNamed at h
  by_cases hn : cls = "" ∨ name = ""
  · simp only [hn, if_true] at h
    cases h
  · simp only [hn, if_false] at h
    exact numbered_of_load h

/-- The class devices of a class have consecutive numbers, one for each directory tried. -/
lemma DeviceClass.numbered_loadDevices {lo : Serial} (ds : List Directory)
    {cs : List ClassDevice} (hlo : lo ≤ serial)
    (h : Numbered lo serial (cs.map fun c => ⟨c.device, c.driver⟩)) :
    Numbered lo (serial + ds.length)
      ((loadDevices sys serial ds cs).value.map fun c => ⟨c.device, c.driver⟩) := by
  induction ds generalizing serial cs with
  | nil => exact h
  | cons d ds ih =>
    rw [loadDevices, Logged.value_bind, List.length_cons, Nat.add_comm ds.length, ← Nat.add_assoc]
    rcases hc : (ClassDevice.load sys serial d.path).run.value with e | c
    · exact ih (Nat.le_succ_of_le hlo) (h.weaken le_rfl (Nat.le_succ _))
    · refine ih (Nat.le_succ_of_le hlo) ?_
      exact (h.append (ClassDevice.numbered_of_load hc) hlo (Nat.le_succ _)).swap

lemma DeviceClass.numbered_of_load {name : String} {k : DeviceClass}
    (h : (load sys serial name).run.value = .ok k) :
    Numbered serial (serial + k.directory.subdirs.length)
      (k.devices.map fun c => ⟨c.device, c.driver⟩) := by
  obtain ⟨-, -, hdevices⟩ := exists_of_load sys serial h
  have hall : (loadDevices sys serial k.directory.subdirs []).value = k.devices := by
    rw [value_loadDevices, List.append_nil, hdevices]
  rw [← hall]
  exact numbered_loadDevices k.directory.subdirs le_rfl (.nil _ _)

/-- **A load gives out new numbers**, and no number twice. -/
theorem Session.numbered_of_loadHeld {what : Opening} {x : Held} {next : Serial}
    (h : (loadHeld sys serial what).run.value = .ok (x, next)) :
    serial ≤ next ∧ Numbered serial next x.ends := by
  -- a device that is loaded takes one number, and no driver knows it yet
  have hdevice {d : Device} (hd : d.Unbound) :
      serial ≤ serial + 1 ∧ Numbered serial (serial + 1) [⟨some ⟨serial, d⟩, none⟩] := by
    have hn := Numbered.single ⟨serial, some d, none⟩ ⟨by simpa using hd, by simp⟩
    have he : { d with driver := none } = d := by
      have hroot := (Device.unbound_iff.1 hd).1
      obtain ⟨_, _, _, _, c⟩ := d
      cases hroot
      rfl
    simp only [Origin.bound, Bound.joined, Option.map_some, Option.map_none, he] at hn
    exact ⟨Nat.le_succ _, hn⟩
  unfold loadHeld at h
  cases what with
  | directory path =>
    obtain ⟨d, -, h⟩ := Scan.bind_eq_ok_iff.1 h
    cases h
    exact ⟨le_rfl, .nil _ _⟩
  | device path =>
    obtain ⟨d, hd, h⟩ := Scan.bind_eq_ok_iff.1 h
    cases h
    exact hdevice (Device.unbound_of_load sys hd)
  | deviceTree path =>
    obtain ⟨d, hd, h⟩ := Scan.bind_eq_ok_iff.1 h
    cases h
    exact hdevice (Device.unbound_of_loadTree sys hd)
  | driver path =>
    obtain ⟨d, hd, h⟩ := Scan.bind_eq_ok_iff.1 h
    cases h
    have hn := Numbered.single ⟨serial, none, some d⟩
      ⟨by simp, by simpa using Driver.device_of_load hd⟩
    have he : { d with device := none } = d := by rw [← Driver.device_of_load hd]
    simp only [Origin.bound, Bound.joined, Option.map_some, Option.map_none, he] at hn
    exact ⟨Nat.le_succ _, hn⟩
  | classDevice path =>
    obtain ⟨c, hc, h⟩ := Scan.bind_eq_ok_iff.1 h
    cases h
    exact ⟨Nat.le_succ _, ClassDevice.numbered_of_load hc⟩
  | classDeviceNamed cls name =>
    obtain ⟨c, hc, h⟩ := Scan.bind_eq_ok_iff.1 h
    cases h
    exact ⟨Nat.le_succ _, ClassDevice.numbered_of_loadNamed hc⟩
  | deviceClass name =>
    obtain ⟨k, hk, h⟩ := Scan.bind_eq_ok_iff.1 h
    cases h
    exact ⟨Nat.le_add_right _ _, DeviceClass.numbered_of_load hk⟩

/-! ### History -/

/-- A handle holds nothing but ends of the given pairs, and none of them twice. -/
structure Held.From (ps : List Bound) (x : Held) : Prop where
  devices : ∀ d ∈ x.devices, ∃ p ∈ ps, d ∈ p.device
  drivers : ∀ d ∈ x.drivers, ∃ p ∈ ps, d ∈ p.driver
  nodup_devices : (x.devices.map (·.serial)).Nodup
  nodup_drivers : (x.drivers.map (·.serial)).Nodup

namespace Held

variable {ps qs : List Bound}

lemma From.exists_end {x : Held} (h : x.From ps) {role : Role} {d : Shared role.Obj}
    (hd : d ∈ x.shared role) : ∃ p ∈ ps, d ∈ p.end? role := by
  cases role with
  | device => exact h.devices d hd
  | driver => exact h.drivers d hd

lemma From.nodup {x : Held} (h : x.From ps) (role : Role) :
    ((x.shared role).map (·.serial)).Nodup := by
  cases role with
  | device => exact h.nodup_devices
  | driver => exact h.nodup_drivers

lemma From.mono {x : Held} (h : x.From ps) (hs : ps ⊆ qs) : x.From qs where
  devices d hd := (h.devices d hd).imp fun _ hp => ⟨hs hp.1, hp.2⟩
  drivers d hd := (h.drivers d hd).imp fun _ hp => ⟨hs hp.1, hp.2⟩
  nodup_devices := h.nodup_devices
  nodup_drivers := h.nodup_drivers

lemma from_directory (d : Directory) : (directory d).From ps :=
  ⟨by simp [devices], by simp [drivers], .nil, .nil⟩

/-- A handle that holds one device, or one driver. -/
def single : (role : Role) → Shared role.Obj → Held
  | .device => device
  | .driver => driver

lemma from_single {role : Role} {d : Shared role.Obj} {p : Bound} (hp : p ∈ ps)
    (hd : d ∈ p.end? role) : (single role d).From ps := by
  cases role with
  | device => exact ⟨by simpa [single, devices] using ⟨p, hp, hd⟩, by simp [single, drivers],
      by simp [single, devices], .nil⟩
  | driver => exact ⟨by simp [single, devices], by simpa [single, drivers] using ⟨p, hp, hd⟩,
      .nil, by simp [single, drivers]⟩

/-- It owns no other than that. -/
lemma shared_single_subset {role : Role} {d : Shared role.Obj}
    {l : Living} (hd : d ∈ l.shared role) (r : Role) : (single role d).shared r ⊆ l.shared r := by
  cases role <;> cases r <;> simp_all [shared, single, devices, drivers]

lemma from_ends {x : Held} {lo hi : Serial} (h : Numbered lo hi x.ends) : x.From x.ends := by
  have hend (role : Role) : ∀ d ∈ x.shared role, ∃ p ∈ x.ends, d ∈ p.end? role :=
    fun _ hd => mem_shared.1 hd
  have hnodup (role : Role) : ((x.shared role).map (·.serial)).Nodup := by
    rw [shared_eq]
    exact h.nodup_serials role
  exact ⟨hend .device, hend .driver, hnodup .device, hnodup .driver⟩

end Held

namespace Session

/-- All that the steps of a run load, in their order. -/
def loadedIn : Session → List (Mounted × Step) → List Held
  | _, [] => []
  | s, (sys, st) :: rest => (s.loaded? sys st).toList ++ loadedIn (s.step sys st).value.1 rest

/-- The history `past` accounts for all that the session holds, and for the numbers that it
has given out. -/
structure Traced (past : List Held) (s : Session) : Prop where
  numbered : Numbered 0 s.next (past.flatMap Held.ends)
  held : ∀ x ∈ s.handles.values, x.From (past.flatMap Held.ends)

/-- What lives is held. -/
lemma mem_living_shared {s : Session} {role : Role} {d : Shared role.Obj} :
    d ∈ s.living.shared role ↔ ∃ x ∈ s.handles.values, d ∈ x.shared role := by
  cases role <;> exact List.mem_flatMap

lemma mem_values_of_held? {s : Session} {h : String} {x : Held} (hx : s.held? h = some x) :
    x ∈ s.handles.values :=
  (Table.values_perm_of_get? hx).mem_iff.2 List.mem_cons_self

namespace Traced

variable {past : List Held} {s : Session}

lemma empty : Traced [] .empty :=
  ⟨.nil _ _, by simp [Session.empty, Table.values, Table.empty]⟩

/-- What lives is an end of a pair of the history. -/
lemma exists_end (h : Traced past s) (role : Role) {d : Shared role.Obj}
    (hd : d ∈ s.living.shared role) : ∃ p ∈ past.flatMap Held.ends, d ∈ p.end? role := by
  obtain ⟨x, hx, hd⟩ := mem_living_shared.1 hd
  exact (h.held x hx).exists_end hd

/-- Objects of one number are of one pair. -/
lemma pair_eq (h : Traced past s) (role : Role) {p q : Bound} (hp : p ∈ past.flatMap Held.ends)
    (hq : q ∈ past.flatMap Held.ends) {d e : Shared role.Obj} (hd : d ∈ p.end? role)
    (he : e ∈ q.end? role) (hs : e.serial = d.serial) : p = q :=
  h.numbered.unique hp hq (Bound.serial_mem hd) (hs ▸ Bound.serial_mem he)

/-- In the history a number belongs to one object of a role. -/
lemma end_eq (h : Traced past s) (role : Role) {d e : Shared role.Obj}
    (hd : ∃ p ∈ past.flatMap Held.ends, d ∈ p.end? role)
    (he : ∃ p ∈ past.flatMap Held.ends, e ∈ p.end? role) (hs : e.serial = d.serial) : e = d := by
  obtain ⟨p, hp, hd⟩ := hd
  obtain ⟨q, hq, he⟩ := he
  have hpq := h.pair_eq role hp hq hd he hs
  subst hpq
  exact Option.some.inj ((Option.mem_def.1 he).symm.trans hd)

lemma serial_lt (h : Traced past s) (role : Role) {d : Shared role.Obj}
    (hd : d ∈ s.living.shared role) : d.serial < s.next := by
  obtain ⟨p, hp, hd⟩ := h.exists_end role hd
  exact (h.numbered.range hp (Bound.serial_mem hd)).2

/-- Numbers mean the same objects in an earlier and in a later session. -/
lemma coherent_append {more : List Held} {after : Session} (h : Traced past s)
    (h' : Traced (past ++ more) after) (role : Role) :
    Shared.Coherent (s.living.shared role ++ after.living.shared role) := by
  have hp {d : Shared role.Obj} (hd : d ∈ s.living.shared role ++ after.living.shared role) :
      ∃ p ∈ (past ++ more).flatMap Held.ends, d ∈ p.end? role := by
    rw [List.flatMap_append]
    rcases List.mem_append.1 hd with hd | hd
    · exact (h.exists_end role hd).imp fun _ hp => ⟨List.mem_append_left _ hp.1, hp.2⟩
    · simpa only [List.flatMap_append] using h'.exists_end role hd
  exact fun _ hd _ he => h'.end_eq role (hp hd) (hp he)

lemma coherent (h : Traced past s) (role : Role) : Shared.Coherent (s.living.shared role) :=
  fun _ hd _ he => h.end_eq role (h.exists_end role hd) (h.exists_end role he)

/-- What is put into a handle must be a part of the history, the rest is there already. -/
lemma filled (h : Traced past s) {k : String} {x : Held}
    (hx : x.From (past.flatMap Held.ends)) : Traced past (s.filled k x s.next) := by
  refine ⟨h.numbered, fun y hy => ?_⟩
  rcases List.mem_cons.1 hy with rfl | hy
  · exact hx
  · exact h.held y (Table.mem_values_of_mem_erase hy)

lemma dropped (h : Traced past s) (k : String) : Traced past (s.dropped k) :=
  ⟨h.numbered, fun x hx => h.held x (Table.mem_values_of_mem_erase hx)⟩

lemma loads (h : Traced past s) {sys : Mounted} {what : Opening} {x : Held} {next : Serial}
    (hx : (loadHeld sys s.next what).run.value = .ok (x, next)) (k : String) :
    Traced (past ++ [x]) (s.filled k x next) := by
  obtain ⟨hle, hn⟩ := numbered_of_loadHeld hx
  have hpast : (past ++ [x]).flatMap Held.ends = past.flatMap Held.ends ++ x.ends := by simp
  refine ⟨?_, fun y hy => ?_⟩
  · rw [hpast]
    exact h.numbered.append hn (Nat.zero_le _) hle
  · rw [hpast]
    rcases List.mem_cons.1 hy with rfl | hy
    · exact (Held.from_ends hn).mono (List.subset_append_right _ _)
    · exact (h.held y (Table.mem_values_of_mem_erase hy)).mono (List.subset_append_left _ _)

end Traced

/-- What may be taken lives. -/
lemma part?_living {s : Session} {h : String} {x y : Held} {role : Role} {name : String}
    (hx : s.held? h = some x) (hy : part? s.living role name x = some (some y)) :
    ∃ d ∈ s.living.shared role, y = .single role d := by
  -- what a handle shares lives, so it is enough that the part is shared by a handle
  have hlives {r : Role} {d : Shared r.Obj} (hd : d ∈ x.shared r) : d ∈ s.living.shared r :=
    mem_living_shared.2 ⟨x, mem_values_of_held? hx, hd⟩
  have hclass {c : ClassDevice} (hd : ∀ d ∈ c.device, d ∈ x.devices)
      (hr : ∀ d ∈ c.driver, d ∈ x.drivers) (hc : part?.ofClassDevice role c = some y) :
      ∃ d ∈ s.living.shared role, y = .single role d := by
    cases role with
    | device =>
      obtain ⟨d, hcd, rfl⟩ := Option.map_eq_some_iff.1 hc
      exact ⟨d, hlives (r := .device) (hd d hcd), rfl⟩
    | driver =>
      obtain ⟨d, hcd, rfl⟩ := Option.map_eq_some_iff.1 hc
      exact ⟨d, hlives (r := .driver) (hr d hcd), rfl⟩
  cases x with
  | directory d => cases hy
  | device d =>
    cases role with
    | device => cases hy
    | driver =>
      -- the driver of a device is looked up by its number among all that live
      obtain ⟨r, hr, rfl⟩ := Option.map_eq_some_iff.1 (Option.some.inj hy)
      obtain ⟨i, -, hi⟩ := Option.bind_eq_some_iff.1 hr
      exact ⟨r, List.mem_of_find?_eq_some hi, rfl⟩
  | driver r =>
    cases role with
    | driver => cases hy
    | device =>
      obtain ⟨d, hd, rfl⟩ := Option.map_eq_some_iff.1 (Option.some.inj hy)
      obtain ⟨i, -, hi⟩ := Option.bind_eq_some_iff.1 hd
      exact ⟨d, List.mem_of_find?_eq_some hi, rfl⟩
  | classDevice c =>
    exact hclass (fun d hd => Option.mem_toList.2 hd) (fun d hd => Option.mem_toList.2 hd)
      (Option.some.inj hy)
  | deviceClass k =>
    obtain ⟨c, hc, hyc⟩ := Option.bind_eq_some_iff.1 (Option.some.inj hy)
    have hck : c ∈ k.devices := List.mem_of_find?_eq_some hc
    exact hclass (fun d hd => List.mem_flatMap.2 ⟨c, hck, Option.mem_toList.2 hd⟩)
      (fun d hd => List.mem_flatMap.2 ⟨c, hck, Option.mem_toList.2 hd⟩) hyc

/-- One step keeps the account. -/
theorem Effect.traced {past : List Held} {s after : Session} {sys : Mounted} {st : Step}
    {es : List Event} (he : Effect s sys st es after) (h : Traced past s) :
    Traced (past ++ (s.loaded? sys st).toList) after := by
  cases he with
  | quiet hst _ => simpa [hst] using h
  | loads hx => simpa [loaded?, hx, Except.toOption] using h.loads hx _
  | takes hx hy =>
    rw [show s.loaded? sys (.take _ _ _ _) = none from rfl, Option.toList_none, List.append_nil]
    obtain ⟨d, hd, rfl⟩ := part?_living hx hy
    obtain ⟨p, hp, hd⟩ := h.exists_end _ hd
    exact h.filled (Held.from_single hp hd)
  | drops =>
    rw [show s.loaded? sys (.drop _) = none from rfl, Option.toList_none, List.append_nil]
    exact h.dropped _
  | reads hst _ _ _ =>
    rw [hst, Option.toList_none, List.append_nil]
    exact h.filled (Held.from_directory _)

/-- Whatever the steps, all that a session holds was loaded by one of them. -/
theorem traced_run {past : List Held} {s : Session} (h : Traced past s)
    (steps : List (Mounted × Step)) :
    Traced (past ++ s.loadedIn steps) (s.run steps).value := by
  induction steps generalizing past s with
  | nil => simpa [loadedIn] using h
  | cons x steps ih =>
    obtain ⟨sys, st⟩ := x
    have hstep := ih ((effect_step s sys st).traced h)
    rwa [List.append_assoc] at hstep

end Session

end DeviceModel
