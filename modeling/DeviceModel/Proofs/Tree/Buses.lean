import DeviceModel.Proofs.Graph.Lookup
import DeviceModel.Proofs.Path.Spelling
import DeviceModel.Proofs.Tree.Announced

/-!
Which bus a device is on, in a tree that was built by edits.

A bus knows a device if something is reached under the bus id in its directory `devices`, and the
first bus that knows the device is the one. That is not quite the same as having an entry of that
name: an entry that is a link counts only if it leads somewhere, and what was left behind in a
directory that has been replaced counts as well.
-/

namespace DeviceModel

open DeviceModel.Path (IsEntry IsName)

/-! ### The first bus that answers -/

namespace BusList

variable (b : Backend) {busId : String}

lemma value_firstWith (busId : String) (buses : List (String × String)) :
    (firstWith b busId buses).value =
      (buses.find? fun bus => (b.stat (Path.join bus.2 busId)).isOk).map (·.1) := by
  induction buses with
  | nil => rfl
  | cons bus rest ih =>
    rw [firstWith, Logged.value_bind]
    unfold Backend.askStat
    rw [Scan.run_ask]
    rcases hs : b.stat (Path.join bus.2 busId) with e | kind
    · rw [List.find?_cons_of_neg (by simp [hs, Except.isOk, Except.toBool])]
      exact ih
    · rw [List.find?_cons_of_pos (by simp [hs, Except.isOk, Except.toBool])]
      rfl

lemma value_find (buses : BusList) (h : busId ≠ "") :
    (buses.find b busId).run.value =
      (firstWith b busId buses.buses).value.elim (.error .notFound) .ok := by
  unfold find
  rcases hf : (firstWith b busId buses.buses).value with _ | name
  · simp [h, hf]
  · simp [h, hf]

end BusList

/-- The directory in which a bus lists its devices. -/
def devicesPath (bus : Directory) : String := Path.join bus.path "devices"

/-- A search for the bus of a device goes through the buses in the order of the scan. -/
lemma value_findBus_of_load {sys : Mounted} {d : Directory} {busId : String}
    (h : (Directory.load sys.backend sys.busPath).run.value = .ok d) (hid : busId ≠ "") :
    (sys.findBus busId).run.value =
      ((d.subdirs.find? fun bus => (sys.backend.stat (Path.join (devicesPath bus) busId)).isOk).map
        (·.name)).elim (.error .notFound) .ok := by
  have hload : (BusList.load sys).run.value =
      .ok ⟨d.subdirs.map fun bus => (bus.name, devicesPath bus)⟩ := by
    rw [BusList.load, Scan.value_run_bind, h]
    rfl
  rw [BusList.value_findBus busId sys hid, hload, Except.bind, BusList.value_find _ _ hid,
    BusList.value_firstWith, List.find?_map, Option.map_map]
  rfl

/-- A device that is opened by itself bears the name of its bus, or none. -/
lemma Device.busName_of_load (sys : Mounted) {path : String} {x : Device}
    (h : (load sys path).run.value = .ok x) :
    x.busName = (sys.findBus x.busId).run.value.toOption.getD "" := by
  rw [value_load] at h
  have hopened := (opened_of_loadOn sys _ h).2
  rw [hopened.bus, BusList.value_nameFor_available _ sys hopened.named]

namespace MemoryTree

variable {t : MemoryTree} {here place : Place} {path name : String} {last : Bool}
  {way rest : List String} {k : Nat}

/-! ### What is reached has a node -/

lemma Leads.stands (hroot : t.HasDirectory []) (h : Leads t last here way k place)
    (hhere : t.node? here ≠ none) : t.node? place ≠ none := by
  induction h with
  | done here => exact hhere
  | down hn _ _ ih => exact ih (by simp [hn])
  | hop _ _ _ ih => exact ih hroot.node?_ne_none

/-- What a path leads to can be asked for. -/
lemma isOk_stat_iff (hroot : t.HasDirectory []) :
    (t.stat path).isOk = true ↔ ∃ place, t.resolve path = .ok place := by
  rcases hr : t.resolve path with e | place
  · simp [stat, hr, bind, Except.bind, Except.isOk, Except.toBool]
  · obtain ⟨k, -, hleads⟩ := resolve_eq_ok_iff.1 hr
    obtain ⟨n, hn⟩ := Option.ne_none_iff_exists'.1 (hleads.stands hroot hroot.node?_ne_none)
    rw [stat_of_resolve hr hn]
    exact iff_of_true rfl ⟨place, rfl⟩

lemma isOk_stat_iff_realPath (hroot : t.HasDirectory []) :
    (t.stat path).isOk = true ↔ ∃ r, t.realPath path = .ok r := by
  rw [isOk_stat_iff hroot]
  simp only [realPath_eq_ok_iff]
  exact ⟨fun ⟨place, h⟩ => ⟨_, place, h, rfl⟩, fun ⟨_, place, h, _⟩ => ⟨place, h⟩⟩

/-! ### One name further down -/

/-- Below a path that ends in a name, a name stands at the end of the way. -/
lemma address_join {m : String} (hne : path ≠ "") (hm : Path.nameOf path = .ok m)
    (hentry : IsEntry m) (hname : IsEntry name) :
    address (Path.join path name) = address path ++ [name] := by
  have hbelow : Path.components (Path.join path name) =
      Path.components path ++ [.normal name] := by
    rw [Path.components_join hne, Path.names_of_isName hname.1, List.map_singleton,
      Path.ofName_of_isEntry hname]
  have habs := Path.isAbsolute_join hne name
  rcases ha : Path.isAbsolute path with _ | _
  · -- the stack that the path leaves behind has its last name at the end
    obtain ⟨front, hfront⟩ := List.getLast?_eq_some_iff.1 (Path.nameOf_eq_ok_iff.1 hm)
    have hstack : (Path.components path).foldl Path.Component.climb [] ≠ [] := by
      rw [Path.components, if_neg (by simp [ha]), List.nil_append, hfront, List.map_append,
        List.foldl_append, List.map_singleton, Path.ofName_of_isEntry hentry]
      simp [Path.Component.climb]
    have hclimbs := Path.isName_of_climbs (Path.climbs_components path)
    have hclimbs' := Path.isName_of_climbs (Path.climbs_components (Path.join path name))
    rw [address, address, Path.normalize_of_not_isAbsolute ha,
      Path.normalize_of_not_isAbsolute (habs.trans ha), Path.names_renderRelative hstack hclimbs,
      Path.names_renderRelative ?_ hclimbs', hbelow, List.foldl_append]
    · rfl
    · rw [hbelow, List.foldl_append]
      simp [Path.Component.climb]
  · have hwalk (p : String) : ∀ n ∈ Path.walk p [], IsName n :=
      fun n hn => (Path.isEntry_of_mem_walk hn).1
    rw [address, address, Path.normalize_of_isAbsolute ha,
      Path.normalize_of_isAbsolute (habs.trans ha), Path.names_render (hwalk _),
      Path.names_render (hwalk _), Path.walk, hbelow, List.foldl_append]
    rfl

lemma address_join_devicesPath {bus : Directory} (hname : IsEntry name) :
    address (Path.join (devicesPath bus) name) = address (devicesPath bus) ++ [name] := by
  have hdevices : IsEntry "devices" := by simp [IsEntry, IsName]
  exact address_join (Path.join_ne_empty _ _) (Path.nameOf_join _ hdevices.1) hdevices hname

/-! ### What stands in a directory that was replaced -/

/-- What stands below a place is announced there, unless the place has been replaced. -/
lemma mem_childrenAt_or_replaced (edits : List Edit)
    (hn : (empty.applyAll edits).node? (place ++ [name]) ≠ none) :
    name ∈ (empty.applyAll edits).childrenAt place ∨ ∃ e ∈ edits, e.Replaces place := by
  rw [mem_childrenAt_iff_announced edits hn, or_iff_not_imp_left]
  exact fun hnot => exists_replaces hnot (exists_touches (by simp) hn)

/-! ### Entries -/

/-- The directory at a path has an entry, whether or not it may be listed. -/
def HasEntry (t : MemoryTree) (path : String) (e : Entry) : Prop :=
  ∃ place children, t.resolve path = .ok place ∧ t.node? place = some (.directory children) ∧
    e ∈ children.filterMap (t.entry? place)

/-- The entries of a directory that may be listed are those of its listing. -/
lemma hasEntry_iff_of_readDir {l : Listing} (h : t.readDir path = .ok l) (e : Entry) :
    t.HasEntry path e ↔ e ∈ l.entries := by
  obtain ⟨place, children, hres, -, hd, rfl⟩ := readDir_eq_ok_iff.1 h
  constructor
  · rintro ⟨place', children', hres', hd', he⟩
    cases hres.symm.trans hres'
    cases hd.symm.trans hd'
    exact he
  · exact fun he => ⟨place, children, hres, hd, he⟩

/-- Something is reached under the bus id in the directory where a bus lists its devices. -/
def Knows (t : MemoryTree) (bus : Directory) (busId : String) : Prop :=
  (t.stat (Path.join (devicesPath bus) busId)).isOk = true

section

variable {bus : Directory} {busId : String}

/-- A directory or a file is known under its name; a link is, if it leads somewhere. -/
lemma knows_iff_of_hasEntry (ht : Sound t) (hroot : t.HasDirectory []) {e : Entry}
    (h : t.HasEntry (devicesPath bus) e) : t.Knows bus e.name ↔
      (e.kind = .symlink → ∃ r, t.realPath (Path.join (devicesPath bus) e.name) = .ok r) := by
  rw [Knows, isOk_stat_iff_realPath hroot]
  refine ⟨fun hr _ => hr, fun hlink => ?_⟩
  by_cases hkind : e.kind = .symlink
  · exact hlink hkind
  · obtain ⟨place, children, hres, -, he⟩ := h
    obtain ⟨name, -, hentry⟩ := List.mem_filterMap.1 he
    obtain ⟨rfl, n, hn, hsame⟩ := exists_of_entry hentry
    have hnot : ∀ target, n ≠ .link target := by
      rintro target rfl
      exact hkind hsame.symm
    obtain ⟨k, hk, hleads⟩ := resolve_eq_ok_iff.1 hres
    -- what is no link is reached by one name more
    have hstep : Leads t true place [e.name] 0 (place ++ [e.name]) :=
      .down hn (fun target he _ => hnot target he) (.done _)
    have hway := hleads.append hstep (.inl rfl)
    rw [← address_join_devicesPath (ht.isEntry hn e.name (by simp))] at hway
    exact ⟨_, realPath_eq_ok_iff.2 ⟨_, resolve_eq_ok_iff.2 ⟨_, hk, hway⟩, rfl⟩⟩

/-- A name that is known stands in the directory where the bus lists its devices. -/
lemma exists_of_knows (hroot : t.HasDirectory []) (hid : IsEntry busId) (h : t.Knows bus busId) :
    ∃ place, t.resolve (devicesPath bus) = .ok place ∧ t.node? (place ++ [busId]) ≠ none := by
  obtain ⟨q, hq⟩ := (isOk_stat_iff hroot).1 h
  obtain ⟨k, hk, hleads⟩ := resolve_eq_ok_iff.1 hq
  rw [address_join_devicesPath hid] at hleads
  obtain ⟨k₁, k₂, place, rfl, hfront, hlast⟩ := hleads.split (.inl rfl)
  refine ⟨place, resolve_eq_ok_iff.2 ⟨k₁, by omega, hfront⟩, ?_⟩
  cases hlast with
  | down hn _ _ => simp [hn]
  | hop hn _ _ => simp [hn]

end

/-- Which of the buses a device is on, in a tree that was built by `edits`. -/
structure OnBus (edits : List Edit) (buses : List Directory) (busId : String)
    (found : Except Error String) : Prop where
  /-- It is the first bus that knows the device. -/
  first : ∀ b, found = .ok b ↔ ∃ before bus after, buses = before ++ bus :: after ∧ bus.name = b ∧
    (empty.applyAll edits).Knows bus busId ∧
      ∀ x ∈ before, ¬ (empty.applyAll edits).Knows x busId
  none : found = .error .notFound ↔ ∀ bus ∈ buses, ¬ (empty.applyAll edits).Knows bus busId
  /-- The entries are those of the listing, where there is one. -/
  listed : ∀ bus ∈ buses, ∀ l, (empty.applyAll edits).readDir (devicesPath bus) = .ok l →
    ∀ e, (empty.applyAll edits).HasEntry (devicesPath bus) e ↔ e ∈ l.entries
  /-- A bus with an entry of that name knows the device, unless the entry is a link that leads
  nowhere. -/
  entry : ∀ bus ∈ buses, ∀ e, (empty.applyAll edits).HasEntry (devicesPath bus) e →
    e.name = busId → ((empty.applyAll edits).Knows bus busId ↔ (e.kind = .symlink →
      ∃ r, (empty.applyAll edits).realPath (Path.join (devicesPath bus) busId) = .ok r))
  /-- A bus that knows a device by a name has such an entry, unless something was put in place of
  its directory. -/
  known : IsEntry busId → ∀ bus ∈ buses, (empty.applyAll edits).Knows bus busId →
    (∃ e, (empty.applyAll edits).HasEntry (devicesPath bus) e ∧ e.name = busId) ∨
      ∃ place, (empty.applyAll edits).resolve (devicesPath bus) = .ok place ∧
        ∃ e ∈ edits, e.Replaces place

section

variable {buses : List Directory} {knows : Directory → Bool}

lemma first_eq_ok_iff {b : String} :
    ((buses.find? knows).map (·.name)).elim (Except.error Error.notFound) .ok = .ok b ↔
      ∃ before bus after, buses = before ++ bus :: after ∧ bus.name = b ∧ knows bus = true ∧
        ∀ x ∈ before, ¬ knows x = true := by
  constructor
  · intro h
    rcases hf : buses.find? knows with _ | bus
    · rw [hf] at h
      cases h
    · rw [hf] at h
      obtain ⟨hknows, before, after, hbuses, hbefore⟩ := List.find?_eq_some_iff_append.1 hf
      exact ⟨before, bus, after, hbuses, Except.ok.inj h, hknows,
        fun x hx => by simpa using hbefore x hx⟩
  · rintro ⟨before, bus, after, hbuses, rfl, hknows, hbefore⟩
    have hf : buses.find? knows = some bus :=
      List.find?_eq_some_iff_append.2 ⟨hknows, before, after, hbuses,
        fun x hx => by simpa using hbefore x hx⟩
    rw [hf]
    rfl

lemma first_eq_notFound_iff :
    ((buses.find? knows).map (·.name)).elim (Except.error Error.notFound) .ok =
      .error .notFound ↔ ∀ bus ∈ buses, ¬ knows bus = true := by
  rcases hf : buses.find? knows with _ | bus
  · exact iff_of_true rfl (List.find?_eq_none.1 hf)
  · exact iff_of_false (by simp) fun hall =>
      hall bus (List.mem_of_find?_eq_some hf) (List.find?_some hf)

end

lemma onBus_of_find (edits : List Edit) (buses : List Directory) (busId : String) :
    OnBus edits buses busId
      (((buses.find? fun bus => ((empty.applyAll edits).stat
        (Path.join (devicesPath bus) busId)).isOk).map (·.name)).elim (.error .notFound) .ok) := by
  have hroot := hasDirectory_root_applyAll edits
  refine ⟨fun b => first_eq_ok_iff, first_eq_notFound_iff,
    fun bus _ l hl => hasEntry_iff_of_readDir hl, fun bus _ e he hname => ?_,
    fun hid bus _ hknows => ?_⟩
  · subst hname
    exact knows_iff_of_hasEntry (sound_applyAll edits) hroot he
  · obtain ⟨place, hres, hn⟩ := exists_of_knows hroot hid hknows
    refine (mem_childrenAt_or_replaced edits hn).imp (fun hm => ?_) fun hr => ⟨place, hres, hr⟩
    obtain ⟨children, hd, hm⟩ := mem_childrenAt.1 hm
    obtain ⟨e, he, hname⟩ := mem_entries_iff.2 ⟨hm, hn⟩
    exact ⟨e, ⟨place, children, hres, hd, he⟩, hname⟩

/-- **Bus names.** Where the buses can be listed, the bus of a device is the first directory there
whose `devices` directory leads to something under the bus id, and each device that is opened, by
itself or in a tree, bears that name, or none. An entry of that name counts but for a link that
leads nowhere, and besides the entries only what a replaced directory has left behind. -/
theorem findBus_first_known (edits : List Edit) (mount : String) {d : Directory} {busId : String}
    (h : (Directory.load (empty.applyAll edits).backend
      (Mounted.ofMount mount (empty.applyAll edits).backend).busPath).run.value = .ok d)
    (hid : busId ≠ "") :
    (∃ l, (empty.applyAll edits).readDir d.path = .ok l ∧
      d.subdirs = (l.entries.filter (·.kind = .directory)).map fun e =>
        .unread e.name (Path.join d.path e.name)) ∧
    OnBus edits d.subdirs busId
      ((Mounted.ofMount mount (empty.applyAll edits).backend).findBus busId).run.value ∧
    (∀ path x, (Device.load (.ofMount mount (empty.applyAll edits).backend) path).run.value = .ok x →
      x.busId = busId → x.busName = ((Mounted.ofMount mount
        (empty.applyAll edits).backend).findBus busId).run.value.toOption.getD "") ∧
    ∀ path root,
      (Device.loadTree (.ofMount mount (empty.applyAll edits).backend) path).run.value = .ok root →
      ∀ x ∈ root.nodes, x.busId = busId → x.busName = ((Mounted.ofMount mount
        (empty.applyAll edits).backend).findBus busId).run.value.toOption.getD "" := by
  have hbus : (Mounted.ofMount mount (empty.applyAll edits).backend).busPath ≠ "" :=
    Path.join_ne_empty _ _
  refine ⟨?_, ?_, fun path x hx hxid => ?_, fun path root hroot x hx hxid => ?_⟩
  · obtain ⟨hpath, -, hsub⟩ := Directory.exists_of_load _ h
    have hsurvey := Directory.load_survey (empty.applyAll edits).backend hbus
    rw [h, ← hpath] at hsurvey
    obtain ⟨l, hl, hnames⟩ := Backend.exists_of_survey hsurvey.symm
    have hlisted : d.subdirs.map (·.name) =
        (l.entries.filter (·.kind = .directory)).map (·.name) := hnames
    refine ⟨l, hl, ?_⟩
    rw [hsub, hlisted, List.map_map]
    rfl
  · rw [value_findBus_of_load h hid]
    exact onBus_of_find edits d.subdirs busId
  · subst hxid
    exact Device.busName_of_load _ hx
  · subst hxid
    exact ((Device.loadTree_shares_buses _ hroot).1 x hx).bus

/-- A bus without devices, and one with a link to a card and a file. -/
def slotsEdits : List Edit :=
  [.directory "/bus/usb/devices", .link "/bus/pci/devices/card" "../../../card",
    .file "/bus/pci/devices/slot" "" 0o444, .directory "/card"]

def slotsSystem : Mounted := .ofMount "/" (empty.applyAll slotsEdits).backend

/-- The card is on the second bus. -/
theorem findBus_slots_first_known :
    ∃ d, (Directory.load slotsSystem.backend slotsSystem.busPath).run.value = .ok d ∧
      d.subdirs.map (·.name) = ["usb", "pci"] ∧ OnBus slotsEdits d.subdirs "card" (.ok "pci") ∧
      ∀ path x, (Device.load slotsSystem path).run.value = .ok x → x.busId = "card" →
        x.busName = "pci" := by
  have hnames : (Directory.load slotsSystem.backend slotsSystem.busPath).run.value.toOption.map
      (fun d => d.subdirs.map (·.name)) = some ["usb", "pci"] := by decide +kernel
  have hfound : (slotsSystem.findBus "card").run.value = .ok "pci" := by decide +kernel
  obtain ⟨d, hd, hsub⟩ := exists_ok_of_toOption_map hnames
  have hcard : "card" ≠ "" := by decide
  obtain ⟨-, hon, halone, -⟩ := findBus_first_known slotsEdits "/" hd hcard
  have hon' : OnBus slotsEdits d.subdirs "card" (slotsSystem.findBus "card").run.value := hon
  rw [hfound] at hon'
  refine ⟨d, hd, hsub, hon', fun path x hx hxid => ?_⟩
  have hname : x.busName = (slotsSystem.findBus "card").run.value.toOption.getD "" :=
    halone path x hx hxid
  rw [hname, hfound]
  rfl

/-- A bus that lists a link to a card that is gone. -/
def goneEdits : List Edit :=
  [.directory "/bus/pci", .link "/bus/pci/devices/gone" "../../../gone"]

/-- **A card that is gone**: the bus has an entry for it, but is not found by it, and it is found by
a bus id that no entry can have. -/
theorem findBus_gone_notFound :
    ((empty.applyAll goneEdits).readDir "/bus/pci/devices").map
        (·.entries.map fun e => (e.name, e.kind)) = .ok [("gone", .symlink)] ∧
      ((Mounted.ofMount "/" (empty.applyAll goneEdits).backend).findBus "gone").run.value =
        .error .notFound ∧
      ((Mounted.ofMount "/" (empty.applyAll goneEdits).backend).findBus "..").run.value =
        .ok "pci" := by
  decide +kernel

end MemoryTree

end DeviceModel
