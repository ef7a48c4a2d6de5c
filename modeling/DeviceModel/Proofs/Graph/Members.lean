import DeviceModel.Proofs.Graph.Class
import DeviceModel.Proofs.Graph.Mirror
import DeviceModel.Proofs.Path.Spelling

/-!
What a loaded class holds, against the directories found in its own.

Each of them is tried by itself, whatever becomes of the others: it gives a class device, or one
warning. No other warning is left, for loading a class device leaves none.
-/

namespace DeviceModel

open Event (OfSnapshot OfLoading OfClassDevice)

/-! ### Warnings -/

namespace Event

/-- The line of the log that an event leaves, if it is a warning. -/
def warning? (e : Event) : Option LogRecord := e.record?.filter (·.level = .warn)

def warnings (es : List Event) : List LogRecord := es.filterMap warning?

@[simp] lemma warnings_nil : warnings [] = [] := rfl

@[simp] lemma warnings_append (es fs : List Event) :
    warnings (es ++ fs) = warnings es ++ warnings fs :=
  List.filterMap_append

lemma warning?_of_ofSnapshot {p : String → Prop} :
    ∀ {e : Event}, e.OfSnapshot p → e.warning? = none
  | asked _ _, _ | opened _ _, _ | closed _ _, _ => rfl
  | noticed (.linkUnreadable _ _), _ | noticed (.attributeUnreadable _ _), _
  | noticed (.nameNotText _), _ => rfl

lemma warning?_of_ofClassDevice {e : Event} (h : e.OfClassDevice) : e.warning? = none := by
  cases h with
  | @loading role e h =>
    cases e with
    | asked | opened | closed => rfl
    | noticed n =>
      cases n with
      | treeAbandoned | classDeviceLeftOut => cases h
      | _ => rfl
  | _ => rfl

lemma warnings_eq_nil {es : List Event} {P : Event → Prop} (hP : ∀ e, P e → e.warning? = none)
    (h : ∀ e ∈ es, P e) : warnings es = [] :=
  List.filterMap_eq_nil_iff.2 fun e he => hP e (h e he)

end Event

open Event (warnings)

namespace ClassDevice

variable (sys : Mounted) (serial : Serial)

/-- Loading a class device leaves what reading its directory does, and what its links lead to. -/
lemma load_emits (path : String) : (load sys serial path).run.Emits OfClassDevice := by
  have hload : (Directory.load sys.backend path).run.Emits OfClassDevice :=
    (Directory.load_emits sys.backend (p := fun _ => True) trivial).mono OfSnapshot.ofClassDevice
  rcases hd : (Directory.load sys.backend path).run.value with e | d
  · unfold load
    refine Scan.emits_unless fun _ => ?_
    refine Scan.emits_bind (Scan.emits_noting (Scan.emits_liftM _) fun _ => .unnamed path) ?_
    intro name
    rw [Scan.run_bind_of_error (e := e) (by rw [Scan.value_run_noting, hd])]
    exact (Scan.emits_noting hload fun e => .unreadable path e)
  · obtain ⟨-, name, hn⟩ := Directory.exists_name_of_load _ hd
    rw [run_load serial hn hd, Bound.followAll_empty]
    intro e he
    rcases List.mem_append.1 he with he | he
    · exact beforeLinks_ofClassDevice _ _ _ e he
    · exact Bound.attendAll_ofClassDevice _ _ _ e he

lemma warnings_load (path : String) : warnings (load sys serial path).run.events = [] :=
  Event.warnings_eq_nil (fun _ => Event.warning?_of_ofClassDevice) (load_emits sys serial path)

end ClassDevice

/-! ### One directory after another -/

namespace DeviceClass

variable (sys : Mounted) (serial : Serial)

/-- A directory that can be loaded as a class device. -/
def opens (d : Directory) : Bool :=
  (ClassDevice.load sys serial d.path).run.value.toOption.isSome

/-- The warning that is left for a directory that cannot. -/
def leftOut? (d : Directory) : Option LogRecord :=
  match (ClassDevice.load sys serial d.path).run.value with
  | .ok _ => none
  | .error e => some (Notice.classDeviceLeftOut d.path e).record

/-- The number is of no account for what fails, and how. -/
lemma leftOut?_eq (k : Serial) (d : Directory) : leftOut? sys k d = leftOut? sys serial d := by
  rw [leftOut?, leftOut?, ClassDevice.value_load, ClassDevice.value_load]
  rcases (Directory.load sys.backend d.path).run.value with e | r
  · rfl
  · cases Path.nameOf d.path <;> rfl

lemma isSome_leftOut? (d : Directory) : (leftOut? sys serial d).isSome = !opens sys serial d := by
  unfold leftOut? opens
  cases (ClassDevice.load sys serial d.path).run.value <;> rfl

lemma opens_eq (k : Serial) (d : Directory) : opens sys k d = opens sys serial d := by
  rw [← Bool.not_inj_iff, ← isSome_leftOut?, ← isSome_leftOut?, leftOut?_eq]

/-- There is a warning for each directory that fails, and no other. -/
lemma warnings_loadDevices (k : Serial) (ds : List Directory) (acc : List ClassDevice) :
    warnings (loadDevices sys k ds acc).events = ds.filterMap (leftOut? sys serial) := by
  induction ds generalizing k acc with
  | nil => rfl
  | cons d ds ih =>
    rw [loadDevices, Logged.events_bind, Event.warnings_append, ClassDevice.warnings_load,
      List.filterMap_cons, ← leftOut?_eq sys serial k, leftOut?]
    rcases (ClassDevice.load sys k d.path).run.value with e | c
    · exact congrArg (List.cons _) (ih (k + 1) acc)
    · exact ih (k + 1) (c :: acc)

/-- There is a class device for each directory that does not. -/
lemma map_name_members {k : Serial} {ds : List Directory}
    (h : ∀ d ∈ ds, Path.nameOf d.path = .ok d.name) :
    (members sys k ds).reverse.map (·.name) = (ds.filter (opens sys serial)).map (·.name) := by
  rw [members, List.reverse_reverse]
  induction ds generalizing k with
  | nil => rfl
  | cons d ds ih =>
    obtain ⟨hd, hds⟩ := List.forall_mem_cons.1 h
    rw [List.zipIdx_cons, List.filterMap_cons, List.filter_cons, ← opens_eq sys serial k, opens]
    rcases hc : (ClassDevice.load sys k d.path).run.value with e | c
    · exact ih hds
    · obtain ⟨-, name, -, hname, rfl⟩ := ClassDevice.exists_of_load_eq_ok sys k hc
      obtain rfl : d.name = name := Except.ok.inj (hd.symm.trans hname)
      exact congrArg _ (ih hds)

lemma mem_members {k : Serial} {ds : List Directory} {c : ClassDevice}
    (h : c ∈ members sys k ds) :
    ∃ d ∈ ds, ∃ k', (ClassDevice.load sys k' d.path).run.value = .ok c := by
  rw [members, List.mem_reverse] at h
  obtain ⟨⟨d, k'⟩, hd, hc⟩ := List.mem_filterMap.1 h
  refine ⟨d, List.fst_mem_of_mem_zipIdx hd, k', ?_⟩
  dsimp only at hc
  rcases hr : (ClassDevice.load sys k' d.path).run.value with e | c'
  · rw [hr] at hc
    cases hc
  · rw [hr] at hc
    cases hc
    rfl

/-! ### The class -/

/-- What a class is made of that was loaded with these events: of the directories found in its own,
those that can be loaded as class devices, each as it is loaded alone. -/
structure Gathers (serial : Serial) (c : DeviceClass) (es : List Event) : Prop where
  listed : sys.backend.survey c.path = .ok (c.directory.subdirs.map (·.name))
  places : ∀ d ∈ c.directory.subdirs, d.path = c.path ++ "/" ++ d.name
  /-- In the order of the scan; they are numbered whether they can be loaded or not. -/
  devices : c.devices.reverse = (c.directory.subdirs.zipIdx serial).filterMap fun s =>
    (ClassDevice.load sys s.2 s.1.path).run.value.toOption
  /-- One for each that fails, and no other. -/
  warnings : warnings es = c.directory.subdirs.filterMap (leftOut? sys serial)
  count : c.devices.length + (Event.warnings es).length = c.directory.subdirs.length
  isSome : ∀ n, (c.device? n).isSome ↔ ∃ d ∈ c.directory.subdirs, d.name = n ∧
    ∃ x, (ClassDevice.load sys serial d.path).run.value = .ok x
  device : ∀ n x, c.device? n = some x ↔ x ∈ c.devices ∧ x.path = c.path ++ "/" ++ n

lemma opens_iff {d : Directory} : opens sys serial d = true ↔
    ∃ x, (ClassDevice.load sys serial d.path).run.value = .ok x := by
  unfold opens
  cases (ClassDevice.load sys serial d.path).run.value <;> simp [Except.toOption]

lemma warnings_load {name : String} {c : DeviceClass}
    (h : (load sys serial name).run.value = .ok c) :
    Event.warnings (load sys serial name).run.events =
      c.directory.subdirs.filterMap (leftOut? sys serial) := by
  obtain ⟨hd, -, -⟩ := exists_of_load sys serial h
  have hload : Event.warnings (Directory.load sys.backend (sys.classPath name)).run.events = [] :=
    Event.warnings_eq_nil (fun _ => Event.warning?_of_ofSnapshot)
      (Directory.load_emits sys.backend (p := fun _ => True) trivial)
  have hopened (path : String) : Event.warnings [.opened .deviceClass path] = [] := rfl
  have hloaded : ((Directory.load sys.backend (sys.classPath name)).noting
      (.classUnsupported name)).run.value = .ok c.directory :=
    (Scan.value_run_noting _ _).trans hd
  rw [load, if_neg (ne_empty_of_load sys serial h), Scan.run_bind_of_ok hloaded,
    Scan.run_noting_of_ok hd, ExceptT.run_bind_lift, Event.warnings_append, hload,
    List.nil_append, Logged.events_bind, Event.warnings_append, warnings_loadDevices]
  change _ ++ Event.warnings [.opened .deviceClass c.directory.path] = _
  rw [hopened, List.append_nil]

section

variable {name : String} {c : DeviceClass} (hw : sys.backend.WellNamed)
  (h : (load sys serial name).run.value = .ok c)

include hw h

/-- The directories of a class stand below it, by names that may be joined to its path. -/
lemma exists_of_subdirs :
    c.path = Path.normalize (sys.classPath name) ∧
      sys.backend.survey c.path = .ok (c.directory.subdirs.map (·.name)) ∧
      (c.directory.subdirs.map (·.name)).Nodup ∧
      ∀ d ∈ c.directory.subdirs, Path.IsEntry d.name ∧ d.path = Path.join c.path d.name ∧
        Path.nameOf d.path = .ok d.name := by
  obtain ⟨hd, -, -⟩ := exists_of_load sys serial h
  obtain ⟨hpath, -, hsub⟩ := Directory.exists_of_load _ hd
  have hsurvey := Directory.load_survey sys.backend (Directory.exists_name_of_load _ hd).1
  rw [hd, ← hpath] at hsurvey
  obtain ⟨hentry, hnodup⟩ := hw.of_survey hsurvey.symm
  refine ⟨hpath, hsurvey.symm, hnodup, fun d hmem => ?_⟩
  have he := hentry d.name (List.mem_map_of_mem hmem)
  have hjoin : d.path = Path.join c.path d.name := by
    rw [hsub, List.map_map] at hmem
    obtain ⟨x, -, rfl⟩ := List.mem_map.1 hmem
    rfl
  exact ⟨he, hjoin, hjoin ▸ Path.nameOf_join _ he.1⟩

/-- The class devices go by the names of the directories that do not fail. -/
lemma map_name_devices : c.devices.reverse.map (·.name) =
    (c.directory.subdirs.filter (opens sys serial)).map (·.name) := by
  obtain ⟨-, -, hdevices⟩ := exists_of_load sys serial h
  obtain ⟨-, -, -, hsub⟩ := exists_of_subdirs sys serial hw h
  rw [hdevices]
  exact map_name_members sys serial fun d hd => (hsub d hd).2.2

lemma nodup_map_name_devices : (c.devices.map (·.name)).Nodup := by
  obtain ⟨-, -, hnodup, -⟩ := exists_of_subdirs sys serial hw h
  rw [← List.nodup_reverse, ← List.map_reverse, map_name_devices sys serial hw h]
  exact hnodup.sublist (List.filter_sublist.map _)

/-- Each class device is what loading a directory of its name gives. -/
lemma exists_of_mem_devices {x : ClassDevice} (hx : x ∈ c.devices) :
    ∃ d ∈ c.directory.subdirs, d.name = x.name ∧
      ∃ k, (ClassDevice.load sys k d.path).run.value = .ok x := by
  obtain ⟨-, -, hdevices⟩ := exists_of_load sys serial h
  obtain ⟨-, -, -, hsub⟩ := exists_of_subdirs sys serial hw h
  rw [hdevices] at hx
  obtain ⟨d, hd, k, hload⟩ := mem_members sys hx
  obtain ⟨r, n, -, hn, hmade⟩ := ClassDevice.exists_of_load_eq_ok sys k hload
  have hname : d.name = n := Except.ok.inj ((hsub d hd).2.2.symm.trans hn)
  exact ⟨d, hd, by rw [hname, hmade]; rfl, k, hload⟩

lemma device?_eq_some_iff {n : String} {x : ClassDevice} :
    c.device? n = some x ↔ x ∈ c.devices ∧ x.name = n :=
  find?_eq_some_iff_of_nodup (nodup_map_name_devices sys serial hw h)

lemma isSome_device?_iff {n : String} : (c.device? n).isSome ↔
    ∃ d ∈ c.directory.subdirs, d.name = n ∧
      ∃ x, (ClassDevice.load sys serial d.path).run.value = .ok x := by
  have hmem : (c.device? n).isSome ↔ n ∈ c.devices.reverse.map (·.name) := by
    rw [device?, List.find?_isSome]
    simp
  rw [hmem, map_name_devices sys serial hw h]
  simp only [List.mem_map, List.mem_filter, opens_iff]
  exact exists_congr fun d => and_assoc.trans (and_congr_right fun _ => and_comm)

lemma length_devices :
    c.devices.length + (c.directory.subdirs.filterMap (leftOut? sys serial)).length =
      c.directory.subdirs.length := by
  have hfound : c.devices.length = (c.directory.subdirs.filter (opens sys serial)).length := by
    have hlength := congrArg List.length (map_name_devices sys serial hw h)
    rwa [List.length_map, List.length_map, List.length_reverse] at hlength
  have hfailed : (c.directory.subdirs.filterMap (leftOut? sys serial)).length =
      (c.directory.subdirs.filter fun d => !opens sys serial d).length := by
    rw [← List.countP_eq_length_filter, List.length_filterMap_eq_countP]
    exact List.countP_congr fun d _ => by rw [isSome_leftOut?]
  rw [hfound, hfailed]
  exact (List.length_eq_length_filter_add _).symm

/-- Along an absolute path the directories of a class stand where it stands, by a slash and their
names, and their paths are in normal form. -/
lemma path_of_mem_subdirs (ha : Path.isAbsolute (sys.classPath name) = true) {d : Directory}
    (hd : d ∈ c.directory.subdirs) :
    d.path = c.path ++ "/" ++ d.name ∧ Path.normalize d.path = d.path := by
  obtain ⟨hpath, -, -, hsub⟩ := exists_of_subdirs sys serial hw h
  obtain ⟨he, hjoin, -⟩ := hsub d hd
  obtain ⟨hload, -, -⟩ := exists_of_load sys serial h
  obtain ⟨-, hown, -⟩ := Directory.exists_of_load _ hload
  obtain ⟨st, hst, hrender⟩ := Path.exists_render_of_isAbsolute ha
  rw [hrender] at hpath
  have hne : st ≠ [] := by
    rintro rfl
    change Path.nameOf c.path = _ at hown
    rw [hpath] at hown
    cases hown
  have hat : d.path = Path.render (st ++ [d.name]) := by
    rw [hjoin, hpath, Path.join_render hst he]
  refine ⟨?_, ?_⟩
  · rw [hat, Path.render_concat hne, hpath]
  · rw [hat, Path.normalize_render (Path.isEntry_concat hst he)]

lemma path_of_mem_devices (ha : Path.isAbsolute (sys.classPath name) = true) {x : ClassDevice}
    (hx : x ∈ c.devices) : x.path = c.path ++ "/" ++ x.name := by
  obtain ⟨d, hd, hname, k, hload⟩ := exists_of_mem_devices sys serial hw h hx
  obtain ⟨hat, hnormal⟩ := path_of_mem_subdirs sys serial hw h ha hd
  obtain ⟨r, n, hr, -, rfl⟩ := ClassDevice.exists_of_load_eq_ok sys k hload
  calc (ClassDevice.made sys k r n).path
      = r.path := (Directory.readAll_keeps sys.backend (Directory.isListed_of_load _ hr)).2
    _ = Path.normalize d.path := (Directory.exists_of_load _ hr).1
    _ = d.path := hnormal
    _ = c.path ++ "/" ++ n := by rw [hat, hname]; rfl

lemma gathers_of_load (ha : Path.isAbsolute (sys.classPath name) = true) :
    c.Gathers sys serial (load sys serial name).run.events := by
  obtain ⟨-, -, hdevices⟩ := exists_of_load sys serial h
  obtain ⟨-, hsurvey, -, -⟩ := exists_of_subdirs sys serial hw h
  have hwarnings := warnings_load sys serial h
  refine ⟨hsurvey, fun d hd => (path_of_mem_subdirs sys serial hw h ha hd).1, ?_, hwarnings, ?_,
    fun n => isSome_device?_iff sys serial hw h, fun n x => ?_⟩
  · rw [hdevices, members, List.reverse_reverse]
  · rw [hwarnings]
    exact length_devices sys serial hw h
  · rw [device?_eq_some_iff sys serial hw h]
    refine and_congr_right fun hx => ?_
    rw [path_of_mem_devices sys serial hw h ha hx, String.append_right_inj]

end

end DeviceClass

/-- The path of a class is absolute if that of the mount is. -/
lemma Mounted.isAbsolute_classPath {mount : String} (h : Path.isAbsolute mount = true)
    (b : Backend) (name : String) : Path.isAbsolute ((ofMount mount b).classPath name) = true := by
  have hclass : Path.join (ofMount mount b).mount "class" = Path.join mount "class" :=
    Path.join_trimEnd mount "class"
  rw [classPath, hclass, Path.isAbsolute_join (Path.join_ne_empty _ _),
    Path.isAbsolute_join (Path.ne_empty_of_isAbsolute h), h]

/-- **Classes.** A class is loaded unless its name is empty or its own directory fails. It then
holds, the latest first, what loading each directory found in its own as a class device gives; for
each that fails there is one warning instead, and the others are as they were without it. Each is
found by the name of its directory and stands where that was found. -/
theorem DeviceClass.load_gathers (mount : String) (b : Backend) (hm : Path.isAbsolute mount = true)
    (hw : b.WellNamed) (serial : Serial) (name : String) :
    (∀ e, (load (.ofMount mount b) serial name).run.value = .error e ↔
      name = "" ∧ e = .invalidArgument ∨ name ≠ "" ∧
        (Directory.load b ((Mounted.ofMount mount b).classPath name)).run.value = .error e) ∧
    ∀ c, (load (.ofMount mount b) serial name).run.value = .ok c →
      c.name = name ∧ c.path = Path.normalize ((Mounted.ofMount mount b).classPath name) ∧
        c.Gathers (.ofMount mount b) serial (load (.ofMount mount b) serial name).run.events := by
  have ha := Mounted.isAbsolute_classPath hm b name
  refine ⟨fun e => ?_, fun c hc => ?_⟩
  · by_cases hname : name = ""
    · subst hname
      simp [load, eq_comm]
    · rw [value_load _ serial hname]
      simp only [hname, false_and, ne_eq, not_false_iff, true_and, false_or]
      have hb : (Mounted.ofMount mount b).backend = b := rfl
      rw [hb]
      cases (Directory.load b ((Mounted.ofMount mount b).classPath name)).run.value <;>
        simp [Except.map]
  · obtain ⟨-, hown, -⟩ := exists_of_load _ serial hc
    obtain ⟨hpath, -⟩ := exists_of_subdirs _ serial hw hc
    exact ⟨hown, hpath, gathers_of_load _ serial hw hc ha⟩

/-- The rack, taken for a class: its second slot cannot be listed. -/
theorem DeviceClass.load_rack_gathers :
    ∃ c, (load Device.rackSystem 0 "../d").run.value = .ok c ∧ c.path = "/d" ∧
      c.Gathers Device.rackSystem 0 (load Device.rackSystem 0 "../d").run.events ∧
      c.devices.map (·.path) = ["/d/c", "/d/a"] ∧
      warnings (load Device.rackSystem 0 "../d").run.events =
        [⟨.warn, "error opening class device at /d/b: read error"⟩] := by
  have hw := Device.rackBackend_wellNamed
  have hrack := load_gathers "/" Device.rackBackend (by decide) hw 0 "../d"
  have hpaths : (load Device.rackSystem 0 "../d").run.value.toOption.map
      (·.devices.map (·.path)) = some ["/d/c", "/d/a"] := by decide +kernel
  have hwarned : warnings (load Device.rackSystem 0 "../d").run.events =
      [⟨.warn, "error opening class device at /d/b: read error"⟩] := by decide +kernel
  obtain ⟨c, hc, hdevices⟩ := exists_ok_of_toOption_map hpaths
  obtain ⟨-, hpath, hgathers⟩ := hrack.2 c hc
  exact ⟨c, hc, hpath, hgathers, hdevices, hwarned⟩

end DeviceModel
