import DeviceModel.Proofs.Binding.FirstLink

/-!
What loading a class device or a class comes to.

A class device can be loaded just if its directory can, and is then told from the directory and
the last name of the path. A class is told from its directory: each directory found there is
tried as a class device of its own, under a number of its own.
-/

namespace DeviceModel

/-! ### Class devices -/

/-- A path that is no more than slashes, or less, is the path of no directory. -/
lemma Directory.value_load_of_unnamed {b : Backend} {path : String} {e : Error}
    (h : Path.nameOf path = .error e) : (load b path).run.value = .error e := by
  have hnone : Path.names path = [] ∧ e = .invalidArgument := by
    unfold Path.nameOf at h
    rcases hl : (Path.names path).getLast? with _ | n
    · rw [hl] at h
      exact ⟨List.getLast?_eq_none_iff.1 hl, (Except.error.inj h).symm⟩
    · rw [hl] at h
      cases h
  obtain ⟨hnames, rfl⟩ := hnone
  rw [value_load]
  by_cases hp : path = ""
  · subst hp
    simp [locate, Except.bind]
  · have hnormal : Path.names (Path.normalize path) = [] := by
      by_contra hne
      exact Path.names_ne_nil_of_normalize hp hne hnames
    have hname : Path.nameOf (Path.normalize path) = .error .invalidArgument := by
      rw [Path.nameOf, hnormal]
      rfl
    rw [value_locate b hp, hname]
    rfl

namespace ClassDevice

/-- The class device that is made of a directory, under a name. -/
def made (sys : Mounted) (serial : Serial) (d : Directory) (name : String) : ClassDevice :=
  ⟨name, (d.readAll sys.backend).value.1,
    (Bound.joined serial (Link.firstLead (Device.load sys) .device d.links)
      (Link.firstLead (Driver.load sys) .driver d.links)).device,
    (Bound.joined serial (Link.firstLead (Device.load sys) .device d.links)
      (Link.firstLead (Driver.load sys) .driver d.links)).driver⟩

variable (sys : Mounted) (serial : Serial)

/-- **Class devices** are loaded just where a directory is. -/
theorem value_load (path : String) :
    (load sys serial path).run.value =
      (Directory.load sys.backend path).run.value.bind fun d =>
        (Path.nameOf path).map (made sys serial d) := by
  by_cases hp : path = ""
  · subst hp
    rfl
  · rcases hn : Path.nameOf path with e | n
    · -- the name is looked for first, but an unnamed directory fails with the same error
      rw [Directory.value_load_of_unnamed hn, load, if_neg hp, Scan.value_run_bind,
        Scan.value_run_noting, hn]
      rfl
    · rcases hd : (Directory.load sys.backend path).run.value with e | d
      · rw [load, if_neg hp, Scan.run_bind_of_ok (value_noting_nameOf hn), Scan.value_run_bind,
          Scan.value_run_noting, hd]
        rfl
      · rw [run_load serial hn hd, Bound.followAll_empty]
        rfl

lemma exists_of_load_eq_ok {path : String} {c : ClassDevice}
    (h : (load sys serial path).run.value = .ok c) :
    ∃ d name, (Directory.load sys.backend path).run.value = .ok d ∧
      Path.nameOf path = .ok name ∧ c = made sys serial d name := by
  rw [value_load] at h
  obtain ⟨d, hd, h⟩ := bind_eq_ok_iff.1 h
  obtain ⟨name, hn, rfl⟩ := map_eq_ok_iff.1 h
  exact ⟨d, name, hd, hn, rfl⟩

/-- The number is of no account for whether a class device can be loaded. -/
lemma exists_load_iff {path : String} :
    (∃ c, (load sys serial path).run.value = .ok c) ↔
      ∃ d, (Directory.load sys.backend path).run.value = .ok d := by
  constructor
  · rintro ⟨c, hc⟩
    obtain ⟨d, -, hd, -⟩ := exists_of_load_eq_ok sys serial hc
    exact ⟨d, hd⟩
  · rintro ⟨d, hd⟩
    obtain ⟨-, name, hn⟩ := Directory.exists_name_of_load _ hd
    rw [value_load, hd, hn]
    exact ⟨_, rfl⟩

lemma value_loadNamed {cls name : String} (hcls : cls ≠ "") (hname : name ≠ "") :
    (loadNamed sys serial cls name).run.value =
      (load sys serial (Path.join (sys.classPath cls) name)).run.value := by
  unfold loadNamed
  simp [hcls, hname]

end ClassDevice

/-! ### Classes -/

namespace DeviceClass

variable (sys : Mounted) (serial : Serial)

/-- The class devices of some directories, numbered from `serial`, the latest in front. -/
def members (ds : List Directory) : List ClassDevice :=
  ((ds.zipIdx serial).filterMap fun s =>
    (ClassDevice.load sys s.2 s.1.path).run.value.toOption).reverse

lemma value_loadDevices (ds : List Directory) (acc : List ClassDevice) :
    (loadDevices sys serial ds acc).value = members sys serial ds ++ acc := by
  induction ds generalizing serial acc with
  | nil => rfl
  | cons d ds ih =>
    rw [loadDevices, Logged.value_bind, members, List.zipIdx_cons, List.filterMap_cons]
    rcases (ClassDevice.load sys serial d.path).run.value with e | c
    · exact ih (serial + 1) acc
    · rw [Except.toOption, List.reverse_cons, List.append_assoc]
      exact ih (serial + 1) (c :: acc)

/-- **Classes** are loaded just where a directory is, whatever becomes of their devices. -/
theorem value_load {name : String} (h : name ≠ "") :
    (load sys serial name).run.value =
      (Directory.load sys.backend (sys.classPath name)).run.value.map fun d =>
        ⟨name, d, members sys serial d.subdirs⟩ := by
  rw [load, if_neg h, Scan.value_run_bind, Scan.value_run_noting]
  rcases (Directory.load sys.backend (sys.classPath name)).run.value with e | d
  · rfl
  · rw [Except.bind, Scan.value_run_bind, Scan.value_run_lift, Except.bind, value_loadDevices,
      List.append_nil]
    rfl

lemma ne_empty_of_load {name : String} {c : DeviceClass}
    (h : (load sys serial name).run.value = .ok c) : name ≠ "" := by
  rintro rfl
  simp [load] at h

lemma exists_of_load {name : String} {c : DeviceClass}
    (h : (load sys serial name).run.value = .ok c) :
    (Directory.load sys.backend (sys.classPath name)).run.value = .ok c.directory ∧
      c.name = name ∧ c.devices = members sys serial c.directory.subdirs := by
  rw [value_load sys serial (ne_empty_of_load sys serial h)] at h
  rcases hd : (Directory.load sys.backend (sys.classPath name)).run.value with e | d
  · rw [hd] at h
    cases h
  · rw [hd] at h
    cases h
    exact ⟨rfl, rfl, rfl⟩

end DeviceClass

end DeviceModel
