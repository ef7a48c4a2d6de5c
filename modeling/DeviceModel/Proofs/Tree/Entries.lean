import DeviceModel.Proofs.Graph.Members
import DeviceModel.Proofs.Tree.Below

/-!
What becomes of the entries of the directory of a class, in a tree that was built by edits.

A class tries the directories that its own lists, and a look-up by name goes wherever the name
leads. For a directory and for a file the two come to the same; a link to a directory is a class
device for the look-up alone.
-/

namespace DeviceModel

open DeviceModel.Path (IsName)

/-! ### Entries -/

namespace MemoryTree

variable {t : MemoryTree} {place : Place} {path name : String}

/-- In a sound tree all names are in order. -/
lemma Sound.wellNamed (ht : Sound t) : t.backend.WellNamed where
  isEntry := by
    intro path listing h e he
    obtain ⟨place, children, -, -, -, rfl⟩ := readDir_eq_ok_iff.1 h
    obtain ⟨name, -, hname⟩ := List.mem_filterMap.1 he
    obtain ⟨rfl, n, hn, -⟩ := exists_of_entry hname
    exact ht.isEntry hn e.name (by simp)
  nodup := by
    intro path listing h
    obtain ⟨place, children, -, -, hd, rfl⟩ := readDir_eq_ok_iff.1 h
    rw [List.map_filterMap]
    refine (ht.nodup hd).filterMap fun n n' m hm hm' => ?_
    obtain ⟨e, he, rfl⟩ := Option.map_eq_some_iff.1 hm
    obtain ⟨e', he', hsame⟩ := Option.map_eq_some_iff.1 hm'
    rw [← (exists_of_entry he).1, ← (exists_of_entry he').1, hsame]

/-- A file is no directory, whatever it is asked for. -/
lemma load_of_file (ht : Sound t) (hnormal : Path.normalize path = path)
    (hname : Path.nameOf path = .ok name) {listing : Listing} (h : t.readDir path = .ok listing)
    {e : Entry} (he : e ∈ listing.entries) (hkind : e.kind = .file) :
    (Directory.load t.backend (Path.join path e.name)).run.value = .error .notFound := by
  obtain ⟨place, children, hres, -, -, rfl⟩ := readDir_eq_ok_iff.1 h
  obtain ⟨name', -, hentry⟩ := List.mem_filterMap.1 he
  obtain ⟨rfl, n, hn, hsame⟩ := exists_of_entry hentry
  rw [← hnormal] at hname
  have hreach := reaches_normalize ht hres (address_ne_nil_of_nameOf hname)
  rw [hnormal] at hreach
  have hfile : ∀ target, n ≠ .link target := by
    rintro target rfl
    cases hsame.trans hkind
  -- no link stands at the entry, so the path ends there and not elsewhere
  have hat := hreach.join ht hn hfile
  obtain ⟨last, hlast⟩ := hat.exists_nameOf
  have hstat : t.backend.stat (Path.join path e.name) = .ok .file := by
    cases n with
    | directory _ | link _ => cases hsame.trans hkind
    | file content mode =>
      change t.stat _ = _
      simp [stat, hat.resolve_eq, hn, bind, Except.bind, pure, Except.pure]
  rw [Directory.value_load, Directory.value_locate _ (Path.join_ne_empty _ _), hat.normalize_eq,
    hlast, hstat]
  rfl

end MemoryTree

/-! ### Two ways to a class device -/

/-- Two class devices that differ at most in the numbers of what their links lead to. -/
structure ClassDevice.Agrees (x y : ClassDevice) : Prop where
  name : x.name = y.name
  directory : x.directory = y.directory
  device : x.device.map (·.object.path) = y.device.map (·.object.path)
  driver : x.driver.map (·.object.path) = y.driver.map (·.object.path)

namespace ClassDevice

variable (sys : Mounted)

lemma agrees_made (k k' : Serial) (d : Directory) (name : String) :
    (made sys k d name).Agrees (made sys k' d name) where
  name := rfl
  directory := rfl
  device := by
    simp only [made, Bound.joined, Option.map_map]
    rfl
  driver := by
    simp only [made, Bound.joined, Option.map_map]
    rfl

/-- What is loaded at one path agrees, whatever the numbers. -/
lemma agrees_of_load {k k' : Serial} {path : String} {x y : ClassDevice}
    (hx : (load sys k path).run.value = .ok x) (hy : (load sys k' path).run.value = .ok y) :
    x.Agrees y := by
  obtain ⟨d, name, hd, hname, rfl⟩ := exists_of_load_eq_ok sys k hx
  obtain ⟨d', name', hd', hname', rfl⟩ := exists_of_load_eq_ok sys k' hy
  obtain rfl : d = d' := Except.ok.inj (hd.symm.trans hd')
  obtain rfl : name = name' := Except.ok.inj (hname.symm.trans hname')
  exact agrees_made sys k k' d name

/-- A look-up by name goes to the path of the class, as it is written in the class. -/
lemma value_loadNamed_normalize (k : Serial) {cls name : String} (hcls : cls ≠ "")
    (hname : IsName name) :
    (loadNamed sys k cls name).run.value =
      (load sys k (Path.join (Path.normalize (sys.classPath cls)) name)).run.value := by
  have hnormal : Path.normalize (Path.join (Path.normalize (sys.classPath cls)) name) =
      Path.normalize (Path.join (sys.classPath cls) name) :=
    Path.normalize_join_normalize (Path.join_ne_empty _ _) name
  have hdirectory : Directory.load sys.backend (Path.join (sys.classPath cls) name) =
      Directory.load sys.backend (Path.join (Path.normalize (sys.classPath cls)) name) := by
    rw [← Directory.load_normalize _ (Path.join_ne_empty _ _), ← hnormal,
      Directory.load_normalize _ (Path.join_ne_empty _ _)]
  rw [value_loadNamed sys k hcls hname.1, value_load, value_load, hdirectory,
    Path.nameOf_join _ hname, Path.nameOf_join _ hname]

end ClassDevice

namespace DeviceClass

section

variable (sys : Mounted) {serial : Serial} {cls : String} {c : DeviceClass}
  (hw : sys.backend.WellNamed) (h : (load sys serial cls).run.value = .ok c)

include hw h

lemma value_loadNamed_of_load (k : Serial) {name : String} (hname : IsName name) :
    (ClassDevice.loadNamed sys k cls name).run.value =
      (ClassDevice.load sys k (Path.join c.path name)).run.value := by
  obtain ⟨hpath, -⟩ := exists_of_subdirs sys serial hw h
  rw [ClassDevice.value_loadNamed_normalize sys k (ne_empty_of_load sys serial h) hname, hpath]

/-- A class has a device just where a look-up by the name of one of its directories finds one. -/
lemma isSome_device?_iff_loadNamed (k : Serial) {name : String} (hname : IsName name) :
    (c.device? name).isSome ↔ name ∈ c.directory.subdirs.map (·.name) ∧
      ∃ y, (ClassDevice.loadNamed sys k cls name).run.value = .ok y := by
  obtain ⟨-, -, -, hsub⟩ := exists_of_subdirs sys serial hw h
  rw [isSome_device?_iff sys serial hw h, value_loadNamed_of_load sys hw h k hname,
    ClassDevice.exists_load_iff]
  constructor
  · rintro ⟨d, hd, rfl, hload⟩
    rw [ClassDevice.exists_load_iff, (hsub d hd).2.1] at hload
    exact ⟨List.mem_map_of_mem hd, hload⟩
  · rintro ⟨hmem, hload⟩
    obtain ⟨d, hd, rfl⟩ := List.mem_map.1 hmem
    rw [← (hsub d hd).2.1] at hload
    exact ⟨d, hd, rfl, (ClassDevice.exists_load_iff sys serial).2 hload⟩

lemma agrees_of_device? {k : Serial} {name : String} {x y : ClassDevice} (hname : IsName name)
    (hx : c.device? name = some x)
    (hy : (ClassDevice.loadNamed sys k cls name).run.value = .ok y) : x.Agrees y := by
  obtain ⟨-, -, -, hsub⟩ := exists_of_subdirs sys serial hw h
  obtain ⟨hmem, rfl⟩ := (device?_eq_some_iff sys serial hw h).1 hx
  obtain ⟨d, hd, hown, k', hload⟩ := exists_of_mem_devices sys serial hw h hmem
  rw [value_loadNamed_of_load sys hw h k hname, ← hown, ← (hsub d hd).2.1] at hy
  exact ClassDevice.agrees_of_load sys hload hy

end

/-- Of the entries of its directory a class knows just the directories. -/
lemma mem_subdirs_iff {sys : Mounted} (hw : sys.backend.WellNamed) {serial : Serial} {cls : String}
    {c : DeviceClass} (h : (load sys serial cls).run.value = .ok c) {listing : Listing}
    (hl : sys.backend.readDir c.path = .ok listing) {e : Entry} (he : e ∈ listing.entries) :
    e.name ∈ c.directory.subdirs.map (·.name) ↔ e.kind = .directory := by
  obtain ⟨-, hsurvey, -, -⟩ := exists_of_subdirs sys serial hw h
  obtain ⟨listing', hl', hnames⟩ := Backend.exists_of_survey hsurvey
  obtain rfl : listing = listing' := Except.ok.inj (hl.symm.trans hl')
  rw [hnames, List.mem_map]
  constructor
  · rintro ⟨e', he', hname⟩
    obtain ⟨hmem, hkind⟩ := List.mem_filter.1 he'
    obtain rfl := List.inj_on_of_nodup_map (hw.nodup _ _ hl) hmem he hname
    simpa using hkind
  · intro hkind
    exact ⟨e, List.mem_filter.2 ⟨he, by simpa using hkind⟩, rfl⟩

/-- A class has a device for an entry just if the entry is no link and a look-up by its name
finds one; the two then agree. -/
structure FindsAs (sys : Mounted) (cls : String) (c : DeviceClass) (e : Entry) : Prop where
  isSome : ∀ k, (c.device? e.name).isSome ↔ e.kind ≠ .symlink ∧
    ∃ y, (ClassDevice.loadNamed sys k cls e.name).run.value = .ok y
  agree : ∀ k x y, c.device? e.name = some x →
    (ClassDevice.loadNamed sys k cls e.name).run.value = .ok y → x.Agrees y

/-- **Entries** of the directory of a class, in a tree that was built by edits: what the class has
under their names is what a look-up by name finds, but links are left out. -/
theorem load_finds (edits : List MemoryTree.Edit) (mount : String) (serial : Serial)
    (cls : String) {c : DeviceClass} {listing : Listing}
    (h : (load (.ofMount mount (MemoryTree.empty.applyAll edits).backend) serial cls).run.value =
      .ok c)
    (hl : (MemoryTree.empty.applyAll edits).readDir c.path = .ok listing) :
    ∀ e ∈ listing.entries,
      c.FindsAs (.ofMount mount (MemoryTree.empty.applyAll edits).backend) cls e := by
  have ht := MemoryTree.sound_applyAll edits
  intro e he
  have hname : IsName e.name := (ht.wellNamed.isEntry _ _ hl e he).1
  refine ⟨fun k => ?_, fun k x y hx hy => agrees_of_device? _ ht.wellNamed h hname hx hy⟩
  rw [isSome_device?_iff_loadNamed _ ht.wellNamed h k hname, mem_subdirs_iff ht.wellNamed h hl he]
  refine and_congr_left fun hfound => ?_
  -- a directory and a link may be opened, a file never is
  have hfile : e.kind ≠ .file := by
    intro hkind
    obtain ⟨hd, -, -⟩ := exists_of_load _ serial h
    obtain ⟨hpath, hown, -⟩ := Directory.exists_of_load _ hd
    have hnormal : Path.normalize c.path = c.path := by
      rw [path, hpath, Path.normalize_idem]
    have hfails := MemoryTree.load_of_file ht hnormal hown hl he hkind
    rw [value_loadNamed_of_load _ ht.wellNamed h k hname, ClassDevice.exists_load_iff] at hfound
    obtain ⟨d, hload⟩ := hfound
    cases hload.symm.trans hfails
  rcases hkind : e.kind with _ | _ | _
  · simp
  · simp
  · exact absurd hkind hfile

/-- A class with two network cards. One is a directory, the other a link into the tree of the
devices. -/
def cardsEdits : List MemoryTree.Edit :=
  [.directory "/class/net/lo", .directory "/card", .link "/class/net/eth0" "../../card"]

def cardsSystem : Mounted := .ofMount "/" (MemoryTree.empty.applyAll cardsEdits).backend

/-- The card that is a directory is found either way. -/
theorem load_cards_finds :
    ∃ c listing, (load cardsSystem 0 "net").run.value = .ok c ∧
      cardsSystem.backend.readDir c.path = .ok listing ∧
      listing.entries.map (·.name) = ["lo", "eth0"] ∧
      (∀ e ∈ listing.entries, c.FindsAs cardsSystem "net" e) ∧
      (c.device? "lo").map (·.path) = some "/class/net/lo" := by
  have hfound : (load cardsSystem 0 "net").run.value.toOption.map
      (fun c => (c.path, (c.device? "lo").map (·.path))) =
        some ("/class/net", some "/class/net/lo") := by decide +kernel
  have hnames : (cardsSystem.backend.readDir "/class/net").toOption.map
      (·.entries.map (·.name)) = some ["lo", "eth0"] := by decide +kernel
  obtain ⟨c, hc, hseen⟩ := exists_ok_of_toOption_map hfound
  obtain ⟨hpath, hlo⟩ := Prod.mk.inj hseen
  rw [← hpath] at hnames
  obtain ⟨listing, hl, hlisted⟩ := exists_ok_of_toOption_map hnames
  have hfinds := load_finds cardsEdits "/" 0 "net" hc hl
  exact ⟨c, listing, hc, hl, hlisted, hfinds, hlo⟩

/-- The card that is a link is found by its name, but the class does not have it. -/
theorem load_cards_misses_link :
    (load cardsSystem 0 "net").run.value.toOption.map (fun c => (c.device? "eth0").isSome) =
        some false ∧
      (ClassDevice.loadNamed cardsSystem 0 "net" "eth0").run.value.toOption.map
        (fun c => (c.name, c.path)) = some ("eth0", "/class/net/eth0") := by
  decide +kernel

end DeviceClass

end DeviceModel
