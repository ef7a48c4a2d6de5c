import DeviceModel.Proofs.Graph.Class
import DeviceModel.Proofs.Graph.Lookup
import DeviceModel.Proofs.Path.Spelling
import DeviceModel.Tree.Memory

/-!
By which name an object goes, and whether its path ends in that name.

Devices and drivers are named after their directories, so theirs does however their paths were
spelled. A class device is named after the path that was asked for, and a class by the name that
was asked for: theirs does just if an entry of a directory may have that name.
-/

namespace DeviceModel

open DeviceModel.Path (IsEntry)

/-- The name stands at the end of the path of a directory and is the directory's own. -/
structure Directory.Bears (d : Directory) (name : String) : Prop where
  path : Path.nameOf d.path = .ok name
  own : d.name = name

/-- A directory bears a name if an entry may have it, and along an absolute path bears no other.
A path that is not absolute may be in normal form and still end in `.` or `..`. -/
structure Directory.BearsEntry (d : Directory) (absolute : Bool) (name : String) : Prop where
  bears : IsEntry name → d.Bears name
  isEntry : absolute = true → d.Bears name → IsEntry name

namespace Directory

variable {b : Backend} {path name : String} {d : Directory}

/-- A loaded directory has the name at the end of its path. -/
lemma bears_of_load (h : (load b path).run.value = .ok d) : d.Bears d.name :=
  ⟨(exists_of_load b h).2.1, rfl⟩

lemma Bears.eq {n : String} (h : d.Bears name) (h' : Path.nameOf d.path = .ok n) : n = name :=
  Except.ok.inj (h'.symm.trans h.path)

/-- Reading what is below a listed directory leaves it its name. -/
lemma bears_readAll_iff (hd : d.isListed = true) :
    (readAll b d).value.1.Bears name ↔ d.Bears name := by
  cases d with
  | unread n p => cases hd
  | listed n p as ls ds =>
    rw [readAll_listed]
    exact ⟨fun h => ⟨h.path, h.own⟩, fun h => ⟨h.path, h.own⟩⟩

/-- A name at the end of the path that was asked for, if an entry may have it. -/
lemma bearsEntry_of_load (h : (load b path).run.value = .ok d)
    (hn : IsEntry name → Path.nameOf path = .ok name) :
    d.BearsEntry (Path.isAbsolute path) name := by
  have hpath := (exists_of_load b h).1
  have hown := bears_of_load h
  refine ⟨fun hentry => ?_, fun habs hbears => ?_⟩
  · have hend := Path.nameOf_normalize (hn hentry) hentry
    rw [← hpath] at hend
    exact ⟨hend, (hown.eq hend).symm⟩
  · have hend := hbears.path
    rw [hpath] at hend
    exact Path.isEntry_of_nameOf_normalize habs hend

end Directory

namespace Device

variable (sys : Mounted) {path : String} {d : Device}

lemma bears_of_loadOn (buses : BusList) (h : (loadOn sys buses path).run.value = .ok d) :
    d.directory.Bears d.busId := by
  obtain ⟨-, -, hpath, hname, -⟩ := exists_of_loadOn sys buses (ne_empty_of_loadOn sys buses h) h
  rw [← hpath] at hname
  exact ⟨hname, rfl⟩

lemma bears_of_load (h : (load sys path).run.value = .ok d) : d.directory.Bears d.busId := by
  rw [value_load] at h
  exact bears_of_loadOn sys _ h

lemma bears_of_loadTree {root : Device} (h : (loadTree sys path).run.value = .ok root) :
    ∀ d ∈ root.nodes, d.directory.Bears d.busId := by
  rw [value_loadTree] at h
  intro d hd
  have halone := bears_of_loadOn sys _ (opened_of_loadTreeOn sys _ h d hd).again
  exact ⟨halone.path, rfl⟩

end Device

lemma Driver.bears_of_load {sys : Mounted} {path : String} {d : Driver}
    (h : (load sys path).run.value = .ok d) : d.directory.Bears d.name := by
  rw [value_load] at h
  obtain ⟨r, hr, rfl⟩ := map_eq_ok_iff.1 h
  exact Directory.bears_of_load hr

namespace ClassDevice

/-- A class device goes by the name at the end of the path that was asked for. Its directory goes
by the name at the end of its own path, and that is the same if an entry may have the name. -/
structure NamedBy (c : ClassDevice) (path : String) : Prop where
  name : Path.nameOf path = .ok c.name
  directory : c.directory.Bears c.directory.name
  entry : c.directory.BearsEntry (Path.isAbsolute path) c.name

variable {sys : Mounted} {serial : Serial} {c : ClassDevice}

lemma namedBy_of_load {path : String} (h : (load sys serial path).run.value = .ok c) :
    c.NamedBy path := by
  obtain ⟨d, name, hd, hn, rfl⟩ := exists_of_load_eq_ok sys serial h
  have hlisted := Directory.isListed_of_load _ hd
  have hentry := Directory.bearsEntry_of_load hd fun _ => hn
  have hown : (d.readAll sys.backend).value.1.Bears d.name :=
    (Directory.bears_readAll_iff hlisted).2 (Directory.bears_of_load hd)
  refine ⟨hn, ⟨hown.own ▸ hown.path, rfl⟩, fun he => ?_, fun habs hbears => ?_⟩
  · exact (Directory.bears_readAll_iff hlisted).2 (hentry.bears he)
  · exact hentry.isEntry habs ((Directory.bears_readAll_iff hlisted).1 hbears)

lemma namedBy_of_loadNamed {cls name : String}
    (h : (loadNamed sys serial cls name).run.value = .ok c) :
    c.NamedBy (Path.join (sys.classPath cls) name) := by
  by_cases hempty : cls = "" ∨ name = ""
  · simp [loadNamed, hempty] at h
  · obtain ⟨hcls, hname⟩ := not_or.1 hempty
    rw [value_loadNamed sys serial hcls hname] at h
    exact namedBy_of_load h

end ClassDevice

namespace DeviceClass

/-- A class goes by the name that was asked for. Its directory goes by the name at the end of its
own path, and that is the same if an entry may have the name. -/
structure NamedBy (sys : Mounted) (c : DeviceClass) (asked : String) : Prop where
  name : c.name = asked
  directory : c.directory.Bears c.directory.name
  entry : c.directory.BearsEntry (Path.isAbsolute (sys.classPath asked)) asked

lemma namedBy_of_load {sys : Mounted} {serial : Serial} {name : String} {c : DeviceClass}
    (h : (load sys serial name).run.value = .ok c) : c.NamedBy sys name := by
  obtain ⟨hd, hname, -⟩ := exists_of_load sys serial h
  exact ⟨hname, Directory.bears_of_load hd,
    Directory.bearsEntry_of_load hd fun he => Path.nameOf_join _ he.1⟩

end DeviceClass

/-- **Names.** A loaded device and a loaded driver go by the name at the end of their own path,
however the path that was asked for is spelled, and so does each device of a tree. A class device
and a class go by what was asked for, which along an absolute path is the name at the end of their
own path just if an entry may have it. -/
theorem Mounted.loaded_bear_names (sys : Mounted) (serial : Serial) :
    (∀ path d, (Device.load sys path).run.value = .ok d → d.directory.Bears d.busId) ∧
    (∀ path root, (Device.loadTree sys path).run.value = .ok root →
      ∀ d ∈ root.nodes, d.directory.Bears d.busId) ∧
    (∀ path d, (Driver.load sys path).run.value = .ok d → d.directory.Bears d.name) ∧
    (∀ path c, (ClassDevice.load sys serial path).run.value = .ok c → c.NamedBy path) ∧
    (∀ cls name c, (ClassDevice.loadNamed sys serial cls name).run.value = .ok c →
      c.NamedBy (Path.join (sys.classPath cls) name)) ∧
    ∀ name c, (DeviceClass.load sys serial name).run.value = .ok c → c.NamedBy sys name := by
  refine ⟨fun path d h => ?_, fun path root h => ?_, fun path d h => ?_, fun path c h => ?_,
    fun cls name c h => ?_, fun name c h => ?_⟩
  · exact Device.bears_of_load sys h
  · exact Device.bears_of_loadTree sys h
  · exact Driver.bears_of_load h
  · exact ClassDevice.namedBy_of_load h
  · exact ClassDevice.namedBy_of_loadNamed h
  · exact DeviceClass.namedBy_of_load h

/-- A class with one network card in it. -/
def plainNet : Mounted :=
  .ofMount "/sys" (MemoryTree.empty.applyAll [.directory "/sys/class/net/eth0"]).backend

/-- Slashes too many, and a `.` that is not the last name, do no harm. -/
theorem plainNet_bears_names :
    (∃ d, (Device.load plainNet "/sys/class/net/./eth0/.").run.value = .ok d ∧
      d.directory.Bears "eth0") ∧
    ∃ c, (ClassDevice.loadNamed plainNet 0 "./net/" "//eth0/").run.value = .ok c ∧
      c.name = "eth0" ∧ c.directory.Bears "eth0" := by
  obtain ⟨hdevice, -, -, -, hnamed, -⟩ := plainNet.loaded_bear_names 0
  have hbusId : (Device.load plainNet "/sys/class/net/./eth0/.").run.value.toOption.map
      (·.busId) = some "eth0" := by decide +kernel
  have hname : (ClassDevice.loadNamed plainNet 0 "./net/" "//eth0/").run.value.toOption.map
      (·.name) = some "eth0" := by decide +kernel
  obtain ⟨d, hd, hid⟩ := exists_ok_of_toOption_map hbusId
  obtain ⟨c, hc, heth⟩ := exists_ok_of_toOption_map hname
  have hentry : IsEntry c.name := by
    rw [heth]
    simp [IsEntry, Path.IsName]
  have hbears := (hnamed _ _ c hc).entry.bears hentry
  exact ⟨⟨d, hd, hid ▸ hdevice _ d hd⟩, c, hc, heth, heth ▸ hbears⟩

/-- Where the last name is `.`, a class device is called by it, and where a slash comes last, a
class keeps the slash; but the directories of the two are `eth0` and `net`. -/
theorem plainNet_names_differ :
    (ClassDevice.load plainNet 0 "/sys/class/net/eth0/.").run.value.toOption.map
      (fun c => (c.name, c.path, c.directory.name)) =
        some (".", "/sys/class/net/eth0", "eth0") ∧
    (DeviceClass.load plainNet 0 "net/").run.value.toOption.map
      (fun c => (c.name, c.path, c.directory.name)) =
        some ("net/", "/sys/class/net", "net") := by
  decide +kernel

end DeviceModel
