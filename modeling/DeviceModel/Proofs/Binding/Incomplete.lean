import DeviceModel.Proofs.Graph.Class
import DeviceModel.Proofs.Log.Agreement
import DeviceModel.Proofs.Snapshot.Frontier

/-!
Class devices whose directories below cannot all be read.

Such a class device is loaded all the same. What it is depends on its own directory and on what
its links lead to: two file systems that agree on the questions that are asked about these give the
same class device, up to what is populated below it. If the populating fails, it has come as far as
the first directory that cannot be read.
-/

namespace DeviceModel

open Event (queries)

namespace Directory

/-- Reading what is below a listed directory keeps its attributes as well. -/
lemma readAll_keeps_attributes (b : Backend) {d : Directory} (h : d.isListed = true) :
    (readAll b d).value.1.attributes = d.attributes := by
  cases d with
  | unread n p => cases h
  | listed n p as ls ds =>
    rw [readAll_listed]
    rfl

end Directory

namespace ClassDevice

/-- What is asked for a class device, apart from what is below its directory `d`: about the
directory itself, the buses, and the targets of the links that are followed. -/
def essentials (sys : Mounted) (path : String) (d : Directory) : List (Query × String) :=
  queries (Directory.load sys.backend path).run.events ++ queries (Bound.attendAll sys [] d.links)

/-- Two class devices that are the same but for what is below their directories. -/
structure SameUpToBelow (c c' : ClassDevice) : Prop where
  name : c'.name = c.name
  path : c'.path = c.path
  attributes : c'.directory.attributes = c.directory.attributes
  links : c'.directory.links = c.directory.links
  device : c'.device = c.device
  driver : c'.driver = c.driver

/-- What is made of one directory over two file systems that lead its links to the same objects. -/
lemma made_sameUpToBelow (sys : Mounted) {b' : Backend} {serial : Serial} {d : Directory}
    (hd : d.isListed = true) (hfollow : Bound.followAll (sys.over b') serial d.links .empty =
      Bound.followAll sys serial d.links .empty) (name : String) :
    SameUpToBelow (made sys serial d name) (made (sys.over b') serial d name) := by
  obtain ⟨hlinks, hpath⟩ := Directory.readAll_keeps sys.backend hd
  obtain ⟨hlinks', hpath'⟩ := Directory.readAll_keeps b' hd
  have hattributes := Directory.readAll_keeps_attributes sys.backend hd
  have hattributes' := Directory.readAll_keeps_attributes b' hd
  have hbound := congrArg Logged.value hfollow
  rw [Bound.followAll_empty, Bound.followAll_empty] at hbound
  exact ⟨rfl, hpath'.trans hpath.symm, hattributes'.trans hattributes.symm,
    hlinks'.trans hlinks.symm, congrArg Bound.device hbound, congrArg Bound.driver hbound⟩

/-- **Incomplete class devices.** Wherever the directory of a class device can be read, the class
device is loaded. It is the same, but for what is below its directory, over every file system that
answers alike what is asked about the directory itself, the buses and the targets of the links. And
with no more levels than the file system tells of, exactly the directories before the first that
cannot be read are populated. -/
theorem load_despite_subdirs (sys : Mounted) {path : String} {d : Directory}
    (h : (Directory.load sys.backend path).run.value = .ok d) (serial : Serial) :
    ∃ c, (load sys serial path).run.value = .ok c ∧
      c.directory = (d.readAll sys.backend).value.1 ∧
      (d.UnreadWithin sys.backend →
        Directory.Populated sys.backend c.directory.nodes (d.readAll sys.backend).value.2) ∧
      ∀ b' : Backend, sys.backend.Agrees b' (essentials sys path d) →
        ∃ c', (load (sys.over b') serial path).run.value = .ok c' ∧ SameUpToBelow c c' := by
  obtain ⟨-, name, hn⟩ := Directory.exists_name_of_load _ h
  have hmade {sys' : Mounted} (h' : (Directory.load sys'.backend path).run.value = .ok d) :
      (load sys' serial path).run.value = .ok (made sys' serial d name) := by
    rw [value_load, h', hn]
    rfl
  refine ⟨_, hmade h, rfl, fun hwithin => ?_, fun b' hagree => ?_⟩
  · obtain ⟨x, -, hread⟩ := (Directory.load_eq_ok_iff sys.backend).1 h
    exact Directory.readAll_populated hread hwithin
  · obtain ⟨hown, hlinks⟩ := Backend.agrees_append.1 hagree
    have hload : (Directory.load b' path).run = (Directory.load sys.backend path).run :=
      Directory.load_tracks sys.backend b' path hown
    have hfollow : Bound.followAll (sys.over b') serial d.links .empty =
        Bound.followAll sys serial d.links .empty := by
      refine Bound.followAll_tracks b' sys serial d.links .empty ?_
      rw [Bound.followAll_empty]
      exact hlinks
    have h' : (Directory.load b' path).run.value = .ok d := by rw [hload, h]
    exact ⟨_, hmade h', made_sameUpToBelow sys (Directory.isListed_of_load _ h) hfollow name⟩

/-! ### A card with two queues -/

/-- A card with an address and two queues, of which the second may be locked. -/
def cardBackend (locked : Bool) : Backend where
  stat _ := .ok .directory
  readDir path :=
    if path = "/c/card" then .ok { entries := [⟨"address", .file, 0o444⟩,
      ⟨"device", .symlink, 0o777⟩, ⟨"queues", .directory, 0o755⟩, ⟨"power", .directory, 0o755⟩] }
    else if path = "/c/card/queues" then .ok { entries := [⟨"rx", .directory, 0o755⟩,
      ⟨"tx", .directory, 0o755⟩] }
    else if path = "/c/card/queues/tx" ∧ locked = true then .error .readError
    else .ok { entries := [] }
  readLink _ := .ok "../../d"
  readAttr _ := .ok [0x30]
  realPath path := .ok path
  depth := 2

def cardSystem : Mounted := .ofMount "/" (cardBackend true)

/-- The directory of the card as it is read. -/
def cardDirectory : Directory := .listed "card" "/c/card"
  [⟨"address", "/c/card/address", some "0", ⟨true, false⟩⟩] [⟨"device", "/c/card/device", "/d"⟩]
  [.unread "queues" "/c/card/queues", .unread "power" "/c/card/power"]

lemma cardDirectory_unreadWithin : cardDirectory.UnreadWithin (cardBackend true) := by
  have hempty (p : String) (h : ∀ l, (cardBackend true).readDir p = .ok l → l.entries = [])
      (depth : Nat) : (cardBackend true).ListsWithin (depth + 1) p := by
    intro l hl e he
    rw [h l hl] at he
    cases he
  have hqueues : (cardBackend true).ListsWithin 2 "/c/card/queues" := by
    intro l hl e he _
    cases hl
    rcases List.mem_cons.1 he with rfl | he
    · exact hempty _ (by rintro l ⟨⟩; rfl) 0
    · rw [List.mem_singleton.1 he]
      exact hempty _ (by rintro l ⟨⟩) 0
  refine Directory.unreadWithin_listed.2 (List.forall_mem_cons.2
    ⟨Directory.unreadWithin_unread.2 hqueues, List.forall_mem_singleton.2 ?_⟩)
  exact Directory.unreadWithin_unread.2 (hempty _ (by rintro l ⟨⟩; rfl) 1)

/-- Nothing that a card is made of is asked at the queue that may be locked. -/
lemma cardBackend_agrees :
    (cardBackend true).Agrees (cardBackend false)
      (essentials cardSystem "/c/card" cardDirectory) := by
  have hasked : (.readDir, "/c/card/queues/tx") ∉
      essentials cardSystem "/c/card" cardDirectory := by
    decide +kernel
  rintro ⟨query, p⟩ hq
  cases query with
  | readDir =>
    have hp : p ≠ "/c/card/queues/tx" := by
      rintro rfl
      exact hasked hq
    simp [Backend.SameAnswer, cardBackend, hp]
  | stat | readLink | readAttr | realPath => rfl

/-- With its second queue locked, the card is what it is without the lock, and the power of the
card, which comes after that queue, is not populated. -/
theorem load_card_despite_subdirs :
    (Directory.load cardSystem.backend "/c/card").run.value = .ok cardDirectory ∧
      ∃ c, (load cardSystem 0 "/c/card").run.value = .ok c ∧
        Directory.Populated cardSystem.backend c.directory.nodes (.error .readError) ∧
        ∃ c', (load (cardSystem.over (cardBackend false)) 0 "/c/card").run.value = .ok c' ∧
          SameUpToBelow c c' := by
  have h : (Directory.load cardSystem.backend "/c/card").run.value = .ok cardDirectory := by
    rfl
  have hfails : (cardDirectory.readAll cardSystem.backend).value.2 = .error .readError := by
    rfl
  obtain ⟨c, hc, -, hpopulated, hsame⟩ := load_despite_subdirs cardSystem h 0
  have hn := hpopulated cardDirectory_unreadWithin
  rw [hfails] at hn
  exact ⟨h, c, hc, hn, hsame (cardBackend false) cardBackend_agrees⟩

end ClassDevice

end DeviceModel
