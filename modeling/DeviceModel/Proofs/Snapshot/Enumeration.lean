import DeviceModel.Proofs.Graph.Class
import DeviceModel.Proofs.Snapshot.Reading
import DeviceModel.Tree.Disk

/-!
The order in which the kernel enumerates a directory is of no account.

A listing holds the names that are text, in the order of their octets, so it depends on what is in
the directory alone; and with it all that is read, loaded and bound. In this order a name comes
before all others that begin with it: of the links of a class device, the one with the bare name of
its role is followed first.
-/

namespace DeviceModel

open Link (lead firstLead)

/-! ### Listings -/

lemma Dirent.entry?_eq_some_iff {e : Dirent} {x : Entry} :
    e.entry? = some x ↔
      e.name = Text.encode x.name ∧ e.kind = x.kind ∧ e.mode &&& 0o7777 = x.mode := by
  obtain ⟨name, kind, mode⟩ := x
  unfold entry?
  simp [Option.map_eq_some_iff, Text.decode?_eq_some_iff]

namespace Listing

variable {raw raw' : List Dirent}

/-- The entries of a directory whose names are text, each once, in the order of the octets. -/
structure Sorts (l : Listing) (raw : List Dirent) : Prop where
  sorted : l.entries.Pairwise fun x y => Text.encode x.name < Text.encode y.name
  mem_iff : ∀ x, x ∈ l.entries ↔ ∃ e ∈ raw,
    e.name = Text.encode x.name ∧ e.kind = x.kind ∧ e.mode &&& 0o7777 = x.mode

lemma entries_ofDirents (raw : List Dirent) :
    (ofDirents raw).entries =
      (raw.filterMap Dirent.entry?).mergeSort fun a b => Text.octetsLE a.name b.name := rfl

lemma perm_ofDirents (raw : List Dirent) :
    (ofDirents raw).entries.Perm (raw.filterMap Dirent.entry?) := by
  rw [entries_ofDirents]
  exact List.mergeSort_perm _ _

open List in
/-- The names that are text keep their octets. -/
lemma map_name_sublist (raw : List Dirent) :
    (raw.filterMap Dirent.entry?).map (Text.encode ·.name) <+ raw.map (·.name) := by
  induction raw with
  | nil => exact .slnil
  | cons e raw ih =>
    rcases he : e.entry? with _ | x
    · rw [List.filterMap_cons_none he, List.map_cons]
      exact ih.cons _
    · rw [List.filterMap_cons_some he, List.map_cons, List.map_cons,
        ← (Dirent.entry?_eq_some_iff.1 he).1]
      exact ih.cons_cons _

/-- Where no name comes twice, the order is strict. -/
lemma sorted_ofDirents (h : (raw.map (·.name)).Nodup) :
    (ofDirents raw).entries.Pairwise fun x y => Text.encode x.name < Text.encode y.name := by
  have hle : (ofDirents raw).entries.Pairwise fun x y =>
      Text.octetsLE x.name y.name = true := by
    refine List.pairwise_mergeSort (fun a b c hab hbc => ?_) (fun a b => ?_) _
    · simp only [Text.octetsLE, decide_eq_true_iff] at hab hbc ⊢
      exact List.le_trans hab hbc
    · simpa [Text.octetsLE] using List.le_total (Text.encode a.name) (Text.encode b.name)
  have hne : (ofDirents raw).entries.Pairwise fun x y =>
      Text.encode x.name ≠ Text.encode y.name := by
    rw [← List.pairwise_map (R := (· ≠ ·)) (f := fun x : Entry => Text.encode x.name)]
    exact ((perm_ofDirents raw).map _).nodup_iff.2 (h.sublist (map_name_sublist raw))
  refine (hle.and hne).imp fun {x y} hxy => ?_
  exact Std.lt_of_le_of_ne (by simpa [Text.octetsLE] using hxy.1) hxy.2

lemma sorts_ofDirents (h : (raw.map (·.name)).Nodup) : (ofDirents raw).Sorts raw where
  sorted := sorted_ofDirents h
  mem_iff := by
    intro x
    rw [(perm_ofDirents raw).mem_iff, List.mem_filterMap]
    simp only [Dirent.entry?_eq_some_iff]

/-- What is enumerated in order is listed in this order. -/
lemma ofDirents_of_sorted {es : List Entry} (h : raw.filterMap Dirent.entry? = es)
    (hs : es.Pairwise fun a b => Text.octetsLE a.name b.name = true) :
    ofDirents raw = ⟨es, raw.length - es.length⟩ := by
  subst h
  simp only [ofDirents, List.mergeSort_of_pairwise hs]

/-- **One listing**: whatever the order of the entries, they are listed alike. -/
theorem ofDirents_congr (h : raw.Perm raw') (hn : (raw.map (·.name)).Nodup) :
    ofDirents raw = ofDirents raw' := by
  have hn' : (raw'.map (·.name)).Nodup := (h.map _).nodup_iff.1 hn
  have hperm : (ofDirents raw).entries.Perm (ofDirents raw').entries :=
    (perm_ofDirents raw).trans ((h.filterMap _).trans (perm_ofDirents raw').symm)
  -- of a strict order there is only one list
  have hentries : (ofDirents raw).entries = (ofDirents raw').entries :=
    hperm.eq_of_pairwise (fun x y _ _ hxy hyx => absurd hyx (List.lt_asymm hxy))
      (sorted_ofDirents hn) (sorted_ofDirents hn')
  have hskipped : (ofDirents raw).skipped = (ofDirents raw').skipped := by
    simp only [ofDirents, h.length_eq, (h.filterMap _).length_eq]
  rcases hl : ofDirents raw with ⟨es, k⟩
  rcases hl' : ofDirents raw' with ⟨es', k'⟩
  rw [hl, hl'] at hentries hskipped
  exact congr (congrArg Listing.mk hentries) hskipped

end Listing

/-! ### File systems -/

/-- The entries of each directory as the kernel enumerates them. -/
abbrev Enumeration := String → Except Error (List Dirent)

namespace Enumeration

/-- Two enumerations of the same directories: in some order or other, the same entries, of which no
two have the same name. -/
structure Alike (f g : Enumeration) : Prop where
  error : ∀ path e, f path = .error e ↔ g path = .error e
  perm : ∀ path raw raw', f path = .ok raw → g path = .ok raw' → raw.Perm raw'
  nodup : ∀ path raw, f path = .ok raw → (raw.map (·.name)).Nodup

lemma Alike.map_ofDirents {f g : Enumeration} (h : f.Alike g) (path : String) :
    (f path).map Listing.ofDirents = (g path).map Listing.ofDirents := by
  rcases hf : f path with e | raw
  · rw [(h.error path e).1 hf]
  · rcases hg : g path with e | raw'
    · rw [(h.error path e).2 hg] at hf
      cases hf
    · exact congrArg Except.ok
        (Listing.ofDirents_congr (h.perm path raw raw' hf hg) (h.nodup path raw hf))

end Enumeration

/-- A file system that lists what is enumerated. -/
def Backend.enumerating (b : Backend) (f : Enumeration) : Backend :=
  { b with readDir := fun path => (f path).map Listing.ofDirents }

/-- **Trees on disk** list what they enumerate. -/
theorem DiskTree.backend_eq_enumerating (t : DiskTree) :
    t.backend = t.backend.enumerating fun path =>
      (t.readDir (Text.encode path)).mapError Refusal.error := by
  have hmap (r : Except Refusal (List Dirent)) :
      (r.map Listing.ofDirents).mapError Refusal.error =
        (r.mapError Refusal.error).map Listing.ofDirents := by
    cases r <;> rfl
  unfold backend Backend.enumerating
  simp only [hmap]

lemma Backend.enumerating_congr (b : Backend) {f g : Enumeration} (h : f.Alike g) :
    b.enumerating f = b.enumerating g := by
  unfold enumerating
  rw [funext h.map_ofDirents]

/-! ### The order of links -/

/-- Links in the strict order of the octets of their names. -/
def Link.Sorted (links : List Link) : Prop :=
  links.Pairwise fun k l => Text.encode k.name < Text.encode l.name

lemma Text.encode_prefix {s t : String} (h : s.toList <+: t.toList) :
    Text.encode s <+: Text.encode t := by
  obtain ⟨rest, hrest⟩ := h
  rw [encode, encode, ← hrest, List.flatMap_append]
  exact List.prefix_append _ _

/-- The link with the bare name of a role comes before all others of this role. -/
lemma Link.firstLead_of_bare {α : Type} {load : String → Scan α} {role : Role} {links : List Link}
    {l : Link} {x : α} (hs : Link.Sorted links) (hl : l ∈ links) (hname : l.name = role.word)
    (hx : (load l.target).run.value = .ok x) : firstLead load role links = some x := by
  obtain ⟨before, after, rfl⟩ := List.append_of_mem hl
  have hrole : role.word.toList <+: l.name.toList := hname ▸ List.prefix_rfl
  have hlead : lead load role l = some x := by
    rw [lead, if_pos hrole, hx]
    rfl
  -- a name that begins with the word of a role does not come before the word itself
  have hnone : ∀ k ∈ before, lead load role k = none := by
    intro k hk
    have hlt : Text.encode k.name < Text.encode l.name :=
      (List.pairwise_append.1 hs).2.2 k hk l List.mem_cons_self
    refine if_neg fun hprefix => ?_
    rw [← hname] at hprefix
    exact absurd hlt (List.not_lt.2 (Text.encode_prefix hprefix).le)
  rw [firstLead, List.findSome?_append, List.findSome?_eq_none_iff.2 hnone, Option.none_or,
    List.findSome?_cons, hlead]

namespace Directory

variable (b : Backend)

open List in
lemma MadeOf.map_name_links {d r : Directory} {es : List Entry} {base : String}
    (h : d.MadeOf b es base r) : r.links.map (·.name) <+ es.map (·.name) := by
  have hnames := List.forall₂_map_left_iff.2 (List.forall₂_map_right_iff.2
    (h.links.imp fun _ _ hk => hk.name.symm))
  rw [List.forall₂_eq_eq_eq] at hnames
  rw [← hnames]
  exact filter_sublist.map _

/-- Links stand in the order of the listing. -/
lemma sorted_links_of_read {d r : Directory} {l : Listing} {raw : List Dirent}
    (hl : b.readDir d.path = .ok l) (hs : l.Sorts raw) (h : (d.read b).run.value = .ok r) :
    Link.Sorted r.links := by
  obtain ⟨l', base, hl', -, rfl⟩ := (read_eq_ok_iff b).1 h
  obtain rfl : l = l' := Except.ok.inj (hl.symm.trans hl')
  have hnames := (madeOf_ofItems b d l.entries base).map_name_links
  have hentries : (l.entries.map (·.name)).Pairwise fun s t => Text.encode s < Text.encode t :=
    List.pairwise_map.2 hs.sorted
  have hlinks := hentries.sublist hnames
  rwa [List.pairwise_map] at hlinks

end Directory

/-- A file system that lists the names that are text in the order of their octets. -/
def Backend.Sorts (b : Backend) : Prop :=
  ∀ path l, b.readDir path = .ok l → ∃ raw, l.Sorts raw

lemma Enumeration.Alike.sorts {f g : Enumeration} (h : f.Alike g) (b : Backend) :
    (b.enumerating f).Sorts := by
  intro path l hl
  rcases hf : f path with e | raw
  · simp [Backend.enumerating, hf, Except.map] at hl
  · simp only [Backend.enumerating, hf, Except.map, Except.ok.injEq] at hl
    subst hl
    exact ⟨raw, Listing.sorts_ofDirents (h.nodup path raw hf)⟩

lemma Directory.sorted_links_of_load {b : Backend} (hs : b.Sorts) {path : String} {d : Directory}
    (h : (load b path).run.value = .ok d) : Link.Sorted d.links := by
  obtain ⟨x, -, hread⟩ := (load_eq_ok_iff b).1 h
  obtain ⟨l, -, hl, -⟩ := (read_eq_ok_iff b).1 hread
  obtain ⟨raw, hraw⟩ := hs x.path l hl
  exact sorted_links_of_read b hl hraw hread

namespace ClassDevice

variable {sys : Mounted} {serial : Serial} {path : String} {c : ClassDevice}

lemma resolved_of_load (h : (load sys serial path).run.value = .ok c) (hs : sys.backend.Sorts) :
    c.Resolved sys serial c.directory.links ∧ Link.Sorted c.directory.links := by
  obtain ⟨d, name, hd, -, rfl⟩ := exists_of_load_eq_ok sys serial h
  have hlinks : (made sys serial d name).directory.links = d.links :=
    (Directory.readAll_keeps sys.backend (Directory.isListed_of_load _ hd)).1
  rw [hlinks]
  exact ⟨resolved_of_joined rfl, Directory.sorted_links_of_load hs hd⟩

end ClassDevice

/-! ### What depends on listings -/

/-- A mounted file system that lists what is enumerated. -/
def Mounted.enumerating (sys : Mounted) (f : Enumeration) : Mounted :=
  { sys with backend := sys.backend.enumerating f }

/-- The ends of a binding that links lead to: a link with the bare name of a role counts before all
others that begin with it. -/
structure ClassDevice.PrefersBare (sys : Mounted) (serial : Serial) (c : ClassDevice) : Prop where
  device : ∀ l ∈ c.directory.links, l.name = "device" → ∀ x,
    (Device.load sys l.target).run.value = .ok x →
      c.device = some ⟨serial, { x with driver := c.driver.map (·.serial) }⟩
  driver : ∀ l ∈ c.directory.links, l.name = "driver" → ∀ x,
    (Driver.load sys l.target).run.value = .ok x →
      c.driver = some ⟨serial, { x with device := c.device.map (·.serial) }⟩

lemma ClassDevice.prefersBare_of_load {sys : Mounted} (hs : sys.backend.Sorts) {serial : Serial}
    {path : String} {c : ClassDevice} (h : (load sys serial path).run.value = .ok c) :
    c.PrefersBare sys serial := by
  obtain ⟨hresolved, hsorted⟩ := resolved_of_load h hs
  refine ⟨fun l hl hname x hx => ?_, fun l hl hname x hx => ?_⟩
  · have hbare : l.name = Role.device.word := hname
    rw [hresolved.device, Link.firstLead_of_bare hsorted hl hbare hx]
    rfl
  · have hbare : l.name = Role.driver.word := hname
    rw [hresolved.driver, Link.firstLead_of_bare hsorted hl hbare hx]
    rfl

/-- **Enumeration**: file systems that enumerate the same entries in different orders list the
same: the names that are text, each once and in the order of their octets. So what is read, loaded
and bound does not depend on the order, and the links with the bare names `device` and `driver`
count before all others that begin with them. -/
theorem enumeration_order (sys : Mounted) {f g : Enumeration} (h : f.Alike g) :
    (∀ path raw, f path = .ok raw → ∃ l, l.Sorts raw ∧
      (sys.enumerating f).backend.readDir path = .ok l ∧
        (sys.enumerating g).backend.readDir path = .ok l) ∧
    (∀ d : Directory, d.read (sys.enumerating f).backend = d.read (sys.enumerating g).backend) ∧
    (∀ path, Device.loadTree (sys.enumerating f) path = Device.loadTree (sys.enumerating g) path) ∧
    (∀ serial name,
      DeviceClass.load (sys.enumerating f) serial name =
        DeviceClass.load (sys.enumerating g) serial name) ∧
    ∀ serial path,
      ClassDevice.load (sys.enumerating f) serial path =
        ClassDevice.load (sys.enumerating g) serial path ∧
      ∀ c, (ClassDevice.load (sys.enumerating f) serial path).run.value = .ok c →
        c.PrefersBare (sys.enumerating f) serial := by
  have hbackend : sys.enumerating f = sys.enumerating g :=
    congrArg (Mounted.mk sys.mount) (sys.backend.enumerating_congr h)
  have hlist (path : String) (raw : List Dirent) (hf : f path = .ok raw) :
      (sys.enumerating f).backend.readDir path = .ok (Listing.ofDirents raw) := by
    simp [Mounted.enumerating, Backend.enumerating, hf, Except.map]
  refine ⟨fun path raw hf => ?_, fun d => ?_, fun path => ?_, fun serial name => ?_,
    fun serial path => ⟨?_, fun c hc => ClassDevice.prefersBare_of_load (h.sorts _) hc⟩⟩
  · refine ⟨_, Listing.sorts_ofDirents (h.nodup path raw hf), hlist path raw hf, ?_⟩
    rw [← hbackend]
    exact hlist path raw hf
  all_goals rw [hbackend]

/-- A hub with two links to devices, and a file whose name is no text. -/
def hubEntries : List Dirent :=
  [⟨Text.encode "device", .symlink, 0o777⟩, ⟨Text.encode "device2", .symlink, 0o777⟩,
    ⟨[0xff], .file, 0o644⟩]

def hubEnumeration (entries : List Dirent) : Enumeration := fun path =>
  .ok (if path = "/c/hub" then entries else [])

def hubBackend : Backend where
  stat _ := .ok .directory
  readDir path := .ok (if path = "/c/hub" then
    ⟨[⟨"device", .symlink, 0o777⟩, ⟨"device2", .symlink, 0o777⟩], 1⟩ else ⟨[], 0⟩)
  readLink path := .ok (if path = "/c/hub/device" then "/d" else "/e")
  readAttr _ := .error .notFound
  realPath path := .ok path
  depth := 2

def hubSystem : Mounted := .ofMount "/" hubBackend

lemma hub_alike : (hubEnumeration hubEntries).Alike (hubEnumeration hubEntries.reverse) := by
  refine ⟨fun path e => ?_, fun path raw raw' h h' => ?_, fun path raw h => ?_⟩
  · simp [hubEnumeration]
  · cases h
    cases h'
    split
    · exact (List.reverse_perm _).symm
    · exact .refl _
  · cases h
    split <;> decide

lemma hub_enumerating : hubSystem.enumerating (hubEnumeration hubEntries) = hubSystem := by
  have hlist : Listing.ofDirents hubEntries =
      ⟨[⟨"device", .symlink, 0o777⟩, ⟨"device2", .symlink, 0o777⟩], 1⟩ :=
    Listing.ofDirents_of_sorted (by decide +kernel) (by decide +kernel)
  have hempty : Listing.ofDirents [] = ⟨[], 0⟩ := Listing.ofDirents_of_sorted rfl .nil
  have hdir (path : String) :
      (hubEnumeration hubEntries path).map Listing.ofDirents = hubBackend.readDir path := by
    by_cases hp : path = "/c/hub"
    · simp [hubEnumeration, hubBackend, hp, Except.map, hlist]
    · simp [hubEnumeration, hubBackend, hp, Except.map, hempty]
  unfold Mounted.enumerating Backend.enumerating
  simp only [hubSystem, Mounted.ofMount, hdir]

/-- What is found in the hub. -/
def hubDirectory : Directory :=
  .listed "hub" "/c/hub" [] [⟨"device", "/c/hub/device", "/d"⟩, ⟨"device2", "/c/hub/device2", "/e"⟩]
    []

theorem enumeration_order_hub :
    ∃ c, (ClassDevice.load hubSystem 0 "/c/hub").run.value = .ok c ∧
      (ClassDevice.load (hubSystem.enumerating (hubEnumeration hubEntries.reverse)) 0
        "/c/hub").run.value = .ok c ∧
      c.PrefersBare hubSystem 0 ∧ c.device.map (·.object.path) = some "/d" := by
  obtain ⟨-, -, -, -, hclass⟩ := enumeration_order hubSystem hub_alike
  obtain ⟨hsame, hbare⟩ := hclass 0 "/c/hub"
  rw [hub_enumerating] at hsame hbare
  have hdir : (Directory.load hubSystem.backend "/c/hub").run.value = .ok hubDirectory := by
    rfl
  have hname : Path.nameOf "/c/hub" = .ok "hub" := by
    rfl
  have hc : (ClassDevice.load hubSystem 0 "/c/hub").run.value =
      .ok (ClassDevice.made hubSystem 0 hubDirectory "hub") := by
    rw [ClassDevice.value_load, hdir, Except.bind, hname]
    rfl
  exact ⟨_, hc, hsame ▸ hc, hbare _ hc, by rfl⟩

end DeviceModel
