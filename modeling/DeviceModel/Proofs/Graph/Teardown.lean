import Mathlib.Data.List.Perm.Basic
import DeviceModel.Proofs.Graph.Lookup
import DeviceModel.Proofs.Graph.Unwind
import DeviceModel.Proofs.Session.Effect

/-!
What is released of a tree of devices that was built.

The trees of the children go first, one after another, then the node, its directory and the
directories that its directory lists. So each device is released once and after all below it, and
each directory but that of the root twice: for its own device, and for the parent that lists it.
-/

namespace DeviceModel

open Event (released)
open scoped List

namespace Directory

/-- With nothing read below it, a directory is released before the places that it lists. -/
lemma closing_of_unread {d : Directory} {names : List String} {place : String → String}
    (h : d.subdirs = names.map fun n => unread n (place n)) :
    d.closing =
      .closed .directory d.path :: names.map fun n => Event.closed .directory (place n) := by
  have hall (ns : List String) : closingAll (ns.map fun n => unread n (place n)) =
      ns.map fun n => Event.closed .directory (place n) := by
    induction ns with
    | nil => rfl
    | cons n ns ih =>
      rw [List.map_cons, closingAll_cons, ih]
      rfl
  rw [closing_eq, h, hall]

end Directory

namespace Device

/-! ### One node -/

/-- How a node of a tree is released: the trees of its children one after another, then the node
itself, its directory, and the directories listed there. -/
def ReleasedAt (b : Backend) (x : Device) : Prop :=
  ∃ names, b.survey x.path = .ok names ∧
    x.children.map path = names.reverse.map (fun n => x.path ++ "/" ++ n) ∧
    x.directory.subdirs = names.map (fun n => .unread n (x.path ++ "/" ++ n)) ∧
    x.closing = x.children.flatMap closing ++
      [.closed .device x.path, .closed .directory x.path] ++
        names.map fun n => .closed .directory (x.path ++ "/" ++ n)

variable {b : Backend}

/-- The directories that a node releases by itself: its own, and those of its children. -/
lemma ReleasedAt.released_directory {x : Device} (h : x.ReleasedAt b) :
    ∃ ps, ps.Perm (x.children.map path) ∧ released .directory x.closing =
      x.children.flatMap (fun c => released .directory c.closing) ++ x.path :: ps := by
  obtain ⟨names, -, hchildren, -, hclosing⟩ := h
  refine ⟨names.map fun n => x.path ++ "/" ++ n, ?_, ?_⟩
  · rw [hchildren, List.map_reverse]
    exact (List.reverse_perm _).symm
  · have hbelow : released .directory (x.children.flatMap closing) =
        x.children.flatMap fun c => released .directory c.closing := List.filterMap_flatMap
    have hlisted : released .directory
        (names.map fun n => Event.closed .directory (x.path ++ "/" ++ n)) =
          names.map fun n => x.path ++ "/" ++ n := by
      rw [released, List.filterMap_map]
      exact congrFun (List.filterMap_eq_map (f := fun n => x.path ++ "/" ++ n)) names
    rw [hclosing, Event.released_append, Event.released_append, hbelow, hlisted,
      List.append_assoc]
    rfl

/-- Only devices and directories are released. -/
lemma ReleasedAt.kinds {x : Device} (h : x.ReleasedAt b) {e : Event} (he : e ∈ x.closing) :
    (∃ c ∈ x.children, e ∈ c.closing) ∨ ∃ p, e = .closed .device p ∨ e = .closed .directory p := by
  obtain ⟨names, -, -, -, hclosing⟩ := h
  rw [hclosing, List.append_assoc, List.mem_append, List.mem_flatMap] at he
  rcases he with he | he
  · exact .inl he
  · right
    simp only [List.cons_append, List.nil_append, List.mem_cons, List.mem_map] at he
    rcases he with rfl | rfl | ⟨n, -, rfl⟩
    · exact ⟨_, .inl rfl⟩
    · exact ⟨_, .inr rfl⟩
    · exact ⟨_, .inr rfl⟩

/-! ### All nodes -/

variable {d x : Device}

lemma mem_nodes_self (d : Device) : d ∈ d.nodes := by
  rw [nodes_eq]
  exact List.mem_cons_self

lemma mem_nodes_of_child {c : Device} (hc : c ∈ d.children) (hx : x ∈ c.nodes) : x ∈ d.nodes := by
  rw [nodes_eq]
  exact List.mem_cons_of_mem _ (List.mem_flatMap.2 ⟨c, hc, hx⟩)

/-- A node is released in one piece. -/
lemma infix_closing (h : x ∈ d.nodes) : x.closing <:+: d.closing := by
  induction d using Device.induction with
  | step d ih =>
    rw [nodes_eq, List.mem_cons, List.mem_flatMap] at h
    rcases h with rfl | ⟨c, hc, hx⟩
    · exact List.infix_rfl
    · have hall : c.closing <:+: closingAll d.children := by
        rw [closingAll_eq_flatMap]
        exact List.infix_of_mem_flatten (List.mem_map_of_mem hc)
      rw [closing_eq d]
      exact (ih c hc hx).trans (hall.trans (List.prefix_append _ _).isInfix)

/-- Each device of a tree is released once. -/
lemma released_device_perm (d : Device) : (released .device d.closing).Perm (d.nodes.map path) := by
  induction d using Device.induction with
  | step d ih =>
    have hbelow : released .device (closingAll d.children) =
        d.children.flatMap fun c => released .device c.closing := by
      rw [closingAll_eq_flatMap]
      exact List.filterMap_flatMap
    rw [released_closing, hbelow, nodes_eq, List.map_cons, List.map_flatMap]
    exact (List.perm_append_singleton _ _).trans (.cons _ (List.Perm.flatMap_left _ ih))

/-- What stands below a device is released before it. -/
lemma sublist_released {c : Device} (hx : x ∈ d.nodes) (hc : c ∈ x.children) {y : Device}
    (hy : y ∈ c.nodes) : [y.path, x.path].Sublist (released .device d.closing) := by
  have hinfix : (released .device x.closing).Sublist (released .device d.closing) :=
    ((infix_closing hx).filterMap _).sublist
  have hmem : y.path ∈ released .device (closingAll x.children) := by
    have hbelow : y.path ∈ released .device c.closing :=
      (released_device_perm c).mem_iff.2 (List.mem_map_of_mem hy)
    rw [closingAll_eq_flatMap, released, List.filterMap_flatMap]
    exact List.mem_flatMap.2 ⟨c, hc, hbelow⟩
  refine List.Sublist.trans ?_ hinfix
  rw [released_closing]
  exact (List.singleton_sublist.2 hmem).append (List.Sublist.refl [x.path])

/-- With the root counted once more, each directory of a tree is released twice. -/
lemma released_directory_perm (h : ∀ x ∈ d.nodes, x.ReleasedAt b) :
    (d.path :: released .directory d.closing).Perm (d.nodes.map path ++ d.nodes.map path) := by
  induction d using Device.induction with
  | step d ih =>
    obtain ⟨ps, hps, hreleased⟩ := (h d d.mem_nodes_self).released_directory
    have hchild (c : Device) (hc : c ∈ d.children) :
        (c.path :: released .directory c.closing).Perm
          (c.nodes.map path ++ c.nodes.map path) :=
      ih c hc fun x hx => h x (mem_nodes_of_child hc hx)
    -- the entry of a child goes with what the child releases
    have hbelow : (d.children.flatMap (fun c => released .directory c.closing) ++ ps).Perm
        ((d.children.flatMap nodes).map path ++ (d.children.flatMap nodes).map path) := by
      calc d.children.flatMap (fun c => released .directory c.closing) ++ ps
        _ ~ d.children.map path ++ d.children.flatMap fun c => released .directory c.closing :=
          (hps.append_left _).trans List.perm_append_comm
        _ ~ d.children.flatMap fun c => c.path :: released .directory c.closing :=
          List.map_append_flatMap_perm _ _ _
        _ ~ d.children.flatMap fun c => c.nodes.map path ++ c.nodes.map path :=
          List.Perm.flatMap_left _ hchild
        _ ~ d.children.flatMap (fun c => c.nodes.map path) ++
            d.children.flatMap fun c => c.nodes.map path :=
          (List.flatMap_append_perm _ _ _).symm
        _ = (d.children.flatMap nodes).map path ++ (d.children.flatMap nodes).map path := by
          rw [List.map_flatMap]
    rw [hreleased, nodes_eq, List.map_cons, List.cons_append]
    refine .cons _ ?_
    calc d.children.flatMap (fun c => released .directory c.closing) ++ d.path :: ps
      _ ~ d.path :: (d.children.flatMap (fun c => released .directory c.closing) ++ ps) :=
        List.perm_middle
      _ ~ d.path :: ((d.children.flatMap nodes).map path ++ (d.children.flatMap nodes).map path) :=
        hbelow.cons _
      _ ~ (d.children.flatMap nodes).map path ++ d.path :: (d.children.flatMap nodes).map path :=
        List.perm_middle.symm

lemma length_released_directory (h : ∀ x ∈ d.nodes, x.ReleasedAt b) :
    (released .directory d.closing).length = 2 * (d.descendants + 1) - 1 := by
  have hlength := (released_directory_perm h).length_eq
  rw [List.length_cons, List.length_append, List.length_map, length_nodes] at hlength
  omega

lemma count_released_directory (h : ∀ x ∈ d.nodes, x.ReleasedAt b)
    (hnodup : (d.nodes.map path).Nodup) (p : String) :
    (released .directory d.closing).count p =
      if p = d.path then 1 else if p ∈ d.nodes.map path then 2 else 0 := by
  have hcount := (released_directory_perm h).count_eq p
  have honce : (d.nodes.map path).count p = if p ∈ d.nodes.map path then 1 else 0 := hnodup.count
  have hmem : d.path ∈ d.nodes.map path := List.mem_map_of_mem d.mem_nodes_self
  rw [List.count_cons, List.count_append, honce] at hcount
  by_cases hr : p = d.path
  · subst hr
    simp only [hmem, if_true, beq_self_eq_true] at hcount ⊢
    omega
  · simp only [hr, if_false, beq_iff_eq, Ne.symm hr, add_zero] at hcount ⊢
    split at hcount <;> simp_all

/-- Nothing but devices and directories is released. -/
lemma closing_kinds (h : ∀ x ∈ d.nodes, x.ReleasedAt b) :
    ∀ e ∈ d.closing, ∃ p, e = .closed .device p ∨ e = .closed .directory p := by
  induction d using Device.induction with
  | step d ih =>
    intro e he
    rcases (h d d.mem_nodes_self).kinds he with ⟨c, hc, he⟩ | hp
    · exact ih c hc (fun x hx => h x (mem_nodes_of_child hc hx)) e he
    · exact hp

/-! ### A tree that was loaded -/

/-- The line in the log that the release of an object leaves. -/
def closeRecord (o : Object) : LogRecord := ⟨.trace, s!"close {o.1.word} {o.2}"⟩

/-- How a tree of devices is released. -/
structure TornDown (b : Backend) (root : Device) : Prop where
  node : ∀ x ∈ root.nodes, x.ReleasedAt b
  /-- Each device is released once. -/
  devices : (released .device root.closing).Perm (root.nodes.map path)
  nodup : (root.nodes.map path).Nodup
  /-- A device is released after all that stand below it, in the tree and by their paths. -/
  below : ∀ x ∈ root.nodes, ∀ c ∈ x.children, ∀ y ∈ c.nodes,
    [y.path, x.path].Sublist (released .device root.closing)
  order : (released .device root.closing).Pairwise fun p q => ¬ Path.names p <+: Path.names q
  length_devices : (released .device root.closing).length = root.descendants + 1
  length_directories :
    (released .directory root.closing).length = 2 * (root.descendants + 1) - 1
  /-- The directory of the root is released once, and that of any other node twice. -/
  directories : ∀ p, (released .directory root.closing).count p =
    if p = root.path then 1 else if p ∈ root.nodes.map path then 2 else 0
  /-- Nothing else is released, and each release leaves one line in the log. -/
  kinds : ∀ e ∈ root.closing, ∃ p, e = .closed .device p ∨ e = .closed .directory p
  records : root.closing.filterMap Event.record? =
    (root.closing.filterMap Event.closed?).map closeRecord
  /-- This is what happens when the last owner of the tree lets it go. -/
  release : ∀ (s : Session) h serial, s.held? h = some (.device ⟨serial, root⟩) →
    (s.dropped h).living.kept .device serial = false → (s.release h).events = root.closing

variable (sys : Mounted) (buses : BusList)

/-- The place of a node has names, all of them names of entries. -/
lemma exists_render_of_mem_nodes (hw : sys.backend.WellNamed) {depth : Nat} {path : String}
    (h : Path.isAbsolute path = true) {root : Device}
    (hroot : (loadTreeOn sys buses depth path).run.value = .ok root) {x : Device}
    (hx : x ∈ root.nodes) : ∃ st, st ≠ [] ∧ (∀ n ∈ st, Path.IsEntry n) ∧
      x.path = Path.render st := by
  obtain ⟨-, hname, -, hperm⟩ := loadTreeOn_mirrors sys buses hw h hroot
  obtain ⟨st, hst, hp⟩ := Path.exists_render_of_isAbsolute h
  have hne : st ≠ [] := by
    rintro rfl
    rw [hp, Path.nameOf_root] at hname
    cases hname
  have hmem : x.path ∈ sys.backend.preorder depth (Path.render st) :=
    hp ▸ hperm.mem_iff.1 (List.mem_map_of_mem hx)
  obtain ⟨ext, hext, hpath⟩ := Backend.exists_of_mem_preorder hw hst hmem
  exact ⟨st ++ ext, by simp [hne], hext, hpath⟩

/-- The directory of a node is as it was when it was opened: nothing below it has been read. -/
lemma releasedAt_of_loadTreeOn (hw : sys.backend.WellNamed) {depth : Nat} {path : String}
    (h : Path.isAbsolute path = true) {root : Device}
    (hroot : (loadTreeOn sys buses depth path).run.value = .ok root) {x : Device}
    (hx : x ∈ root.nodes) : x.ReleasedAt sys.backend := by
  obtain ⟨-, -, hmirrors, -⟩ := loadTreeOn_mirrors sys buses hw h hroot
  obtain ⟨⟨names, hs, -, hchildren⟩, -⟩ := hmirrors x hx
  obtain ⟨st, hne, hst, hpath⟩ := exists_render_of_mem_nodes sys buses hw h hroot hx
  have hnormal : Path.normalize x.path = x.path := by rw [hpath, Path.normalize_render hst]
  have hopened := (opened_of_loadTreeOn sys buses hroot x hx).again
  have hpx : x.path ≠ "" := ne_empty_of_loadOn sys buses hopened
  have hload : (Directory.load sys.backend x.path).run.value = .ok x.directory :=
    load_of_loadOn (d := x.alone) hopened
  have hsurvey := Directory.load_survey sys.backend hpx
  rw [hload, hnormal, hs] at hsurvey
  have hnames : x.directory.subdirs.map (·.name) = names := Except.ok.inj hsurvey
  -- the directory was listed when the device was opened, and what was found in it is unread
  have hsubdirs : x.directory.subdirs =
      names.map fun n => .unread n (x.path ++ "/" ++ n) := by
    obtain ⟨-, -, hsub⟩ := Directory.exists_of_load sys.backend hload
    have hjoin : ∀ n ∈ names, Path.join x.directory.path n = x.path ++ "/" ++ n := by
      intro n hn
      have hentry := (hw.of_survey hs).1 n hn
      change Path.join x.path n = _
      rw [hpath, Path.join_render_of_ne_nil hst hentry hne]
    rw [hsub, hnames]
    exact List.map_congr_left fun n hn => by rw [hjoin n hn]
  refine ⟨names, hs, hchildren, hsubdirs, ?_⟩
  rw [closing_eq, closingAll_eq_flatMap, Directory.closing_of_unread hsubdirs, List.append_assoc]
  rfl

lemma records_of_kinds {es : List Event}
    (h : ∀ e ∈ es, ∃ p, e = .closed .device p ∨ e = .closed .directory p) :
    es.filterMap Event.record? = (es.filterMap Event.closed?).map closeRecord := by
  rw [List.map_filterMap]
  refine List.filterMap_congr fun e he => ?_
  obtain ⟨p, rfl | rfl⟩ := h e he <;> rfl

lemma release_of_last {s : Session} {h : String} {serial : Serial} {d : Device}
    (hs : s.held? h = some (.device ⟨serial, d⟩))
    (hlast : (s.dropped h).living.kept .device serial = false) :
    (s.release h).events = d.closing := by
  rw [Session.release_eq, Session.parting, hs]
  simp [Held.closing, Shared.closing, hlast]

/-- **Release of a tree.** A tree of devices that was built is released node by node, children
first; each device once and after all below it, each directory of a node but the root twice, and
nothing else. -/
theorem loadTree_torn_down (sys : Mounted) (hw : sys.backend.WellNamed) {path : String}
    (h : Path.isAbsolute path = true) {root : Device}
    (hroot : (loadTree sys path).run.value = .ok root) :
    root.path = Path.normalize path ∧ TornDown sys.backend root := by
  rw [value_loadTree] at hroot
  obtain ⟨st, hst, hp⟩ := Path.exists_render_of_isAbsolute h
  obtain ⟨hpath, -, -, hperm⟩ := loadTreeOn_mirrors sys _ hw h hroot
  have hnode (x : Device) (hx : x ∈ root.nodes) : x.ReleasedAt sys.backend :=
    releasedAt_of_loadTreeOn sys _ hw h hroot hx
  have hnodup : (root.nodes.map Device.path).Nodup := by
    rw [hperm.nodup_iff, hp]
    exact Backend.nodup_preorder hw _ hst
  have hkinds := closing_kinds hnode
  refine ⟨hpath, hnode, released_device_perm root, hnodup,
    fun x hx c hc y hy => sublist_released hx hc hy, ?_, ?_, length_released_directory hnode,
    count_released_directory hnode hnodup, hkinds, records_of_kinds hkinds,
    fun s k serial hs hlast => release_of_last hs hlast⟩
  · -- what a build that succeeds has left is released as one that fails is unwound
    have hgone : gone (loadTreeOn sys (BusList.available sys).value sys.backend.depth path) =
        released .device root.closing := by
      rw [gone, released_loadTreeOn_of_ok sys _ hroot, hroot]
      rfl
    exact hgone ▸ (gone_unwound sys _ hw h hst hp).order
  · rw [(released_device_perm root).length_eq, List.length_map, length_nodes]

/-- The first slot of the rack holds two devices. The later one goes first. -/
theorem loadTree_rack_torn_down :
    ∃ root, (loadTree rackSystem "/d/a").run.value = .ok root ∧ root.path = "/d/a" ∧
      TornDown rackBackend root := by
  have hok : (loadTree rackSystem "/d/a").run.value.isOk = true := by rfl
  rcases hr : (loadTree rackSystem "/d/a").run.value with e | root
  · rw [hr] at hok
    cases hok
  · obtain ⟨hpath, htorn⟩ := loadTree_torn_down rackSystem rackBackend_wellNamed (by decide) hr
    exact ⟨root, rfl, hpath, htorn⟩

example : (loadTree rackSystem "/d/a").run.value.toOption.map closing = some
    [.closed .device "/d/a/y", .closed .directory "/d/a/y",
      .closed .device "/d/a/x", .closed .directory "/d/a/x",
      .closed .device "/d/a", .closed .directory "/d/a",
      .closed .directory "/d/a/x", .closed .directory "/d/a/y"] := by
  decide +kernel

end Device

end DeviceModel
