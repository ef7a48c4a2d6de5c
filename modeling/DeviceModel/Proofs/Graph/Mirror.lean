import Mathlib.Data.List.Nodup
import DeviceModel.Proofs.Graph.Visit

/-!
A tree of devices mirrors the directories below its path.

It has a node for each of them, and the children of a node are the directories listed in its
own, the last one first. If one of them fails, there is no tree, and the failure is the first
in pre-order.
-/

namespace DeviceModel

/-! ### Places in pre-order -/

namespace Backend

variable {b : Backend}

lemma head?_preorder (b : Backend) (depth : Nat) (path : String) :
    (b.preorder (depth + 1) path).head? = some path := by
  rw [preorder]
  cases b.survey path <;> rfl

/-- What is listed below a place has that place in front. -/
lemma exists_of_mem_preorder (hw : b.WellNamed) {depth : Nat} {st : List String}
    (hst : ∀ n ∈ st, Path.IsEntry n) {q : String} (hq : q ∈ b.preorder depth (Path.render st)) :
    ∃ ext, (∀ n ∈ st ++ ext, Path.IsEntry n) ∧ q = Path.render (st ++ ext) := by
  induction depth generalizing st with
  | zero => cases hq
  | succ depth ih =>
    have hroot : ∃ ext, (∀ n ∈ st ++ ext, Path.IsEntry n) ∧
        Path.render st = Path.render (st ++ ext) := ⟨[], by simpa using hst, by simp⟩
    rw [preorder] at hq
    rcases hs : b.survey (Path.render st) with e | names
    · rw [hs] at hq
      exact List.mem_singleton.1 hq ▸ hroot
    · rw [hs, List.mem_cons, List.mem_flatMap] at hq
      rcases hq with rfl | ⟨n, hn, hq⟩
      · exact hroot
      · -- below a name the place has that name in front, and then what the induction tells
        have hentry := (hw.of_survey hs).1 n hn
        rw [Path.join_render hst hentry] at hq
        obtain ⟨ext, hext, rfl⟩ := ih (Path.isEntry_concat hst hentry) hq
        rw [List.append_assoc] at hext ⊢
        exact ⟨n :: ext, hext, rfl⟩

/-- Every place is written in normal form. -/
lemma normalize_of_mem_preorder (hw : b.WellNamed) {depth : Nat} {path : String}
    (h : Path.isAbsolute path = true) {q : String}
    (hq : q ∈ b.preorder depth (Path.normalize path)) : Path.normalize q = q := by
  obtain ⟨st, hst, hp⟩ := Path.exists_render_of_isAbsolute h
  rw [hp] at hq
  obtain ⟨ext, hext, rfl⟩ := exists_of_mem_preorder hw hst hq
  exact Path.normalize_render hext

/-- No place comes twice. -/
theorem nodup_preorder (hw : b.WellNamed) (depth : Nat) {st : List String}
    (hst : ∀ n ∈ st, Path.IsEntry n) : (b.preorder depth (Path.render st)).Nodup := by
  induction depth generalizing st with
  | zero => exact .nil
  | succ depth ih =>
    rw [preorder]
    rcases hs : b.survey (Path.render st) with e | names
    · simp
    · obtain ⟨hentry, hnodup⟩ := hw.of_survey hs
      -- below one name all places go on with that name
      have hbelow {n q : String} (hn : n ∈ names)
          (hq : q ∈ b.preorder depth (Path.join (Path.render st) n)) :
          ∃ ext, (∀ m ∈ st ++ n :: ext, Path.IsEntry m) ∧ q = Path.render (st ++ n :: ext) := by
        rw [Path.join_render hst (hentry n hn)] at hq
        obtain ⟨ext, hext, rfl⟩ :=
          exists_of_mem_preorder hw (Path.isEntry_concat hst (hentry n hn)) hq
        rw [List.append_assoc] at hext ⊢
        exact ⟨ext, hext, rfl⟩
      refine List.nodup_cons.2 ⟨fun hq => ?_, List.nodup_flatMap.2 ⟨fun n hn => ?_, ?_⟩⟩
      · obtain ⟨n, hn, hq⟩ := List.mem_flatMap.1 hq
        obtain ⟨ext, hext, he⟩ := hbelow hn hq
        have hlen := congrArg List.length (Path.render_inj hst hext he)
        simp at hlen
      · rw [Path.join_render hst (hentry n hn)]
        exact ih (Path.isEntry_concat hst (hentry n hn))
      · refine hnodup.imp_of_mem fun {n m} hn hm hne => ?_
        intro q hq hq'
        obtain ⟨ext, hext, rfl⟩ := hbelow hn hq
        obtain ⟨ext', hext', he⟩ := hbelow hm hq'
        have hst := Path.render_inj hext hext' he
        exact hne (List.cons.inj (List.append_cancel_left hst)).1

end Backend

namespace Device

/-- The node of a tree that stands for a directory: its children are what the directory lists,
the last one first, and each is found under its name. -/
structure MirrorsAt (b : Backend) (x : Device) : Prop where
  children : ∃ names, b.survey x.path = .ok names ∧ x.children.map busId = names.reverse ∧
    x.children.map path = names.reverse.map fun n => x.path ++ "/" ++ n
  child : ∀ id c, x.child? id = some c ↔ c ∈ x.children ∧ c.busId = id

/-- A tree that stands for the directories `ps`, which are given in pre-order. -/
structure Mirrors (b : Backend) (root : Device) (ps : List String) : Prop where
  nodes : ∀ x ∈ root.nodes, x.MirrorsAt b
  paths : (root.nodes.map path).Perm ps
  nodup : ps.Nodup
  count : root.descendants + 1 = ps.length

/-- A build that fails with the first failure among the directories `ps`. What comes after that
directory is neither opened nor listed, though it may be met when the buses are asked. -/
def StopsAtFirst (sys : Mounted) (path : String) (ps : List String) (e : Error) : Prop :=
  ∃ earlier p later, ps = earlier ++ p :: later ∧
    (∀ q ∈ earlier, ∃ names, sys.backend.survey q = .ok names) ∧
    sys.backend.survey p = .error e ∧
    Event.queries (loadTree sys path).run.events =
      Event.queries (BusList.available sys).events ++
        (earlier ++ [p]).flatMap (asks sys (BusList.available sys).value) ∧
    ∀ q ∈ later, ∀ x ∈ earlier ++ [p],
      (.readDir, q) ∉ asks sys (BusList.available sys).value x ∧
      ((.stat, q) ∈ asks sys (BusList.available sys).value x →
        ∃ bus ∈ (BusList.available sys).value.buses, ∃ busId, q = Path.join bus.2 busId)

/-! ### The tree -/

lemma child?_eq_some_iff {d : Device} (h : (d.children.map busId).Nodup) {id : String}
    {c : Device} : d.child? id = some c ↔ c ∈ d.children ∧ c.busId = id :=
  find?_eq_some_iff_of_nodup h

/-- A node stands for its directory if its children bear the names found there, and stand where
these lead. -/
lemma mirrorsAt_of_children {b : Backend} (hw : b.WellNamed) {d : Device}
    {names st : List String} (hs : b.survey d.path = .ok names)
    (hst : ∀ n ∈ st, Path.IsEntry n) (hne : st ≠ []) (hd : d.path = Path.render st)
    (hids : d.children.map busId = names.reverse)
    (hpaths : d.children.map path = names.reverse.map (Path.join d.path)) : d.MirrorsAt b := by
  obtain ⟨hentry, hnodup⟩ := hw.of_survey hs
  refine ⟨⟨names, hs, hids, ?_⟩, fun id c => child?_eq_some_iff ?_⟩
  · rw [hpaths, hd]
    refine List.map_congr_left fun n hn => ?_
    exact Path.join_render_of_ne_nil hst (hentry n (List.mem_reverse.1 hn)) hne
  · rw [hids]
    exact List.nodup_reverse.2 hnodup

variable (sys : Mounted) (buses : BusList)

/-- What holds of each tree of a forest, in the order of their names. -/
lemma forest_mirrors {b : Backend} {load : String → Except Error Device}
    (place : String → String) (below : String → List String) {names : List String}
    {cs : List Device} (hcs : names.map load = cs.map .ok)
    (h : ∀ n ∈ names, ∀ c, load n = .ok c → c.path = place n ∧ c.busId = n ∧
      (∀ x ∈ c.nodes, x.MirrorsAt b) ∧ (c.nodes.map path).Perm (below n)) :
    cs.map path = names.map place ∧ cs.map busId = names ∧
      (∀ c ∈ cs, ∀ x ∈ c.nodes, x.MirrorsAt b) ∧
      ((cs.flatMap nodes).map path).Perm (names.flatMap below) := by
  induction names generalizing cs with
  | nil =>
    cases List.map_eq_nil_iff.1 hcs.symm
    exact ⟨rfl, rfl, by simp, .nil⟩
  | cons n names ih =>
    obtain ⟨c, cs, rfl, hc, hrest⟩ := List.map_eq_cons_iff.1 hcs.symm
    obtain ⟨hpath, hid, hnodes, hperm⟩ := h n List.mem_cons_self c hc.symm
    obtain ⟨hpaths, hids, hall, hperms⟩ :=
      ih hrest.symm fun m hm => h m (List.mem_cons_of_mem _ hm)
    refine ⟨by rw [List.map_cons, List.map_cons, hpath, hpaths],
      by rw [List.map_cons, hid, hids], List.forall_mem_cons.2 ⟨hnodes, hall⟩, ?_⟩
    rw [List.flatMap_cons, List.flatMap_cons, List.map_append]
    exact hperm.append hperms

/-- **Mirror**: a tree that is built has a node for each directory, and no other. -/
theorem loadTreeOn_mirrors (hw : sys.backend.WellNamed) {depth : Nat} {path : String}
    (h : Path.isAbsolute path = true) {root : Device}
    (hroot : (loadTreeOn sys buses depth path).run.value = .ok root) :
    root.path = Path.normalize path ∧ Path.nameOf (Path.normalize path) = .ok root.busId ∧
      (∀ x ∈ root.nodes, x.MirrorsAt sys.backend) ∧
      (root.nodes.map Device.path).Perm
        (sys.backend.preorder depth (Path.normalize path)) := by
  induction depth generalizing path root with
  | zero => simp [loadTreeOn] at hroot
  | succ depth ih =>
    obtain ⟨bare, cs, hbare, hcs, rfl⟩ := exists_of_loadTreeOn sys buses hroot
    obtain ⟨names, hs, hpath, hname, hsub⟩ :=
      exists_of_loadOn sys buses (Path.ne_empty_of_isAbsolute h) hbare
    obtain ⟨st, hst, hp⟩ := Path.exists_render_of_isAbsolute h
    have hentry := (hw.of_survey hs).1
    -- the root of the file system has no name, so no device stands there
    have hne : st ≠ [] := by
      rintro rfl
      rw [hp, Path.nameOf_root] at hname
      cases hname
    rw [hsub, List.map_map] at hcs
    -- each child stands at its place and bears the name of it, which makes it a tree of the forest
    have hchild : ∀ n ∈ names, ∀ c,
        (loadTreeOn sys buses depth (Path.join (Path.normalize path) n)).run.value = .ok c →
        c.path = Path.join (Path.normalize path) n ∧ c.busId = n ∧
          (∀ x ∈ c.nodes, x.MirrorsAt sys.backend) ∧ (c.nodes.map Device.path).Perm
            (sys.backend.preorder depth (Path.join (Path.normalize path) n)) := by
      intro n hn c hc
      obtain ⟨hnormal, habs⟩ := normalize_join hw h hs hn
      obtain ⟨hcpath, hcname, hcnodes, hcperm⟩ := ih habs hc
      rw [hnormal] at hcpath hcname hcperm
      refine ⟨hcpath, ?_, hcnodes, hcperm⟩
      rw [hp, Path.join_render hst (hentry n hn),
        Path.nameOf_render_concat (Path.isEntry_concat hst (hentry n hn))] at hcname
      exact (Except.ok.inj hcname).symm
    obtain ⟨hpaths, hids, hall, hperm⟩ := forest_mirrors _ _ hcs hchild
    have hroot' : ({ bare with children := cs.reverse } : Device).path = Path.normalize path :=
      hpath
    refine ⟨hpath, hname, ?_, ?_⟩
    · rw [nodes_eq, List.forall_mem_cons]
      refine ⟨mirrorsAt_of_children hw (hroot' ▸ hs) hst hne (hroot'.trans hp) ?_ ?_,
        fun x hx => ?_⟩
      · rw [List.map_reverse, hids]
      · rw [List.map_reverse, hpaths, hroot', List.map_reverse]
      · obtain ⟨c, hc, hx⟩ := List.mem_flatMap.1 hx
        exact hall c (List.mem_reverse.1 hc) x hx
    · rw [nodes_eq, List.map_cons, Backend.preorder, hs, hroot']
      have hreverse := ((List.reverse_perm cs).flatMap_right nodes).map Device.path
      exact (hreverse.trans hperm).cons _

lemma events_loadTree (path : String) :
    (loadTree sys path).run.events = (BusList.available sys).events ++
      (loadTreeOn sys (BusList.available sys).value sys.backend.depth path).run.events := by
  rw [loadTree, Scan.events_run_bind]
  simp [Except.toOption]

lemma queries_loadTree (path : String) :
    Event.queries (loadTree sys path).run.events =
      Event.queries (BusList.available sys).events ++
        Event.queries
          (loadTreeOn sys (BusList.available sys).value sys.backend.depth path).run.events := by
  rw [events_loadTree, Event.queries_append]

/-- **Trees.** With all names in order, and no more levels than the file system tells of, a tree
is built exactly if each of the directories can be opened and listed. The tree then mirrors
them; and if it is not built, that is due to the first that fails, and nothing after it is
opened or listed. -/
theorem loadTree_mirrors (sys : Mounted) (hw : sys.backend.WellNamed) {path : String}
    (h : Path.isAbsolute path = true)
    (hn : sys.backend.NestsWithin sys.backend.depth (Path.normalize path)) :
    ((∃ root, (loadTree sys path).run.value = .ok root) ↔
      ∀ p ∈ sys.backend.preorder sys.backend.depth (Path.normalize path),
        ∃ names, sys.backend.survey p = .ok names) ∧
    (∀ root, (loadTree sys path).run.value = .ok root → root.path = Path.normalize path ∧
      root.Mirrors sys.backend
        (sys.backend.preorder sys.backend.depth (Path.normalize path))) ∧
    ∀ e, (loadTree sys path).run.value = .error e →
      StopsAtFirst sys path
        (sys.backend.preorder sys.backend.depth (Path.normalize path)) e := by
  obtain ⟨st, hst, hp⟩ := Path.exists_render_of_isAbsolute h
  have hnodup : (sys.backend.preorder sys.backend.depth (Path.normalize path)).Nodup := by
    rw [hp]
    exact Backend.nodup_preorder hw _ hst
  obtain ⟨hasks, hfailed⟩ := loadTreeOn_visits sys (BusList.available sys).value hw h hn
  rw [← value_loadTree] at hfailed
  refine ⟨?_, fun root hroot => ?_, fun e he => ?_⟩
  · rw [← Backend.visit_eq_none_iff, ← hfailed]
    exact exists_eq_ok_iff
  · rw [value_loadTree] at hroot
    obtain ⟨hpath, -, hnodes, hperm⟩ := loadTreeOn_mirrors sys _ hw h hroot
    refine ⟨hpath, hnodes, hperm, hnodup, ?_⟩
    rw [← length_nodes, ← hperm.length_eq, List.length_map]
  · -- the first failure of the visit is that of the build
    rw [he] at hfailed
    obtain ⟨earlier, p, later, hps, hv, hok, hbad⟩ := Backend.exists_of_visit_eq_some hfailed.symm
    refine ⟨earlier, p, later, hps, hok, hbad, ?_, fun q hq x hx => ?_⟩
    · rw [queries_loadTree, hasks, hv]
    · rw [← List.singleton_append, ← List.append_assoc] at hps
      have hmem : x ∈ sys.backend.preorder sys.backend.depth (Path.normalize path) :=
        hps ▸ List.mem_append_left _ hx
      rw [hps] at hnodup
      -- places that come later are others, since no place comes twice
      exact asks_of_ne sys _ (Backend.normalize_of_mem_preorder hw h hmem)
        ((List.nodup_append.1 hnodup).2.2 x hx q hq)

/-- A rack in `/d` with three slots, of which the second cannot be listed. -/
def rackBackend : Backend where
  stat _ := .ok .directory
  readDir path :=
    if path = "/d" then .ok { entries := [⟨"a", .directory, 0o755⟩, ⟨"name", .file, 0o644⟩,
      ⟨"b", .directory, 0o755⟩, ⟨"c", .directory, 0o755⟩] }
    else if path = "/d/a" then .ok { entries := [⟨"x", .directory, 0o755⟩,
      ⟨"y", .directory, 0o755⟩] }
    else if path = "/d/b" then .error .readError
    else .ok { entries := [] }
  readLink _ := .error .notFound
  readAttr _ := .ok [0x72, 0x0a]
  realPath path := .ok path
  depth := 3

def rackSystem : Mounted := .ofMount "/" rackBackend

lemma rackBackend_wellNamed : rackBackend.WellNamed := by
  have hall : ∀ path listing, rackBackend.readDir path = .ok listing →
      (∀ e ∈ listing.entries, Path.IsEntry e.name) ∧ (listing.entries.map (·.name)).Nodup := by
    intro path listing h
    unfold rackBackend at h
    simp only at h
    split at h
    · cases h
      simp [Path.IsEntry, Path.IsName]
    · split at h
      · cases h
        simp [Path.IsEntry, Path.IsName]
      · split at h
        · cases h
        · cases h
          simp
  exact ⟨fun path listing h => (hall path listing h).1,
    fun path listing h => (hall path listing h).2⟩

/-- The rack is not built, since its second slot fails, and the third is left alone; the first
slot by itself is. -/
theorem loadTree_rack_mirrors :
    StopsAtFirst rackSystem "/d" ["/d", "/d/a", "/d/a/x", "/d/a/y", "/d/b", "/d/c"] .readError ∧
      ∃ root, (loadTree rackSystem "/d/a").run.value = .ok root ∧ root.path = "/d/a" ∧
        root.Mirrors rackBackend ["/d/a", "/d/a/x", "/d/a/y"] := by
  have hw : rackSystem.backend.WellNamed := rackBackend_wellNamed
  have hrack := @loadTree_mirrors rackSystem hw "/d" (by decide) (by decide +kernel)
  have hslot := @loadTree_mirrors rackSystem hw "/d/a" (by decide) (by decide +kernel)
  have hfails : (loadTree rackSystem "/d").run.value = .error .readError := by rfl
  have hplaces : ∀ p ∈ ["/d/a", "/d/a/x", "/d/a/y"], ∃ names, rackBackend.survey p = .ok names := by
    simp only [List.forall_mem_cons]
    exact ⟨⟨["x", "y"], by rfl⟩, ⟨[], by rfl⟩, ⟨[], by rfl⟩, by simp⟩
  obtain ⟨root, hroot⟩ := hslot.1.2 hplaces
  exact ⟨hrack.2.2 _ hfails, root, hroot, (hslot.2.1 root hroot).1, (hslot.2.1 root hroot).2⟩

end Device

end DeviceModel
