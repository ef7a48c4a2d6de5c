import Mathlib.Data.List.Dedup
import DeviceModel.Proofs.Graph.Sweep
import DeviceModel.Proofs.Tree.Announced

/-!
Walks through a tree that was built by edits, whatever links there are in it: links to themselves,
links in a circle and links back up.

To go down is to add a name of a directory, never that of a link, so the place that the path leads
to gets longer each time, and no place is longer than the tree is high. Hence a walk ends, comes to
each directory at most once, and meets no more directories than are stored. It may meet fewer: what
was left behind when a directory was replaced is still stored, but no directory lists it.
-/

namespace DeviceModel

open Event (listings)

/-! ### What is stored -/

namespace Trie

variable {κ α : Type}

mutual

/-- All keys of a trie, with those that have no value. -/
def keys : Trie κ α → List (List κ)
  | node _ branches => [] :: keysAll branches

def keysAll : Branches κ α → List (List κ)
  | .nil => []
  | .cons name t rest => (keys t).map (name :: ·) ++ keysAll rest

end

variable [DecidableEq κ]

lemma cons_mem_keysAll {k : κ} {ks : List κ} (b : Branches κ α)
    (h : (b.find k).get? ks ≠ none) (hks : ks ∈ (b.find k).keys) : k :: ks ∈ keysAll b := by
  match b with
  | .nil => exact absurd (get?_empty ks) h
  | .cons name t rest =>
    rw [keysAll, List.mem_append]
    rw [Branches.find] at h hks
    by_cases hname : name = k
    · rw [if_pos hname] at hks
      rw [hname]
      exact .inl (List.mem_map_of_mem hks)
    · rw [if_neg hname] at h hks
      exact .inr (cons_mem_keysAll rest h hks)

lemma mem_keys {t : Trie κ α} {ks : List κ} (h : t.get? ks ≠ none) : ks ∈ t.keys := by
  induction ks generalizing t with
  | nil =>
    obtain ⟨value, branches⟩ := t
    exact List.mem_cons_self
  | cons k ks ih =>
    obtain ⟨value, branches⟩ := t
    rw [get?_cons, branches_node] at h
    exact List.mem_cons_of_mem _ (cons_mem_keysAll branches h (ih h))

end Trie

namespace MemoryTree

variable {t : MemoryTree} {path : String} {top place : Place} {children : List String}
  {finished : Prop} {ws : List (List String)}

/-- The places of the directories that are stored in a tree. -/
def directories (t : MemoryTree) : List Place :=
  (t.nodes.keys.filter fun place => (t.node? place).any (·.kind = .directory)).dedup

lemma mem_directories : place ∈ t.directories ↔ t.HasDirectory place := by
  rw [directories, List.mem_dedup, List.mem_filter]
  constructor
  · rintro ⟨-, hdirectory⟩
    rcases hn : t.node? place with _ | _ | _ | _
    · simp [hn] at hdirectory
    · exact ⟨_, hn⟩
    · simp [hn, MemoryNode.kind] at hdirectory
    · simp [hn, MemoryNode.kind] at hdirectory
  · rintro ⟨children, hd⟩
    have hkey : place ∈ t.nodes.keys := by
      refine Trie.mem_keys fun hnone => ?_
      cases hnone.symm.trans hd
    refine ⟨hkey, ?_⟩
    rw [hd]
    rfl

/-! ### Walks -/

/-- Going by the names of each of `ws` from `path`, which leads to `top`, comes to directories that
are stored at and below `top`, by no links, and to none of them twice. A walk that has finished has
come to all of those to which the way is unbroken, and so to all that are stored there unless
something was left behind by a directory that was replaced. -/
structure Walks (t : MemoryTree) (path : String) (top : Place) (finished : Prop)
    (ws : List (List String)) : Prop where
  nodup : ws.Nodup
  real : ∀ w ∈ ws, t.realPath (along path w) = .ok (Path.render (top ++ w))
  directory : ∀ w ∈ ws, t.HasDirectory (top ++ w)
  unbroken : ∀ w ∈ ws, t.Unbroken top w
  covers : finished → ∀ w, t.HasDirectory (top ++ w) → (w ∈ ws ↔ t.Unbroken top w)

lemma walks_nil (h : ¬ finished) : Walks t path top finished [] where
  nodup := .nil
  real := by simp
  directory := by simp
  unbroken := by simp
  covers := fun hf => absurd hf h

/-- As many names as lead to directories below a place, and none twice, so many are stored. -/
lemma length_le_directories (hnodup : ws.Nodup) (hd : ∀ w ∈ ws, t.HasDirectory (top ++ w)) :
    ws.length ≤ t.directories.length := by
  have hplaces : (ws.map (top ++ ·)).Nodup := hnodup.map (List.append_right_injective top)
  have hstored : ws.map (top ++ ·) ⊆ t.directories := by
    intro place hplace
    obtain ⟨w, hw, rfl⟩ := List.mem_map.1 hplace
    exact mem_directories.2 (hd w hw)
  -- different names below one place are different places, so they can be counted there
  have hle := (List.subperm_of_subset hplaces hstored).length_le
  rwa [List.length_map] at hle

/-- **Bound**: a walk is no longer than there are directories. -/
theorem Walks.length_le (h : Walks t path top finished ws) : ws.length ≤ t.directories.length :=
  length_le_directories h.nodup h.directory

section

variable (ht : Sound t) (h : Reaches t path top) (hd : t.HasDirectory top)

include ht h hd

lemma preorder_eq_ways :
    t.backend.preorder t.depth path = (t.ways t.depth top).map (along path) := by
  obtain ⟨children, hd⟩ := hd
  exact preorder_eq ht h hd

lemma readable_of_visit
    (hnone : (t.backend.visit (t.backend.preorder t.depth path)).2 = none) :
    ∀ w ∈ t.ways t.depth top, top ++ w ∉ t.unreadable := by
  intro w hw
  have hmem : along path w ∈ t.backend.preorder t.depth path := by
    rw [preorder_eq_ways ht h hd]
    exact List.mem_map_of_mem hw
  obtain ⟨names, hs⟩ := Backend.visit_eq_none_iff.1 hnone _ hmem
  exact ((survey_eq_ok_iff (reaches_along ht h hw)).1 hs).2.1

/-- What a visit comes to if nothing fails. -/
lemma mem_ways_iff_of_visit {w : List String}
    (hnone : (t.backend.visit (t.backend.preorder t.depth path)).2 = none)
    (hdir : t.HasDirectory (top ++ w)) : w ∈ t.ways t.depth top ↔ t.Unbroken top w :=
  ⟨fun hw => (unbroken_of_mem_ways hw hd).2,
    fun hw => mem_ways (height_lt t top) (readable_of_visit ht h hd hnone) hdir hw⟩

/-- Nothing fails if all directories to which the way is unbroken may be listed. -/
theorem visit_eq_none_iff_readable :
    (t.backend.visit (t.backend.preorder t.depth path)).2 = none ↔
      ∀ w, t.HasDirectory (top ++ w) → t.Unbroken top w → top ++ w ∉ t.unreadable := by
  constructor
  · intro hnone w hdir hw
    exact readable_of_visit ht h hd hnone w ((mem_ways_iff_of_visit ht h hd hnone hdir).2 hw)
  · intro hu
    refine Backend.visit_eq_none_iff.2 fun p hp => ?_
    rw [preorder_eq_ways ht h hd] at hp
    obtain ⟨w, hw, rfl⟩ := List.mem_map.1 hp
    obtain ⟨hdir, hunbroken⟩ := unbroken_of_mem_ways hw hd
    have hreadable := hu w hdir hunbroken
    exact ⟨_, (survey_eq_ok_iff (reaches_along ht h hw)).2 ⟨hdir, hreadable, rfl⟩⟩

/-- **Visits** in pre-order are walks. -/
theorem walks_visit : ∃ ws, ws <+: t.ways t.depth top ∧
    (t.backend.visit (t.backend.preorder t.depth path)).1 = ws.map (along path) ∧
    Walks t path top ((t.backend.visit (t.backend.preorder t.depth path)).2 = none) ws := by
  have hpre := preorder_eq_ways ht h hd
  obtain ⟨visited, hvisited⟩ :
      ∃ visited, visited = (t.backend.visit (t.backend.preorder t.depth path)).1 := ⟨_, rfl⟩
  have hprefix : visited <+: (t.ways t.depth top).map (along path) := by
    rw [hvisited, ← hpre]
    exact Backend.visit_prefix _
  -- a visit stops at its first failure, so what it comes to is the front of the pre-order
  have hin {w : List String} (hw : w ∈ (t.ways t.depth top).take visited.length) :
      w ∈ t.ways t.depth top := List.mem_of_mem_take hw
  refine ⟨(t.ways t.depth top).take visited.length, List.take_prefix _ _, ?_, ?_, ?_, ?_, ?_, ?_⟩
  · rw [← hvisited, List.map_take]
    exact List.prefix_iff_eq_take.1 hprefix
  · exact (nodup_ways ht t.depth top).sublist (List.take_sublist _ _)
  · exact fun w hw => (reaches_along ht h (hin hw)).realPath_eq
  · exact fun w hw => (unbroken_of_mem_ways (hin hw) hd).1
  · exact fun w hw => (unbroken_of_mem_ways (hin hw) hd).2
  · intro hnone w hdir
    have hall : visited.length = (t.ways t.depth top).length := by
      rw [hvisited, Backend.visit_of_eq_none hnone, hpre, List.length_map]
    rw [hall, List.take_length]
    exact mem_ways_iff_of_visit ht h hd hnone hdir

end

/-! ### Where directories are -/

/-- A directory to which a path leads is found there. -/
lemma Reaches.exists_locate (h : Reaches t path place) (hd : t.HasDirectory place) :
    ∃ own, (Directory.locate t.backend path).run.value = .ok (.unread own path) := by
  obtain ⟨children, hd⟩ := hd
  obtain ⟨own, hown⟩ := h.exists_nameOf
  have hstat : t.backend.stat path = .ok .directory := h.stat_eq hd
  have hfound := h
  rw [← h.normalize_eq] at hfound hown hstat
  refine ⟨own, (Directory.locate_eq_ok_iff t.backend).2 ⟨hfound.ne_empty, own, hown, hstat, ?_⟩⟩
  rw [h.normalize_eq]

/-- Where a directory is found the path leads to one. -/
lemma reaches_of_locate {d : Directory} (ht : Sound t)
    (h : (Directory.locate t.backend path).run.value = .ok d) (hres : t.resolve path = .ok place) :
    d.path = Path.normalize path ∧ Reaches t (Path.normalize path) place ∧
      t.HasDirectory place := by
  obtain ⟨-, own, hown, hstat, rfl⟩ := (Directory.locate_eq_ok_iff t.backend).1 h
  have hreach := reaches_normalize ht hres (address_ne_nil_of_nameOf hown)
  obtain ⟨place', children, hres', hd⟩ := stat_eq_directory_iff.1 hstat
  obtain rfl : place = place' := Except.ok.inj (hreach.resolve_eq.symm.trans hres')
  exact ⟨rfl, hreach, children, hd⟩

lemma trail_reaches (ht : Sound t) :
    t.backend.Trail fun path => ∃ place, Reaches t path place ∧ t.HasDirectory place where
  normalize := by
    rintro path ⟨place, h, -⟩
    exact h.normalize_eq
  join := by
    rintro path names n ⟨place, h, -⟩ hs hn
    exact ⟨_, h.join_survey ht hs hn⟩

lemma settled_normalize (ht : Sound t) (hres : t.resolve path = .ok place) :
    path ≠ "" ∧ Settled t (Path.normalize path) := by
  by_cases haddress : address path = []
  · refine ⟨?_, .inl (Path.normalize_eq_root haddress)⟩
    rintro rfl
    exact absurd haddress (by decide)
  · have h := reaches_normalize ht hres haddress
    exact ⟨h.ne_empty, .inr ⟨place, h⟩⟩

/-! ### The two walks -/

/-- Building the tree of the devices at `p` walks through the directories at and below a place, with
a look at the list of the buses before. It needs no more levels than the tree has. It succeeds just
if there is a directory and all to which the way is unbroken may be listed, and then there is a node
for each of these. -/
structure BuildWalks (t : MemoryTree) (sys : Mounted) (p : String) (top : Place) : Prop where
  levels : ∀ buses more, (Device.loadTreeOn sys buses (t.depth + more) p).run =
    (Device.loadTreeOn sys buses t.depth p).run
  succeeds : (∃ root, (Device.loadTree sys p).run.value = .ok root) ↔
    (∃ d, (Directory.locate t.backend p).run.value = .ok d) ∧
      ∀ w, t.HasDirectory (top ++ w) → t.Unbroken top w → top ++ w ∉ t.unreadable
  walks : ∃ scan ws, (scan = [] ∨ scan = [Path.normalize sys.busPath]) ∧
    listings (Device.loadTree sys p).run.events =
      scan ++ ws.map (along (Path.normalize p)) ∧
    Walks t (Path.normalize p) top (∃ root, (Device.loadTree sys p).run.value = .ok root) ws ∧
    ∀ root, (Device.loadTree sys p).run.value = .ok root → root.nodes.length = ws.length
  nodes_le : ∀ root, (Device.loadTree sys p).run.value = .ok root →
    root.nodes.length ≤ t.directories.length

/-- Reading a directory with all below it walks through the directories at and below a place. It
needs no more levels than the tree has. It succeeds just if all to which the way is unbroken may be
listed, but whether it does or not, no more directories become known than are stored. To read the
directory itself before makes no difference. -/
structure ReadWalks (t : MemoryTree) (d : Directory) (top : Place) : Prop where
  levels : ∀ more, Directory.readBelow t.backend (t.depth + more) d = d.readAll t.backend
  succeeds : (d.readAll t.backend).value.2 = .ok () ↔
    ∀ w, t.HasDirectory (top ++ w) → t.Unbroken top w → top ++ w ∉ t.unreadable
  walks : ∃ ws, listings (d.readAll t.backend).events = ws.map (along d.path) ∧
    Walks t d.path top ((d.readAll t.backend).value.2 = .ok ()) ws
  nodes_le : (d.readAll t.backend).value.1.nodes.length ≤ t.directories.length
  steps : ∀ r, (d.read t.backend).run.value = .ok r →
    (d.read t.backend).run.events ++ (r.readAll t.backend).events = (d.readAll t.backend).events ∧
      (r.readAll t.backend).value = (d.readAll t.backend).value

section

variable {sys : Mounted} (hsys : sys.backend = t.backend) (buses : BusList)

include hsys

lemma exists_root_iff_visit (ht : Sound t) (hne : path ≠ "")
    (h : Reaches t (Path.normalize path) top) :
    (∃ root, (Device.loadTreeOn sys buses t.depth path).run.value = .ok root) ↔
      (t.backend.visit (t.backend.preorder t.depth (Path.normalize path))).2 = none := by
  have htrail := trail_settled ht
  have hnests := nestsWithin_of_settled ht (.inr ⟨top, h⟩)
  rw [← hsys] at htrail hnests ⊢
  have hvisits := Device.loadTreeOn_visits_trail sys buses htrail hne (.inr ⟨top, h⟩) hnests
  rw [Device.exists_eq_ok_iff, hvisits.2]

lemma exists_walks_of_reaches (ht : Sound t) (hne : path ≠ "")
    (h : Reaches t (Path.normalize path) top) (hd : t.HasDirectory top) :
    ∃ ws, listings (Device.loadTreeOn sys buses t.depth path).run.events =
        ws.map (along (Path.normalize path)) ∧
      Walks t (Path.normalize path) top
        (∃ root, (Device.loadTreeOn sys buses t.depth path).run.value = .ok root) ws := by
  have hroot := exists_root_iff_visit hsys buses ht hne h
  have htrail := trail_settled ht
  have hnests := nestsWithin_of_settled ht (.inr ⟨top, h⟩)
  obtain ⟨ws, hways, hvisited, hwalks⟩ := walks_visit ht h hd
  rw [← hroot] at hwalks
  refine ⟨ws, ?_, hwalks⟩
  rw [← hsys] at htrail hnests hvisited
  rw [Device.listings_loadTreeOn sys buses htrail hne (.inr ⟨top, h⟩) hnests, hvisited,
    List.flatMap_map, List.map_eq_flatMap]
  refine List.flatMap_congr fun w hw => ?_
  have hdir := hwalks.directory w hw
  obtain ⟨own, hfound⟩ := (reaches_along ht h (hways.subset hw)).exists_locate hdir
  obtain ⟨hw', -⟩ := (Directory.locate_eq_ok_iff t.backend).1 hfound
  rw [← hsys] at hfound
  exact Device.listings_loadOn_of_locate sys buses hw' hfound

/-- Where no directory is found there is nothing to be built or listed. -/
lemma nothing_of_locate_error {e : Error} (hne : path ≠ "")
    (hl : (Directory.locate t.backend path).run.value = .error e) :
    (¬ ∃ root, (Device.loadTreeOn sys buses t.depth path).run.value = .ok root) ∧
      listings (Device.loadTreeOn sys buses t.depth path).run.events = [] := by
  rw [← hsys] at hl
  -- there is at least one level, so that the directory is looked for
  have hlevels : t.depth = t.nodes.height + 1 := rfl
  rw [hlevels]
  obtain ⟨hvalue, hnone⟩ := Device.loadTreeOn_of_locate_error sys buses hne hl
  refine ⟨?_, hnone⟩
  rintro ⟨root, hroot⟩
  cases hvalue.symm.trans hroot

/-- Whatever a path leads to, building a tree of devices there is a walk. -/
theorem exists_walks (ht : Sound t) (hres : t.resolve path = .ok top) :
    ∃ ws, listings (Device.loadTreeOn sys buses t.depth path).run.events =
        ws.map (along (Path.normalize path)) ∧
      Walks t (Path.normalize path) top
        (∃ root, (Device.loadTreeOn sys buses t.depth path).run.value = .ok root) ws := by
  obtain ⟨hne, -⟩ := settled_normalize ht hres
  rcases hl : (Directory.locate t.backend path).run.value with e | d
  · obtain ⟨hroot, hnone⟩ := nothing_of_locate_error hsys buses hne hl
    exact ⟨[], hnone, walks_nil hroot⟩
  · obtain ⟨-, hreach, hd⟩ := reaches_of_locate ht hl hres
    exact exists_walks_of_reaches hsys buses ht hne hreach hd

/-- **Success**: a tree of devices is built if its directories are there and may be listed. -/
theorem exists_root_iff (ht : Sound t) (hres : t.resolve path = .ok top) :
    (∃ root, (Device.loadTreeOn sys buses t.depth path).run.value = .ok root) ↔
      (∃ d, (Directory.locate t.backend path).run.value = .ok d) ∧
        ∀ w, t.HasDirectory (top ++ w) → t.Unbroken top w → top ++ w ∉ t.unreadable := by
  obtain ⟨hne, -⟩ := settled_normalize ht hres
  rcases hl : (Directory.locate t.backend path).run.value with e | d
  · obtain ⟨hroot, -⟩ := nothing_of_locate_error hsys buses hne hl
    refine iff_of_false hroot ?_
    rintro ⟨⟨d, hd⟩, -⟩
    cases hd
  · obtain ⟨-, hreach, hd⟩ := reaches_of_locate ht hl hres
    have hfound : ∃ d', (.ok d : Except Error Directory) = .ok d' := ⟨d, rfl⟩
    rw [exists_root_iff_visit hsys buses ht hne hreach, visit_eq_none_iff_readable ht hreach hd]
    exact (and_iff_right hfound).symm

theorem buildWalks (ht : Sound t) (hres : t.resolve path = .ok top) :
    BuildWalks t sys path top := by
  obtain ⟨hne, hsettled⟩ := settled_normalize ht hres
  have htrail := trail_settled ht
  have hnests := nestsWithin_of_settled ht hsettled
  rw [← hsys] at htrail hnests
  obtain ⟨ws, hlisted, hwalks⟩ := exists_walks hsys (BusList.available sys).value ht hres
  have hdepth : sys.backend.depth = t.depth := by
    rw [hsys]
    rfl
  have hcount : ∀ root, (Device.loadTree sys path).run.value = .ok root →
      root.nodes.length = ws.length := by
    intro root hroot
    rw [Device.value_loadTree, hdepth] at hroot
    rw [Device.length_nodes_loadTreeOn sys _ hroot, hlisted, List.length_map]
  obtain ⟨scan, hscan, hboth⟩ := Device.exists_listings_loadTree sys path
  refine ⟨fun buses more => ?_, ?_, ⟨scan, ws, hscan, ?_, ?_, hcount⟩, fun root hroot => ?_⟩
  · exact Device.run_loadTreeOn_add sys buses htrail more hne hsettled hnests
  · rw [Device.value_loadTree, hdepth]
    exact exists_root_iff hsys _ ht hres
  · rw [hboth, hdepth, hlisted]
  · rw [Device.value_loadTree, hdepth]
    exact hwalks
  · rw [hcount root hroot]
    exact hwalks.length_le

end

theorem readWalks_unread (ht : Sound t) (h : Reaches t path top) (hd : t.HasDirectory top)
    (own : String) : ReadWalks t (.unread own path) top := by
  have hnests : t.backend.NestsWithin t.depth path :=
    nestsWithin_of_settled ht (.inr ⟨top, h⟩)
  have hthere : ∀ path, (∃ place, Reaches t path place ∧ t.HasDirectory place) →
      (∃ n, Path.nameOf path = .ok n) ∧ t.backend.stat path = .ok .directory := by
    rintro path ⟨place, h, children, hdir⟩
    exact ⟨h.exists_nameOf, h.stat_eq hdir⟩
  have hstart : ∃ place, Reaches t path place ∧ t.HasDirectory place := ⟨top, h, hd⟩
  have hall : Directory.readAll t.backend (.unread own path) =
      Directory.readBelow t.backend t.depth (.unread own path) :=
    Directory.readAll_unread t.backend own path
  have hlevels : ∀ more, Directory.readBelow t.backend (t.depth + more) (.unread own path) =
      Directory.readAll t.backend (.unread own path) := by
    intro more
    rw [hall]
    exact Directory.readBelow_add (trail_reaches ht) hthere more hstart hnests own
  obtain ⟨ws, hways, hvisited, hwalks⟩ := walks_visit ht h hd
  have hfailed := (Directory.readBelow_visits (trail_reaches ht) hthere hstart hnests own).2
  have hdone : (Directory.readAll t.backend (.unread own path)).value.2 = .ok () ↔
      (t.backend.visit (t.backend.preorder t.depth path)).2 = none := by
    rw [hall, ← hfailed]
    rcases (Directory.readBelow t.backend t.depth (.unread own path)).value.2 with e | u
    · simp [Device.failure?]
    · simp [Device.failure?]
  rw [← hdone] at hwalks
  refine ⟨hlevels, ?_, ⟨ws, ?_, hwalks⟩, ?_, fun r hr => ?_⟩
  · rw [hdone, visit_eq_none_iff_readable ht h hd]
  · rw [hall, Directory.path_unread, ← hvisited]
    exact Directory.listings_readBelow (trail_reaches ht) hthere hstart hnests own
  · -- the directories that became known are among the pre-order, whether or not the reading failed
    have hsub := Directory.nodes_readBelow (trail_reaches ht) hthere hstart hnests own
    have hle := hsub.length_le
    rw [List.length_map, preorder_eq_ways ht h hd, List.length_map] at hle
    exact hle.trans (length_le_directories (nodup_ways ht t.depth top)
      fun w hw => (unbroken_of_mem_ways hw hd).1)
  · -- a level more makes no difference, so the first read may be made by itself
    have hsteps := Directory.readBelow_of_read t.backend hr
    have hmore : Directory.readBelow t.backend (t.backend.depth + 1) (.unread own path) =
        Directory.readAll t.backend (.unread own path) := hlevels 1
    rw [← hmore, hsteps]
    exact ⟨rfl, rfl⟩

/-- **Walks.** In a tree that was built by edits, and from any path that leads somewhere, to build a
tree of devices and to read a directory with all below it are walks through the directories at and
below where the path leads. Those that a walk misses have a name on the way to them that was
announced before its directory was last replaced; where nothing was put in place of a directory,
none is missed. -/
theorem walks_of_realPath (edits : List Edit) (mount : String) {p r : String}
    (hp : (empty.applyAll edits).realPath p = .ok r) :
    BuildWalks (empty.applyAll edits) (.ofMount mount (empty.applyAll edits).backend) p
        (address r) ∧
      (∀ d, (Directory.locate (empty.applyAll edits).backend p).run.value = .ok d →
        ReadWalks (empty.applyAll edits) d (address r)) ∧
      ∀ w, (empty.applyAll edits).HasDirectory (address r ++ w) →
        ((empty.applyAll edits).Unbroken (address r) w ↔
          ∀ place m, OnWay (address r) w place m → Announced edits place m) ∧
        ((empty.applyAll edits).Unbroken (address r) w ∨
          ∃ e ∈ edits, ∃ place m, OnWay (address r) w place m ∧ e.Replaces place) := by
  have ht := sound_applyAll edits
  obtain ⟨place, hres, rfl⟩ := realPath_eq_ok_iff.1 hp
  obtain ⟨k, -, hleads⟩ := resolve_eq_ok_iff.1 hres
  rw [address_render (hleads.isEntry ht (by simp))]
  refine ⟨buildWalks rfl ht hres, fun d hd => ?_, fun w hw =>
    ⟨unbroken_iff_announced edits hw, unbroken_or_replaced edits hw⟩⟩
  obtain ⟨-, hreach, hplace⟩ := reaches_of_locate ht hd hres
  obtain ⟨-, own, -, -, rfl⟩ := (Directory.locate_eq_ok_iff _).1 hd
  exact readWalks_unread ht hreach hplace own

/-- A directory with a link to itself, two links in a circle, and below it a link back up. -/
def loopEdits : List Edit :=
  [.directory "/a/b", .link "/a/self" "self", .link "/a/x" "y", .link "/a/y" "x",
    .link "/a/b/up" "/a"]

/-- Through the link back up each of the two directories is listed once. -/
theorem walks_loop :
    (empty.applyAll loopEdits).realPath "/a/b/up" = .ok "/a" ∧
      BuildWalks (empty.applyAll loopEdits) (.ofMount "/" (empty.applyAll loopEdits).backend)
        "/a/b/up" ["a"] ∧
      (∃ d, (Directory.locate (empty.applyAll loopEdits).backend "/a/b/up").run.value = .ok d ∧
        ReadWalks (empty.applyAll loopEdits) d ["a"]) ∧
      listings (Device.loadTree (.ofMount "/" (empty.applyAll loopEdits).backend)
        "/a/b/up").run.events = ["/a/b/up", "/a/b/up/b"] ∧
      (empty.applyAll loopEdits).directories = [[], ["a"], ["a", "b"]] := by
  have hp : (empty.applyAll loopEdits).realPath "/a/b/up" = .ok "/a" := by decide +kernel
  have haddress : address "/a" = ["a"] := by decide
  have hlisted : listings (Device.loadTree (.ofMount "/" (empty.applyAll loopEdits).backend)
      "/a/b/up").run.events = ["/a/b/up", "/a/b/up/b"] := by decide +kernel
  have hstored : (empty.applyAll loopEdits).directories = [[], ["a"], ["a", "b"]] := by
    decide +kernel
  have hthere : (Directory.locate (empty.applyAll loopEdits).backend
      "/a/b/up").run.value.toOption.map (·.path) = some "/a/b/up" := by decide +kernel
  obtain ⟨hbuild, hread, -⟩ := walks_of_realPath loopEdits "/" hp
  rw [haddress] at hbuild hread
  obtain ⟨d, hd, -⟩ := exists_ok_of_toOption_map hthere
  exact ⟨hp, hbuild, ⟨d, hd, hread d hd⟩, hlisted, hstored⟩

/-- The slot with a card, replaced by a file and put back. -/
def refilledEdits : List Edit := slotEdits ++ [.directory "/slot"]

/-- **A card that is missed**: the directory of the card is stored below the slot, and is found
there, but though nothing may not be listed and nothing fails, both walks list the slot alone. -/
theorem walks_slot_miss_card :
    (empty.applyAll refilledEdits).realPath "/slot" = .ok "/slot" ∧
      (empty.applyAll refilledEdits).realPath "/slot/card" = .ok "/slot/card" ∧
      (empty.applyAll refilledEdits).directories = [[], ["slot"], ["slot", "card"]] ∧
      (empty.applyAll refilledEdits).unreadable = [] ∧
      listings (Device.loadTree (.ofMount "/" (empty.applyAll refilledEdits).backend)
        "/slot").run.events = ["/slot"] ∧
      (Device.loadTree (.ofMount "/" (empty.applyAll refilledEdits).backend)
        "/slot").run.value.toOption.map (·.nodes.length) = some 1 ∧
      (Directory.locate (empty.applyAll refilledEdits).backend "/slot").run.value.toOption.map
        (fun d => (listings (d.readAll (empty.applyAll refilledEdits).backend).events,
          (d.readAll (empty.applyAll refilledEdits).backend).value.2.isOk)) =
            some (["/slot"], true) := by
  decide +kernel

end MemoryTree

end DeviceModel
