import DeviceModel.Proofs.Snapshot.Opening
import DeviceModel.Proofs.Snapshot.Relocate
import DeviceModel.Proofs.Tree.Answers

/-!
What a complete snapshot of a directory shows, in a tree that was built by edits.

The picture of a place is told from the nodes alone, with paths that start at the place. Reading
all below a path that leads to the place gives just that picture, put at the path; so snapshots
taken at any two such paths differ in the front of their paths only. What is in the picture is
what the directories list, level by level: `Shows`.
-/

namespace DeviceModel

open DeviceModel.Path (IsEntry)

namespace MemoryNode

def kind : MemoryNode → NodeKind
  | directory _ => .directory
  | file _ _ => .file
  | link _ => .symlink

/-- What is found of a node in the directory at `place`, with a path that starts there. -/
def shown (place : Place) (name : String) : MemoryNode → Item
  | directory _ => .subdir (.unread name ("/" ++ name))
  | file content mode => .attr ⟨name, "/" ++ name,
      if (Access.ofMode mode).shows then some (Text.decodeLossy content) else none,
      Access.ofMode mode⟩
  | link target => .link ⟨name, "/" ++ name, Path.resolve (Path.render place) target⟩

end MemoryNode

namespace MemoryTree

variable {t : MemoryTree} {place : Place} {path name : String} {depth : Nat}

/-! ### Depth -/

lemma length_le_height {n : MemoryNode} (h : t.node? place = some n) :
    place.length ≤ t.nodes.height := by
  apply Trie.length_le_height
  rw [← node?, h]
  exact Option.some_ne_none n

/-- From any place down, the depth of a tree goes beyond all nodes. -/
lemma height_lt (t : MemoryTree) (place : Place) : t.nodes.height < place.length + t.depth := by
  rw [depth]
  omega

/-! ### The picture of a place -/

/-- The names that the directory at a place announces. -/
def childrenAt (t : MemoryTree) (place : Place) : List String :=
  match t.node? place with
  | some (.directory children) => children
  | _ => []

lemma childrenAt_eq {children : List String} (h : t.node? place = some (.directory children)) :
    t.childrenAt place = children := by
  rw [childrenAt, h]

/-- What is found in the directory at a place. -/
def items (t : MemoryTree) (place : Place) : List Item :=
  (t.childrenAt place).filterMap fun name =>
    (t.node? (place ++ [name])).map (·.shown place name)

/-- The directory at a place with all below it, at most `depth` levels. -/
def picture (t : MemoryTree) : Nat → Place → Directory
  | 0, _ => .unread "" ""
  | depth + 1, place =>
    .listed "" "" ((t.items place).filterMap Item.attr?) ((t.items place).filterMap Item.link?)
      (((t.items place).filterMap Item.subdir?).map fun s =>
        (t.picture depth (place ++ [s.name])).placed s.name s.path)

lemma path_picture (t : MemoryTree) (depth : Nat) (place : Place) :
    (t.picture depth place).path = "" := by
  cases depth <;> rfl

lemma placed_picture_succ (t : MemoryTree) (depth : Nat) (place : Place) (name path : String) :
    (t.picture (depth + 1) place).placed name path =
      .listed name path (((t.items place).filterMap Item.attr?).map (·.relocate (path ++ ·)))
        (((t.items place).filterMap Item.link?).map (·.relocate (path ++ ·)))
        (((t.items place).filterMap Item.subdir?).map fun s =>
          (t.picture depth (place ++ [s.name])).placed s.name (path ++ s.path)) := by
  rw [picture, Directory.placed, Directory.relocate, Directory.rename, String.append_empty,
    Directory.relocateAll_eq_map, List.map_map]
  congr 1
  exact List.map_congr_left fun s _ => Directory.relocate_placed _ _ _ _

/-- What is found in a directory comes from the nodes that its names have. -/
lemma mem_items {α : Type} {found : Item → Option α} {a : α}
    (h : a ∈ (t.items place).filterMap found) :
    ∃ name ∈ t.childrenAt place, ∃ n, t.node? (place ++ [name]) = some n ∧
      found (n.shown place name) = some a := by
  obtain ⟨item, hitem, ha⟩ := List.mem_filterMap.1 h
  obtain ⟨name, hname, hn⟩ := List.mem_filterMap.1 hitem
  obtain ⟨n, hnode, rfl⟩ := Option.map_eq_some_iff.1 hn
  exact ⟨name, hname, n, hnode, ha⟩

lemma mem_subdirs_items {s : Directory} (h : s ∈ (t.items place).filterMap Item.subdir?) :
    ∃ name children, t.node? (place ++ [name]) = some (.directory children) ∧
      name ∈ t.childrenAt place ∧ s = .unread name ("/" ++ name) := by
  obtain ⟨name, hname, n, hn, hs⟩ := mem_items h
  cases n with
  | directory children => exact ⟨name, children, hn, hname, (Option.some.inj hs).symm⟩
  | file _ _ | link _ => cases hs

/-! ### Reading gives the picture -/

/-- Where the links of a directory are read from, if it has any. -/
lemma value_linkBase (h : Reaches t path place) (es : List Entry) :
    ∃ base, (Directory.linkBase t.backend path es).run.value = .ok base ∧
      ∀ e ∈ es, e.kind = .symlink → base = Path.render place := by
  unfold Directory.linkBase
  by_cases hany : es.any (·.kind = .symlink) = true
  · rw [if_pos hany]
    exact ⟨Path.render place, h.realPath_eq, fun _ _ _ => rfl⟩
  · rw [if_neg hany]
    refine ⟨path, rfl, fun e he hk => absurd ?_ hany⟩
    exact List.any_eq_true.2 ⟨e, he, by simpa using hk⟩

/-- What is made of the entry of a node is what the node shows. -/
lemma value_readEntry_of_reaches {base : String} {n : MemoryNode} {e : Entry} (ht : Sound t)
    (h : Reaches t path place) (hn : t.node? (place ++ [name]) = some n)
    (he : t.entry? place name = some e) (hbase : e.kind = .symlink → base = Path.render place) :
    (Directory.readEntry t.backend path base e).value =
      some ((n.shown place name).relocate (path ++ ·)) := by
  have hname : IsEntry name := ht.isEntry hn name (by simp)
  have hjoin : Path.join path name = path ++ ("/" ++ name) := by
    rw [h.join_eq hname, String.append_assoc]
  unfold entry? at he
  rw [hn, Option.map_some] at he
  rw [Directory.value_readEntry]
  cases n with
  | directory children =>
    cases he
    simp only [hjoin]
    rfl
  | file content mode =>
    cases he
    have hattr : t.backend.readAttr (Path.join path name) = .ok content :=
      (h.join ht hn (by simp)).readAttr_eq hn
    rw [hjoin] at hattr
    simp only [hjoin, hattr]
    rfl
  | link target =>
    cases he
    have hlink : t.backend.readLink (Path.join path name) = .ok target := h.readLink_eq ht hn
    rw [hjoin] at hlink
    simp only [hjoin, hlink, hbase rfl]
    rfl

/-- One level: a directory is read as what is found in it. -/
lemma value_read_of_reaches {children : List String} (ht : Sound t) (h : Reaches t path place)
    (hd : t.node? place = some (.directory children)) (hu : place ∉ t.unreadable) :
    ((Directory.unread name path).read t.backend).run.value =
      .ok (Directory.ofItems name path ((t.items place).map (·.relocate (path ++ ·)))) := by
  have hdir : t.backend.readDir path = .ok { entries := children.filterMap (t.entry? place) } :=
    h.readDir_eq hd hu
  obtain ⟨base, hbase, hlinks⟩ := value_linkBase h (children.filterMap (t.entry? place))
  have hitems : (Directory.readEntries t.backend path base
      (children.filterMap (t.entry? place))).value =
        (t.items place).map (·.relocate (path ++ ·)) := by
    rw [Directory.value_readEntries, List.filterMap_filterMap, items, childrenAt_eq hd,
      List.map_filterMap]
    -- name by name: what has no node is neither listed nor shown
    refine List.filterMap_congr fun name hname => ?_
    rcases hn : t.node? (place ++ [name]) with _ | n
    · unfold entry?
      rw [hn]
      rfl
    · obtain ⟨e, he⟩ : ∃ e, t.entry? place name = some e := by
        unfold entry?
        rw [hn]
        exact ⟨_, rfl⟩
      have hmem := List.mem_filterMap.2 ⟨name, hname, he⟩
      rw [he, Option.bind_some,
        value_readEntry_of_reaches ht h hn he fun hk => hlinks e hmem hk]
      rfl
  rw [Directory.value_read, Directory.path_unread, Directory.name_unread, hdir]
  simp only [Except.bind, hbase, hitems]

/-- The directories that are listed below a place, and the place itself. -/
inductive Beneath (t : MemoryTree) (top : Place) : Place → Prop
  | here : Beneath t top top
  | child {place : Place} {name : String} {children : List String} (h : Beneath t top place)
      (hname : name ∈ t.childrenAt place)
      (hn : t.node? (place ++ [name]) = some (.directory children)) :
      Beneath t top (place ++ [name])

lemma Beneath.trans {top mid : Place} (h : Beneath t top mid) (h' : Beneath t mid place) :
    Beneath t top place := by
  induction h' with
  | here => exact h
  | child _ hname hn ih => exact .child ih hname hn

lemma Beneath.starts {top : Place} (h : Beneath t top place) : top <+: place := by
  induction h with
  | here => exact List.prefix_rfl
  | child _ _ _ ih => exact ih.trans (List.prefix_append _ _)

/-- **Reading all below** a path that leads to a directory gives the picture of its place. -/
theorem value_readBelow (ht : Sound t) (hdepth : t.nodes.height < place.length + depth)
    (h : Reaches t path place) {children : List String}
    (hd : t.node? place = some (.directory children))
    (hu : ∀ q, Beneath t place q → q ∉ t.unreadable) :
    (Directory.readBelow t.backend depth (.unread name path)).value =
      ((t.picture depth place).placed name path, .ok ()) := by
  induction depth generalizing place path name children with
  | zero =>
    have hstored := length_le_height hd
    omega
  | succ depth ih =>
    have hread : ((Directory.unread name path).read t.backend).run.value =
        .ok (Directory.ofItems name path ((t.items place).map (·.relocate (path ++ ·)))) :=
      value_read_of_reaches ht h hd (hu place .here)
    have hsubdirs : ((t.items place).map (·.relocate (path ++ ·))).filterMap Item.subdir? =
        ((t.items place).filterMap Item.subdir?).map (·.relocate (path ++ ·)) :=
      Item.filterMap_relocate Item.subdir?_relocate _
    -- what was found unread is, one level further down, read as its own picture
    have hbelow : ∀ s ∈ ((t.items place).filterMap Item.subdir?).map (·.relocate (path ++ ·)),
        (Directory.readBelow t.backend depth s).value =
          ((t.picture depth (place ++ [s.name])).placed s.name s.path, .ok ()) := by
      intro s hs
      obtain ⟨found, hfound, rfl⟩ := List.mem_map.1 hs
      obtain ⟨name, children', hn, hname, rfl⟩ := mem_subdirs_items hfound
      have hreach := h.join ht hn (by simp)
      rw [h.join_eq (ht.isEntry hn name (by simp)), String.append_assoc] at hreach
      refine ih ?_ hreach hn fun q hq => hu q (.trans (.child .here hname hn) hq)
      rw [List.length_append, List.length_singleton]
      omega
    rw [← hsubdirs] at hbelow
    rw [Directory.value_readBelow_succ t.backend hread hbelow, placed_picture_succ]
    simp only [Directory.ofItems, Directory.name_listed, Directory.path_listed,
      Directory.subdirs_listed, hsubdirs, List.map_map]
    congr 2
    · exact Item.filterMap_relocate Item.attr?_relocate _
    · exact Item.filterMap_relocate Item.link?_relocate _
    · exact List.map_congr_left fun s _ => by simp

end MemoryTree

end DeviceModel
