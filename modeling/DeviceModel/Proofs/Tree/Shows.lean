import DeviceModel.Proofs.Tree.Picture

/-!
Complete snapshots of a tree that was built by edits, against the edits.

`Shows` says of one directory what a snapshot shows: the names it lists, in order and each once,
as files, links or directories by what they are, with the text that was last written to each
file. `ShowsAll` says so of a directory and all below it, and leaves no choice but in the name
and the path of the whole.
-/

namespace DeviceModel

namespace MemoryTree

variable {t : MemoryTree} {edits : List Edit} {place : Place} {name path : String}
  {depth : Nat} {d : Directory}

/-- The names that a directory lists for nodes of one kind. -/
def namesOf (t : MemoryTree) (kind : NodeKind) (place : Place) : List String :=
  (t.childrenAt place).filter fun name => (t.node? (place ++ [name])).map (·.kind) = some kind

/-- What is picked for the nodes of one kind has their names, in the order of the listing. -/
lemma map_name_items {α : Type} {pick : Item → Option α} {nameOf : α → String} {kind : NodeKind}
    (h : ∀ name n, (pick (MemoryNode.shown place name n)).map nameOf =
      if n.kind = kind then some name else none) :
    ((t.items place).filterMap pick).map nameOf = t.namesOf kind place := by
  rw [items, List.filterMap_filterMap, List.map_filterMap, namesOf, ← List.filterMap_eq_filter]
  refine List.filterMap_congr fun name _ => ?_
  rcases hn : t.node? (place ++ [name]) with _ | n
  · simp only [Option.guard, hn]
    rfl
  · simp only [Option.guard, hn, Option.map_some, Option.bind_some, h name n, Option.some.injEq,
      decide_eq_true_eq]

/-! ### One directory -/

/-- A snapshot of the directory at a place shows what the directory lists. -/
structure Shows (edits : List Edit) (place : Place) (d : Directory) : Prop where
  listed : d.isListed = true
  directory : ∃ children, (empty.applyAll edits).node? place = some (.directory children)
  nodup : ((empty.applyAll edits).childrenAt place).Nodup
  stored : ∀ n ∈ (empty.applyAll edits).childrenAt place,
    (empty.applyAll edits).node? (place ++ [n]) ≠ none
  files : d.attributes.map (·.name) = (empty.applyAll edits).namesOf .file place
  links : d.links.map (·.name) = (empty.applyAll edits).namesOf .symlink place
  subdirs : d.subdirs.map (·.name) = (empty.applyAll edits).namesOf .directory place
  /-- A file has the text that was last written, if its owner may read it. -/
  file : ∀ a ∈ d.attributes, ∃ value mode,
    (empty.applyAll edits).node? (place ++ [a.name]) = some (.file (Text.encode value) mode) ∧
      Wrote edits (place ++ [a.name]) value mode ∧
        a = ⟨a.name, d.path ++ ("/" ++ a.name),
          if (Access.ofMode mode).shows then some value else none, Access.ofMode mode⟩
  link : ∀ l ∈ d.links, ∃ target,
    (empty.applyAll edits).node? (place ++ [l.name]) = some (.link target) ∧
      l = ⟨l.name, d.path ++ ("/" ++ l.name), Path.resolve (Path.render place) target⟩
  subdir : ∀ s ∈ d.subdirs, s.path = d.path ++ ("/" ++ s.name)

/-- A snapshot shows the directory at a place and all that is listed below it. -/
inductive ShowsAll (edits : List Edit) : Place → Directory → Prop
  | level {place : Place} {d : Directory} (h : Shows edits place d)
      (below : ∀ s ∈ d.subdirs, ShowsAll edits (place ++ [s.name]) s) : ShowsAll edits place d

/-- What stands in a list by its name alone is told by the names. -/
lemma eq_of_map_name_eq {α : Type} {nameOf : α → String} {l l' : List α}
    (h : l.map nameOf = l'.map nameOf)
    (hone : ∀ a ∈ l, ∀ a' ∈ l', nameOf a = nameOf a' → a = a') : l = l' := by
  induction l generalizing l' with
  | nil => exact (List.map_eq_nil_iff.1 h.symm).symm
  | cons a l ih =>
    cases l' with
    | nil => cases h
    | cons a' l' =>
      obtain ⟨hname, hrest⟩ := List.cons.inj h
      rw [hone a List.mem_cons_self a' List.mem_cons_self hname, ih hrest]
      exact fun b hb b' hb' =>
        hone b (List.mem_cons_of_mem _ hb) b' (List.mem_cons_of_mem _ hb')

/-- **Nothing else is shown**: two complete snapshots of a place with one name and one path are
the same. -/
theorem ShowsAll.unique {d' : Directory} (h : ShowsAll edits place d)
    (h' : ShowsAll edits place d') (hname : d.name = d'.name) (hpath : d.path = d'.path) :
    d = d' := by
  induction h generalizing d' with
  | @level place d h below ih =>
    obtain ⟨h', below'⟩ := h'
    -- files and links are told by the nodes, and directories by those below them
    have hattributes : d.attributes = d'.attributes := by
      refine eq_of_map_name_eq (h.files.trans h'.files.symm) fun a ha a' ha' he => ?_
      obtain ⟨value, mode, hn, -, hshown⟩ := h.file a ha
      obtain ⟨value', mode', hn', -, hshown'⟩ := h'.file a' ha'
      rw [he] at hn
      obtain ⟨hbytes, rfl⟩ := MemoryNode.file.inj (Option.some.inj (hn.symm.trans hn'))
      obtain rfl := Text.encode_injective hbytes
      rw [hshown, hshown', he, hpath]
    have hlinks : d.links = d'.links := by
      refine eq_of_map_name_eq (h.links.trans h'.links.symm) fun l hl l' hl' he => ?_
      obtain ⟨target, hn, hshown⟩ := h.link l hl
      obtain ⟨target', hn', hshown'⟩ := h'.link l' hl'
      rw [he] at hn
      obtain rfl := MemoryNode.link.inj (Option.some.inj (hn.symm.trans hn'))
      rw [hshown, hshown', he, hpath]
    have hsubdirs : d.subdirs = d'.subdirs := by
      refine eq_of_map_name_eq (h.subdirs.trans h'.subdirs.symm) fun s hs s' hs' he => ?_
      have hs'' : ShowsAll edits (place ++ [s.name]) s' := he ▸ below' s' hs'
      refine ih s hs hs'' he ?_
      rw [h.subdir s hs, h'.subdir s' hs', he, hpath]
    cases d with
    | unread n p => cases h.listed
    | listed n p as ls ds =>
      cases d' with
      | unread n' p' => cases h'.listed
      | listed n' p' as' ls' ds' =>
        simp only [Directory.name_listed, Directory.path_listed] at hname hpath
        simp only [Directory.attributes] at hattributes
        simp only [Directory.links] at hlinks
        simp only [Directory.subdirs_listed] at hsubdirs
        rw [hname, hpath, hattributes, hlinks, hsubdirs]

/-! ### What the picture shows -/

lemma shows_picture {children : List String} (hne : place ≠ [])
    (hd : (empty.applyAll edits).node? place = some (.directory children)) :
    Shows edits place (((empty.applyAll edits).picture (depth + 1) place).placed name path) := by
  have ht := sound_applyAll edits
  have hsubdirs : (((empty.applyAll edits).items place).filterMap Item.subdir?).map
      Directory.name = (empty.applyAll edits).namesOf .directory place :=
    map_name_items fun name n => by cases n <;> rfl
  rw [placed_picture_succ]
  exact {
    listed := rfl
    directory := ⟨children, hd⟩
    nodup := by
      rw [childrenAt_eq hd]
      exact ht.nodup hd
    stored := by
      rw [childrenAt_eq hd]
      exact ht.stored hne hd
    files := by
      rw [Directory.attributes, List.map_map]
      exact map_name_items fun name n => by cases n <;> rfl
    links := by
      rw [Directory.links, List.map_map]
      exact map_name_items fun name n => by cases n <;> rfl
    subdirs := by
      rw [Directory.subdirs_listed, List.map_map, ← hsubdirs]
      exact List.map_congr_left fun s _ => Directory.name_placed _
    file := by
      intro a ha
      obtain ⟨found, hfound, rfl⟩ := List.mem_map.1 ha
      obtain ⟨name, -, n, hn, hshown⟩ := mem_items hfound
      cases n with
      | directory _ | link _ => cases hshown
      | file content mode =>
        cases hshown
        -- the content of a file was written by an edit, so it is the code of a text
        obtain ⟨value, rfl, hwrote⟩ := wrote_of_file (by simp) hn
        refine ⟨value, mode, hn, hwrote, ?_⟩
        rw [Text.decodeLossy_encode]
        rfl
    link := by
      intro l hl
      obtain ⟨found, hfound, rfl⟩ := List.mem_map.1 hl
      obtain ⟨name, -, n, hn, hshown⟩ := mem_items hfound
      cases n with
      | directory _ | file _ _ => cases hshown
      | link target =>
        cases hshown
        exact ⟨target, hn, rfl⟩
    subdir := by
      intro s hs
      obtain ⟨found, hfound, rfl⟩ := List.mem_map.1 hs
      obtain ⟨name, children', -, -, rfl⟩ := mem_subdirs_items hfound
      rw [Directory.path_placed, path_picture, Directory.name_placed, String.append_empty]
      rfl }

/-- The picture of a place, put anywhere, shows all that is listed there. -/
theorem showsAll_picture {children : List String} (hne : place ≠ [])
    (hd : (empty.applyAll edits).node? place = some (.directory children))
    (hdepth : (empty.applyAll edits).nodes.height < place.length + depth) :
    ShowsAll edits place (((empty.applyAll edits).picture depth place).placed name path) := by
  induction depth generalizing place name path children with
  | zero =>
    have hstored := length_le_height hd
    omega
  | succ depth ih =>
    refine .level (shows_picture hne hd) fun s hs => ?_
    rw [placed_picture_succ] at hs
    obtain ⟨found, hfound, rfl⟩ := List.mem_map.1 hs
    obtain ⟨name, children', hn, -, rfl⟩ := mem_subdirs_items hfound
    rw [Directory.name_placed]
    refine ih (by simp) hn ?_
    rw [Directory.name_unread, List.length_append, List.length_singleton]
    omega

/-! ### Complete snapshots -/

/-- Opening a path and reading all below it succeeds, and gives a snapshot. -/
def ReadsTo (t : MemoryTree) (path : String) (d : Directory) : Prop :=
  ∃ found, (Directory.locate t.backend path).run.value = .ok found ∧
    (Directory.readAll t.backend found).value = (d, .ok ())

/-- A path whose normal form reaches a directory is read to the picture of the directory. -/
lemma readsTo_picture {children : List String} (ht : Sound t)
    (h : Reaches t (Path.normalize path) place)
    (hd : t.node? place = some (.directory children))
    (hu : ∀ q, Beneath t place q → q ∉ t.unreadable) :
    ∃ name, ReadsTo t path ((t.picture t.depth place).placed name (Path.normalize path)) := by
  obtain ⟨name, hname⟩ := h.exists_nameOf
  have hstat : t.backend.stat (Path.normalize path) = .ok .directory := h.stat_eq hd
  have hfound := (Directory.locate_eq_ok_iff t.backend).2 ⟨h.ne_empty, name, hname, hstat, rfl⟩
  refine ⟨name, _, hfound, ?_⟩
  rw [Directory.readAll_unread]
  exact value_readBelow ht (height_lt t place) h hd hu

/-- **Complete snapshots** of a tree that was built by edits: wherever a path leads to a directory
other than the root, and no directory that is listed from there down is marked unreadable, opening
the path and reading all below it succeeds and shows just what the directories list. At the path
and at the place that it leads to, the snapshot is one and the same but for its name and what
stands in front of its paths. -/
theorem readAll_shows (edits : List Edit) {p r : String}
    (hp : (empty.applyAll edits).realPath p = .ok r) (hr : r ≠ "/")
    (hd : (empty.applyAll edits).stat r = .ok .directory)
    (hu : ∀ place, Beneath (empty.applyAll edits) (address r) place →
      place ∉ (empty.applyAll edits).unreadable) :
    ∃ (shape : Directory) (n m : String), shape.path = "" ∧
      ReadsTo (empty.applyAll edits) p (shape.placed n (Path.normalize p)) ∧
      ReadsTo (empty.applyAll edits) r (shape.placed m r) ∧
      ShowsAll edits (address r) (shape.placed n (Path.normalize p)) ∧
      ShowsAll edits (address r) (shape.placed m r) := by
  have ht := sound_applyAll edits
  obtain ⟨place, hres, rfl⟩ := realPath_eq_ok_iff.1 hp
  have hne : place ≠ [] := by
    rintro rfl
    exact hr rfl
  have hfrom := reaches_normalize ht hres (address_ne_nil hres hne)
  have hat := reaches_render ht hres hne
  have haddress : address (Path.render place) = place := address_render (hat.isEntry ht)
  rw [haddress] at hu ⊢
  obtain ⟨place', children, hres', hdir⟩ := stat_eq_directory_iff.1 hd
  obtain rfl : place = place' := Except.ok.inj (hat.resolve_eq.symm.trans hres')
  have hdepth := height_lt (empty.applyAll edits) place
  -- both paths reach one place, and what is read is its picture
  obtain ⟨n, hn⟩ := readsTo_picture ht hfrom hdir hu
  obtain ⟨m, hm⟩ := readsTo_picture ht (hat.normalize_eq.symm ▸ hat) hdir hu
  rw [hat.normalize_eq] at hm
  exact ⟨_, n, m, path_picture _ _ _, hn, hm, showsAll_picture hne hdir hdepth,
    showsAll_picture hne hdir hdepth⟩

/-- A network card reached by a link, beside a directory that may not be listed. Its file `reset`
may not be read; the name `loose` is announced at the root, and has no node. -/
def netEdits : List Edit :=
  [.file "/dev/card/power/state" "on" 0o444, .file "/dev/card/reset" "1" 0o200,
    .link "/dev/card/bus" "../../bus", .unreadable "/bus", .link "/net" "dev/card",
    .file "loose" "" 0o444]

theorem readAll_net_shows :
    ∃ (shape : Directory) (n m : String), shape.path = "" ∧
      ReadsTo (empty.applyAll netEdits) "/net/" (shape.placed n "/net") ∧
      ReadsTo (empty.applyAll netEdits) "/dev/card" (shape.placed m "/dev/card") ∧
      ShowsAll netEdits ["dev", "card"] (shape.placed n "/net") ∧
      ShowsAll netEdits ["dev", "card"] (shape.placed m "/dev/card") := by
  have hu : ∀ place, Beneath (empty.applyAll netEdits) (address "/dev/card") place →
      place ∉ (empty.applyAll netEdits).unreadable := by
    intro place h hplace
    have hbus : (empty.applyAll netEdits).unreadable = [["bus"]] := by decide +kernel
    rw [hbus, List.mem_singleton] at hplace
    have hstarts := h.starts
    rw [hplace] at hstarts
    revert hstarts
    decide +kernel
  exact readAll_shows netEdits (by decide +kernel) (by decide) (by decide +kernel) hu

end MemoryTree

end DeviceModel
