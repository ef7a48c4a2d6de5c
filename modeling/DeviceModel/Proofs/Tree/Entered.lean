import DeviceModel.Proofs.Tree.Announced

/-!
What one edit does to a tree.

A directory, a file or a link that is put at an absolute path is found there. On the way to it stand
directories; each that stood there before keeps its names in their order and has the next name on
the way, and nothing else is changed.
-/

namespace DeviceModel.MemoryTree

open DeviceModel.Path (IsEntry)

variable {t u : MemoryTree} {last : Bool} {here place q : Place} {name m path : String}
  {n : MemoryNode} {rest l : List String}

/-! ### One insertion -/

/-- A directory that is put at a place has the children of the one that is there. -/
lemma replacing_node? (t : MemoryTree) (q : Place) :
    (MemoryNode.directory []).replacing (t.node? q) = .directory (t.childrenAt q) := by
  unfold childrenAt
  rcases t.node? q with _ | ⟨_ | _ | _⟩ <;> rfl

lemma childrenAt_of_not_hasDirectory (h : ¬ t.HasDirectory q) : t.childrenAt q = [] := by
  unfold childrenAt
  rcases hn : t.node? q with _ | ⟨children | _ | _⟩
  · rfl
  · exact absurd ⟨children, hn⟩ h
  · rfl
  · rfl

/-- At the end of its way stands what is inserted, or the directory that was there. -/
lemma node?_insertBelow_end (hrest : rest ≠ []) :
    (t.insertBelow here n rest).node? (here ++ rest) =
      some (n.replacing (t.node? (here ++ rest))) := by
  induction rest generalizing t here with
  | nil => exact absurd rfl hrest
  | cons name rest ih =>
    rw [insertBelow_cons]
    by_cases hend : rest = []
    · subst hend
      rw [if_pos rfl, insertBelow, node?_enter, if_pos rfl]
    · rw [if_neg hend, List.append_cons here name rest, ih hend, node?_enter,
        if_neg (by simpa using hend), if_neg (by simp)]

/-- On its way stand directories, with the next name among their children. -/
theorem node?_insertBelow_onWay (hhere : t.HasDirectory here) (hl : l ++ [m] <+: rest) :
    (t.insertBelow here n rest).node? (here ++ l) =
      some ((MemoryNode.directory (t.childrenAt (here ++ l))).announce m) := by
  induction rest generalizing t here l with
  | nil => simp at hl
  | cons name rest ih =>
    rw [insertBelow_cons]
    cases l with
    | nil =>
      -- the first name is announced here, and what is entered further down leaves it so
      obtain ⟨rfl, -⟩ := List.cons_prefix_cons.1 hl
      obtain ⟨children, hd⟩ := hhere
      rw [List.append_nil, node?_insertBelow_of_not_onWay (by simp), node?_enter,
        if_neg (by simp), if_pos rfl, childrenAt_eq hd, hd]
      rfl
    | cons a l =>
      rw [List.cons_append] at hl
      obtain ⟨rfl, hbelow⟩ := List.cons_prefix_cons.1 hl
      have hrest : rest ≠ [] := by
        rintro rfl
        simp at hbelow
      have hentered : (t.enter here a (.directory [])).node? (here ++ [a]) =
          some (.directory (t.childrenAt (here ++ [a]))) := by
        rw [node?_enter, if_pos rfl, replacing_node?]
      -- entering the first name changes no child list at it or below it
      have hsame : (t.enter here a (.directory [])).childrenAt (here ++ [a] ++ l) =
          t.childrenAt (here ++ [a] ++ l) := by
        by_cases hnil : l = []
        · rw [hnil, List.append_nil, childrenAt_eq hentered]
        · refine childrenAt_congr ?_
          rw [node?_enter, if_neg (by simpa using hnil), if_neg (by simp)]
      rw [if_neg hrest, List.append_cons here a l, ih ⟨_, hentered⟩ hbelow, hsame]

lemma unreadable_addChild (t : MemoryTree) (here : Place) (name : String) :
    (t.addChild here name).unreadable = t.unreadable := by
  unfold addChild
  split
  · split <;> rfl
  · rfl

lemma unreadable_put (t : MemoryTree) (here : Place) (n : MemoryNode) :
    (t.put here n).unreadable = t.unreadable := by
  unfold put
  split <;> rfl

/-- An insertion leaves the marks. -/
lemma unreadable_insertBelow (t : MemoryTree) (here : Place) (n : MemoryNode)
    (rest : List String) : (t.insertBelow here n rest).unreadable = t.unreadable := by
  induction rest generalizing t here with
  | nil => rfl
  | cons name rest ih => rw [insertBelow_cons, ih, enter, unreadable_put, unreadable_addChild]

/-! ### One edit -/

/-- How a tree was changed by putting something at a place. -/
structure Entered (t u : MemoryTree) (place : Place) : Prop where
  /-- Above the place stand directories. One that was there keeps its names in their order, with the
  next name at the end unless it has it; in place of anything else stands a new one. -/
  above : ∀ q m, q ++ [m] <+: place → ∃ children, u.node? q = some (.directory children) ∧
    m ∈ children ∧ children.Nodup ∧
    (∀ old, t.node? q = some (.directory old) →
      children = if m ∈ old then old else old ++ [m]) ∧
    (¬ t.HasDirectory q → children = [m])
  stat_above : ∀ q, q <+: place → q ≠ place → u.stat (Path.render q) = .ok .directory
  /-- What is not above the place, nor at it, is as it was. -/
  frame : ∀ q, ¬ q <+: place → u.node? q = t.node? q
  unreadable : u.unreadable = t.unreadable

/-- Above a place is what has one name more on the way to it. -/
lemma exists_concat_prefix (h : q <+: place) (hne : q ≠ place) : ∃ m, q ++ [m] <+: place := by
  obtain ⟨rest, rfl⟩ := h
  cases rest with
  | nil => simp at hne
  | cons m rest => exact ⟨m, rest, by simp⟩

/-- The way down by directories to a place where something stands. -/
lemma leads_of_directories
    (habove : ∀ q m, q ++ [m] <+: place → u.HasDirectory q) (hn : u.node? place = some n)
    (hlink : ∀ target, n = .link target → last = false) : Leads u last [] place 0 place := by
  refine leads_zero_iff.2 ⟨rfl, fun l _ hl => ?_⟩
  by_cases hend : l = place
  · exact ⟨n, by rwa [hend], fun target he => ⟨hlink target he, hend⟩⟩
  · obtain ⟨m, hm⟩ := exists_concat_prefix hl hend
    obtain ⟨children, hd⟩ := habove l m hm
    exact ⟨_, hd, by simp⟩

section

variable {e : Edit}

/-- What stands at the path of an edit afterwards. -/
lemma node?_apply_end (he : Path.isAbsolute e.path = true) (hne : address e.path ≠ []) :
    (t.apply e).node? (address e.path) =
      some (e.node.replacing (t.node? (address e.path))) := by
  rw [node?_apply, insert, if_pos he]
  exact node?_insertBelow_end hne

lemma node?_apply_onWay (hroot : t.HasDirectory []) (he : Path.isAbsolute e.path = true)
    (hq : q ++ [m] <+: address e.path) :
    (t.apply e).node? q = some ((MemoryNode.directory (t.childrenAt q)).announce m) := by
  rw [node?_apply, insert, if_pos he]
  exact node?_insertBelow_onWay hroot hq

/-- **One edit**, of a directory, a file or a link. -/
theorem entered_apply (ht : Sound t) (hroot : t.HasDirectory [])
    (he : Path.isAbsolute e.path = true) (hmark : ∀ path, e ≠ .unreadable path) :
    Entered t (t.apply e) (address e.path) where
  above q m hq := by
    have hd := node?_apply_onWay hroot he hq
    refine ⟨_, hd, ?_, (ht.apply e).nodup hd, fun old hold => ?_, fun hnone => ?_⟩
    · split
      · assumption
      · simp
    · rw [childrenAt_eq hold]
    · rw [childrenAt_of_not_hasDirectory hnone]
      simp
  stat_above q hq hne := by
    have hentry : ∀ m ∈ q, IsEntry m := fun m hm => isEntry_address he m (hq.subset hm)
    obtain ⟨m, hm⟩ := exists_concat_prefix hq hne
    have hd := node?_apply_onWay hroot he hm
    -- a directory stands at each name down to here, so no link is followed on the way
    have hdown : Leads (t.apply e) true [] q 0 q := by
      refine leads_of_directories (fun q' m' hq' => ?_) hd (by simp [MemoryNode.announce])
      exact ⟨_, node?_apply_onWay hroot he (hq'.trans hq)⟩
    exact stat_eq_directory_iff.2 ⟨q, _, resolve_render hentry hdown, hd⟩
  frame q hq := node?_apply_of_not_touches he fun h => hq h.2
  unreadable := by
    have hinsert : t.apply e = t.insert e.path e.node := by
      cases e with
      | directory _ | file _ _ _ | link _ _ => rfl
      | unreadable path => exact absurd rfl (hmark path)
    rw [hinsert, insert, if_pos he, unreadable_insertBelow]

/-- What was put at a path is reached by it, a link only as itself. -/
lemma leads_apply (hroot : t.HasDirectory []) (he : Path.isAbsolute e.path = true)
    (hn : (t.apply e).node? (address e.path) = some n)
    (hlink : ∀ target, n = .link target → last = false) :
    Leads (t.apply e) last [] (address e.path) 0 (address e.path) :=
  leads_of_directories (fun _ _ hq => ⟨_, node?_apply_onWay hroot he hq⟩) hn hlink

lemma resolve_apply (hroot : t.HasDirectory []) (he : Path.isAbsolute e.path = true)
    (hn : (t.apply e).node? (address e.path) = some n) (hlink : ∀ target, n ≠ .link target) :
    (t.apply e).resolve e.path = .ok (address e.path) :=
  resolve_eq_ok_iff.2 ⟨0, Nat.zero_le _,
    leads_apply hroot he hn fun target h => absurd h (hlink target)⟩

end

lemma address_ne_nil_of_normalize (h : Path.normalize path ≠ "/") : address path ≠ [] :=
  fun hnil => h (Path.normalize_eq_root hnil)

/-- **What one edit does** to a tree that was built by edits. At an absolute path, the root apart, a
file is found with what was written, a link with its target, and a directory with what was in it if
it was there. Above the path stand directories that are as they were but for the next name, and
nothing else is changed. -/
theorem apply_enters {edits : List Edit} (ht : empty.applyAll edits = t)
    {p : String} (hp : Path.isAbsolute p = true) (hne : Path.normalize p ≠ "/")
    (value target : String) (mode : UInt32) :
    ((t.apply (.file p value mode)).readAttr p = .ok (Text.encode value) ∧
      (t.apply (.file p value mode)).stat p = .ok .file ∧
      Entered t (t.apply (.file p value mode)) (address p)) ∧
    ((t.apply (.link p target)).readLink p = .ok target ∧
      Entered t (t.apply (.link p target)) (address p)) ∧
    ((t.apply (.directory p)).stat p = .ok .directory ∧
      (t.apply (.directory p)).node? (address p) = some (.directory (t.childrenAt (address p))) ∧
      Entered t (t.apply (.directory p)) (address p)) := by
  have hsound : Sound t := ht ▸ sound_applyAll edits
  have hroot : t.HasDirectory [] := ht ▸ hasDirectory_root_applyAll edits
  have hplace := address_ne_nil_of_normalize hne
  -- the frame is the same for all three; they differ in what stands at the end
  have hentered (e : Edit) (he : e.path = p) (hmark : ∀ path, e ≠ .unreadable path) :
      Entered t (t.apply e) (address p) := by
    subst he
    exact entered_apply hsound hroot hp hmark
  have hfile : (t.apply (.file p value mode)).node? (address p) =
      some (.file (Text.encode value) mode) := node?_apply_end hp hplace
  have hlink : (t.apply (.link p target)).node? (address p) = some (.link target) :=
    node?_apply_end hp hplace
  have hdir : (t.apply (.directory p)).node? (address p) =
      some (.directory (t.childrenAt (address p))) := by
    rw [← replacing_node?]
    exact node?_apply_end hp hplace
  have hresFile : (t.apply (.file p value mode)).resolve p = .ok (address p) :=
    resolve_apply (e := .file p value mode) hroot hp hfile (by simp)
  have hresDir : (t.apply (.directory p)).resolve p = .ok (address p) :=
    resolve_apply (e := .directory p) hroot hp hdir (by simp)
  have hleads : Leads (t.apply (.link p target)) false [] (address p) 0 (address p) :=
    leads_apply (e := .link p target) hroot hp hlink (by simp)
  refine ⟨⟨?_, stat_of_resolve hresFile hfile, hentered _ rfl (by simp)⟩,
    ⟨?_, hentered _ rfl (by simp)⟩,
    stat_of_resolve hresDir hdir, hdir, hentered _ rfl (by simp)⟩
  · simp [readAttr, hresFile, hfile, bind, Except.bind, pure, Except.pure]
  · refine readLink_eq_ok_iff.2 ⟨address p, ?_, hlink⟩
    exact (resolveWithin_eq_ok_iff _ _ _ _ _).2 ⟨0, Nat.zero_le _, hleads⟩

/-- A room with a window that is a link to the street. -/
def roomEdits : List Edit :=
  [.directory "/room/lamp/bulb", .link "/room/window" "../street", .file "/room/door" "shut" 0o444,
    .directory "/street/window"]

/-- A pane that is put into the window: it stands in the room, not in the street. -/
def paneEdit : Edit := .file "/room/window/./pane" "clear" 0o644

theorem apply_pane_enters :
    ((empty.applyAll roomEdits).apply paneEdit).readAttr "/room/window/./pane" =
        .ok (Text.encode "clear") ∧
      ((empty.applyAll roomEdits).apply paneEdit).stat "/room/window" = .ok .directory ∧
      ((empty.applyAll roomEdits).apply paneEdit).node? ["room"] =
        some (.directory ["lamp", "window", "door"]) ∧
      ((empty.applyAll roomEdits).apply paneEdit).node? ["room", "window"] =
        some (.directory ["pane"]) ∧
      ((empty.applyAll roomEdits).apply paneEdit).node? ["street"] =
        some (.directory ["window"]) := by
  obtain ⟨⟨hread, -, hentered⟩, -⟩ := apply_enters (p := "/room/window/./pane") rfl
    (by decide) (by decide +kernel) "clear" "../street" 0o644
  have hroom : (empty.applyAll roomEdits).node? ["room"] =
      some (.directory ["lamp", "window", "door"]) := by decide +kernel
  have hstreet : (empty.applyAll roomEdits).node? ["street"] = some (.directory ["window"]) := by
    decide +kernel
  have hwindow : ¬ (empty.applyAll roomEdits).HasDirectory ["room", "window"] := by
    have hlink : (empty.applyAll roomEdits).node? ["room", "window"] =
        some (.link "../street") := by
      decide +kernel
    rintro ⟨children, hd⟩
    rw [hlink] at hd
    cases hd
  obtain ⟨children, hd, -, -, hold, -⟩ := hentered.above ["room"] "window" (by decide +kernel)
  obtain ⟨children', hd', -, -, -, hnew⟩ := hentered.above ["room", "window"] "pane"
    (by decide +kernel)
  exact ⟨hread, hentered.stat_above ["room", "window"] (by decide +kernel) (by decide +kernel),
    hd.trans (by rw [hold _ hroom]; rfl), hd'.trans (by rw [hnew hwindow]),
    (hentered.frame ["street"] (by decide +kernel)).trans hstreet⟩

end DeviceModel.MemoryTree
