import Mathlib.Data.List.Induction
import Mathlib.Data.List.Nodup
import DeviceModel.Proofs.Path.Normal
import DeviceModel.Tree.Memory

/-!
What a tree holds that was built by edits, whatever was put over what.

A name may be announced without a node only at the root, by a path that is not absolute; in
every other directory the names are distinct and each has its node. What stood below a
directory that was replaced stays stored, but no directory announces it any more: `Sound` says
nothing of it beyond its names.
-/

namespace DeviceModel

open DeviceModel.Path (IsEntry)

namespace MemoryNode

/-- A directory with one name more at its end, if the name is new. -/
def announce (name : String) : MemoryNode → MemoryNode
  | directory children =>
    directory (if name ∈ children then children else children ++ [name])
  | n => n

/-- What stands in a place after a node was put there: a directory outlives a directory. -/
def replacing : MemoryNode → Option MemoryNode → MemoryNode
  | directory _, some (directory children) => directory children
  | n, _ => n

/-- A directory is put in the tree with no child. -/
def Bare (n : MemoryNode) : Prop := ∀ children, n = directory children → children = []

lemma bare_directory : (directory []).Bare := fun _ h => (directory.inj h).symm

lemma announce_eq_file {name : String} {n : MemoryNode} {c : Text.Bytes} {m : UInt32}
    (h : n.announce name = file c m) : n = file c m := by
  cases n with
  | directory children => cases h
  | file c' m' => exact h
  | link target => cases h

lemma replacing_eq_file {n : MemoryNode} {o : Option MemoryNode} {c : Text.Bytes} {m : UInt32}
    (h : n.replacing o = file c m) : n = file c m := by
  cases n with
  | directory children =>
    rcases o with _ | _ | _ | _ <;> cases h
  | file c' m' => exact h
  | link target => cases h

/-- A directory that stands in a place after a node was put there has no child, or stood
there before. -/
lemma replacing_eq_directory {n : MemoryNode} {o : Option MemoryNode} {children : List String}
    (hn : n.Bare) (h : n.replacing o = directory children) :
    children = [] ∨ o = some (directory children) := by
  cases n with
  | directory children' =>
    rcases o with _ | ⟨children'' | _ | _⟩
    · exact .inl (hn _ h)
    · exact .inr (congrArg some h)
    · exact .inl (hn _ h)
    · exact .inl (hn _ h)
  | file c m => cases h
  | link target => cases h

end MemoryNode

namespace MemoryTree

variable {t : MemoryTree} {here place : Place} {name : String} {n : MemoryNode}

/-! ### One name further down -/

/-- Announces a name in a directory and puts a node under it. -/
def enter (t : MemoryTree) (here : Place) (name : String) (n : MemoryNode) : MemoryTree :=
  (t.addChild here name).put (here ++ [name]) n

/-- An insertion enters its names one after the other. -/
lemma insertBelow_cons (t : MemoryTree) (here : Place) (n : MemoryNode) (name : String)
    (rest : List String) :
    t.insertBelow here n (name :: rest) =
      (t.enter here name (if rest = [] then n else .directory [])).insertBelow
        (here ++ [name]) n rest := by
  cases rest <;> rfl

lemma node?_addChild (t : MemoryTree) (here place : Place) (name : String) :
    (t.addChild here name).node? place =
      if place = here then (t.node? place).map (·.announce name) else t.node? place := by
  by_cases hp : place = here
  · subst hp
    rw [if_pos rfl, addChild]
    rcases hd : t.node? place with _ | ⟨children | _ | _⟩
    · exact hd
    · by_cases hc : name ∈ children
      · simp [hc, hd, MemoryNode.announce]
      · simp [hc, node?_set, MemoryNode.announce]
    · exact hd
    · exact hd
  · rw [if_neg hp, addChild]
    split
    · split
      · rfl
      · rw [node?_set, if_neg hp]
    · rfl

lemma node?_put (t : MemoryTree) (here place : Place) (n : MemoryNode) :
    (t.put here n).node? place =
      if place = here then some (n.replacing (t.node? place)) else t.node? place := by
  by_cases hp : place = here
  · subst hp
    rw [if_pos rfl]
    cases n with
    | directory children =>
      rcases hd : t.node? place with _ | ⟨_ | _ | _⟩ <;>
        simp [put, hd, node?_set, MemoryNode.replacing]
    | file c m => simp [put, node?_set, MemoryNode.replacing]
    | link target => simp [put, node?_set, MemoryNode.replacing]
  · rw [if_neg hp]
    unfold put
    split
    · rfl
    · rw [node?_set, if_neg hp]

/-- What one step of an insertion changes. -/
theorem node?_enter (t : MemoryTree) (here place : Place) (name : String) (n : MemoryNode) :
    (t.enter here name n).node? place =
      if place = here ++ [name] then some (n.replacing (t.node? place))
      else if place = here then (t.node? place).map (·.announce name)
      else t.node? place := by
  have hne : here ++ [name] ≠ here := by simp
  rw [enter, node?_put, node?_addChild]
  by_cases hp : place = here ++ [name]
  · subst hp
    rw [if_pos rfl, if_pos rfl, if_neg hne]
  · rw [if_neg hp, if_neg hp]

/-- Nothing is taken away by entering a name. -/
lemma node?_enter_ne_none (h : t.node? place ≠ none) :
    (t.enter here name n).node? place ≠ none := by
  rw [node?_enter]
  split
  · simp
  · split
    · simpa using h
    · exact h

/-! ### Soundness -/

/-- What holds of every tree that was built by edits. -/
structure Sound (t : MemoryTree) : Prop where
  isEntry : ∀ {place n}, t.node? place = some n → ∀ m ∈ place, IsEntry m
  nodup : ∀ {place children}, t.node? place = some (.directory children) → children.Nodup
  stored : ∀ {place children}, place ≠ [] → t.node? place = some (.directory children) →
    ∀ m ∈ children, t.node? (place ++ [m]) ≠ none

lemma node?_empty (place : Place) :
    empty.node? place = if place = [] then some (.directory []) else none := by
  unfold node? empty
  rw [Trie.get?_put, Trie.get?_empty]

lemma sound_empty : Sound empty := by
  refine ⟨fun {place n} h => ?_, fun {place children} h => ?_, fun {place children} hne h => ?_⟩
  · rw [node?_empty] at h
    split at h
    · next hp => simp [hp]
    · cases h
  · rw [node?_empty] at h
    split at h
    · cases h
      exact List.nodup_nil
    · cases h
  · rw [node?_empty, if_neg hne] at h
    cases h

lemma nodup_announced {children : List String} (h : children.Nodup) (name : String) :
    (if name ∈ children then children else children ++ [name]).Nodup := by
  split
  · exact h
  · next hn => simpa using h.concat hn

lemma mem_announced {children : List String} {name m : String}
    (h : m ∈ (if name ∈ children then children else children ++ [name])) :
    m ∈ children ∨ m = name := by
  split at h
  · exact .inl h
  · simpa using h

/-- A directory that got a name announced, looked at from after it. -/
lemma announced_eq_directory {o : Option MemoryNode} {children : List String}
    (h : o.map (·.announce name) = some (.directory children)) :
    ∃ children', o = some (.directory children') ∧
      children = if name ∈ children' then children' else children' ++ [name] := by
  rcases o with _ | ⟨children' | _ | _⟩
  · cases h
  · exact ⟨children', rfl, (MemoryNode.directory.inj (Option.some.inj h)).symm⟩
  · cases h
  · cases h

lemma Sound.isEntry_addChild (h : Sound t) (hn : (t.addChild here name).node? place = some n) :
    ∀ m ∈ place, IsEntry m := by
  rw [node?_addChild] at hn
  split at hn
  · obtain ⟨old, hold, -⟩ := Option.map_eq_some_iff.1 hn
    exact h.isEntry hold
  · exact h.isEntry hn

lemma Sound.nodup_addChild (h : Sound t) {children : List String}
    (hd : (t.addChild here name).node? place = some (.directory children)) : children.Nodup := by
  rw [node?_addChild] at hd
  split at hd
  · obtain ⟨children', hold, rfl⟩ := announced_eq_directory hd
    exact nodup_announced (h.nodup hold) name
  · exact h.nodup hd

/-- The root may announce a name that has no node. -/
lemma Sound.addChild_root (h : Sound t) (name : String) : Sound (t.addChild [] name) where
  isEntry := h.isEntry_addChild
  nodup := h.nodup_addChild
  stored := by
    intro place children hne hd m hm
    rw [node?_addChild, if_neg hne] at hd
    rw [node?_addChild, if_neg (by simp)]
    exact h.stored hne hd m hm

/-- A name that is announced in any other directory has its node at once. -/
lemma Sound.enter (h : Sound t) (hentry : ∀ m ∈ here ++ [name], IsEntry m) (hn : n.Bare) :
    Sound (t.enter here name n) where
  isEntry := by
    intro place m hm
    rw [MemoryTree.enter, node?_put] at hm
    split at hm
    · next hp => rwa [hp]
    · exact h.isEntry_addChild hm
  nodup := by
    intro place children hd
    rw [MemoryTree.enter, node?_put] at hd
    split at hd
    · rcases MemoryNode.replacing_eq_directory hn (Option.some.inj hd) with rfl | hold
      · exact List.nodup_nil
      · exact h.nodup_addChild hold
    · exact h.nodup_addChild hd
  stored := by
    intro place children hne hd m hm
    rw [node?_enter] at hd
    split at hd
    · -- at the place itself: a new directory is empty, and one that was there keeps its children
      rcases MemoryNode.replacing_eq_directory hn (Option.some.inj hd) with rfl | hold
      · cases hm
      · exact node?_enter_ne_none (h.stored hne hold m hm)
    · split at hd
      · -- above the place: the one name that is new has its node by the same insertion
        next hp =>
        subst hp
        obtain ⟨children', hold, rfl⟩ := announced_eq_directory hd
        rcases mem_announced hm with hm | rfl
        · exact node?_enter_ne_none (h.stored hne hold m hm)
        · rw [node?_enter, if_pos rfl]
          exact Option.some_ne_none _
      · exact node?_enter_ne_none (h.stored hne hd m hm)

lemma Sound.insertBelow {rest : List String} (h : Sound t) (hhere : ∀ m ∈ here, IsEntry m)
    (hrest : ∀ m ∈ rest, IsEntry m) (hn : n.Bare) : Sound (t.insertBelow here n rest) := by
  induction rest generalizing t here with
  | nil => exact h
  | cons name rest ih =>
    obtain ⟨hname, hrest⟩ := List.forall_mem_cons.1 hrest
    have hbelow := Path.isEntry_concat hhere hname
    rw [insertBelow_cons]
    refine ih (h.enter hbelow ?_) hbelow hrest
    split
    · exact hn
    · exact MemoryNode.bare_directory

/-! ### Edits -/

namespace Edit

def path : Edit → String
  | directory path | file path _ _ | link path _ | unreadable path => path

/-- What an edit puts at its path. -/
def node : Edit → MemoryNode
  | directory _ | unreadable _ => .directory []
  | file _ value mode => .file (Text.encode value) mode
  | link _ target => .link target

lemma bare_node (e : Edit) : e.node.Bare := by
  cases e with
  | directory _ | unreadable _ => exact MemoryNode.bare_directory
  | file _ _ _ | link _ _ => exact fun _ h => nomatch h

/-- An edit puts something at a place, or below it. -/
def Touches (e : Edit) (place : Place) : Prop :=
  Path.isAbsolute e.path = true ∧ place <+: address e.path

end Edit

/-- A mark changes no node. -/
lemma node?_apply (t : MemoryTree) (e : Edit) (place : Place) :
    (t.apply e).node? place = (t.insert e.path e.node).node? place := by
  cases e with
  | directory _ | file _ _ _ | link _ _ => rfl
  | unreadable path =>
    by_cases ha : Path.isAbsolute path = true
    · simp only [apply, if_pos ha]
      rfl
    · simp only [apply, if_neg ha]
      rfl

lemma isEntry_address {path : String} (h : Path.isAbsolute path = true) :
    ∀ m ∈ address path, IsEntry m := by
  obtain ⟨st, hst, hp⟩ := Path.exists_render_of_isAbsolute h
  rwa [address, hp, Path.names_render (Path.isName_of_isEntry hst)]

lemma Sound.insert (h : Sound t) (path : String) (hn : n.Bare) : Sound (t.insert path n) := by
  unfold MemoryTree.insert
  by_cases ha : Path.isAbsolute path = true
  · rw [if_pos ha]
    exact h.insertBelow (by simp) (isEntry_address ha) hn
  · rw [if_neg ha]
    split
    · exact h.addChild_root _
    · exact h

lemma Sound.apply (h : Sound t) (e : Edit) : Sound (t.apply e) := by
  have hi := h.insert e.path e.bare_node
  refine ⟨fun hd => ?_, fun hd => ?_, fun hne hd m hm => ?_⟩
  · exact hi.isEntry ((node?_apply t e _).symm.trans hd)
  · exact hi.nodup ((node?_apply t e _).symm.trans hd)
  · rw [node?_apply]
    exact hi.stored hne ((node?_apply t e _).symm.trans hd) m hm

/-- **Soundness** of every tree that was built by edits. -/
theorem sound_applyAll (edits : List Edit) : Sound (empty.applyAll edits) := by
  have hrun (t : MemoryTree) (h : Sound t) : Sound (t.applyAll edits) := by
    induction edits generalizing t with
    | nil => exact h
    | cons e edits ih => exact ih (t.apply e) (h.apply e)
  exact hrun empty sound_empty

lemma applyAll_concat (t : MemoryTree) (edits : List Edit) (e : Edit) :
    t.applyAll (edits ++ [e]) = (t.applyAll edits).apply e := by
  rw [applyAll, List.foldl_append]
  rfl

/-! ### Who wrote a file -/

/-- The text and the mode that a place got by the last edit that touched it. -/
def Wrote (edits : List Edit) (place : Place) (value : String) (mode : UInt32) : Prop :=
  ∃ before path after, edits = before ++ .file path value mode :: after ∧
    Path.isAbsolute path = true ∧ address path = place ∧ ∀ e ∈ after, ¬ e.Touches place

lemma file_of_enter {c : Text.Bytes} {m : UInt32}
    (h : (t.enter here name n).node? place = some (.file c m)) :
    (place = here ++ [name] ∧ n = .file c m) ∨
      (place ≠ here ++ [name] ∧ t.node? place = some (.file c m)) := by
  rw [node?_enter] at h
  split at h
  · next hp => exact .inl ⟨hp, MemoryNode.replacing_eq_file (Option.some.inj h)⟩
  · next hp =>
    refine .inr ⟨hp, ?_⟩
    split at h
    · obtain ⟨m', hm', he⟩ := Option.map_eq_some_iff.1 h
      rw [hm', MemoryNode.announce_eq_file he]
    · exact h

/-- A file found after an insertion was put there by it, or stood there and is not on the way
of the insertion. -/
lemma file_of_insertBelow {rest : List String} {c : Text.Bytes} {m : UInt32}
    (h : (t.insertBelow here n rest).node? place = some (.file c m)) :
    (place = here ++ rest ∧ rest ≠ [] ∧ n = .file c m) ∨
      ((∀ l, l ≠ [] → l <+: rest → place ≠ here ++ l) ∧ t.node? place = some (.file c m)) := by
  induction rest generalizing t here with
  | nil =>
    refine .inr ⟨fun l hl hp => ?_, h⟩
    exact absurd (List.prefix_nil.1 hp) hl
  | cons name rest ih =>
    rw [insertBelow_cons] at h
    rcases ih h with ⟨hp, hne, hn⟩ | ⟨hway, hold⟩
    · exact .inl ⟨by simpa using hp, by simp, hn⟩
    · rcases file_of_enter hold with ⟨hp, hn⟩ | ⟨hp, hold⟩
      · -- the name that was entered last holds the node itself, all others a directory
        by_cases hrest : rest = []
        · rw [if_pos hrest] at hn
          exact .inl ⟨by rw [hp, hrest], by simp, hn⟩
        · rw [if_neg hrest] at hn
          cases hn
      · refine .inr ⟨fun l hl hpre => ?_, hold⟩
        obtain ⟨a, l, rfl⟩ := List.exists_cons_of_ne_nil hl
        obtain ⟨rfl, hbelow⟩ := List.cons_prefix_cons.1 hpre
        by_cases hl' : l = []
        · rwa [hl']
        · rw [List.append_cons]
          exact hway l hl' hbelow

lemma file_of_insert {path : String} {c : Text.Bytes} {m : UInt32} (hne : place ≠ [])
    (h : (t.insert path n).node? place = some (.file c m)) :
    (Path.isAbsolute path = true ∧ address path = place ∧ n = .file c m) ∨
      (¬ (Path.isAbsolute path = true ∧ place <+: address path) ∧
        t.node? place = some (.file c m)) := by
  unfold MemoryTree.insert at h
  by_cases ha : Path.isAbsolute path = true
  · rw [if_pos ha] at h
    rcases file_of_insertBelow h with ⟨hp, -, hn⟩ | ⟨hway, hold⟩
    · exact .inl ⟨ha, hp.symm, hn⟩
    · exact .inr ⟨fun hpre => hway place hne hpre.2 rfl, hold⟩
  · rw [if_neg ha] at h
    refine .inr ⟨fun hpre => ha hpre.1, ?_⟩
    split at h
    · rwa [node?_addChild, if_neg hne] at h
    · exact h

lemma file_of_apply {e : Edit} {c : Text.Bytes} {m : UInt32} (hne : place ≠ [])
    (h : (t.apply e).node? place = some (.file c m)) :
    (∃ path value, e = .file path value m ∧ Path.isAbsolute path = true ∧ address path = place ∧
        c = Text.encode value) ∨
      (¬ e.Touches place ∧ t.node? place = some (.file c m)) := by
  rw [node?_apply] at h
  rcases file_of_insert hne h with ⟨ha, hp, hn⟩ | hkept
  · cases e with
    | file path value mode =>
      obtain ⟨hc, rfl⟩ := MemoryNode.file.inj hn
      exact .inl ⟨path, value, rfl, ha, hp, hc.symm⟩
    | directory _ | link _ _ | unreadable _ => cases hn
  · exact .inr hkept

/-- **What a file holds** is the text that the last edit at its place wrote. -/
theorem wrote_of_file {edits : List Edit} {c : Text.Bytes} {m : UInt32} (hne : place ≠ [])
    (h : (empty.applyAll edits).node? place = some (.file c m)) :
    ∃ value, c = Text.encode value ∧ Wrote edits place value m := by
  induction edits using List.reverseRecOn with
  | nil =>
    rw [applyAll_nil, node?_empty, if_neg hne] at h
    cases h
  | append_singleton edits e ih =>
    rw [applyAll_concat] at h
    rcases file_of_apply hne h with ⟨path, value, rfl, ha, hp, hc⟩ | ⟨hfree, hold⟩
    · exact ⟨value, hc, edits, path, [], rfl, ha, hp, by simp⟩
    · obtain ⟨value, hc, before, path, after, rfl, ha, hp, hafter⟩ := ih hold
      refine ⟨value, hc, before, path, after ++ [e], by simp, ha, hp, ?_⟩
      intro e' he'
      rcases List.mem_append.1 he' with he' | he'
      · exact hafter e' he'
      · rwa [List.mem_singleton.1 he']

end MemoryTree

end DeviceModel
