import DeviceModel.Proofs.Tree.Below

/-!
Which names a directory announces, in a tree that was built by edits.

An edit announces every name on its way, in the directory above it. A directory that is replaced by
a file or a link announces nothing any more, and starts anew if it is put back; but what stood below
it is still found by its path. So what is found at its own place is listed there just if it was
announced since its directory was last replaced.
-/

namespace DeviceModel.MemoryTree

open DeviceModel.Path (IsEntry)

variable {t : MemoryTree} {here place : Place} {name m : String} {n : MemoryNode}
  {rest : List String}

lemma childrenAt_congr {u : MemoryTree} (h : u.node? place = t.node? place) :
    u.childrenAt place = t.childrenAt place := by
  rw [childrenAt, h, ← childrenAt]

/-! ### One insertion -/

/-- What one step of an insertion announces. -/
lemma mem_childrenAt_enter (hhere : t.HasDirectory here) (hn : n.Bare) :
    m ∈ (t.enter here name n).childrenAt place ↔
      (place = here ∧ m = name) ∨
        (m ∈ t.childrenAt place ∧ (place = here ++ [name] → n.kind = .directory)) := by
  have hne : here ++ [name] ≠ here := by simp
  rw [mem_childrenAt, node?_enter]
  by_cases hend : place = here ++ [name]
  · subst hend
    rw [if_pos rfl, mem_childrenAt]
    cases n with
    | directory children =>
      rw [hn children rfl]
      rcases t.node? (here ++ [name]) with _ | ⟨_ | _ | _⟩ <;>
        simp [MemoryNode.replacing, MemoryNode.kind, hne, eq_comm]
    | file _ _ | link _ => simp [MemoryNode.replacing, MemoryNode.kind, hne]
  · rw [if_neg hend]
    by_cases hp : place = here
    · subst hp
      obtain ⟨children, hd⟩ := hhere
      rw [if_pos rfl, mem_childrenAt, hd]
      -- the name is put at the end of the list, unless the list has it
      by_cases hc : name ∈ children
      · have hkept : m = name ∨ m ∈ children ↔ m ∈ children :=
          or_iff_right_of_imp fun he => he ▸ hc
        simp [MemoryNode.announce, hc, hkept]
      · simp [MemoryNode.announce, hc, or_comm]
    · rw [if_neg hp, ← mem_childrenAt]
      simp [hend, hp]

/-- An insertion announces the names on its way; what it puts at the end of it announces nothing,
but for a directory that is there already. -/
lemma mem_childrenAt_insertBelow (hhere : t.HasDirectory here) (hn : n.Bare) (hrest : rest ≠ []) :
    m ∈ (t.insertBelow here n rest).childrenAt place ↔
      OnWay here rest place m ∨
        (m ∈ t.childrenAt place ∧ (place = here ++ rest → n.kind = .directory)) := by
  induction rest generalizing t here with
  | nil => exact absurd rfl hrest
  | cons name rest ih =>
    rw [insertBelow_cons, onWay_cons]
    by_cases hend : rest = []
    · subst hend
      rw [if_pos rfl, insertBelow, mem_childrenAt_enter hhere hn, or_iff_left onWay_nil]
    · rw [if_neg hend]
      -- what is put at a name on the way is a directory, and leaves the children of one there
      have hbelow : (t.enter here name (.directory [])).HasDirectory (here ++ [name]) := by
        rw [HasDirectory, node?_enter, if_pos rfl]
        rcases t.node? (here ++ [name]) with _ | ⟨_ | _ | _⟩ <;> simp [MemoryNode.replacing]
      rw [ih hbelow hend, mem_childrenAt_enter hhere MemoryNode.bare_directory,
        List.append_assoc, List.singleton_append]
      simp only [MemoryNode.kind, implies_true, and_true]
      by_cases hp : place = here ∧ m = name
      · simp [hp]
      · simp [hp]

/-- What is not on the way of an insertion stays as it is. -/
lemma node?_insertBelow_of_not_onWay (h : ∀ l, l <+: rest → place ≠ here ++ l) :
    (t.insertBelow here n rest).node? place = t.node? place := by
  induction rest generalizing t here with
  | nil => rfl
  | cons name rest ih =>
    have hhere : place ≠ here := fun he => h [] (by simp) (by simpa using he)
    have hbelow (l : List String) (hl : l <+: rest) : place ≠ here ++ [name] ++ l := by
      rw [List.append_assoc]
      exact h (name :: l) (List.cons_prefix_cons.2 ⟨rfl, hl⟩)
    have hnext : place ≠ here ++ [name] := fun he => hbelow [] (by simp) (by simpa using he)
    rw [insertBelow_cons, ih hbelow, node?_enter, if_neg hnext, if_neg hhere]

/-! ### One edit -/

/-- An edit puts a file or a link at a place. -/
def Edit.Replaces (e : Edit) (place : Place) : Prop :=
  Path.isAbsolute e.path = true ∧ address e.path = place ∧ place ≠ [] ∧ e.node.kind ≠ .directory

/-- An edit announces the names on its way, and a directory that it replaces announces nothing. -/
lemma mem_childrenAt_apply {e : Edit} (hroot : t.HasDirectory [])
    (he : Path.isAbsolute e.path = true) :
    m ∈ (t.apply e).childrenAt place ↔
      e.Touches (place ++ [m]) ∨ (m ∈ t.childrenAt place ∧ ¬ e.Replaces place) := by
  have hway : OnWay [] (address e.path) place m ↔ e.Touches (place ++ [m]) := by
    simp [OnWay, Edit.Touches, he]
  rw [childrenAt_congr (node?_apply t e place), insert, if_pos he]
  -- an edit of the root neither announces nor replaces anything
  by_cases hempty : address e.path = []
  · have htouches : ¬ e.Touches (place ++ [m]) := by
      rw [← hway, hempty]
      exact onWay_nil
    have hreplaces : ¬ e.Replaces place := by
      rintro ⟨-, hp, hne, -⟩
      exact hne (hp ▸ hempty)
    simp [hempty, insertBelow, htouches, hreplaces]
  · have hkept : (place = [] ++ address e.path → e.node.kind = .directory) ↔
        ¬ e.Replaces place := by
      constructor
      · rintro h ⟨-, hp, -, hfile⟩
        exact hfile (h hp.symm)
      · intro h hp
        by_contra hfile
        exact h ⟨he, hp.symm, hp ▸ hempty, hfile⟩
    rw [mem_childrenAt_insertBelow hroot e.bare_node hempty, hway, hkept]

/-- What an edit does not touch stays as it is. -/
lemma node?_apply_of_not_touches {e : Edit} (he : Path.isAbsolute e.path = true)
    (h : ¬ e.Touches place) : (t.apply e).node? place = t.node? place := by
  rw [node?_apply, insert, if_pos he]
  refine node?_insertBelow_of_not_onWay fun l hl hp => h ⟨he, ?_⟩
  rwa [hp]

/-- The root is no place to put anything, so it stays a directory. -/
lemma hasDirectory_root_apply {e : Edit} (h : t.HasDirectory [])
    (he : Path.isAbsolute e.path = true) : (t.apply e).HasDirectory [] := by
  rw [HasDirectory, node?_apply, insert, if_pos he]
  rcases address e.path with _ | ⟨name, rest⟩
  · exact h
  · obtain ⟨children, hd⟩ := h
    rw [insertBelow_cons, node?_insertBelow_of_not_onWay (by simp), node?_enter,
      if_neg (by simp), if_pos rfl, hd]
    exact ⟨_, rfl⟩

/-- An edit that is not absolute changes nothing but the names at the root, to which it may add
one. -/
lemma node?_apply_of_relative {e : Edit} (he : Path.isAbsolute e.path ≠ true) (place : Place) :
    (t.apply e).node? place = t.node? place ∨
      ∃ m, place = [] ∧ (t.apply e).node? place = (t.node? place).map (·.announce m) := by
  rw [node?_apply, insert, if_neg he]
  rcases address e.path with _ | ⟨m, rest⟩
  · exact .inl rfl
  · rw [node?_addChild]
    by_cases hp : place = []
    · rw [if_pos hp]
      exact .inr ⟨m, hp, rfl⟩
    · rw [if_neg hp]
      exact .inl rfl

lemma mem_childrenAt_apply_of_relative {e : Edit} (he : Path.isAbsolute e.path ≠ true)
    (h : m ∈ t.childrenAt place) : m ∈ (t.apply e).childrenAt place := by
  obtain ⟨children, hd, hm⟩ := mem_childrenAt.1 h
  rw [mem_childrenAt]
  rcases node?_apply_of_relative (t := t) he place with hsame | ⟨name, -, hadded⟩
  · exact ⟨children, hsame.trans hd, hm⟩
  · refine ⟨_, hadded.trans (congrArg _ hd), ?_⟩
    split
    · exact hm
    · exact List.mem_append_left _ hm

/-- The root stays a directory, whatever is edited. -/
lemma hasDirectory_root_applyAll (edits : List Edit) : (empty.applyAll edits).HasDirectory [] := by
  induction edits using List.reverseRecOn with
  | nil => exact ⟨[], node?_empty []⟩
  | append_singleton edits e ih =>
    rw [applyAll_concat]
    by_cases he : Path.isAbsolute e.path = true
    · exact hasDirectory_root_apply ih he
    · obtain ⟨children, hd⟩ := ih
      rcases node?_apply_of_relative (t := empty.applyAll edits) he [] with hsame | ⟨m, -, hadded⟩
      · exact ⟨children, hsame.trans hd⟩
      · exact ⟨_, hadded.trans (congrArg _ hd)⟩

/-- What an edit does not touch stays as it is, the names at the root apart. -/
lemma node?_apply_eq {e : Edit} (hne : place ≠ []) (h : ¬ e.Touches place) :
    (t.apply e).node? place = t.node? place := by
  by_cases he : Path.isAbsolute e.path = true
  · exact node?_apply_of_not_touches he h
  · rcases node?_apply_of_relative (t := t) he place with hsame | ⟨m, hroot, -⟩
    · exact hsame
    · exact absurd hroot hne

/-! ### All edits -/

/-- A name was announced in the directory at a place, which has not been replaced since. -/
def Announced (edits : List Edit) (place : Place) (m : String) : Prop :=
  ∃ before e after, edits = before ++ e :: after ∧ e.Touches (place ++ [m]) ∧
    ∀ e' ∈ after, ¬ e'.Replaces place

lemma not_announced_nil : ¬ Announced [] place m := by
  rintro ⟨before, e, after, h, -⟩
  simp at h

lemma announced_concat {edits : List Edit} {e : Edit} :
    Announced (edits ++ [e]) place m ↔
      e.Touches (place ++ [m]) ∨ (Announced edits place m ∧ ¬ e.Replaces place) := by
  constructor
  · rintro ⟨before, e', after, h, htouches, hafter⟩
    rcases List.eq_nil_or_concat after with rfl | ⟨after, last, rfl⟩
    · obtain ⟨-, hlast⟩ := List.append_inj' h rfl
      cases hlast
      exact .inl htouches
    · rw [List.concat_eq_append, ← List.cons_append, ← List.append_assoc] at h
      obtain ⟨rfl, hlast⟩ := List.append_inj' h rfl
      cases hlast
      exact .inr ⟨⟨before, e', after, rfl, htouches, fun x hx => hafter x (by simp [hx])⟩,
        hafter e (by simp)⟩
  · rintro (htouches | ⟨⟨before, e', after, rfl, htouches, hafter⟩, hlast⟩)
    · exact ⟨edits, e, [], rfl, htouches, by simp⟩
    · refine ⟨before, e', after ++ [e], by simp, htouches, fun x hx => ?_⟩
      rcases List.mem_append.1 hx with hx | hx
      · exact hafter x hx
      · rwa [List.mem_singleton.1 hx]

/-- What a directory announces, told from the edits alone. -/
theorem mem_childrenAt_applyAll {edits : List Edit}
    (h : ∀ e ∈ edits, Path.isAbsolute e.path = true) :
    (empty.applyAll edits).HasDirectory [] ∧ ∀ place m,
      m ∈ (empty.applyAll edits).childrenAt place ↔ Announced edits place m := by
  induction edits using List.reverseRecOn with
  | nil =>
    refine ⟨⟨[], node?_empty []⟩, fun place m => iff_of_false ?_ not_announced_nil⟩
    rw [applyAll_nil, mem_childrenAt, node?_empty]
    split <;> simp
  | append_singleton edits e ih =>
    obtain ⟨hbefore, he⟩ := List.forall_mem_append.1 h
    obtain ⟨hroot, hmem⟩ := ih hbefore
    have he := he e (by simp)
    rw [applyAll_concat]
    refine ⟨hasDirectory_root_apply hroot he, fun place m => ?_⟩
    rw [mem_childrenAt_apply hroot he, hmem, announced_concat]

/-! ### Who put a node in its place -/

/-- What stands in a place, the root apart, was put there by an edit, or is on the way of one. -/
lemma exists_touches {edits : List Edit} (hne : place ≠ [])
    (hn : (empty.applyAll edits).node? place ≠ none) : ∃ e ∈ edits, e.Touches place := by
  induction edits using List.reverseRecOn with
  | nil =>
    rw [applyAll_nil, node?_empty, if_neg hne] at hn
    exact absurd rfl hn
  | append_singleton edits e ih =>
    by_cases htouches : e.Touches place
    · exact ⟨e, by simp, htouches⟩
    · have hold : (empty.applyAll edits).node? place ≠ none := by
        rwa [applyAll_concat, node?_apply_eq hne htouches] at hn
      obtain ⟨e', he', hold⟩ := ih hold
      exact ⟨e', List.mem_append_left _ he', hold⟩

/-- What is not announced any more was announced before its directory was replaced. -/
lemma exists_replaces {edits : List Edit} (h : ¬ Announced edits place m)
    (htouches : ∃ e ∈ edits, e.Touches (place ++ [m])) : ∃ e ∈ edits, e.Replaces place := by
  obtain ⟨e, he, htouches⟩ := htouches
  obtain ⟨before, after, rfl⟩ := List.append_of_mem he
  by_contra hnone
  refine h ⟨before, e, after, rfl, htouches, fun e' he' hreplaces => hnone ⟨e', ?_, hreplaces⟩⟩
  simp [he']

/-- What stands in a place is listed above it just if it is announced there. -/
lemma mem_childrenAt_iff_announced (edits : List Edit)
    (hn : (empty.applyAll edits).node? (place ++ [m]) ≠ none) :
    m ∈ (empty.applyAll edits).childrenAt place ↔ Announced edits place m := by
  induction edits using List.reverseRecOn with
  | nil =>
    rw [applyAll_nil, node?_empty, if_neg (by simp)] at hn
    exact absurd rfl hn
  | append_singleton edits e ih =>
    by_cases he : Path.isAbsolute e.path = true
    · rw [applyAll_concat, mem_childrenAt_apply (hasDirectory_root_applyAll edits) he,
        announced_concat]
      by_cases htouches : e.Touches (place ++ [m])
      · exact iff_of_true (.inl htouches) (.inl htouches)
      · rw [applyAll_concat, node?_apply_eq (by simp) htouches] at hn
        rw [ih hn]
    · have hannounced : Announced (edits ++ [e]) place m ↔ Announced edits place m := by
        rw [announced_concat]
        exact ⟨fun h => (h.resolve_left fun h => he h.1).1, fun h => .inr ⟨h, fun h => he h.1⟩⟩
      have hstands : (empty.applyAll edits).node? (place ++ [m]) ≠ none := by
        rwa [applyAll_concat, node?_apply_eq (by simp) fun h => he h.1] at hn
      rw [hannounced, applyAll_concat, ← ih hstands]
      refine ⟨fun hm => ?_, mem_childrenAt_apply_of_relative he⟩
      -- only the root can have got a name, and what stands there was announced: nothing
      -- replaces the root
      rcases node?_apply_of_relative (t := empty.applyAll edits) he place with hsame | ⟨_, rfl, -⟩
      · rwa [childrenAt_congr hsame] at hm
      · by_contra hnot
        rw [ih hstands] at hnot
        obtain ⟨e', -, hreplaces⟩ := exists_replaces hnot (exists_touches (by simp) hstands)
        exact hreplaces.2.2.1 rfl

/-- To a directory that stands below a place the way is unbroken just if each name on it is
announced. -/
lemma unbroken_iff_announced (edits : List Edit) {w : List String}
    (hd : (empty.applyAll edits).HasDirectory (place ++ w)) :
    (empty.applyAll edits).Unbroken place w ↔
      ∀ q m, OnWay place w q m → Announced edits q m := by
  induction w using List.reverseRecOn with
  | nil => exact iff_of_true unbroken_nil fun q m h => absurd h onWay_nil
  | append_singleton w name ih =>
    rw [← List.append_assoc] at hd
    have hlast := mem_childrenAt_iff_announced edits hd.node?_ne_none
    have habove : (∀ q m, OnWay place (w ++ [name]) q m → Announced edits q m) ↔
        (∀ q m, OnWay place w q m → Announced edits q m) ∧ Announced edits (place ++ w) name := by
      simp only [onWay_concat, or_imp, forall_and, and_imp, forall_eq_apply_imp_iff, forall_eq]
    rw [unbroken_concat, habove, ← hlast]
    -- a directory that lists the last name stands above it, so the rest of the way leads to one
    refine and_congr_left fun hname => ih ?_
    obtain ⟨children, hd, -⟩ := mem_childrenAt.1 hname
    exact ⟨children, hd⟩

/-- Where the way to a directory is broken, a directory on it was replaced. -/
lemma unbroken_or_replaced (edits : List Edit) {w : List String}
    (hd : (empty.applyAll edits).HasDirectory (place ++ w)) :
    (empty.applyAll edits).Unbroken place w ∨
      ∃ e ∈ edits, ∃ q m, OnWay place w q m ∧ e.Replaces q := by
  rw [unbroken_iff_announced edits hd, or_iff_not_imp_left]
  intro hnot
  push Not at hnot
  obtain ⟨_, m, ⟨l, rfl, hl⟩, hnot⟩ := hnot
  have hway : place ++ l ++ [m] <+: place ++ w := by
    rw [List.append_assoc]
    exact (List.prefix_append_right_inj place).2 hl
  -- the edit that touches the directory touches every place on the way to it
  have htouched : ∃ e ∈ edits, e.Touches (place ++ l ++ [m]) := by
    have hne : place ++ w ≠ [] := by
      intro hempty
      rw [hempty, List.prefix_nil] at hway
      simp at hway
    obtain ⟨e, he, habs, htouches⟩ := exists_touches hne hd.node?_ne_none
    exact ⟨e, he, habs, hway.trans htouches⟩
  obtain ⟨e, he, hreplaces⟩ := exists_replaces hnot htouched
  exact ⟨e, he, _, m, ⟨l, rfl, hl⟩, hreplaces⟩

/-! ### What is found and what is listed -/

/-- A path that is its own real place is written with the names of the place, and the way down has
no links. -/
lemma exists_of_realPath_self {q : String} (ht : Sound t) (h : t.realPath q = .ok q) :
    ∃ place, q = Path.render place ∧ (∀ m ∈ place, IsEntry m) ∧
      Leads t true [] place 0 place := by
  obtain ⟨place, hplace, hq⟩ := realPath_eq_ok_iff.1 h
  obtain ⟨k, -, hleads⟩ := resolve_eq_ok_iff.1 hplace
  exact ⟨place, hq.symm, hleads.isEntry ht (by simp), hleads.settled (.done [])⟩

/-- Where no link is followed, the way down goes through the place above. -/
lemma Leads.above (h : Leads t true [] (place ++ [name]) 0 (place ++ [name])) :
    Leads t true [] place 0 place ∧ t.node? (place ++ [name]) ≠ none := by
  obtain ⟨k₁, k₂, mid, hk, habove, hlast⟩ := h.split (.inl rfl)
  obtain ⟨rfl, rfl⟩ := Nat.add_eq_zero_iff.1 hk.symm
  generalize hend : place ++ [name] = below at hlast
  cases hlast with
  | down hn _ hdone =>
    cases hdone
    obtain ⟨rfl, -⟩ := List.append_inj' hend rfl
    rw [hend]
    exact ⟨habove, by simp [hn]⟩

lemma resolve_render (hplace : ∀ m ∈ place, IsEntry m) (h : Leads t true [] place 0 place) :
    t.resolve (Path.render place) = .ok place := by
  rw [resolve_eq_ok_iff, address_render hplace]
  exact ⟨0, Nat.zero_le _, h⟩

/-- A path is told to be what stands in the place that it leads to. -/
lemma stat_of_resolve {path : String} (hres : t.resolve path = .ok place)
    (hn : t.node? place = some n) : t.stat path = .ok n.kind := by
  cases n <;> simp [stat, hres, hn, bind, Except.bind, pure, Except.pure, MemoryNode.kind]

/-- What is announced and has a node is listed. -/
lemma mem_entries_iff {children : List String} :
    (∃ e ∈ children.filterMap (t.entry? place), e.name = name) ↔
      name ∈ children ∧ t.node? (place ++ [name]) ≠ none := by
  constructor
  · rintro ⟨e, he, rfl⟩
    obtain ⟨m, hm, he⟩ := List.mem_filterMap.1 he
    obtain ⟨rfl, n, hn, -⟩ := exists_of_entry he
    exact ⟨hm, by simp [hn]⟩
  · rintro ⟨hm, hn⟩
    obtain ⟨e, he⟩ : ∃ e, t.entry? place name = some e := by
      obtain ⟨n, hn⟩ := Option.ne_none_iff_exists'.1 hn
      unfold entry?
      rw [hn]
      exact ⟨_, rfl⟩
    exact ⟨e, List.mem_filterMap.2 ⟨name, hm, he⟩, (exists_of_entry he).1⟩

/-- **What is found is listed**, unless its directory has been replaced since it was announced
there: above a path that is its own real place, the root apart, stands a directory that lists its
last name if it is not marked. Otherwise a file or a link was put in place of the directory, and no
listing has the name, whatever stands there now, though the path is still found. -/
theorem listed_of_realPath (edits : List Edit) (h : ∀ e ∈ edits, Path.isAbsolute e.path = true)
    {q dir : String} (hq : (empty.applyAll edits).realPath q = .ok q) (hne : q ≠ "/")
    (hcut : Path.dirAndName q = (dir, name)) :
    (Announced edits (address dir) name →
      (empty.applyAll edits).stat dir = .ok .directory ∧
        (address dir ∉ (empty.applyAll edits).unreadable →
          ∃ l, (empty.applyAll edits).readDir dir = .ok l ∧ ∃ e ∈ l.entries, e.name = name)) ∧
    (¬ Announced edits (address dir) name →
      (∃ e ∈ edits, e.Replaces (address dir)) ∧
        ∀ l, (empty.applyAll edits).readDir dir = .ok l → ∀ e ∈ l.entries, e.name ≠ name) := by
  obtain ⟨place, rfl, hentry, hleads⟩ := exists_of_realPath_self (sound_applyAll edits) hq
  obtain ⟨above, last, rfl⟩ : ∃ above last, place = above ++ [last] := by
    rcases List.eq_nil_or_concat place with rfl | ⟨above, last, rfl⟩
    · exact absurd rfl hne
    · exact ⟨above, last, List.concat_eq_append⟩
  obtain ⟨habove, hlast⟩ := List.forall_mem_append.1 hentry
  rw [Path.dirAndName_render above (hlast last (by simp))] at hcut
  obtain ⟨rfl, rfl⟩ := Prod.mk.inj hcut
  -- no link is met on the way, so the way to the directory above is the front of it
  obtain ⟨hdown, hnode⟩ := hleads.above
  have hres := resolve_render habove hdown
  obtain ⟨-, hmem⟩ := mem_childrenAt_applyAll h
  rw [address_render habove]
  refine ⟨fun hann => ?_, fun hann => ⟨?_, fun l hl => ?_⟩⟩
  · obtain ⟨children, hd, hname⟩ := mem_childrenAt.1 ((hmem above last).2 hann)
    refine ⟨stat_eq_directory_iff.2 ⟨above, children, hres, hd⟩, fun hu => ?_⟩
    exact ⟨_, readDir_eq_ok_iff.2 ⟨above, children, hres, hu, hd, rfl⟩,
      mem_entries_iff.2 ⟨hname, hnode⟩⟩
  · exact exists_replaces hann (exists_touches (by simp) hnode)
  · obtain ⟨place, children, hres', -, hd, rfl⟩ := readDir_eq_ok_iff.1 hl
    rw [hres] at hres'
    cases hres'
    intro e he hname
    have hchild := (mem_entries_iff.1 ⟨e, he, hname⟩).1
    exact hann ((hmem above last).1 (mem_childrenAt.2 ⟨children, hd, hchild⟩))

/-- A card in a slot, then a file in place of the slot. -/
def slotEdits : List Edit := [.directory "/slot/card", .file "/slot" "empty" 0o444]

/-- The slot with a lamp in it, after it was replaced. -/
def lampEdits : List Edit := slotEdits ++ [.file "/slot/lamp" "on" 0o644]

theorem listed_of_realPath_lamp :
    (empty.applyAll lampEdits).stat "/slot" = .ok .directory ∧
      (∃ l, (empty.applyAll lampEdits).readDir "/slot" = .ok l ∧
        ∃ e ∈ l.entries, e.name = "lamp") ∧
      (empty.applyAll lampEdits).realPath "/slot/card" = .ok "/slot/card" ∧
      ∀ l, (empty.applyAll lampEdits).readDir "/slot" = .ok l →
        ∀ e ∈ l.entries, e.name ≠ "card" := by
  have habs : ∀ e ∈ lampEdits, Path.isAbsolute e.path = true := by decide
  have hlamp : (empty.applyAll lampEdits).realPath "/slot/lamp" = .ok "/slot/lamp" := by
    decide +kernel
  have hcard : (empty.applyAll lampEdits).realPath "/slot/card" = .ok "/slot/card" := by
    decide +kernel
  have hcutLamp : Path.dirAndName "/slot/lamp" = ("/slot", "lamp") := by decide +kernel
  have hcutCard : Path.dirAndName "/slot/card" = ("/slot", "card") := by decide +kernel
  have hann : Announced lampEdits (address "/slot") "lamp" :=
    ⟨slotEdits, _, [], rfl, ⟨by decide, by decide +kernel⟩, by simp⟩
  have hnot : ¬ Announced lampEdits (address "/slot") "card" := by
    rw [← (mem_childrenAt_applyAll habs).2]
    decide +kernel
  obtain ⟨hstat, hlist⟩ := (listed_of_realPath lampEdits habs hlamp (by decide) hcutLamp).1 hann
  exact ⟨hstat, hlist (by decide +kernel), hcard,
    ((listed_of_realPath lampEdits habs hcard (by decide) hcutCard).2 hnot).2⟩

/-- **A card without a slot**: what stands below a directory is still found when a file has been put
in its place, and when a directory has been put back, which then lists nothing. -/
theorem realPath_slot_unlisted :
    (∀ e ∈ slotEdits, Path.isAbsolute e.path = true) ∧
      Path.dirAndName "/slot/card" = ("/slot", "card") ∧
      (empty.applyAll slotEdits).realPath "/slot/card" = .ok "/slot/card" ∧
      (empty.applyAll slotEdits).stat "/slot" = .ok .file ∧
      (empty.applyAll (slotEdits ++ [.directory "/slot"])).realPath "/slot/card" =
        .ok "/slot/card" ∧
      (empty.applyAll (slotEdits ++ [.directory "/slot"])).unreadable = [] ∧
      ((empty.applyAll (slotEdits ++ [.directory "/slot"])).readDir "/slot").map (·.entries) =
        .ok [] := by
  refine ⟨by decide, ?_⟩
  decide +kernel

end DeviceModel.MemoryTree
