import DeviceModel.Proofs.Graph.Survey
import DeviceModel.Proofs.Tree.Shows

/-!
The directories below a place, told by the names that lead to them.

No two of the lists of names are the same, each leads down to a directory by names that are listed,
and unless some directory may not be listed, they lead to all that are stored below the place, but
for those to which the way is broken. Along any path that leads to the place, links or no links,
what is to be visited in pre-order is the path with just these names after it.
-/

namespace DeviceModel.MemoryTree

open DeviceModel.Path (IsEntry)

variable {t : MemoryTree} {here place : Place} {path name m : String} {depth : Nat}
  {children w rest : List String}

/-! ### What is stored below a place -/

/-- A directory stands at a place. -/
def HasDirectory (t : MemoryTree) (place : Place) : Prop :=
  ∃ children, t.node? place = some (.directory children)

lemma HasDirectory.node?_ne_none (h : t.HasDirectory place) : t.node? place ≠ none := by
  obtain ⟨children, hd⟩ := h
  rw [hd]
  exact Option.some_ne_none _

lemma mem_childrenAt : m ∈ t.childrenAt place ↔
    ∃ children, t.node? place = some (.directory children) ∧ m ∈ children := by
  unfold childrenAt
  rcases t.node? place with _ | ⟨_ | _ | _⟩ <;> simp

/-- The name `m` follows on `place` on the way `rest` from `here`. -/
def OnWay (here : Place) (rest : List String) (place : Place) (m : String) : Prop :=
  ∃ l, place = here ++ l ∧ l ++ [m] <+: rest

lemma onWay_nil : ¬ OnWay here [] place m := by
  rintro ⟨l, -, hl⟩
  simp at hl

lemma onWay_cons : OnWay here (name :: rest) place m ↔
    (place = here ∧ m = name) ∨ OnWay (here ++ [name]) rest place m := by
  constructor
  · rintro ⟨_ | ⟨a, l⟩, rfl, hl⟩
    · exact .inl ⟨List.append_nil here, by simpa using hl⟩
    · rw [List.cons_append] at hl
      obtain ⟨rfl, hrest⟩ := List.cons_prefix_cons.1 hl
      exact .inr ⟨l, by simp, hrest⟩
  · rintro (⟨rfl, rfl⟩ | ⟨l, rfl, hl⟩)
    · exact ⟨[], by simp, by simp⟩
    · exact ⟨name :: l, by simp, List.cons_prefix_cons.2 ⟨rfl, hl⟩⟩

lemma onWay_concat : OnWay here (rest ++ [name]) place m ↔
    OnWay here rest place m ∨ (place = here ++ rest ∧ m = name) := by
  constructor
  · rintro ⟨l, rfl, hl⟩
    rcases List.prefix_concat_iff.1 hl with hend | hl
    · obtain ⟨rfl, hlast⟩ := List.append_inj' hend rfl
      exact .inr ⟨rfl, List.singleton_inj.1 hlast⟩
    · exact .inl ⟨l, rfl, hl⟩
  · rintro (⟨l, rfl, hl⟩ | ⟨rfl, rfl⟩)
    · exact ⟨l, rfl, hl.trans (List.prefix_append _ _)⟩
    · exact ⟨rest, rfl, List.prefix_rfl⟩

/-- Each name on the way `w` down from a place is listed in the directory above it. -/
def Unbroken (t : MemoryTree) (place : Place) (w : List String) : Prop :=
  ∀ q m, OnWay place w q m → m ∈ t.childrenAt q

lemma unbroken_nil : t.Unbroken place [] :=
  fun _ _ h => absurd h onWay_nil

lemma unbroken_cons : t.Unbroken place (name :: w) ↔
    name ∈ t.childrenAt place ∧ t.Unbroken (place ++ [name]) w := by
  simp only [Unbroken, onWay_cons, or_imp, forall_and, and_imp, forall_eq_apply_imp_iff,
    forall_eq]

lemma unbroken_concat : t.Unbroken place (w ++ [name]) ↔
    t.Unbroken place w ∧ name ∈ t.childrenAt (place ++ w) := by
  simp only [Unbroken, onWay_concat, or_imp, forall_and, and_imp, forall_eq_apply_imp_iff,
    forall_eq]

/-- The first name on an unbroken way to a directory is that of a directory. -/
lemma Unbroken.hasDirectory (h : t.Unbroken (place ++ [name]) w)
    (hd : t.HasDirectory (place ++ name :: w)) : t.HasDirectory (place ++ [name]) := by
  cases w with
  | nil => exact hd
  | cons next w =>
    obtain ⟨children, hnext, -⟩ := mem_childrenAt.1 (unbroken_cons.1 h).1
    exact ⟨children, hnext⟩

/-! ### Ways -/

/-- The names that lead to the directories below a place, at most `depth` levels, in pre-order. A
directory that may not be listed leads no further. -/
def ways (t : MemoryTree) : Nat → Place → List (List String)
  | 0, _ => []
  | depth + 1, place =>
    [] :: if place ∈ t.unreadable then [] else
      (t.namesOf .directory place).flatMap fun n => (t.ways depth (place ++ [n])).map (n :: ·)

/-- The path at which names stand that come after a path. -/
def along (path : String) (w : List String) : String := w.foldl Path.join path

lemma along_cons (path name : String) (w : List String) :
    along path (name :: w) = along (Path.join path name) w :=
  List.foldl_cons ..

lemma mem_namesOf {kind : NodeKind} : name ∈ t.namesOf kind place ↔
    name ∈ t.childrenAt place ∧ ∃ n, t.node? (place ++ [name]) = some n ∧ n.kind = kind := by
  rw [namesOf, List.mem_filter]
  simp

lemma mem_namesOf_directory : name ∈ t.namesOf .directory place ↔
    name ∈ t.childrenAt place ∧ t.HasDirectory (place ++ [name]) := by
  rw [mem_namesOf]
  refine and_congr_right fun _ => ⟨?_, ?_⟩
  · rintro ⟨n, hn, hkind⟩
    cases n with
    | directory children => exact ⟨children, hn⟩
    | file _ _ | link _ => cases hkind
  · rintro ⟨children, hn⟩
    exact ⟨_, hn, rfl⟩

lemma nodup_namesOf (ht : Sound t) (kind : NodeKind) (place : Place) :
    (t.namesOf kind place).Nodup := by
  refine List.Nodup.filter _ ?_
  unfold childrenAt
  split
  · next hd => exact ht.nodup hd
  · exact .nil

lemma ways_succ : t.ways (depth + 1) place =
    [] :: if place ∈ t.unreadable then [] else
      (t.namesOf .directory place).flatMap fun n => (t.ways depth (place ++ [n])).map (n :: ·) :=
  rfl

lemma cons_mem_ways : name :: w ∈ t.ways (depth + 1) place ↔
    place ∉ t.unreadable ∧ name ∈ t.namesOf .directory place ∧
      w ∈ t.ways depth (place ++ [name]) := by
  rw [ways_succ, List.mem_cons]
  by_cases hu : place ∈ t.unreadable
  · simp [hu]
  · simp [hu]

/-! ### Ways are distinct, and lead to what is stored -/

theorem nodup_ways (ht : Sound t) (depth : Nat) (place : Place) : (t.ways depth place).Nodup := by
  induction depth generalizing place with
  | zero => exact .nil
  | succ depth ih =>
    rw [ways_succ]
    split
    · simp
    · refine List.nodup_cons.2 ⟨by simp, List.nodup_flatMap.2 ⟨fun n _ => ?_, ?_⟩⟩
      · exact (ih _).map List.cons_injective
      · refine (nodup_namesOf ht .directory place).imp fun {n m} hne w hw hw' => ?_
        obtain ⟨_, -, rfl⟩ := List.mem_map.1 hw
        obtain ⟨_, -, he⟩ := List.mem_map.1 hw'
        exact hne (List.cons.inj he).1.symm

lemma unbroken_of_mem_ways (h : w ∈ t.ways depth place) (hd : t.HasDirectory place) :
    t.HasDirectory (place ++ w) ∧ t.Unbroken place w := by
  induction w generalizing depth place with
  | nil =>
    rw [List.append_nil]
    exact ⟨hd, unbroken_nil⟩
  | cons name w ih =>
    cases depth with
    | zero => cases h
    | succ depth =>
      obtain ⟨-, hname, hw⟩ := cons_mem_ways.1 h
      obtain ⟨hmem, hn⟩ := mem_namesOf_directory.1 hname
      obtain ⟨hdir, hunbroken⟩ := ih hw hn
      rw [List.append_assoc] at hdir
      exact ⟨hdir, unbroken_cons.2 ⟨hmem, hunbroken⟩⟩

/-- Unless a directory may not be listed, the unbroken ways to directories are all there. -/
theorem mem_ways (hdepth : t.nodes.height < place.length + depth)
    (hu : ∀ w ∈ t.ways depth place, place ++ w ∉ t.unreadable)
    (hd : t.HasDirectory (place ++ w)) (h : t.Unbroken place w) : w ∈ t.ways depth place := by
  -- down from `place`, not up from the end: the first name must lead to what may be listed
  induction w generalizing depth place with
  | nil =>
    cases depth with
    | zero =>
      obtain ⟨children, hd⟩ := hd
      have hstored := length_le_height hd
      rw [List.append_nil] at hstored
      omega
    | succ depth => exact List.mem_cons_self
  | cons name w ih =>
    cases depth with
    | zero =>
      obtain ⟨children, hd⟩ := hd
      have hstored := length_le_height hd
      rw [List.length_append] at hstored
      omega
    | succ depth =>
      obtain ⟨hname, hbelow⟩ := unbroken_cons.1 h
      have hself : [] ∈ t.ways (depth + 1) place := List.mem_cons_self
      have hlisted : place ∉ t.unreadable := by
        have hroot := hu [] hself
        rwa [List.append_nil] at hroot
      have hfirst : name ∈ t.namesOf .directory place :=
        mem_namesOf_directory.2 ⟨hname, hbelow.hasDirectory hd⟩
      have hmore : ∀ w ∈ t.ways depth (place ++ [name]), place ++ [name] ++ w ∉ t.unreadable := by
        intro w hw
        rw [List.append_assoc]
        exact hu (name :: w) (cons_mem_ways.2 ⟨hlisted, hfirst, hw⟩)
      have hdeep : t.nodes.height < (place ++ [name]).length + depth := by
        rw [List.length_append, List.length_singleton]
        omega
      refine cons_mem_ways.2 ⟨hlisted, hfirst, ih hdeep hmore ?_ hbelow⟩
      rwa [List.append_assoc]

/-! ### Along a path -/

/-- An entry stands for a node of its kind. -/
lemma exists_of_entry {e : Entry} (h : t.entry? place name = some e) :
    e.name = name ∧ ∃ n, t.node? (place ++ [name]) = some n ∧ n.kind = e.kind := by
  obtain ⟨n, hn, rfl⟩ := Option.map_eq_some_iff.1 h
  cases n <;> exact ⟨rfl, _, hn, rfl⟩

/-- The entries of one kind have the names that are listed for it. -/
lemma map_name_entries (kind : NodeKind) (hd : t.node? place = some (.directory children)) :
    ((children.filterMap (t.entry? place)).filter (·.kind = kind)).map (·.name) =
      t.namesOf kind place := by
  rw [namesOf, childrenAt_eq hd, ← List.filterMap_eq_filter, ← List.filterMap_eq_filter,
    List.filterMap_filterMap, List.map_filterMap]
  refine List.filterMap_congr fun name _ => ?_
  rcases he : t.entry? place name with _ | e
  · have hn : t.node? (place ++ [name]) = none := Option.map_eq_none_iff.1 he
    simp [Option.guard, hn]
  · obtain ⟨hname, n, hn, hkind⟩ := exists_of_entry he
    by_cases hk : e.kind = kind <;> simp [Option.guard, hn, hname, hkind, hk]

/-- What a survey of a path that leads to a place finds. -/
lemma survey_eq_ok_iff (h : Reaches t path place) {names : List String} :
    t.backend.survey path = .ok names ↔
      (∃ children, t.node? place = some (.directory children)) ∧ place ∉ t.unreadable ∧
        names = t.namesOf .directory place := by
  constructor
  · intro hs
    obtain ⟨listing, hl, rfl⟩ := Backend.exists_of_survey hs
    obtain ⟨place', children, hres, hu, hd, rfl⟩ := readDir_eq_ok_iff.1 hl
    obtain rfl : place = place' := Except.ok.inj (h.resolve_eq.symm.trans hres)
    exact ⟨⟨children, hd⟩, hu, map_name_entries .directory hd⟩
  · rintro ⟨⟨children, hd⟩, hu, rfl⟩
    obtain ⟨n, hname⟩ := h.exists_nameOf
    have hstat : t.backend.stat path = .ok .directory := h.stat_eq hd
    have hlist : t.backend.readDir path = .ok { entries := children.filterMap (t.entry? place) } :=
      h.readDir_eq hd hu
    have hreal : t.backend.realPath path = .ok (Path.render place) := h.realPath_eq
    unfold Backend.survey
    rw [hname, ← map_name_entries .directory hd]
    simp only [hstat, hlist, hreal, bind, Except.bind, pure, Except.pure]
    split <;> rfl

/-- What is found by a survey is a directory one name further down. -/
lemma Reaches.join_survey (ht : Sound t) (h : Reaches t path place) {names : List String}
    (hs : t.backend.survey path = .ok names) (hn : name ∈ names) :
    Reaches t (Path.join path name) (place ++ [name]) ∧
      ∃ children, t.node? (place ++ [name]) = some (.directory children) := by
  obtain ⟨-, -, rfl⟩ := (survey_eq_ok_iff h).1 hs
  obtain ⟨-, children, hd⟩ := mem_namesOf_directory.1 hn
  exact ⟨h.join ht hd (by simp), children, hd⟩

/-- The root, which has no name, and the paths that lead to places by names alone. -/
def Settled (t : MemoryTree) (path : String) : Prop := path = "/" ∨ ∃ place, Reaches t path place

lemma trail_settled (ht : Sound t) : t.backend.Trail (Settled t) where
  normalize := by
    rintro path (rfl | ⟨place, h⟩)
    · decide
    · exact h.normalize_eq
  join := by
    rintro path names n (rfl | ⟨place, h⟩) hs hn
    · cases hs
    · exact .inr ⟨_, (h.join_survey ht hs hn).1⟩

/-- No place is deeper than the tree. -/
lemma nestsWithin_of_reaches (ht : Sound t) (hdepth : t.nodes.height ≤ place.length + depth)
    (h : Reaches t path place) : t.backend.NestsWithin (depth + 1) path := by
  induction depth generalizing place path with
  | zero =>
    intro names hs n hn
    obtain ⟨-, children, hd⟩ := h.join_survey ht hs hn
    have hstored := length_le_height hd
    rw [List.length_append, List.length_singleton] at hstored
    omega
  | succ depth ih =>
    intro names hs n hn
    obtain ⟨hjoin, -⟩ := h.join_survey ht hs hn
    refine ih ?_ hjoin
    rw [List.length_append, List.length_singleton]
    omega

lemma nestsWithin_of_settled (ht : Sound t) (h : Settled t path) :
    t.backend.NestsWithin t.depth path := by
  rcases h with rfl | ⟨place, h⟩
  · intro names hs
    cases hs
  · exact nestsWithin_of_reaches ht (Nat.le_add_left _ _) h

/-- **Ways**: what is to be visited below a path that leads to a directory. -/
theorem preorder_eq (ht : Sound t) (h : Reaches t path place)
    (hd : t.node? place = some (.directory children)) :
    t.backend.preorder depth path = (t.ways depth place).map (along path) := by
  induction depth generalizing place path children with
  | zero => rfl
  | succ depth ih =>
    rw [Backend.preorder, ways_succ]
    by_cases hu : place ∈ t.unreadable
    · rcases hs : t.backend.survey path with e | names
      · simp [hu, along]
      · exact absurd hu ((survey_eq_ok_iff h).1 hs).2.1
    · have hs : t.backend.survey path = .ok (t.namesOf .directory place) :=
        (survey_eq_ok_iff h).2 ⟨⟨children, hd⟩, hu, rfl⟩
      rw [hs, if_neg hu, List.map_cons, List.map_flatMap]
      refine congrArg _ (List.flatMap_congr fun n hn => ?_)
      obtain ⟨-, children', hn⟩ := mem_namesOf_directory.1 hn
      rw [ih (h.join ht hn (by simp)) hn, List.map_map]
      refine List.map_congr_left fun w _ => ?_
      rw [Function.comp_apply, along_cons]

/-- The names of a way lead on from wherever the path leads, and through no link. -/
lemma reaches_along (ht : Sound t) (h : Reaches t path place) (hw : w ∈ t.ways depth place) :
    Reaches t (along path w) (place ++ w) := by
  induction w generalizing depth place path with
  | nil => rwa [List.append_nil]
  | cons name w ih =>
    cases depth with
    | zero => cases hw
    | succ depth =>
      obtain ⟨-, hname, hrest⟩ := cons_mem_ways.1 hw
      obtain ⟨-, children, hn⟩ := mem_namesOf_directory.1 hname
      have hbelow := ih (h.join ht hn (by simp)) hrest
      rwa [List.append_assoc, List.singleton_append, ← along_cons] at hbelow

end DeviceModel.MemoryTree
