import Mathlib.Data.List.Nodup
import DeviceModel.Proofs.Log.Emits
import DeviceModel.Proofs.Path.Relative

/-!
What a file system has to say about the directories below a path, told without any scan.

A survey of a directory is what opening and listing it comes to; the surveys of a directory
and of all that it lists, and so on down, are taken in pre-order.
-/

namespace DeviceModel

/-- Where no name comes twice, what is found by a name is what has it. -/
lemma find?_eq_some_iff_of_nodup {α : Type} {nameOf : α → String} {l : List α}
    (h : (l.map nameOf).Nodup) {name : String} {a : α} :
    l.find? (nameOf · = name) = some a ↔ a ∈ l ∧ nameOf a = name := by
  constructor
  · intro ha
    exact ⟨List.mem_of_find?_eq_some ha, by simpa using List.find?_some ha⟩
  · rintro ⟨ha, rfl⟩
    rcases hf : l.find? (nameOf · = nameOf a) with _ | a'
    · have hne := List.find?_eq_none.1 hf a ha
      simp at hne
    · have hname : nameOf a' = nameOf a := by simpa using List.find?_some hf
      rw [List.inj_on_of_nodup_map h (List.mem_of_find?_eq_some hf) ha hname]

/-- What is seen of a result is seen of a value. -/
lemma exists_ok_of_toOption_map {α β : Type} {x : Except Error α} {f : α → β} {b : β}
    (h : x.toOption.map f = some b) : ∃ a, x = .ok a ∧ f a = b := by
  cases x with
  | error e => cases h
  | ok a => exact ⟨a, rfl, Option.some.inj h⟩

/-! ### Surveys -/

namespace Backend

variable (b : Backend)

/-- The directories listed in the directory at `path`, by name and in scan order. The root has
no name and cannot be opened; where there are links, the real place must be known. -/
def survey (path : String) : Except Error (List String) := do
  let _ ← Path.nameOf path
  match ← b.stat path with
  | .directory =>
    let listing ← b.readDir path
    if listing.entries.any (·.kind = .symlink) then
      let _ ← b.realPath path
    return (listing.entries.filter (·.kind = .directory)).map (·.name)
  | _ => throw .notFound

/-- Every listing holds distinct names that an entry may have. -/
structure WellNamed : Prop where
  isEntry : ∀ path listing, b.readDir path = .ok listing → ∀ e ∈ listing.entries,
    Path.IsEntry e.name
  nodup : ∀ path listing, b.readDir path = .ok listing → (listing.entries.map (·.name)).Nodup

/-- From `path` on, directories that list directories go down at most `depth` levels. -/
def NestsWithin : Nat → String → Prop
  | 0, _ => False
  | depth + 1, path =>
    ∀ names, b.survey path = .ok names → ∀ n ∈ names, NestsWithin depth (Path.join path n)

instance decidableNestsWithin : ∀ depth path, Decidable (b.NestsWithin depth path)
  | 0, _ => .isFalse id
  | depth + 1, path =>
    match h : b.survey path with
    | .error _ => .isTrue fun _ hn => nomatch h.symm.trans hn
    | .ok names =>
      have := fun n => decidableNestsWithin depth (Path.join path n)
      decidable_of_iff (∀ n ∈ names, b.NestsWithin depth (Path.join path n))
        ⟨fun hall _ hn => Except.ok.inj (h.symm.trans hn) ▸ hall, fun hall => hall names h⟩

/-- The directory at `path` and all listed below it, at most `depth` levels, in pre-order of the
scan. -/
def preorder : Nat → String → List String
  | 0, _ => []
  | depth + 1, path =>
    match b.survey path with
    | .ok names => path :: names.flatMap fun n => preorder depth (Path.join path n)
    | .error _ => [path]

/-- Paths in normal form from which only such paths are listed. -/
structure Trail (P : String → Prop) : Prop where
  normalize : ∀ {path}, P path → Path.normalize path = path
  join : ∀ {path names n}, P path → b.survey path = .ok names → n ∈ names → P (Path.join path n)

/-- What is listed on a trail is in normal form and on the trail, with one level less below it. -/
lemma Trail.below {b : Backend} {P : String → Prop} (hP : b.Trail P) {depth : Nat} {path n : String}
    {names : List String} (h : P path) (hn : b.NestsWithin (depth + 1) path)
    (hs : b.survey path = .ok names) (hmem : n ∈ names) :
    Path.normalize (Path.join path n) = Path.join path n ∧
      P (Path.normalize (Path.join path n)) ∧
      b.NestsWithin depth (Path.normalize (Path.join path n)) := by
  have hchild := hP.join h hs hmem
  have hnormal := hP.normalize hchild
  rw [hnormal]
  exact ⟨rfl, hchild, hn names hs n hmem⟩

/-- Surveys some directories up to the first that fails: those surveyed, and the failure. -/
def visit : List String → List String × Option Error
  | [] => ([], none)
  | path :: paths =>
    match b.survey path with
    | .ok _ => (path :: (visit paths).1, (visit paths).2)
    | .error e => ([path], some e)

variable {b}

lemma visit_append (ps qs : List String) :
    b.visit (ps ++ qs) =
      match b.visit ps with
      | (vs, none) => (vs ++ (b.visit qs).1, (b.visit qs).2)
      | (vs, some e) => (vs, some e) := by
  induction ps with
  | nil => rfl
  | cons p ps ih =>
    rw [List.cons_append, visit, visit]
    rcases hp : b.survey p with e | names
    · rfl
    · simp only [ih]
      rcases hv : b.visit ps with ⟨vs, _ | e⟩ <;> rfl

lemma visit_prefix (ps : List String) : (b.visit ps).1 <+: ps := by
  induction ps with
  | nil => exact List.prefix_rfl
  | cons p ps ih =>
    rw [visit]
    rcases b.survey p with e | names
    · exact ⟨ps, rfl⟩
    · exact List.cons_prefix_cons.2 ⟨rfl, ih⟩

lemma visit_of_eq_none {ps : List String} (h : (b.visit ps).2 = none) : (b.visit ps).1 = ps := by
  induction ps with
  | nil => rfl
  | cons p ps ih =>
    rw [visit] at h ⊢
    rcases hp : b.survey p with e | names
    · rw [hp] at h
      cases h
    · rw [hp] at h
      exact congrArg _ (ih h)

/-- A visit meets no failure if all can be surveyed. -/
theorem visit_eq_none_iff {ps : List String} :
    (b.visit ps).2 = none ↔ ∀ p ∈ ps, ∃ names, b.survey p = .ok names := by
  induction ps with
  | nil => simp [visit]
  | cons p ps ih =>
    rw [visit, List.forall_mem_cons]
    rcases hp : b.survey p with e | names
    · simp
    · simpa using ih

/-- A failure is the first, and the visit ends with it. -/
theorem exists_of_visit_eq_some {ps : List String} {e : Error} (h : (b.visit ps).2 = some e) :
    ∃ earlier p later, ps = earlier ++ p :: later ∧ (b.visit ps).1 = earlier ++ [p] ∧
      (∀ q ∈ earlier, ∃ names, b.survey q = .ok names) ∧ b.survey p = .error e := by
  induction ps with
  | nil => cases h
  | cons p ps ih =>
    rw [visit] at h ⊢
    rcases hp : b.survey p with e' | names
    · rw [hp] at h
      cases h
      exact ⟨[], p, ps, rfl, rfl, by simp, hp⟩
    · rw [hp] at h
      obtain ⟨earlier, q, later, rfl, hv, hok, hq⟩ := ih h
      exact ⟨p :: earlier, q, later, rfl, congrArg _ hv,
        List.forall_mem_cons.2 ⟨⟨names, hp⟩, hok⟩, hq⟩

/-- What a survey that succeeds has found out. -/
lemma exists_of_survey {path : String} {names : List String} (h : b.survey path = .ok names) :
    ∃ listing, b.readDir path = .ok listing ∧
      names = (listing.entries.filter (·.kind = .directory)).map (·.name) := by
  unfold survey at h
  obtain ⟨-, -, h⟩ := bind_eq_ok_iff.1 h
  obtain ⟨kind, -, h⟩ := bind_eq_ok_iff.1 h
  cases kind with
  | directory =>
    obtain ⟨listing, hl, h⟩ := bind_eq_ok_iff.1 h
    refine ⟨listing, hl, ?_⟩
    split at h
    · obtain ⟨-, -, h⟩ := bind_eq_ok_iff.1 h
      exact (Except.ok.inj h).symm
    · exact (Except.ok.inj h).symm
  | symlink | file => cases h

/-- The names found in a survey may be joined to its path, and no two are the same. -/
lemma WellNamed.of_survey (hw : b.WellNamed) {path : String} {names : List String}
    (h : b.survey path = .ok names) : (∀ n ∈ names, Path.IsEntry n) ∧ names.Nodup := by
  obtain ⟨listing, hl, rfl⟩ := exists_of_survey h
  refine ⟨fun n hn => ?_, (hw.nodup path listing hl).sublist (List.filter_sublist.map _)⟩
  obtain ⟨e, he, rfl⟩ := List.mem_map.1 hn
  exact hw.isEntry path listing hl e (List.mem_filter.1 he).1

end Backend

/-! ### Loading a directory is a survey -/

namespace Directory

variable (b : Backend)

/-- Whether a directory that is there can be listed, and which directories are then found, is its
survey. -/
lemma read_survey {name path : String} (hn : ∃ n, Path.nameOf path = .ok n)
    (hs : b.stat path = .ok .directory) :
    ((unread name path).read b).run.value.map (fun d => d.subdirs.map (·.name)) =
      b.survey path := by
  obtain ⟨n, hn⟩ := hn
  -- from whatever place the links are told, the directories are those listed
  have hfound (base : String) (listing : Listing) :
      (ofItems name path (readEntries b path base listing.entries).value).subdirs.map (·.name) =
        (listing.entries.filter (·.kind = .directory)).map (·.name) := by
    rw [ofItems, subdirs_listed, subdirs_readEntries, List.map_map]
    rfl
  unfold Backend.survey
  simp only [hn, hs, Except.bind, bind, value_read, path_unread, name_unread]
  rcases hl : b.readDir path with e | listing
  · rfl
  · simp only [linkBase]
    by_cases ha : listing.entries.any (·.kind = .symlink) = true
    · simp only [if_pos ha, Backend.askRealPath, Scan.run_ask]
      rcases hr : b.realPath path with e | r
      · rfl
      · exact congrArg Except.ok (hfound r listing)
    · simp only [if_neg ha]
      exact congrArg Except.ok (hfound path listing)

/-- The directories that are found stand below the one that was read, unread. -/
lemma subdirs_of_read {d r : Directory} (h : (d.read b).run.value = .ok r) :
    r.subdirs = (r.subdirs.map (·.name)).map fun n => unread n (Path.join d.path n) := by
  obtain ⟨listing, base, -, -, rfl⟩ := (read_eq_ok_iff b).1 h
  rw [ofItems, subdirs_listed, subdirs_readEntries, List.map_map, List.map_map]
  rfl

/-- Whether a directory can be loaded, and which directories are then found, is its survey. -/
theorem load_survey {path : String} (h : path ≠ "") :
    (load b path).run.value.map (fun d => d.subdirs.map (·.name)) =
      b.survey (Path.normalize path) := by
  rw [value_load, value_locate b h]
  rcases hn : Path.nameOf (Path.normalize path) with e | n
  · unfold Backend.survey
    rw [hn]
    rfl
  · rcases hs : b.stat (Path.normalize path) with e | _ | _ | _
    · unfold Backend.survey
      rw [hn, hs]
      rfl
    · exact read_survey b ⟨n, hn⟩ hs
    all_goals
      unfold Backend.survey
      rw [hn, hs]
      rfl

/-- A loaded directory bears its path in normal form, and the directories found stand below
it, unread. -/
lemma exists_of_load {path : String} {d : Directory} (h : (load b path).run.value = .ok d) :
    d.path = Path.normalize path ∧ Path.nameOf d.path = .ok d.name ∧
      d.subdirs = (d.subdirs.map (·.name)).map fun n => unread n (Path.join d.path n) := by
  obtain ⟨x, hl, hread⟩ := (load_eq_ok_iff b).1 h
  obtain ⟨-, n, hn, -, rfl⟩ := (locate_eq_ok_iff b).1 hl
  obtain ⟨-, hname, hpath⟩ := read_keeps b hread
  have hsub := subdirs_of_read b hread
  rw [← hpath] at hsub
  rw [path_unread] at hpath
  rw [name_unread] at hname
  exact ⟨hpath, hpath ▸ hname ▸ hn, hsub⟩

/-- A path is as good as its normal form. -/
lemma load_normalize {path : String} (h : path ≠ "") :
    load b (Path.normalize path) = load b path := by
  unfold load locate
  rw [if_neg h, if_neg (Path.normalize_ne_empty path), Path.normalize_idem]

end Directory

end DeviceModel
