import DeviceModel.Proofs.Path.Spelling

/-!
Normalizing decides what a path means.

`follow` reads one stretch between two slashes, and a path means the walk that its stretches
describe. The normal form of a path means what the path does (`walk_normalize_eq`), it has one of
four forms (`IsNormal`), and paths that mean the same have the same normal form:
`normalize_decides_meaning`.
-/

namespace DeviceModel.Path

variable {p q : String} {st st' : List String} {cs : List Component}

/-! ### One stretch after another -/

/-- One stretch of a path, on the stack of names that leads to where it is read. -/
def follow (stack : List String) (stretch : List Char) : List String :=
  if stretch = [] ∨ stretch = ['.'] then stack
  else if stretch = ['.', '.'] then stack.dropLast
  else stack ++ [String.ofList stretch]

lemma follow_nil (stack : List String) : follow stack [] = stack := by simp [follow]

lemma follow_eq_walk (stack : List String) {stretch : List Char} (h : stretch ≠ []) :
    follow stack stretch = Component.walk stack (.ofName (String.ofList stretch)) := by
  have hdot : String.ofList stretch = "." ↔ stretch = ['.'] := by
    rw [← String.toList_inj, String.toList_ofList]
    rfl
  have hdots : String.ofList stretch = ".." ↔ stretch = ['.', '.'] := by
    rw [← String.toList_inj, String.toList_ofList]
    rfl
  unfold follow Component.ofName
  simp only [h, hdot, hdots, false_or]
  split
  · rfl
  · split <;> rfl

lemma foldl_follow (stack : List String) (ps : List (List Char)) :
    ps.foldl follow stack =
      ((ps.filter (!·.isEmpty)).map (Component.ofName ∘ String.ofList)).foldl
        Component.walk stack := by
  induction ps generalizing stack with
  | nil => rfl
  | cons stretch ps ih =>
    rw [List.foldl_cons, ih]
    by_cases h : stretch = []
    · rw [h, follow_nil, List.filter_cons_of_neg (by simp)]
    · rw [follow_eq_walk stack h, List.filter_cons_of_pos (by simpa using h)]
      rfl

/-- A walk reads the stretches between the slashes, from the root if the path starts there. -/
lemma walk_eq_foldl_follow (p : String) (stack : List String) :
    walk p stack = (Text.split (· == '/') p.toList).foldl follow
      (if isAbsolute p then [] else stack) := by
  rw [foldl_follow, walk, components, names, Text.parts, List.foldl_append, List.map_map]
  split <;> rfl

/-! ### What a normal form means -/

/-- A stack that was climbed leads where the steps lead, from any place. -/
lemma walk_climb {c : Component} (h : Climbs st) (hroot : c ≠ .root)
    (hc : ∀ n, c = .normal n → IsEntry n) (s : List String) :
    ((Component.climb st c).map Component.ofName).foldl Component.walk s =
      Component.walk ((st.map Component.ofName).foldl Component.walk s) c := by
  have hpush (n : String) : ((st ++ [n]).map Component.ofName).foldl Component.walk s =
      Component.walk ((st.map Component.ofName).foldl Component.walk s) (.ofName n) := by
    rw [List.map_append, List.foldl_append]
    rfl
  cases c with
  | root => exact absurd rfl hroot
  | current => rfl
  | normal n =>
    have hn := ofName_of_isEntry (hc n rfl)
    rw [← hn, ← hpush]
    simp [Component.climb, hn]
  | parent =>
    obtain ⟨up, down, rfl, hdown⟩ := h
    rcases List.eq_nil_or_concat down with rfl | ⟨down, n, rfl⟩
    · -- one more way up is kept, whatever stands before it
      have hclimb : Component.climb (List.replicate up ".." ++ []) .parent =
          List.replicate up ".." ++ [] ++ [".."] := by
        cases up with
        | zero => rfl
        | succ up => simp [Component.climb, List.replicate_succ']
      rw [hclimb, hpush]
      rfl
    · have hn : IsEntry n := hdown n (by simp)
      have hclimb : Component.climb (List.replicate up ".." ++ down.concat n) .parent =
          List.replicate up ".." ++ down := by
        rw [List.concat_eq_append, ← List.append_assoc]
        simp [Component.climb, hn.2.2]
      rw [hclimb, List.concat_eq_append, ← List.append_assoc, List.map_append, List.foldl_append]
      simp [ofName_of_isEntry hn]

lemma walk_foldl_climb (hroot : .root ∉ cs) (hcs : ∀ n, .normal n ∈ cs → IsEntry n)
    (s : List String) :
    ((cs.foldl Component.climb []).map Component.ofName).foldl Component.walk s =
      cs.foldl Component.walk s := by
  induction cs using List.reverseRecOn with
  | nil => rfl
  | append_singleton cs c ih =>
    have hfront (n : String) (hn : .normal n ∈ cs) : IsEntry n :=
      hcs n (List.mem_append_left _ hn)
    -- the last component comes last on both sides, so the induction is from the end
    have hclimbs : Climbs (cs.foldl Component.climb []) := climbs_foldl climbs_nil hfront
    rw [List.foldl_append, List.foldl_append, List.foldl_cons, List.foldl_nil,
      walk_climb hclimbs (by rintro rfl; simp at hroot) (by rintro n rfl; exact hcs n (by simp)),
      ih (fun hr => hroot (List.mem_append_left _ hr)) hfront]
    rfl

lemma root_not_mem_components (h : isAbsolute p = false) : .root ∉ components p := by
  rw [components, if_neg (by simp [h]), List.nil_append, List.mem_map]
  rintro ⟨n, -, hn⟩
  unfold Component.ofName at hn
  split at hn
  · cases hn
  · split at hn <;> cases hn

/-- The stack a relative path leaves behind leads where the path does. -/
lemma walk_of_not_isAbsolute (h : isAbsolute p = false) (s : List String) :
    walk p s =
      (((components p).foldl Component.climb []).map Component.ofName).foldl Component.walk s :=
  (walk_foldl_climb (root_not_mem_components h) (fun _ hn => isEntry_of_mem_components hn) s).symm

/-- Normalizing a path leaves what it means. -/
lemma walk_normalize_eq (p : String) : walk (normalize p) = walk p := by
  funext s
  have hnormal := isAbsolute_normalize_eq p
  rcases ha : isAbsolute p with _ | _
  · have hclimb := foldl_climb_normalize ha
    rw [walk_of_not_isAbsolute (hnormal.trans ha), walk_of_not_isAbsolute ha, hclimb]
  · rw [walk_of_isAbsolute (hnormal.trans ha), walk_of_isAbsolute ha, walk_normalize ha]

/-! ### Ways up and names -/

lemma foldl_walk_up (up : Nat) (s : List String) :
    ((List.replicate up "..").map Component.ofName).foldl Component.walk s = s.rdrop up := by
  induction up generalizing s with
  | zero => simp
  | succ up ih =>
    have hdots : Component.ofName ".." = .parent := rfl
    rw [List.replicate_succ, List.map_cons, List.foldl_cons, hdots, ih]
    rcases List.eq_nil_or_concat s with rfl | ⟨s, n, rfl⟩
    · simp
    · rw [List.concat_eq_append, List.rdrop_concat_succ]
      simp

/-- A path that is not absolute goes up so often and then down by names. -/
lemma exists_walk_of_not_isAbsolute (h : isAbsolute p = false) :
    ∃ up down, (∀ n ∈ down, IsEntry n) ∧
      normalize p = renderRelative (List.replicate up ".." ++ down) ∧
      ∀ s, walk p s = s.rdrop up ++ down := by
  obtain ⟨up, down, hst, hdown⟩ := climbs_components p
  refine ⟨up, down, hdown, ?_, fun s => ?_⟩
  · rw [normalize_of_not_isAbsolute h, hst]
  · have hnormal : down.map Component.ofName = down.map Component.normal :=
      List.map_congr_left fun n hn => ofName_of_isEntry (hdown n hn)
    rw [walk_of_not_isAbsolute h, hst, List.map_append, List.foldl_append, foldl_walk_up, hnormal,
      foldl_walk_normal]

/-- A stack that is as deep as one likes. -/
def tower (depth : Nat) : List String := List.replicate depth "x"

lemma isEntry_of_mem_tower {depth : Nat} : ∀ n ∈ tower depth, IsEntry n := by
  intro n hn
  rw [List.eq_of_mem_replicate hn]
  simp [IsEntry, IsName]

lemma length_rdrop_tower (depth up : Nat) : ((tower depth).rdrop up).length = depth - up := by
  simp [tower, List.rdrop]

/-! ### The normal form is the only one -/

/-- The paths mean the same at every place that has a path. -/
def SameMeaning (p q : String) : Prop :=
  ∀ s, (∀ n ∈ s, IsEntry n) → walk p s = walk q s

lemma SameMeaning.symm (h : SameMeaning p q) : SameMeaning q p := fun s hs => (h s hs).symm

/-- What is the same wherever it is read starts with a slash. -/
lemma SameMeaning.absolute (h : SameMeaning p q) (hp : isAbsolute p = true) :
    isAbsolute q = true := by
  by_contra hq
  obtain ⟨up, down, -, -, hwalk⟩ := exists_walk_of_not_isAbsolute (by simpa using hq)
  have hroot : walk p [] = [].rdrop up ++ down := (h [] (by simp)).trans (hwalk [])
  -- read from a place deeper than it climbs, it keeps one more name than read from the root
  have hdeep : walk p [] = (tower (up + 1)).rdrop up ++ down :=
    (walk_of_isAbsolute hp _).symm.trans ((h _ isEntry_of_mem_tower).trans (hwalk _))
  have hlength := congrArg List.length (hroot.symm.trans hdeep)
  rw [List.length_append, List.length_append, length_rdrop_tower] at hlength
  simp at hlength

/-- Paths that mean the same at every place have one normal form. -/
lemma SameMeaning.normalize_eq (h : SameMeaning p q) : normalize p = normalize q := by
  rcases hp : isAbsolute p with _ | _
  · have hq : isAbsolute q = false := by
      by_contra hq
      simpa [hp] using h.symm.absolute (by simpa using hq)
    obtain ⟨up, down, -, hnp, hwp⟩ := exists_walk_of_not_isAbsolute hp
    obtain ⟨up', down', -, hnq, hwq⟩ := exists_walk_of_not_isAbsolute hq
    -- from the root only the names count
    have hdown : down = down' := by
      have hroot := h [] (by simp)
      rw [hwp, hwq] at hroot
      simpa using hroot
    -- and from a deep place the ways up can be told from how many names are left
    have hup : up = up' := by
      have hdeep := congrArg List.length (h (tower (up + up' + 1)) isEntry_of_mem_tower)
      rw [hwp, hwq, hdown, List.length_append, List.length_append, length_rdrop_tower,
        length_rdrop_tower] at hdeep
      omega
    rw [hnp, hnq, hdown, hup]
  · rw [normalize_of_isAbsolute hp, normalize_of_isAbsolute (h.absolute hp), h [] (by simp)]

/-! ### The forms -/

/-- The forms that a path has once it is normalized. -/
inductive IsNormal : String → Prop
  | root : IsNormal "/"
  | current : IsNormal "."
  | absolute {down : List String} (hne : down ≠ []) (hdown : ∀ n ∈ down, IsEntry n) :
      IsNormal (String.ofList ('/' :: joined down))
  | relative {up : Nat} {down : List String} (hne : up ≠ 0 ∨ down ≠ [])
      (hdown : ∀ n ∈ down, IsEntry n) :
      IsNormal (String.ofList (joined (List.replicate up ".." ++ down)))

lemma isNormal_normalize (p : String) : IsNormal (normalize p) := by
  rcases ha : isAbsolute p with _ | _
  · obtain ⟨up, down, hdown, hp, -⟩ := exists_walk_of_not_isAbsolute ha
    rw [hp]
    by_cases hne : List.replicate up ".." ++ down = []
    · rw [hne]
      exact .current
    · rw [renderRelative, if_neg (by simpa using hne)]
      refine .relative ?_ hdown
      by_contra hnil
      push Not at hnil
      simp [hnil] at hne
  · obtain ⟨down, hdown, hp⟩ := exists_render_of_isAbsolute ha
    rw [hp]
    by_cases hne : down = []
    · rw [hne]
      exact .root
    · exact .absolute hne hdown

/-- The normal forms are the paths that normalizing leaves as they are. -/
theorem isNormal_iff : IsNormal p ↔ normalize p = p := by
  constructor
  · rintro (_ | _ | ⟨hne, hdown⟩ | @⟨up, down, hne, hdown⟩)
    · rfl
    · rfl
    · exact normalize_render hdown
    · have hst : List.replicate up ".." ++ down ≠ [] := by
        rcases hne with hne | hne <;> simp [hne]
      have hwritten : renderRelative (List.replicate up ".." ++ down) =
          String.ofList (joined (List.replicate up ".." ++ down)) := by
        rw [renderRelative, if_neg (by simpa using hst)]
      rw [← hwritten, normalize_renderRelative ⟨up, down, rfl, hdown⟩]
  · intro h
    rw [← h]
    exact isNormal_normalize p

/-! ### Meaning -/

/-- **Normal forms and meaning**: a path and its normal form lead to the same place from every
place, the normal form has one of the four forms, and two paths have the same normal form just
if they lead to the same place from every place; places that have a path are enough for that. An
absolute path stays one, and its normal form has no way up. -/
theorem normalize_decides_meaning (p q : String) :
    (∀ s, walk p s = (Text.split (· == '/') p.toList).foldl follow
      (if isAbsolute p then [] else s)) ∧
    walk (normalize p) = walk p ∧
    IsNormal (normalize p) ∧
    (normalize p = normalize q ↔ walk p = walk q) ∧
    (normalize p = normalize q ↔ ∀ s, (∀ n ∈ s, IsEntry n) → walk p s = walk q s) ∧
    normalize (normalize p) = normalize p ∧
    isAbsolute (normalize p) = isAbsolute p ∧
    (isAbsolute p = true → ∀ n ∈ names (normalize p), IsEntry n) := by
  have hmeaning {p q : String} (h : normalize p = normalize q) : walk p = walk q := by
    rw [← walk_normalize_eq p, h, walk_normalize_eq]
  refine ⟨walk_eq_foldl_follow p, walk_normalize_eq p, isNormal_normalize p, ?_, ?_,
    normalize_idem p, isAbsolute_normalize_eq p, fun ha => ?_⟩
  · refine ⟨hmeaning, fun h => ?_⟩
    have hsame : SameMeaning p q := fun s _ => congrFun h s
    exact hsame.normalize_eq
  · refine ⟨fun h s _ => congrFun (hmeaning h) s, fun h => ?_⟩
    have hsame : SameMeaning p q := h
    exact hsame.normalize_eq
  · obtain ⟨st, hst, hp⟩ := exists_render_of_isAbsolute ha
    rw [hp, names_render (isName_of_isEntry hst)]
    exact hst

end DeviceModel.Path
