import Mathlib.Data.List.DropRight
import DeviceModel.Proofs.Path.Relative

/-!
What does not depend on how a path is spelled.

A name is joined to a path as well as to its normal form, and a path that ends in a name keeps
that name at its end. At the end of an absolute path in normal form stands no other name than
one that an entry may have, so these are just the names that are kept.
-/

namespace DeviceModel.Path

variable {p n : String}

/-! ### The components of a normal form -/

lemma normalize_of_isAbsolute (h : isAbsolute p = true) : normalize p = render (walk p []) :=
  if_pos h

lemma normalize_of_not_isAbsolute (h : isAbsolute p = false) :
    normalize p = renderRelative ((components p).foldl Component.climb []) :=
  if_neg (by simp [h])

lemma isAbsolute_normalize_eq (p : String) : isAbsolute (normalize p) = isAbsolute p := by
  rcases ha : isAbsolute p with _ | _
  · rw [normalize_of_not_isAbsolute ha]
    exact isAbsolute_renderRelative (isName_of_climbs (climbs_components p))
  · exact isAbsolute_normalize ha

/-- The components of a normal form lead where those of the path lead. -/
lemma walk_normalize (h : isAbsolute p = true) : walk (normalize p) [] = walk p [] := by
  rw [normalize_of_isAbsolute h, walk_render fun _ hm => isEntry_of_mem_walk hm]

lemma foldl_climb_normalize (h : isAbsolute p = false) :
    (components (normalize p)).foldl Component.climb [] =
      (components p).foldl Component.climb [] := by
  have hst := climbs_components p
  have hrelative := (isAbsolute_normalize_eq p).trans h
  rw [components, hrelative, normalize_of_not_isAbsolute h]
  by_cases hnil : (components p).foldl Component.climb [] = []
  · rw [hnil]
    rfl
  · rw [names_renderRelative hnil (isName_of_climbs hst)]
    exact foldl_climb_of_climbs hst

/-! ### Joining -/

/-- A name joined to a path leaves it absolute or not. -/
lemma isAbsolute_join (h : p ≠ "") (n : String) : isAbsolute (join p n) = isAbsolute p := by
  have hslashes : ∀ c ∈ (p.toList.reverse.takeWhile (· == '/')).reverse, c = '/' := by
    intro c hc
    simpa using List.mem_takeWhile_imp (List.mem_reverse.1 hc)
  have hsplit : p.toList = (trimEnd p).toList ++
      (p.toList.reverse.takeWhile (· == '/')).reverse := by
    rw [trimEnd, String.toList_ofList, ← List.reverse_append, List.takeWhile_append_dropWhile,
      List.reverse_reverse]
  rw [isAbsolute, isAbsolute, join, String.toList_ofList]
  rcases ht : (trimEnd p).toList with _ | ⟨c, cs⟩
  · -- nothing but slashes: the one that is put in between is the first
    rw [ht, List.nil_append] at hsplit
    rcases hs : (p.toList.reverse.takeWhile (· == '/')).reverse with _ | ⟨c, cs⟩
    · rw [hs] at hsplit
      exact absurd (String.toList_inj.1 hsplit) h
    · rw [hs] at hsplit hslashes
      rw [hsplit, hslashes c List.mem_cons_self]
      rfl
  · rw [hsplit, ht]
    rfl

/-- The slashes at the end of a directory do not count. -/
lemma join_trimEnd (p n : String) : join (trimEnd p) n = join p n := by
  have htrim : trimEnd (trimEnd p) = trimEnd p := by
    rw [trimEnd, trimEnd, String.toList_ofList, List.reverse_reverse, List.dropWhile_idempotent]
  rw [join, join, htrim]

lemma components_join (h : p ≠ "") (n : String) :
    components (join p n) = components p ++ (names n).map .ofName := by
  rw [components, components, isAbsolute_join h, names_join, List.map_append, List.append_assoc]

/-- **Joining**: a path may be cleaned up before a name is joined to it. -/
theorem normalize_join_normalize (h : p ≠ "") (n : String) :
    normalize (join (normalize p) n) = normalize (join p n) := by
  have hn := normalize_ne_empty p
  have hnormal := (isAbsolute_join hn n).trans (isAbsolute_normalize_eq p)
  have hjoin := isAbsolute_join h n
  rcases ha : isAbsolute p with _ | _
  · have hclimb := foldl_climb_normalize ha
    rw [normalize_of_not_isAbsolute (hnormal.trans ha),
      normalize_of_not_isAbsolute (hjoin.trans ha), components_join hn, components_join h,
      List.foldl_append, List.foldl_append, hclimb]
  · have hwalk := walk_normalize ha
    unfold walk at hwalk
    rw [normalize_of_isAbsolute (hnormal.trans ha), normalize_of_isAbsolute (hjoin.trans ha), walk,
      walk, components_join hn, components_join h, List.foldl_append, List.foldl_append, hwalk]

/-! ### The last name -/

lemma names_of_isName (hn : IsName n) : names n = [n] := by
  rw [← names_slash_append, ← render_singleton, names_render (by simpa using hn)]

lemma nameOf_join (p : String) (hn : IsName n) : nameOf (join p n) = .ok n := by
  rw [nameOf_eq_ok_iff, names_join, names_of_isName hn, List.getLast?_concat]

/-- A path keeps the name at its end when it is cleaned up, if an entry may have the name. -/
lemma nameOf_normalize (h : nameOf p = .ok n) (hn : IsEntry n) : nameOf (normalize p) = .ok n := by
  rw [nameOf_eq_ok_iff] at h ⊢
  obtain ⟨front, hfront⟩ := List.getLast?_eq_some_iff.1 h
  have hcomponents : ∃ cs, components p = cs ++ [.normal n] := by
    refine ⟨(if isAbsolute p then [.root] else []) ++ front.map .ofName, ?_⟩
    rw [components, hfront, List.map_append, List.map_singleton, ofName_of_isEntry hn,
      List.append_assoc]
  obtain ⟨cs, hcs⟩ := hcomponents
  rcases ha : isAbsolute p with _ | _
  · have hst := isName_of_climbs (climbs_components p)
    rw [normalize_of_not_isAbsolute ha]
    rw [hcs, List.foldl_append] at hst ⊢
    rw [names_renderRelative (by simp [Component.climb]) hst]
    exact List.getLast?_concat
  · have hst : ∀ m ∈ walk p [], IsName m := fun m hm => (isEntry_of_mem_walk hm).1
    rw [normalize_of_isAbsolute ha, names_render hst, walk, hcs, List.foldl_append]
    exact List.getLast?_concat

/-- The name at the end of an absolute path in normal form is one that an entry may have. -/
lemma isEntry_of_nameOf_normalize (ha : isAbsolute p = true) (h : nameOf (normalize p) = .ok n) :
    IsEntry n := by
  obtain ⟨st, hst, hp⟩ := exists_render_of_isAbsolute ha
  rw [nameOf_eq_ok_iff, hp, names_render (isName_of_isEntry hst)] at h
  exact hst n (List.mem_of_getLast? h)

end DeviceModel.Path
