import Mathlib.Tactic.Lemma
import DeviceModel.Path

/-!
Paths in normal form, and the names they are made of.
-/

namespace DeviceModel.Path

/-! ### Names -/

lemma parts_eq_nil_iff {α : Type} {sep : α → Bool} {cs : List α} :
    Text.parts sep cs = [] ↔ ∀ c ∈ cs, sep c = true := by
  induction cs with
  | nil => simp
  | cons c cs ih =>
    by_cases hc : sep c = true
    · rw [Text.parts_cons_sep hc, ih]
      simp [hc]
    · rcases hs : Text.split sep cs with _ | ⟨p, ps⟩
      · exact absurd hs (Text.split_ne_nil sep cs)
      · have h : Text.parts sep (c :: cs) = (c :: p) :: ps.filter (!·.isEmpty) := by
          rw [Text.parts, Text.split_cons_of_not (by simpa using hc) hs]
          simp
        simp [h, hc]

lemma names_eq_nil_iff {path : String} : names path = [] ↔ ∀ c ∈ path.toList, c = '/' := by
  rw [names, List.map_eq_nil_iff, parts_eq_nil_iff]
  simp

/-- A path whose normal form has a name has one itself. -/
lemma names_ne_nil_of_normalize {path : String} (he : path ≠ "")
    (h : names (normalize path) ≠ []) : names path ≠ [] := by
  intro hn
  rw [names_eq_nil_iff] at hn
  have ha : isAbsolute path = true := by
    unfold isAbsolute
    rcases hp : path.toList with _ | ⟨c, cs⟩
    · exact absurd (by simpa using congrArg String.ofList hp) he
    · simp [hn c (by simp [hp])]
  have hc : components path = [.root] := by
    simp [components, ha, names_eq_nil_iff.2 hn]
  have hw : normalize path = "/" := by
    simp [normalize, ha, walk, hc]
  rw [hw] at h
  exact h rfl

lemma nameOf_eq_ok_iff {path n : String} :
    nameOf path = .ok n ↔ (names path).getLast? = some n := by
  unfold nameOf
  cases (names path).getLast? <;> simp

lemma exists_nameOf {path : String} (h : names path ≠ []) : ∃ n, nameOf path = .ok n :=
  ⟨(names path).getLast h, nameOf_eq_ok_iff.2 (List.getLast?_eq_some_getLast h)⟩

/-! ### Paths that are in normal form -/

/-- A name that an entry of a directory may have. -/
def IsEntry (n : String) : Prop := IsName n ∧ n ≠ "." ∧ n ≠ ".."

lemma ofName_of_isEntry {n : String} (h : IsEntry n) : Component.ofName n = .normal n := by
  rw [Component.ofName, if_neg h.2.1, if_neg h.2.2]

lemma isName_of_isEntry {st : List String} (h : ∀ n ∈ st, IsEntry n) : ∀ n ∈ st, IsName n :=
  fun n hn => (h n hn).1

lemma foldl_walk_normal (st st' : List String) :
    (st'.map Component.normal).foldl Component.walk st = st ++ st' := by
  induction st' generalizing st with
  | nil => simp
  | cons n st' ih => simp [ih]

/-- Where a written path leads is what was written. -/
lemma walk_render {st : List String} (h : ∀ n ∈ st, IsEntry n) (from' : List String) :
    walk (render st) from' = st := by
  have hnormal : st.map Component.ofName = st.map Component.normal :=
    List.map_congr_left fun n hn => ofName_of_isEntry (h n hn)
  rw [walk, components, isAbsolute_render, names_render (isName_of_isEntry h), hnormal]
  exact foldl_walk_normal [] st

lemma normalize_render {st : List String} (h : ∀ n ∈ st, IsEntry n) :
    normalize (render st) = render st := by
  rw [normalize, if_pos (isAbsolute_render st), walk_render h]

/-- The names that a path pushes are names that an entry may have. -/
lemma isEntry_of_mem_components {path n : String} (h : .normal n ∈ components path) : IsEntry n := by
  rw [components, List.mem_append] at h
  rcases h with h | h
  · split at h <;> simp at h
  · obtain ⟨m, hm, hmn⟩ := List.mem_map.1 h
    unfold Component.ofName at hmn
    split at hmn
    · cases hmn
    · split at hmn
      · cases hmn
      · cases hmn
        exact ⟨isName_of_mem_names hm, ‹_›, ‹_›⟩

/-- A walk comes only by names that an entry may have. -/
lemma isEntry_of_mem_walk {path n : String} (hn : n ∈ walk path []) : IsEntry n := by
  have hstep {cs : List Component} {st : List String}
      (hcs : ∀ m, .normal m ∈ cs → IsEntry m) (hst : ∀ m ∈ st, IsEntry m) :
      ∀ m ∈ cs.foldl Component.walk st, IsEntry m := by
    induction cs generalizing st with
    | nil => exact hst
    | cons c cs ih =>
      refine ih (fun m hm => hcs m (List.mem_cons_of_mem _ hm)) fun m hm => ?_
      cases c with
      | root => cases hm
      | current => exact hst m hm
      | parent => exact hst m (List.dropLast_subset _ hm)
      | normal k =>
        rcases List.mem_append.1 hm with hm | hm
        · exact hst m hm
        · rw [List.mem_singleton.1 hm]
          exact hcs k List.mem_cons_self
  exact hstep (fun _ hm => isEntry_of_mem_components hm) (by simp) n hn

lemma ne_empty_of_isAbsolute {path : String} (h : isAbsolute path = true) : path ≠ "" := by
  rintro rfl
  cases h

/-- The normal form of an absolute path is written with entry names. -/
theorem exists_render_of_isAbsolute {path : String} (h : isAbsolute path = true) :
    ∃ st, (∀ n ∈ st, IsEntry n) ∧ normalize path = render st :=
  ⟨walk path [], fun _ hn => isEntry_of_mem_walk hn, by rw [normalize, if_pos h]⟩

lemma render_inj {st st' : List String} (h : ∀ n ∈ st, IsEntry n) (h' : ∀ n ∈ st', IsEntry n)
    (he : render st = render st') : st = st' := by
  rw [← names_render (isName_of_isEntry h), he, names_render (isName_of_isEntry h')]

lemma nameOf_render_concat {st : List String} {n : String} (h : ∀ m ∈ st ++ [n], IsEntry m) :
    nameOf (render (st ++ [n])) = .ok n := by
  rw [nameOf_eq_ok_iff, names_render (isName_of_isEntry h), List.getLast?_concat]

lemma isAbsolute_normalize {path : String} (h : isAbsolute path = true) :
    isAbsolute (normalize path) = true := by
  obtain ⟨st, -, hp⟩ := exists_render_of_isAbsolute h
  rw [hp]
  exact isAbsolute_render st

lemma normalize_normalize {path : String} (h : isAbsolute path = true) :
    normalize (normalize path) = normalize path := by
  obtain ⟨st, hst, hp⟩ := exists_render_of_isAbsolute h
  rw [hp, normalize_render hst]

lemma nameOf_root : nameOf (render []) = .error .invalidArgument := rfl

/-! ### One name more -/

lemma isEntry_concat {st : List String} {n : String} (h : ∀ m ∈ st, IsEntry m) (hn : IsEntry n) :
    ∀ m ∈ st ++ [n], IsEntry m :=
  List.forall_mem_append.2 ⟨h, List.forall_mem_singleton.2 hn⟩

lemma joined_concat {st : List String} (h : st ≠ []) (n : String) :
    joined (st ++ [n]) = joined st ++ '/' :: n.toList := by
  rw [joined, List.map_append, List.map_singleton, Text.join_concat (by simpa using h)]
  rfl

lemma render_singleton (n : String) : render [n] = "/" ++ n := by
  rw [← String.toList_inj]
  simp [render, joined]

lemma render_concat {st : List String} (h : st ≠ []) (n : String) :
    render (st ++ [n]) = render st ++ "/" ++ n := by
  rw [← String.toList_inj]
  simp only [render, joined_concat h, String.toList_ofList, String.toList_append]
  simp

/-- A path that ends in a name has no slash at its end. -/
lemma trimEnd_of_append {p n : String} (hn : IsName n) : trimEnd (p ++ n) = p ++ n := by
  obtain ⟨he, hs⟩ := hn
  rw [← String.toList_inj, trimEnd, String.toList_ofList, String.toList_append]
  rcases hc : n.toList.reverse with _ | ⟨c, cs⟩
  · have hnil : n.toList = [] := by simpa using congrArg List.reverse hc
    exact absurd (String.toList_inj.1 hnil) he
  · have hcs : c ≠ '/' := by
      rintro rfl
      exact hs (List.mem_reverse.1 (hc ▸ List.mem_cons_self))
    have hdrop : (p.toList ++ n.toList).reverse.dropWhile (· == '/') =
        (p.toList ++ n.toList).reverse := by
      rw [List.reverse_append, hc, List.cons_append,
        List.dropWhile_cons_of_neg (by simpa using hcs)]
    rw [hdrop, List.reverse_reverse]

lemma trimEnd_render {st : List String} (h : ∀ n ∈ st, IsEntry n) (hne : st ≠ []) :
    trimEnd (render st) = render st := by
  have hlast : st.getLast hne ∈ st := List.getLast_mem hne
  rw [← List.dropLast_concat_getLast hne]
  by_cases hi : st.dropLast = []
  · rw [hi, List.nil_append, render_singleton]
    exact trimEnd_of_append (h _ hlast).1
  · rw [render_concat hi]
    exact trimEnd_of_append (h _ hlast).1

lemma dropWhile_of_isName {n : String} (hn : IsName n) :
    n.toList.dropWhile (· == '/') = n.toList := by
  rcases hc : n.toList with _ | ⟨c, cs⟩
  · rfl
  · have hcs : c ≠ '/' := by
      rintro rfl
      exact hn.2 (hc ▸ List.mem_cons_self)
    rw [List.dropWhile_cons_of_neg (by simpa using hcs)]

/-- A name joined to a written path is written behind it. -/
theorem join_render {st : List String} {n : String} (h : ∀ m ∈ st, IsEntry m) (hn : IsEntry n) :
    join (render st) n = render (st ++ [n]) := by
  rw [join, dropWhile_of_isName hn.1]
  by_cases hne : st = []
  · subst hne
    have hroot : trimEnd (render []) = "" := rfl
    rw [hroot, List.nil_append, render_singleton, ← String.toList_inj]
    simp
  · rw [trimEnd_render h hne, render_concat hne, ← String.toList_inj]
    simp

/-- Below the root that is the path, a slash and the name. -/
lemma join_render_of_ne_nil {st : List String} {n : String} (h : ∀ m ∈ st, IsEntry m)
    (hn : IsEntry n) (hne : st ≠ []) : join (render st) n = render st ++ "/" ++ n := by
  rw [join_render h hn, render_concat hne]

/-- A written path is cut into what it is written behind and its last name. -/
lemma dirAndName_render (st : List String) {n : String} (hn : IsEntry n) :
    dirAndName (render (st ++ [n])) = (render st, n) := by
  have hname : ∀ c ∈ n.toList.reverse, (c != '/') = true := by
    intro c hc
    rw [bne_iff_ne]
    rintro rfl
    exact hn.1.2 (List.mem_reverse.1 hc)
  by_cases hne : st = []
  · subst hne
    have hrev : (render ([] ++ [n])).toList.reverse = n.toList.reverse ++ ['/'] := by
      rw [List.nil_append, render_singleton, String.toList_append, List.reverse_append]
      rfl
    rw [dirAndName, hrev, List.takeWhile_append_of_pos hname, List.dropWhile_append_of_pos hname]
    simp
  · have hrev : (render (st ++ [n])).toList.reverse =
        n.toList.reverse ++ '/' :: (render st).toList.reverse := by
      rw [render_concat hne, String.toList_append, List.reverse_append, String.toList_append,
        List.reverse_append]
      rfl
    obtain ⟨c, cs, hc⟩ : ∃ c cs, (render st).toList.reverse = c :: cs := by
      refine List.exists_cons_of_ne_nil fun hnil => ?_
      have habs := isAbsolute_render st
      rw [isAbsolute, List.reverse_eq_nil_iff.1 hnil] at habs
      cases habs
    rw [dirAndName, hrev, List.takeWhile_append_of_pos hname, List.dropWhile_append_of_pos hname,
      hc, List.dropWhile_cons_of_neg (by simp)]
    change (String.ofList (c :: cs).reverse, _) = _
    rw [← hc]
    simp

end DeviceModel.Path
