import Mathlib.Data.List.TakeWhile
import Mathlib.Tactic.Conv
import DeviceModel.Proofs.Path.Normal

/-!
Paths of either kind, absolute or not.

The normal form of a path that is not absolute first goes up and then down, so for every path
normalizing twice is normalizing once. A path that only goes down may be written with a slash
in front or without one: `Spells`.
-/

namespace DeviceModel.Path

/-! ### Up, then down -/

/-- Some ways up, and names after them. -/
def Climbs (st : List String) : Prop :=
  ∃ up down, st = List.replicate up ".." ++ down ∧ ∀ n ∈ down, IsEntry n

lemma climbs_nil : Climbs [] := ⟨0, [], rfl, by simp⟩

lemma Climbs.climb {st : List String} {c : Component} (h : Climbs st)
    (hc : ∀ n, c = .normal n → IsEntry n) : Climbs (Component.climb st c) := by
  cases c with
  | root | current => exact h
  | normal n =>
    obtain ⟨up, down, rfl, hdown⟩ := h
    exact ⟨up, down ++ [n], List.append_assoc _ _ _, isEntry_concat hdown (hc n rfl)⟩
  | parent =>
    obtain ⟨up, down, rfl, hdown⟩ := h
    rcases List.eq_nil_or_concat down with rfl | ⟨down, n, rfl⟩
    · -- nothing is left to go up from, so one more way up is kept
      refine ⟨up + 1, [], ?_, by simp⟩
      cases up with
      | zero => rfl
      | succ up => simp [Component.climb, List.replicate_succ']
    · have hn : n ≠ ".." := (hdown n (by simp)).2.2
      refine ⟨up, down, ?_, fun m hm => hdown m (by simp [hm])⟩
      rw [List.concat_eq_append, ← List.append_assoc]
      simp [Component.climb, hn]

lemma climbs_foldl {cs : List Component} {st : List String} (h : Climbs st)
    (hcs : ∀ n, .normal n ∈ cs → IsEntry n) : Climbs (cs.foldl Component.climb st) := by
  induction cs generalizing st with
  | nil => exact h
  | cons c cs ih =>
    refine ih (h.climb fun n hn => hcs n (hn ▸ List.mem_cons_self)) fun n hn => ?_
    exact hcs n (List.mem_cons_of_mem _ hn)

/-- What is written as ways up and names is read as these. -/
lemma foldl_climb_of_climbs {st : List String} (h : Climbs st) :
    (st.map Component.ofName).foldl Component.climb [] = st := by
  obtain ⟨up, down, rfl, hdown⟩ := h
  have hup : ((List.replicate up "..").map Component.ofName).foldl Component.climb [] =
      List.replicate up ".." := by
    induction up with
    | zero => rfl
    | succ up ih =>
      rw [List.replicate_succ', List.map_append, List.foldl_append, ih]
      cases up with
      | zero => rfl
      | succ up => simp [Component.climb, Component.ofName, List.replicate_succ']
  have hnames (st : List String) :
      (down.map Component.ofName).foldl Component.climb st = st ++ down := by
    induction down generalizing st with
    | nil => simp
    | cons n down ih =>
      obtain ⟨hn, hrest⟩ := List.forall_mem_cons.1 hdown
      rw [List.map_cons, List.foldl_cons, ofName_of_isEntry hn, ih hrest]
      simp [Component.climb]
  rw [List.map_append, List.foldl_append, hup, hnames]

lemma isName_of_climbs {st : List String} (h : Climbs st) : ∀ n ∈ st, IsName n := by
  obtain ⟨up, down, rfl, hdown⟩ := h
  intro n hn
  rcases List.mem_append.1 hn with hn | hn
  · rw [List.eq_of_mem_replicate hn]
    simp [IsName]
  · exact (hdown n hn).1

/-! ### Written without a slash in front -/

lemma render_eq_append {st : List String} (h : st ≠ []) : render st = "/" ++ renderRelative st := by
  rw [renderRelative, if_neg (by simpa using h), ← String.toList_inj]
  simp [render]

lemma names_slash_append (p : String) : names ("/" ++ p) = names p := by
  have hslash : "/".toList = ['/'] := rfl
  rw [names, String.toList_append, hslash, List.singleton_append, Text.parts_cons_sep (by simp)]
  rfl

lemma names_renderRelative {st : List String} (hne : st ≠ []) (h : ∀ n ∈ st, IsName n) :
    names (renderRelative st) = st := by
  rw [← names_slash_append, ← render_eq_append hne, names_render h]

lemma isAbsolute_renderRelative {st : List String} (h : ∀ n ∈ st, IsName n) :
    isAbsolute (renderRelative st) = false := by
  rcases st with _ | ⟨n, st⟩
  · rfl
  · obtain ⟨hn, hs⟩ := h n List.mem_cons_self
    rcases hc : n.toList with _ | ⟨c, cs⟩
    · exact absurd (String.toList_inj.1 hc) hn
    · have hcs : c ≠ '/' := by
        rintro rfl
        exact hs (hc ▸ List.mem_cons_self)
      have hhead : (joined (n :: st)).head? = some c := by
        cases st with
        | nil => simp [joined, hc]
        | cons m st => simp [joined_cons_cons, hc]
      simp [isAbsolute, renderRelative, hhead, hcs]

/-- Where the components of a path lead. -/
lemma climbs_components (path : String) : Climbs ((components path).foldl Component.climb []) :=
  climbs_foldl climbs_nil fun _ hn => isEntry_of_mem_components hn

/-- The normal form of a path that is not absolute. -/
lemma exists_climbs_of_not_isAbsolute {path : String} (h : isAbsolute path = false) :
    ∃ st, Climbs st ∧ normalize path = renderRelative st :=
  ⟨_, climbs_components path, by rw [normalize, if_neg (by simp [h])]⟩

lemma normalize_renderRelative {st : List String} (h : Climbs st) :
    normalize (renderRelative st) = renderRelative st := by
  have hnames := isName_of_climbs h
  have habs := isAbsolute_renderRelative hnames
  by_cases hne : st = []
  · subst hne
    rfl
  · rw [normalize, if_neg (by simp [habs]), components, if_neg (by simp [habs]), List.nil_append,
      names_renderRelative hne hnames, foldl_climb_of_climbs h]

/-- **Normal forms**: normalizing twice is normalizing once. -/
theorem normalize_idem (path : String) : normalize (normalize path) = normalize path := by
  rcases ha : isAbsolute path with _ | _
  · obtain ⟨st, hst, hp⟩ := exists_climbs_of_not_isAbsolute ha
    rw [hp, normalize_renderRelative hst]
  · exact normalize_normalize ha

lemma normalize_ne_empty (path : String) : normalize path ≠ "" := by
  rcases ha : isAbsolute path with _ | _
  · obtain ⟨st, hst, hp⟩ := exists_climbs_of_not_isAbsolute ha
    rw [hp]
    by_cases hne : st = []
    · subst hne
      decide
    · intro he
      have hnames := names_renderRelative hne (isName_of_climbs hst)
      rw [he] at hnames
      exact hne hnames.symm
  · exact ne_empty_of_isAbsolute (isAbsolute_normalize ha)

/-! ### Joining -/

lemma parts_append_seps {α : Type} {sep : α → Bool} (as : List α) {seps : List α}
    (h : ∀ c ∈ seps, sep c = true) : Text.parts sep (as ++ seps) = Text.parts sep as := by
  cases seps with
  | nil => rw [List.append_nil]
  | cons c seps =>
    obtain ⟨hc, hrest⟩ := List.forall_mem_cons.1 h
    rw [Text.parts_append hc, parts_eq_nil_iff.2 hrest, List.append_nil]

lemma parts_dropWhile {α : Type} (sep : α → Bool) (cs : List α) :
    Text.parts sep (cs.dropWhile sep) = Text.parts sep cs := by
  induction cs with
  | nil => rfl
  | cons c cs ih =>
    by_cases hc : sep c = true
    · rw [List.dropWhile_cons_of_pos hc, ih, Text.parts_cons_sep hc]
    · rw [List.dropWhile_cons_of_neg hc]

lemma names_trimEnd (p : String) : names (trimEnd p) = names p := by
  have hsplit : p.toList = (p.toList.reverse.dropWhile (· == '/')).reverse ++
      (p.toList.reverse.takeWhile (· == '/')).reverse := by
    rw [← List.reverse_append, List.takeWhile_append_dropWhile, List.reverse_reverse]
  have hseps : ∀ c ∈ (p.toList.reverse.takeWhile (· == '/')).reverse, (c == '/') = true :=
    fun c hc => List.mem_takeWhile_imp (p := (· == '/')) (List.mem_reverse.1 hc)
  rw [names, names, trimEnd, String.toList_ofList]
  conv_rhs => rw [hsplit, parts_append_seps _ hseps]

/-- Slashes at the seam do not count. -/
theorem names_join (dir name : String) : names (join dir name) = names dir ++ names name := by
  have hdir := names_trimEnd dir
  unfold names at *
  rw [join, String.toList_ofList, Text.parts_append (by simp), parts_dropWhile, List.map_append,
    hdir]

lemma join_of_trimEnd {p n : String} (hp : trimEnd p = p) (hn : IsName n) :
    join p n = p ++ "/" ++ n := by
  rw [join, dropWhile_of_isName hn, hp, ← String.toList_inj]
  simp

lemma join_ne_empty (dir name : String) : join dir name ≠ "" := by
  intro he
  have hnil := congrArg String.toList he
  simp [join] at hnil

/-! ### Down only -/

/-- A path that leads down by the names of `st`, from the root or from where it is read. -/
structure Spells (st : List String) (p : String) : Prop where
  ne_nil : st ≠ []
  isEntry : ∀ n ∈ st, IsEntry n
  eq : p = render st ∨ p = renderRelative st

lemma renderRelative_concat {st : List String} (h : st ≠ []) (n : String) :
    renderRelative (st ++ [n]) = renderRelative st ++ "/" ++ n := by
  rw [renderRelative, renderRelative, if_neg (by simp), if_neg (by simpa using h),
    joined_concat h, ← String.toList_inj]
  simp

namespace Spells

variable {st : List String} {p : String}

lemma climbs (h : Spells st p) : Climbs st := ⟨0, st, rfl, h.isEntry⟩

lemma normalize_eq (h : Spells st p) : normalize p = p := by
  rcases h.eq with rfl | rfl
  · exact normalize_render h.isEntry
  · exact normalize_renderRelative h.climbs

lemma names_eq (h : Spells st p) : names p = st := by
  rcases h.eq with rfl | rfl
  · exact names_render (isName_of_isEntry h.isEntry)
  · exact names_renderRelative h.ne_nil (isName_of_isEntry h.isEntry)

lemma nameOf_eq (h : Spells st p) : nameOf p = .ok (st.getLast h.ne_nil) := by
  rw [nameOf_eq_ok_iff, h.names_eq, List.getLast?_eq_some_getLast]

lemma trimEnd_eq (h : Spells st p) : trimEnd p = p := by
  rcases h.eq with rfl | rfl
  · exact trimEnd_render h.isEntry h.ne_nil
  · have hlast := h.isEntry _ (List.getLast_mem h.ne_nil)
    have hst := List.dropLast_concat_getLast h.ne_nil
    by_cases hi : st.dropLast = []
    · rw [hi, List.nil_append] at hst
      have hsingle : renderRelative st = "" ++ st.getLast h.ne_nil := by
        conv_lhs => rw [← hst]
        simp [renderRelative, joined]
      rw [hsingle]
      exact trimEnd_of_append hlast.1
    · have hconcat : renderRelative st =
          renderRelative st.dropLast ++ "/" ++ st.getLast h.ne_nil := by
        conv_lhs => rw [← hst, renderRelative_concat hi]
      rw [hconcat]
      exact trimEnd_of_append hlast.1

lemma join_eq (h : Spells st p) {n : String} (hn : IsEntry n) : join p n = p ++ "/" ++ n :=
  join_of_trimEnd h.trimEnd_eq hn.1

/-- One name further down. -/
lemma join (h : Spells st p) {n : String} (hn : IsEntry n) :
    Spells (st ++ [n]) (Path.join p n) where
  ne_nil := by simp
  isEntry := isEntry_concat h.isEntry hn
  eq := by
    rw [h.join_eq hn]
    rcases h.eq with rfl | rfl
    · exact .inl (render_concat h.ne_nil n).symm
    · exact .inr (renderRelative_concat h.ne_nil n).symm

end Spells

lemma spells_render {st : List String} (hne : st ≠ []) (h : ∀ n ∈ st, IsEntry n) :
    Spells st (render st) :=
  ⟨hne, h, .inl rfl⟩

/-- The normal form without any names is the root. -/
lemma normalize_eq_root {path : String} (h : names (normalize path) = []) :
    normalize path = "/" := by
  rcases ha : isAbsolute path with _ | _
  · obtain ⟨st, hst, hp⟩ := exists_climbs_of_not_isAbsolute ha
    rw [hp] at h
    by_cases hne : st = []
    · subst hne
      exact absurd h (by decide)
    · rw [names_renderRelative hne (isName_of_climbs hst)] at h
      exact absurd h hne
  · obtain ⟨st, hst, hp⟩ := exists_render_of_isAbsolute ha
    rw [hp, names_render (isName_of_isEntry hst)] at h
    rw [hp, h, render_nil]

/-- A normal form whose names are those of entries only goes down. -/
lemma spells_normalize {path : String} (hne : names (normalize path) ≠ [])
    (h : ∀ n ∈ names (normalize path), IsEntry n) :
    Spells (names (normalize path)) (normalize path) := by
  refine ⟨hne, h, ?_⟩
  rcases ha : isAbsolute path with _ | _
  · obtain ⟨st, hst, hp⟩ := exists_climbs_of_not_isAbsolute ha
    rw [hp] at h hne ⊢
    by_cases hnil : st = []
    · subst hnil
      exact absurd rfl (h "." (by decide)).2.1
    · rw [names_renderRelative hnil (isName_of_climbs hst)]
      exact .inr rfl
  · obtain ⟨st, hst, hp⟩ := exists_render_of_isAbsolute ha
    rw [hp, names_render (isName_of_isEntry hst)]
    exact .inl rfl

/-- A normal form that does not go up, and leads somewhere, only goes down. -/
lemma isEntry_of_head {path n : String} {st : List String}
    (hp : names (normalize path) = n :: st) (hn : IsEntry n) :
    ∀ m ∈ names (normalize path), IsEntry m := by
  rcases ha : isAbsolute path with _ | _
  · obtain ⟨st', ⟨up, down, rfl, hdown⟩, hr⟩ := exists_climbs_of_not_isAbsolute ha
    rw [hr] at hp ⊢
    -- if the stack went up, that would be its first name
    cases up with
    | zero =>
      rw [List.replicate_zero, List.nil_append] at hp ⊢
      by_cases hnil : down = []
      · subst hnil
        have hdot : n = "." := (List.cons.inj hp).1.symm
        exact absurd hdot hn.2.1
      · rw [names_renderRelative hnil (isName_of_isEntry hdown)]
        exact hdown
    | succ up =>
      have hnames : ∀ m ∈ List.replicate (up + 1) ".." ++ down, IsName m :=
        isName_of_climbs ⟨up + 1, down, rfl, hdown⟩
      rw [names_renderRelative (by simp [List.replicate_succ]) hnames, List.replicate_succ] at hp
      exact absurd (List.cons.inj hp).1.symm hn.2.2
  · obtain ⟨st', hst, hr⟩ := exists_render_of_isAbsolute ha
    rw [hr, names_render (isName_of_isEntry hst)]
    exact hst

/-! ### Targets -/

lemma walk_of_isAbsolute {path : String} (h : isAbsolute path = true) (st : List String) :
    walk path st = walk path [] := by
  simp [walk, components, h]

/-- Where a target leads, read from a directory, is where one comes by walking it from there. -/
theorem names_resolve {st : List String} (h : ∀ n ∈ st, IsEntry n) (target : String) :
    names (resolve (render st) target) = walk target st := by
  have hrender {p : String} (hp : isAbsolute p = true) : names (normalize p) = walk p [] := by
    rw [normalize, if_pos hp, names_render]
    exact fun n hn => (isEntry_of_mem_walk hn).1
  unfold resolve
  by_cases ha : isAbsolute target = true
  · rw [if_pos ha, hrender ha, walk_of_isAbsolute ha st]
  · -- joined to the place it starts there, so it is walked from the root over the place
    have hjoin : isAbsolute (Path.join (render st) target) = true := by
      by_cases hne : st = []
      · subst hne
        have hroot : trimEnd (render []) = "" := rfl
        rw [Path.join, hroot]
        simp [isAbsolute]
      · rw [Path.join, trimEnd_render h hne]
        simp [isAbsolute, render]
    rw [if_neg ha, hrender hjoin, walk, walk, components, components, if_pos hjoin, if_neg ha,
      names_join, names_render (isName_of_isEntry h), List.nil_append, List.map_append,
      List.foldl_append, List.foldl_append]
    have hst := walk_render h []
    rw [walk, components, isAbsolute_render, names_render (isName_of_isEntry h), if_pos rfl,
      List.foldl_append] at hst
    rw [hst]

end DeviceModel.Path
