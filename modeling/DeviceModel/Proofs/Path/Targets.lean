import DeviceModel.Proofs.Path.Spelling

/-!
Targets of links.

Seen from an absolute directory a target is a walk from where the directory leads, so targets are
put together as their walks are: a target read from where another one leads is the two joined by a
slash. Of the directory only its normal form counts.
-/

namespace DeviceModel.Path

variable {d d' t t₁ t₂ : String}

/-! ### Walks put together -/

lemma isAbsolute_append_slash (h : t₁ ≠ "") (t₂ : String) :
    isAbsolute (t₁ ++ "/" ++ t₂) = isAbsolute t₁ := by
  rcases hc : t₁.toList with _ | ⟨c, cs⟩
  · exact absurd (String.toList_inj.1 hc) h
  · simp [isAbsolute, hc]

lemma components_of_not_isAbsolute (h : isAbsolute t = false) :
    components t = (names t).map .ofName := by
  rw [components, if_neg (by simp [h]), List.nil_append]

/-- A path behind a slash goes on from where the one in front of it leads. -/
lemma walk_append_slash (h₁ : t₁ ≠ "") (h₂ : isAbsolute t₂ = false) (st : List String) :
    walk (t₁ ++ "/" ++ t₂) st = walk t₂ (walk t₁ st) := by
  have hcomponents : components (t₁ ++ "/" ++ t₂) = components t₁ ++ components t₂ := by
    rw [components, isAbsolute_append_slash h₁, names_append_slash, List.map_append,
      ← List.append_assoc, ← components, ← components_of_not_isAbsolute h₂]
  rw [walk, hcomponents, List.foldl_append]
  rfl

/-- So does a relative path that is joined to a directory. -/
lemma walk_join (hd : d ≠ "") (ht : isAbsolute t = false) (st : List String) :
    walk (join d t) st = walk t (walk d st) := by
  rw [walk, components_join hd, ← components_of_not_isAbsolute ht, List.foldl_append]
  rfl

/-! ### Targets -/

/-- Read from an absolute directory, a target is walked from where the directory leads. -/
theorem resolve_eq_render (hd : isAbsolute d = true) (t : String) :
    resolve d t = render (walk t (walk d [])) := by
  have hne := ne_empty_of_isAbsolute hd
  rcases ht : isAbsolute t with _ | _
  · have hjoin : isAbsolute (join d t) = true := (isAbsolute_join hne t).trans hd
    rw [resolve, if_neg (by simp [ht]), normalize_of_isAbsolute hjoin, walk_join hne ht]
  · rw [resolve, if_pos ht, normalize_of_isAbsolute ht, walk_of_isAbsolute ht (walk d [])]

lemma isEntry_of_mem_walk_walk {n : String} (hd : isAbsolute d = true)
    (hn : n ∈ walk t (walk d [])) : IsEntry n := by
  rcases ht : isAbsolute t with _ | _
  · rw [← walk_join (ne_empty_of_isAbsolute hd) ht] at hn
    exact isEntry_of_mem_walk hn
  · rw [walk_of_isAbsolute ht] at hn
    exact isEntry_of_mem_walk hn

/-- Where a target leads, the next one is walked from. -/
lemma walk_resolve (hd : isAbsolute d = true) (t : String) :
    walk (resolve d t) [] = walk t (walk d []) := by
  rw [resolve_eq_render hd, walk_render fun n hn => isEntry_of_mem_walk_walk hd hn]

/-- A directory counts only by its normal form. -/
lemma resolve_normalize (hd : d ≠ "") (t : String) : resolve (normalize d) t = resolve d t := by
  unfold resolve
  split
  · rfl
  · exact normalize_join_normalize hd t

/-- **Targets are put together**: a target read from where another one leads is the two joined by a
slash. Directories that have the same normal form give a target the same meaning; and from an
absolute directory every target, however far it climbs, is an absolute path in normal form, that of
the walk from where the directory leads. -/
theorem resolve_composes (d d' t t₁ t₂ : String) :
    (isAbsolute d = true → t₁ ≠ "" → isAbsolute t₂ = false →
      resolve (resolve d t₁) t₂ = resolve d (t₁ ++ "/" ++ t₂)) ∧
    (d ≠ "" → d' ≠ "" → normalize d = normalize d' → resolve d t = resolve d' t) ∧
    (isAbsolute d = true →
      isAbsolute (resolve d t) = true ∧ normalize (resolve d t) = resolve d t ∧
        names (resolve d t) = walk t (walk d []) ∧ ∀ n ∈ names (resolve d t), IsEntry n) := by
  refine ⟨fun hd h₁ h₂ => ?_, fun hd hd' h => ?_, fun hd => ?_⟩
  · have hfirst : isAbsolute (resolve d t₁) = true := by
      rw [resolve_eq_render hd]
      exact isAbsolute_render _
    calc resolve (resolve d t₁) t₂
        = render (walk t₂ (walk (resolve d t₁) [])) := resolve_eq_render hfirst t₂
      _ = render (walk t₂ (walk t₁ (walk d []))) := by rw [walk_resolve hd]
      _ = render (walk (t₁ ++ "/" ++ t₂) (walk d [])) := by rw [walk_append_slash h₁ h₂]
      _ = resolve d (t₁ ++ "/" ++ t₂) := (resolve_eq_render hd _).symm
  · rw [← resolve_normalize hd, h, resolve_normalize hd']
  · have hentry : ∀ n ∈ walk t (walk d []), IsEntry n := fun n hn => isEntry_of_mem_walk_walk hd hn
    have hnames : names (resolve d t) = walk t (walk d []) := by
      rw [resolve_eq_render hd, names_render (isName_of_isEntry hentry)]
    refine ⟨?_, ?_, hnames, by rwa [hnames]⟩
    · rw [resolve_eq_render hd]
      exact isAbsolute_render _
    · rw [resolve_eq_render hd, normalize_render hentry]

/-- A target with slashes at its end, and one that climbs past the root. -/
theorem resolve_card_composes :
    resolve (resolve "/sys/class/net" "../../card//") "../../../../bus/./pci" =
        resolve "/sys/class/net" ("../../card//" ++ "/" ++ "../../../../bus/./pci") ∧
      resolve "/sys/class/net" "../../card//" = resolve "/sys//class/x/../net/" "../../card//" ∧
      resolve "/sys/class/net" "../../card//" = "/sys/card" ∧
      normalize (resolve "/sys/class/net" "../../card//") =
        resolve "/sys/class/net" "../../card//" := by
  obtain ⟨hcomposed, hsame, hnormal⟩ := resolve_composes "/sys/class/net" "/sys//class/x/../net/"
    "../../card//" "../../card//" "../../../../bus/./pci"
  obtain ⟨-, hstays, -⟩ := hnormal (by decide)
  exact ⟨hcomposed (by decide) (by decide) (by decide),
    hsame (by decide) (by decide) (by decide +kernel), by decide +kernel, hstays⟩

/-- Behind an empty target a slash would start at the root. -/
example : resolve (resolve "/sys" "") "card" = "/sys/card" ∧
    resolve "/sys" ("" ++ "/" ++ "card") = "/card" := by decide +kernel

/-- The empty directory has a normal form, but a target is not read from there. -/
example : normalize "" = normalize "." ∧ resolve "" "card" = "/card" ∧
    resolve "." "card" = "card" := by decide +kernel

end DeviceModel.Path
