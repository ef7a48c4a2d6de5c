import Mathlib.Algebra.BigOperators.Group.Finset.Basic
import DeviceModel.Proofs.Ownership.Held

/-!
What several owners own together. However many owners an object has, it is alive once.
-/

namespace DeviceModel.Shared

variable {α : Type} (f : α → Multiset Object)

/-- What shared objects own, each number counted once. -/
def pool (ds : List (Shared α)) : Multiset Object :=
  ∑ i ∈ (ds.map (·.serial)).toFinset, objects f (ds.find? (·.serial = i))

/-- A number belongs to one object. -/
def Coherent (ds : List (Shared α)) : Prop := ∀ d ∈ ds, ∀ e ∈ ds, e.serial = d.serial → e = d

/-- The objects whose numbers are wanted. -/
def only (p : Serial → Bool) (ds : List (Shared α)) : List (Shared α) := ds.filter (p ·.serial)

lemma mem_only {p : Serial → Bool} {ds : List (Shared α)} {d : Shared α} :
    d ∈ only p ds ↔ d ∈ ds ∧ p d.serial = true := List.mem_filter

lemma Coherent.subset {ds es : List (Shared α)} (h : Coherent es) (hs : ds ⊆ es) : Coherent ds :=
  fun d hd e he => h d (hs hd) e (hs he)

lemma Coherent.find?_eq {ds : List (Shared α)} (h : Coherent ds) {d : Shared α} (hd : d ∈ ds) :
    ds.find? (·.serial = d.serial) = some d := by
  rcases hf : ds.find? (·.serial = d.serial) with _ | e
  · have hne := List.find?_eq_none.1 hf d hd
    simp at hne
  · have hs : e.serial = d.serial := by simpa using List.find?_some hf
    rw [← h d hd e (List.mem_of_find?_eq_some hf) hs] at hf ⊢
    exact hf

/-- If all is wanted, nothing is unwanted. -/
lemma pool_only_not_eq_zero {p : Serial → Bool} {ds : List (Shared α)}
    (h : ∀ d ∈ ds, p d.serial = true) : pool f (only (fun i => !p i) ds) = 0 := by
  have hnil : only (fun i => !p i) ds = [] := by
    refine List.filter_eq_nil_iff.2 fun d hd => ?_
    simp [h d hd]
  rw [hnil]
  rfl

/-- Order and repetition do not matter. -/
lemma pool_congr {ds es : List (Shared α)} (hc : Coherent ds) (h : ∀ d, d ∈ ds ↔ d ∈ es) :
    pool f ds = pool f es := by
  have hserials : (ds.map (·.serial)).toFinset = (es.map (·.serial)).toFinset := by
    ext i
    simp only [List.mem_toFinset, List.mem_map, h]
  unfold pool
  rw [hserials]
  refine Finset.sum_congr rfl fun i hi => ?_
  obtain ⟨d, hd, rfl⟩ := List.mem_map.1 (List.mem_toFinset.1 hi)
  have hc' : Coherent es := hc.subset fun d hd => (h d).2 hd
  rw [hc.find?_eq ((h d).2 hd), hc'.find?_eq hd]

/-- The wanted and the unwanted objects make up all. -/
lemma pool_only_add (p : Serial → Bool) (ds : List (Shared α)) :
    pool f (only p ds) + pool f (only (fun i => !p i) ds) = pool f ds := by
  -- the sum over some is a part of the sum over all, which then splits in two
  have hpart (q : Serial → Bool) : pool f (only q ds) =
      ∑ i ∈ (ds.map (·.serial)).toFinset with q i = true, objects f (ds.find? (·.serial = i)) := by
    have hserials : ((only q ds).map (·.serial)).toFinset =
        {i ∈ (ds.map (·.serial)).toFinset | q i = true} := by
      ext i
      simp only [List.mem_toFinset, List.mem_map, Finset.mem_filter, mem_only]
      constructor
      · rintro ⟨d, ⟨hd, hq⟩, rfl⟩
        exact ⟨⟨d, hd, rfl⟩, hq⟩
      · rintro ⟨⟨d, hd, rfl⟩, hq⟩
        exact ⟨d, ⟨hd, hq⟩, rfl⟩
    unfold pool
    rw [hserials]
    refine Finset.sum_congr rfl fun i hi => ?_
    have hq := (Finset.mem_filter.1 hi).2
    rw [only, List.find?_filter]
    congr 2
    funext d
    by_cases hd : d.serial = i
    · simp [hd, hq]
    · simp [hd]
  have hnot : {i ∈ (ds.map (·.serial)).toFinset | (!p i) = true} =
      {i ∈ (ds.map (·.serial)).toFinset | ¬ p i = true} := by
    ext i
    simp
  rw [hpart, hpart, hnot]
  exact Finset.sum_filter_add_sum_filter_not _ _ _

/-- What two lists have in common may be picked from either. -/
lemma pool_only_comm {ds es : List (Shared α)} {p q : Serial → Bool}
    (hc : Coherent (ds ++ es)) (hp : ∀ i, p i = true ↔ ∃ d ∈ es, d.serial = i)
    (hq : ∀ i, q i = true ↔ ∃ d ∈ ds, d.serial = i) :
    pool f (only p ds) = pool f (only q es) := by
  refine pool_congr f (hc.subset fun d hd => List.mem_append_left _ (mem_only.1 hd).1) fun d => ?_
  rw [mem_only, mem_only, hp, hq]
  constructor
  · rintro ⟨hd, e, he, hs⟩
    have hde := hc d (List.mem_append_left _ hd) e (List.mem_append_right _ he) hs
    subst hde
    exact ⟨he, e, hd, rfl⟩
  · rintro ⟨hd, e, he, hs⟩
    have hde := hc d (List.mem_append_right _ hd) e (List.mem_append_left _ he) hs
    subst hde
    exact ⟨he, e, hd, rfl⟩

/-- What is released with one owner is what nobody else keeps, each number once. -/
lemma pool_eq_loose {ds es : List (Shared α)} {kept : Serial → Bool} (hc : Coherent ds)
    (hn : (es.map (·.serial)).Nodup) (h : ∀ d, d ∈ ds ↔ d ∈ es ∧ kept d.serial = false) :
    pool f ds = loose f kept es := by
  -- in a handle no number comes twice, so that the list can be summed as a set
  have hl : ((es.filter fun d => !kept d.serial).map (·.serial)).Nodup :=
    hn.sublist (List.filter_sublist.map _)
  have hmem : ∀ d, d ∈ ds ↔ d ∈ es.filter fun d => !kept d.serial := by
    intro d
    rw [h d, List.mem_filter]
    simp
  have hserials : (ds.map (·.serial)).toFinset =
      ((es.filter fun d => !kept d.serial).map (·.serial)).toFinset := by
    ext i
    simp only [List.mem_toFinset, List.mem_map, hmem]
  unfold pool loose
  rw [hserials, List.sum_toFinset _ hl, List.map_map]
  refine congrArg _ (List.map_congr_left fun d hd => ?_)
  rw [Function.comp_apply, hc.find?_eq ((hmem d).2 hd)]
  rfl

end DeviceModel.Shared
