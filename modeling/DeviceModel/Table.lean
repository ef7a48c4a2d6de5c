/-!
Finite tables. Each key stands once; the pair put in last stands first.
-/

namespace DeviceModel

structure Table (κ α : Type) where
  pairs : List (κ × α)
  nodup : (pairs.map (·.1)).Nodup

namespace Table

variable {κ α : Type}

def empty : Table κ α := ⟨[], .nil⟩

def keys (t : Table κ α) : List κ := t.pairs.map (·.1)

def values (t : Table κ α) : List α := t.pairs.map (·.2)

/-- The pairs whose keys are wanted. -/
def restrict (t : Table κ α) (p : κ → Bool) : Table κ α :=
  ⟨t.pairs.filter (p ·.1), t.nodup.sublist (List.filter_sublist.map _)⟩

variable [DecidableEq κ]

def get? (t : Table κ α) (k : κ) : Option α := t.pairs.lookup k

def erase (t : Table κ α) (k : κ) : Table κ α := t.restrict (· ≠ k)

theorem not_mem_keys_erase (t : Table κ α) (k : κ) : k ∉ (t.erase k).keys := by
  simp [keys, erase, restrict]

def put (t : Table κ α) (k : κ) (a : α) : Table κ α :=
  ⟨(k, a) :: (t.erase k).pairs, List.nodup_cons.2 ⟨t.not_mem_keys_erase k, (t.erase k).nodup⟩⟩

@[simp] theorem get?_empty (k : κ) : (empty : Table κ α).get? k = none := rfl

theorem lookup_cons_self (k : κ) (a : α) (l : List (κ × α)) :
    ((k, a) :: l).lookup k = some a := by
  simp

theorem lookup_cons_ne {k q : κ} (h : q ≠ k) (a : α) (l : List (κ × α)) :
    ((k, a) :: l).lookup q = l.lookup q := by
  rw [List.lookup_cons, beq_eq_false_iff_ne.2 h]

theorem lookup_filter (p : κ → Bool) (l : List (κ × α)) (k : κ) :
    (l.filter (p ·.1)).lookup k = if p k then l.lookup k else none := by
  induction l with
  | nil => simp
  | cons x l ih =>
    obtain ⟨q, a⟩ := x
    by_cases hp : p q = true
    · rw [List.filter_cons, if_pos hp]
      by_cases h : k = q
      · subst h; rw [lookup_cons_self, lookup_cons_self, if_pos hp]
      · rw [lookup_cons_ne h, lookup_cons_ne h, ih]
    · rw [List.filter_cons, if_neg hp, ih]
      by_cases h : k = q
      · subst h; rw [if_neg hp, if_neg hp]
      · rw [lookup_cons_ne h]

theorem get?_restrict (t : Table κ α) (p : κ → Bool) (k : κ) :
    (t.restrict p).get? k = if p k then t.get? k else none := lookup_filter p t.pairs k

theorem get?_erase (t : Table κ α) (k q : κ) :
    (t.erase k).get? q = if q = k then none else t.get? q := by
  rw [erase, get?_restrict]
  by_cases h : q = k <;> simp [h]

theorem get?_put (t : Table κ α) (k q : κ) (a : α) :
    (t.put k a).get? q = if q = k then some a else t.get? q := by
  by_cases h : q = k
  · subst h; rw [if_pos rfl]; exact lookup_cons_self q a _
  · rw [if_neg h]
    refine (lookup_cons_ne h a _).trans ?_
    exact (t.get?_erase k q).trans (if_neg h)

theorem get?_eq_some_iff {t : Table κ α} {k : κ} {a : α} :
    t.get? k = some a ↔ (k, a) ∈ t.pairs := by
  obtain ⟨l, hl⟩ := t
  simp only [get?]
  induction l with
  | nil => simp
  | cons x l ih =>
    obtain ⟨q, b⟩ := x
    rw [List.map_cons, List.nodup_cons] at hl
    by_cases h : k = q
    · subst h
      have hn : (k, a) ∉ l := fun hm => hl.1 (List.mem_map.2 ⟨_, hm, rfl⟩)
      simp [hn, eq_comm]
    · rw [lookup_cons_ne h, ih hl.2]
      simp [h]

theorem pairs_erase_put (t : Table κ α) (k : κ) (a : α) :
    ((t.put k a).erase k).pairs = (t.erase k).pairs := by
  change ((k, a) :: t.pairs.filter (·.1 ≠ k)).filter (·.1 ≠ k) = t.pairs.filter (·.1 ≠ k)
  simp

theorem pairs_erase_erase (t : Table κ α) (k : κ) :
    ((t.erase k).erase k).pairs = (t.erase k).pairs := by
  change (t.pairs.filter (·.1 ≠ k)).filter (·.1 ≠ k) = t.pairs.filter (·.1 ≠ k)
  simp

theorem erase_of_get?_eq_none {t : Table κ α} {k : κ} (h : t.get? k = none) :
    (t.erase k).pairs = t.pairs := by
  refine List.filter_eq_self.2 fun x hx => ?_
  have hne : x.1 ≠ k := by
    rintro rfl
    rw [get?_eq_some_iff.2 hx] at h
    cases h
  simpa using hne

/-- What is found under a key is one of the values, and the others stay when it is erased. -/
theorem values_perm_of_get? {t : Table κ α} {k : κ} {a : α} (h : t.get? k = some a) :
    t.values.Perm (a :: (t.erase k).values) := by
  obtain ⟨as, bs, hl⟩ := List.append_of_mem (get?_eq_some_iff.1 h)
  have hp : t.pairs.Perm ((k, a) :: (as ++ bs)) := hl ▸ List.perm_middle
  have hn := (hp.map (·.1)).nodup_iff.1 t.nodup
  rw [List.map_cons, List.nodup_cons] at hn
  have hrest : (as ++ bs).filter (·.1 ≠ k) = as ++ bs := by
    refine List.filter_eq_self.2 fun x hx => ?_
    have hne : x.1 ≠ k := fun he => hn.1 (List.mem_map.2 ⟨x, hx, he⟩)
    simpa using hne
  have he : (t.erase k).pairs.Perm (as ++ bs) := by
    have hf := hp.filter (·.1 ≠ k)
    rwa [List.filter_cons, hrest, if_neg (by simp)] at hf
  exact (hp.map _).trans ((he.map _).symm.cons a)

@[simp] theorem values_put (t : Table κ α) (k : κ) (a : α) :
    (t.put k a).values = a :: (t.erase k).values := rfl

theorem mem_values_of_mem_erase {t : Table κ α} {k : κ} {a : α} (h : a ∈ (t.erase k).values) :
    a ∈ t.values :=
  (List.filter_sublist.map _).subset h

@[simp] theorem pairs_erase (t : Table κ α) (k : κ) :
    (t.erase k).pairs = t.pairs.filter (·.1 ≠ k) := rfl
@[simp] theorem pairs_put (t : Table κ α) (k : κ) (a : α) :
    (t.put k a).pairs = (k, a) :: t.pairs.filter (·.1 ≠ k) := rfl

end Table

end DeviceModel
