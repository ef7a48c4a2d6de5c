/-!
Finite tables whose keys are lists of names. What keys have in common at their front is kept
once, so a look-up goes down its key and passes only the names beside those of the key.

Main statements: `get?_put`, `get?_prune` and `get?_bare`, what a change leaves at every key.
-/

namespace DeviceModel

mutual

inductive Trie (κ α : Type) where
  | node (value : Option α) (branches : Branches κ α)

/-- Tries side by side, each under a name. The first one of a name counts. -/
inductive Branches (κ α : Type) where
  | nil
  | cons (name : κ) (trie : Trie κ α) (rest : Branches κ α)

end

variable {κ α : Type}

namespace Trie

def empty : Trie κ α := node none .nil

def value : Trie κ α → Option α
  | node value _ => value

def branches : Trie κ α → Branches κ α
  | node _ branches => branches

end Trie

namespace Branches

def names : Branches κ α → List κ
  | nil => []
  | cons name _ rest => name :: rest.names

variable [DecidableEq κ]

def find (b : Branches κ α) (name : κ) : Trie κ α :=
  match b with
  | nil => .empty
  | cons n t rest => if n = name then t else rest.find name

/-- Puts a trie under a name. A name that is there keeps its position. -/
def put (b : Branches κ α) (name : κ) (t : Trie κ α) : Branches κ α :=
  match b with
  | nil => cons name t nil
  | cons n u rest => if n = name then cons n t rest else cons n u (rest.put name t)

theorem find_put (b : Branches κ α) (k q : κ) (t : Trie κ α) :
    (b.put k t).find q = if q = k then t else b.find q := by
  match b with
  | nil => by_cases h : k = q <;> simp [put, find, h, eq_comm]
  | cons n u rest =>
    have ih := find_put rest k q t
    by_cases hn : n = k
    · subst hn
      by_cases h : q = n
      · subst h; simp [put, find]
      · simp [put, find, h, Ne.symm h]
    · rw [put, if_neg hn, find, find, ih]
      by_cases h : n = q
      · subst h; simp [hn]
      · rw [if_neg h, if_neg h]

end Branches

namespace Trie

mutual

/-- The length of the longest way down. -/
def height : Trie κ α → Nat
  | node _ branches => heightAll branches

def heightAll : Branches κ α → Nat
  | .nil => 0
  | .cons _ t rest => max (height t + 1) (heightAll rest)

end

@[simp] theorem value_node (v : Option α) (b : Branches κ α) : (node v b).value = v := rfl
@[simp] theorem branches_node (v : Option α) (b : Branches κ α) : (node v b).branches = b := rfl

variable [DecidableEq κ]

/-- What stands below the given names. -/
def sub (t : Trie κ α) : List κ → Trie κ α
  | [] => t
  | k :: ks => (t.branches.find k).sub ks

def get? (t : Trie κ α) (ks : List κ) : Option α := (t.sub ks).value

/-- The names right below a key, with what stands under them. -/
def children (t : Trie κ α) (ks : List κ) : List (κ × α) :=
  (t.sub ks).branches.names.filterMap fun name => (t.get? (ks ++ [name])).map (name, ·)

/-- Changes what stands below the given names. -/
def alter (f : Trie κ α → Trie κ α) (t : Trie κ α) : List κ → Trie κ α
  | [] => f t
  | k :: ks => node t.value (t.branches.put k ((t.branches.find k).alter f ks))

def put (t : Trie κ α) (ks : List κ) (a : α) : Trie κ α :=
  t.alter (fun u => node (some a) u.branches) ks

/-- Takes away a key and all that begin with it. -/
def prune (t : Trie κ α) (ks : List κ) : Trie κ α := t.alter (fun _ => empty) ks

/-- Takes away all that begin with a key and go on. -/
def bare (t : Trie κ α) (ks : List κ) : Trie κ α := t.alter (fun u => node u.value .nil) ks

/-! ### Laws -/

@[simp] theorem sub_nil (t : Trie κ α) : t.sub [] = t := rfl
@[simp] theorem sub_cons (t : Trie κ α) (k : κ) (ks : List κ) :
    t.sub (k :: ks) = (t.branches.find k).sub ks := rfl

theorem sub_append (t : Trie κ α) (ks ls : List κ) : t.sub (ks ++ ls) = (t.sub ks).sub ls := by
  induction ks generalizing t with
  | nil => rfl
  | cons k ks ih => exact ih (t.branches.find k)

@[simp] theorem sub_empty (ks : List κ) : (empty : Trie κ α).sub ks = empty := by
  induction ks with
  | nil => rfl
  | cons k ks ih => exact ih

@[simp] theorem get?_empty (ks : List κ) : (empty : Trie κ α).get? ks = none := by
  rw [get?, sub_empty]; rfl

@[simp] theorem get?_cons (t : Trie κ α) (k : κ) (ks : List κ) :
    t.get? (k :: ks) = (t.branches.find k).get? ks := rfl

theorem get?_append (t : Trie κ α) (ks ls : List κ) :
    t.get? (ks ++ ls) = (t.sub ks).get? ls := by
  rw [get?, get?, sub_append]

/-- Only keys that begin with the altered one are concerned. -/
theorem get?_alter (f : Trie κ α → Trie κ α) (t : Trie κ α) (ks qs : List κ) :
    (t.alter f ks).get? qs =
      if ks <+: qs then (f (t.sub ks)).get? (qs.drop ks.length) else t.get? qs := by
  induction ks generalizing t qs with
  | nil => simp [alter]
  | cons k ks ih =>
    cases qs with
    | nil => simp [alter, get?]
    | cons q qs =>
      rw [alter, get?_cons, branches_node, Branches.find_put]
      by_cases h : q = k
      · subst h
        simp [ih, List.cons_prefix_cons]
      · have hk : ¬ k :: ks <+: q :: qs := fun hp => h (List.cons_prefix_cons.1 hp).1.symm
        rw [if_neg h, if_neg hk, get?_cons]

theorem get?_put (t : Trie κ α) (ks qs : List κ) (a : α) :
    (t.put ks a).get? qs = if qs = ks then some a else t.get? qs := by
  rw [put, get?_alter]
  by_cases h : ks <+: qs
  · obtain ⟨ls, rfl⟩ := h
    cases ls with
    | nil => simp [get?]
    | cons l ls => simp [get?_append]
  · have hq : qs ≠ ks := by rintro rfl; exact h List.prefix_rfl
    rw [if_neg h, if_neg hq]

theorem get?_prune (t : Trie κ α) (ks qs : List κ) :
    (t.prune ks).get? qs = if ks <+: qs then none else t.get? qs := by
  rw [prune, get?_alter, get?_empty]

theorem get?_bare (t : Trie κ α) (ks qs : List κ) :
    (t.bare ks).get? qs = if ks <+: qs ∧ qs ≠ ks then none else t.get? qs := by
  rw [bare, get?_alter]
  by_cases h : ks <+: qs
  · obtain ⟨ls, rfl⟩ := h
    cases ls with
    | nil => simp [get?]
    | cons l ls => simp [Branches.find]
  · simp [h]

/-- What is found under a name is less high than all together. -/
theorem find_eq_empty_or (b : Branches κ α) (name : κ) :
    b.find name = empty ∨ (b.find name).height + 1 ≤ heightAll b := by
  match b with
  | .nil => exact .inl rfl
  | .cons n t rest =>
    rw [Branches.find, heightAll]
    split
    · exact .inr (Nat.le_max_left _ _)
    · exact (find_eq_empty_or rest name).imp_right fun h => Nat.le_trans h (Nat.le_max_right _ _)

/-- No key goes further down than the trie. -/
theorem length_le_height {t : Trie κ α} {ks : List κ} (h : t.get? ks ≠ none) :
    ks.length ≤ t.height := by
  induction ks generalizing t with
  | nil => exact Nat.zero_le _
  | cons k ks ih =>
    obtain ⟨value, branches⟩ := t
    rw [get?_cons, branches_node] at h
    rcases find_eq_empty_or branches k with hk | hk
    · rw [hk, get?_empty] at h
      exact absurd rfl h
    · exact Nat.le_trans (Nat.succ_le_succ (ih h)) hk

theorem mem_children {t : Trie κ α} {ks : List κ} {x : κ × α} (h : x ∈ t.children ks) :
    t.get? (ks ++ [x.1]) = some x.2 := by
  obtain ⟨name, -, hn⟩ := List.mem_filterMap.1 h
  obtain ⟨a, ha, rfl⟩ := Option.map_eq_some_iff.1 hn
  exact ha

end Trie

end DeviceModel
