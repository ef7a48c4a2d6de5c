/-!
Cutting a list at its separators, and putting the pieces together again.

Every separator ends a piece, so there is always one more piece than there are separators
and empty pieces are kept.
-/

namespace DeviceModel.Text

variable {α β : Type}

def split (sep : α → Bool) : List α → List (List α)
  | [] => [[]]
  | c :: cs =>
    if sep c then [] :: split sep cs
    else
      match split sep cs with
      | [] => [[c]]
      | p :: ps => (c :: p) :: ps

def join (sep : α) : List (List α) → List α
  | [] => []
  | [p] => p
  | p :: q :: ps => p ++ sep :: join sep (q :: ps)

/-- The pieces that hold something. -/
def parts (sep : α → Bool) (cs : List α) : List (List α) :=
  (split sep cs).filter (!·.isEmpty)

@[simp] theorem split_nil (sep : α → Bool) : split sep [] = [[]] := rfl

theorem split_cons_sep {sep : α → Bool} {c : α} (h : sep c = true) (cs : List α) :
    split sep (c :: cs) = [] :: split sep cs := by
  simp [split, h]

theorem split_ne_nil (sep : α → Bool) (cs : List α) : split sep cs ≠ [] := by
  cases cs with
  | nil => simp
  | cons c cs =>
    simp only [split]
    split
    · simp
    · split <;> simp

theorem split_cons_of_not {sep : α → Bool} {c : α} {cs p : List α} {ps : List (List α)}
    (h : sep c = false) (hs : split sep cs = p :: ps) :
    split sep (c :: cs) = (c :: p) :: ps := by
  simp [split, h, hs]

@[simp] theorem join_nil (sep : α) : join sep [] = [] := rfl
@[simp] theorem join_singleton (sep : α) (p : List α) : join sep [p] = p := rfl
theorem join_cons_cons (sep : α) (p q : List α) (ps : List (List α)) :
    join sep (p :: q :: ps) = p ++ sep :: join sep (q :: ps) := rfl

/-- No piece holds a separator. -/
theorem not_sep_of_mem_split {sep : α → Bool} {cs p : List α} (h : p ∈ split sep cs) :
    ∀ c ∈ p, sep c = false := by
  induction cs generalizing p with
  | nil => simp_all
  | cons c cs ih =>
    by_cases hc : sep c = true
    · rw [split_cons_sep hc, List.mem_cons] at h
      rcases h with rfl | h
      · simp
      · exact ih h
    · rcases hs : split sep cs with _ | ⟨q, qs⟩
      · exact absurd hs (split_ne_nil _ _)
      · rw [split_cons_of_not (by simpa using hc) hs, List.mem_cons] at h
        rcases h with rfl | h
        · intro x hx
          rcases List.mem_cons.1 hx with rfl | hx
          · simpa using hc
          · exact ih (hs ▸ List.mem_cons_self) x hx
        · exact ih (hs ▸ List.mem_cons_of_mem _ h)

/-- A piece holds nothing but what is in the whole. -/
theorem mem_of_mem_split {sep : α → Bool} {cs p : List α} {a : α} (h : p ∈ split sep cs)
    (ha : a ∈ p) : a ∈ cs := by
  induction cs generalizing p with
  | nil => simp_all
  | cons c cs ih =>
    by_cases hc : sep c = true
    · rw [split_cons_sep hc, List.mem_cons] at h
      rcases h with rfl | h
      · cases ha
      · exact List.mem_cons_of_mem _ (ih h ha)
    · rcases hs : split sep cs with _ | ⟨q, qs⟩
      · exact absurd hs (split_ne_nil _ _)
      · rw [split_cons_of_not (by simpa using hc) hs, List.mem_cons] at h
        rcases h with rfl | h
        · rcases List.mem_cons.1 ha with rfl | ha
          · exact List.mem_cons_self
          · exact List.mem_cons_of_mem _ (ih (hs ▸ List.mem_cons_self) ha)
        · exact List.mem_cons_of_mem _ (ih (hs ▸ List.mem_cons_of_mem _ h) ha)

/-- What is in pieces put together is a separator or in one of them. -/
theorem mem_join {sep a : α} {ps : List (List α)} (h : a ∈ join sep ps) :
    a = sep ∨ ∃ p ∈ ps, a ∈ p := by
  induction ps with
  | nil => cases h
  | cons p ps ih =>
    cases ps with
    | nil => exact .inr ⟨p, List.mem_cons_self, h⟩
    | cons q ps =>
      rw [join_cons_cons, List.mem_append, List.mem_cons] at h
      rcases h with h | h | h
      · exact .inr ⟨p, List.mem_cons_self, h⟩
      · exact .inl h
      · exact (ih h).imp_right fun ⟨r, hr, ha⟩ => ⟨r, List.mem_cons_of_mem _ hr, ha⟩

theorem join_concat {sep : α} {ps : List (List α)} (h : ps ≠ []) (p : List α) :
    join sep (ps ++ [p]) = join sep ps ++ sep :: p := by
  induction ps with
  | nil => exact absurd rfl h
  | cons a ps ih =>
    cases ps with
    | nil => rfl
    | cons b ps =>
      have hb := ih (List.cons_ne_nil b ps)
      rw [List.cons_append] at hb
      rw [List.cons_append, List.cons_append, join_cons_cons, join_cons_cons, hb,
        List.append_assoc, List.cons_append]

/-- Without separators there is one piece. -/
theorem split_of_forall_not {sep : α → Bool} {p : List α} (hp : ∀ x ∈ p, sep x = false) :
    split sep p = [p] := by
  induction p with
  | nil => rfl
  | cons x p ih =>
    exact split_cons_of_not (hp x List.mem_cons_self)
      (ih fun y hy => hp y (List.mem_cons_of_mem _ hy))

/-- What holds no separator is put to the first piece of what follows. -/
theorem split_append_of_forall_not {sep : α → Bool} {as cs p : List α} {ps : List (List α)}
    (h : ∀ x ∈ as, sep x = false) (hs : split sep cs = p :: ps) :
    split sep (as ++ cs) = (as ++ p) :: ps := by
  induction as with
  | nil => exact hs
  | cons a as ih =>
    exact split_cons_of_not (h a List.mem_cons_self)
      (ih fun x hx => h x (List.mem_cons_of_mem _ hx))

/-- A separator cuts a list into two that are split on their own. -/
theorem split_append {sep : α → Bool} {c : α} (hc : sep c = true) (as bs : List α) :
    split sep (as ++ c :: bs) = split sep as ++ split sep bs := by
  induction as with
  | nil => simp [split_cons_sep hc]
  | cons a as ih =>
    by_cases ha : sep a = true
    · rw [List.cons_append, split_cons_sep ha, split_cons_sep ha, ih]; rfl
    · rcases hs : split sep as with _ | ⟨p, ps⟩
      · exact absurd hs (split_ne_nil _ _)
      · have h : split sep (as ++ c :: bs) = p :: (ps ++ split sep bs) := by rw [ih, hs]; rfl
        rw [List.cons_append, split_cons_of_not (by simpa using ha) h,
          split_cons_of_not (by simpa using ha) hs]; rfl

/-- Elements that are written one by one are cut where they were, if some are written as
separators and the others without any. -/
theorem split_flatMap {sep : β → Bool} {cut : α → Bool} {f : α → List β}
    (hcut : ∀ c, cut c = true → ∃ b, sep b = true ∧ f c = [b])
    (hkeep : ∀ c, cut c = false → ∀ x ∈ f c, sep x = false) (cs : List α) :
    split sep (cs.flatMap f) = (split cut cs).map (List.flatMap f) := by
  induction cs with
  | nil => rfl
  | cons c cs ih =>
    rw [List.flatMap_cons]
    by_cases hc : cut c = true
    · obtain ⟨b, hsep, hf⟩ := hcut c hc
      rw [hf, List.singleton_append, split_cons_sep hsep, split_cons_sep hc, ih]
      rfl
    · rcases hs : split cut cs with _ | ⟨p, ps⟩
      · exact absurd hs (split_ne_nil _ _)
      · rw [hs] at ih
        rw [split_append_of_forall_not (hkeep c (by simpa using hc)) ih,
          split_cons_of_not (by simpa using hc) hs]
        rfl

theorem parts_append {sep : α → Bool} {c : α} (hc : sep c = true) (as bs : List α) :
    parts sep (as ++ c :: bs) = parts sep as ++ parts sep bs := by
  simp [parts, split_append hc]

theorem parts_cons_sep {sep : α → Bool} {c : α} (hc : sep c = true) (cs : List α) :
    parts sep (c :: cs) = parts sep cs := by
  simp [parts, split_cons_sep hc]

@[simp] theorem parts_nil (sep : α → Bool) : parts sep [] = [] := rfl

theorem parts_flatMap {sep : β → Bool} {cut : α → Bool} {f : α → List β}
    (hcut : ∀ c, cut c = true → ∃ b, sep b = true ∧ f c = [b])
    (hkeep : ∀ c, cut c = false → ∀ x ∈ f c, sep x = false) (hf : ∀ c, f c ≠ [])
    (cs : List α) : parts sep (cs.flatMap f) = (parts cut cs).map (List.flatMap f) := by
  have hempty : (fun p : List α => !(p.flatMap f).isEmpty) = fun p => !p.isEmpty := by
    funext p
    cases p with
    | nil => rfl
    | cons c p => simp [hf c]
  rw [parts, split_flatMap hcut hkeep, List.filter_map, parts]
  exact congrArg (fun q => ((split cut cs).filter q).map (List.flatMap f)) hempty

theorem parts_of_forall_not {sep : α → Bool} {p : List α} (hp : ∀ x ∈ p, sep x = false)
    (hn : p ≠ []) : parts sep p = [p] := by
  simp [parts, split_of_forall_not hp, hn]

theorem mem_parts {sep : α → Bool} {cs p : List α} (h : p ∈ parts sep cs) :
    p ≠ [] ∧ ∀ c ∈ p, sep c = false := by
  rw [parts, List.mem_filter] at h
  exact ⟨by simpa using h.2, not_sep_of_mem_split h.1⟩

theorem mem_of_mem_parts {sep : α → Bool} {cs p : List α} {a : α} (h : p ∈ parts sep cs)
    (ha : a ∈ p) : a ∈ cs :=
  mem_of_mem_split (List.mem_filter.1 h).1 ha

/-- Pieces that hold something but no separator are found again. -/
theorem parts_join [BEq α] [LawfulBEq α] {sep : α} {ps : List (List α)}
    (h : ∀ p ∈ ps, p ≠ [] ∧ ∀ c ∈ p, (c == sep) = false) : parts (· == sep) (join sep ps) = ps := by
  match ps with
  | [] => rfl
  | [p] =>
    have hp := h p (by simp)
    exact parts_of_forall_not hp.2 hp.1
  | p :: q :: ps =>
    have hp := h p (by simp)
    rw [join_cons_cons, parts_append (by simp), parts_of_forall_not hp.2 hp.1,
      parts_join fun r hr => h r (by simp_all)]
    rfl

end DeviceModel.Text
