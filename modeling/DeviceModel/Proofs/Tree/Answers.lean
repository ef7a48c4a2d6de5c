import DeviceModel.Proofs.Tree.Way

/-!
What a tree answers about paths. The answers about a path are those about the place that it leads
to, and a path that leads to a directory leads to what is below it by one name more.
-/

namespace DeviceModel.MemoryTree

open DeviceModel.Path (IsEntry)

variable {t : MemoryTree} {place : Place} {path name : String} {n : MemoryNode}

/-! ### Answers that succeed -/

lemma realPath_eq_ok_iff {r : String} :
    t.realPath path = .ok r ↔ ∃ place, t.resolve path = .ok place ∧ Path.render place = r := by
  unfold realPath
  cases t.resolve path with
  | error e => simp [bind, Except.bind]
  | ok place => simp [bind, Except.bind, pure, Except.pure]

lemma stat_eq_directory_iff :
    t.stat path = .ok .directory ↔
      ∃ place children, t.resolve path = .ok place ∧
        t.node? place = some (.directory children) := by
  unfold stat
  rcases t.resolve path with e | place
  · simp [bind, Except.bind]
  · rcases hn : t.node? place with _ | ⟨_ | _ | _⟩ <;>
      simp [bind, Except.bind, hn, pure, Except.pure, throw, throwThe, MonadExceptOf.throw]

lemma readDir_eq_ok_iff {listing : Listing} :
    t.readDir path = .ok listing ↔
      ∃ place children, t.resolve path = .ok place ∧ place ∉ t.unreadable ∧
        t.node? place = some (.directory children) ∧
          listing = { entries := children.filterMap (t.entry? place) } := by
  unfold readDir
  rcases t.resolve path with e | place
  · simp [bind, Except.bind]
  · by_cases hu : place ∈ t.unreadable
    · simp [bind, Except.bind, hu, throw, throwThe, MonadExceptOf.throw]
    · rcases hn : t.node? place with _ | ⟨_ | _ | _⟩ <;>
        simp [bind, Except.bind, hu, hn, pure, Except.pure, throw, throwThe, MonadExceptOf.throw,
          eq_comm]

lemma readLink_eq_ok_iff {target : String} :
    t.readLink path = .ok target ↔
      ∃ place, t.resolveWithin false maxHops (address path) = .ok place ∧
        t.node? place = some (.link target) := by
  unfold readLink
  rcases t.resolveWithin false maxHops (address path) with e | place
  · simp [bind, Except.bind]
  · rcases hn : t.node? place with _ | ⟨_ | _ | _⟩ <;>
      simp [bind, Except.bind, hn, pure, Except.pure, throw, throwThe, MonadExceptOf.throw]

/-! ### Paths that lead to a place -/

/-- A path that only goes down, and leads to a place by no more links than may be followed. -/
def Reaches (t : MemoryTree) (path : String) (place : Place) : Prop :=
  ∃ way k, Path.Spells way path ∧ k ≤ maxHops ∧ Leads t true [] way k place

namespace Reaches

lemma resolve_eq (h : Reaches t path place) : t.resolve path = .ok place := by
  obtain ⟨way, k, hspells, hk, hleads⟩ := h
  rw [resolve_eq_ok_iff, address_of_spells hspells]
  exact ⟨k, hk, hleads⟩

lemma isEntry (ht : Sound t) (h : Reaches t path place) : ∀ m ∈ place, IsEntry m := by
  obtain ⟨way, k, -, -, hleads⟩ := h
  exact hleads.isEntry ht (by simp)

lemma normalize_eq (h : Reaches t path place) : Path.normalize path = path := by
  obtain ⟨way, k, hspells, -, -⟩ := h
  exact hspells.normalize_eq

lemma exists_nameOf (h : Reaches t path place) : ∃ n, Path.nameOf path = .ok n := by
  obtain ⟨way, k, hspells, -, -⟩ := h
  exact ⟨_, hspells.nameOf_eq⟩

/-- What leads somewhere is no empty path: of that the normal form is a dot. -/
lemma ne_empty (h : Reaches t (Path.normalize path) place) : path ≠ "" := by
  rintro rfl
  obtain ⟨way, k, hspells, -⟩ := h
  have hdot : "." ∈ way := by
    rw [← hspells.names_eq]
    decide
  exact (hspells.isEntry "." hdot).2.1 rfl

lemma join_eq (h : Reaches t path place) (hname : IsEntry name) :
    Path.join path name = path ++ "/" ++ name := by
  obtain ⟨way, k, hspells, -, -⟩ := h
  exact hspells.join_eq hname

/-- One name further down. -/
lemma join (ht : Sound t) (h : Reaches t path place) (hn : t.node? (place ++ [name]) = some n)
    (hlink : ∀ target, n ≠ .link target) :
    Reaches t (Path.join path name) (place ++ [name]) := by
  obtain ⟨way, k, hspells, hk, hleads⟩ := h
  have hname : IsEntry name := ht.isEntry hn name (by simp)
  have hstep : Leads t true place [name] 0 (place ++ [name]) :=
    .down hn (fun target he _ => hlink target he) (.done _)
  exact ⟨way ++ [name], k, hspells.join hname, hk, hleads.append hstep (.inl rfl)⟩

lemma stat_eq {children : List String} (h : Reaches t path place)
    (hd : t.node? place = some (.directory children)) : t.stat path = .ok .directory :=
  stat_eq_directory_iff.2 ⟨place, children, h.resolve_eq, hd⟩

lemma realPath_eq (h : Reaches t path place) : t.realPath path = .ok (Path.render place) :=
  realPath_eq_ok_iff.2 ⟨place, h.resolve_eq, rfl⟩

lemma readDir_eq {children : List String} (h : Reaches t path place)
    (hd : t.node? place = some (.directory children)) (hu : place ∉ t.unreadable) :
    t.readDir path = .ok { entries := children.filterMap (t.entry? place) } :=
  readDir_eq_ok_iff.2 ⟨place, children, h.resolve_eq, hu, hd, rfl⟩

lemma readAttr_eq {content : Text.Bytes} {mode : UInt32} (h : Reaches t path place)
    (hn : t.node? place = some (.file content mode)) : t.readAttr path = .ok content := by
  simp [readAttr, h.resolve_eq, hn, bind, Except.bind, pure, Except.pure]

/-- A link in a directory is read at the path of the directory. -/
lemma readLink_eq {target : String} (ht : Sound t) (h : Reaches t path place)
    (hn : t.node? (place ++ [name]) = some (.link target)) :
    t.readLink (Path.join path name) = .ok target := by
  obtain ⟨way, k, hspells, hk, hleads⟩ := h
  have hname : IsEntry name := ht.isEntry hn name (by simp)
  have hend : Leads t false place [name] 0 (place ++ [name]) :=
    .down hn (fun _ _ hf => by simp [Follows] at hf) (.done _)
  have hway := hleads.append hend (.inr (by simp))
  rw [← address_of_spells (hspells.join hname)] at hway
  exact readLink_eq_ok_iff.2 ⟨_, (resolveWithin_eq_ok_iff _ _ _ _ _).2 ⟨_, hk, hway⟩, hn⟩

end Reaches

/-- Only a path without names leads nowhere but to the root. -/
lemma address_ne_nil (h : t.resolve path = .ok place) (hne : place ≠ []) : address path ≠ [] := by
  obtain ⟨k, -, hleads⟩ := resolve_eq_ok_iff.1 h
  intro hnil
  rw [hnil] at hleads
  cases hleads
  exact hne rfl

lemma address_ne_nil_of_nameOf (h : Path.nameOf (Path.normalize path) = .ok name) :
    address path ≠ [] := by
  intro hnil
  rw [address] at hnil
  rw [Path.nameOf, hnil] at h
  cases h

/-- What a path leads to, its normal form leads to by going down. -/
lemma reaches_normalize (ht : Sound t) (h : t.resolve path = .ok place)
    (hne : address path ≠ []) : Reaches t (Path.normalize path) place := by
  obtain ⟨k, hk, hleads⟩ := resolve_eq_ok_iff.1 h
  exact ⟨address path, k, hleads.spells ht hne, hk, hleads⟩

/-- The place that a path leads to is reached by its own names. -/
lemma reaches_render (ht : Sound t) (h : t.resolve path = .ok place) (hne : place ≠ []) :
    Reaches t (Path.render place) place := by
  obtain ⟨k, -, hleads⟩ := resolve_eq_ok_iff.1 h
  have hplace := hleads.isEntry ht (by simp)
  exact ⟨place, 0, Path.spells_render hne hplace, Nat.zero_le _, hleads.settled (.done [])⟩

end DeviceModel.MemoryTree
