import Mathlib.Data.List.Induction
import DeviceModel.Proofs.Tree.Disk.Way
import DeviceModel.Tree.Disk.Edit

/-!
File systems in order.

Every entry is in a directory and has a name that an entry may have. So it is from the start, and
every edit leaves it so: what is put somewhere is put into a directory that a path led to, and with
a directory goes all that is below it.
-/

namespace DeviceModel.DiskTree

open Text (Bytes)

variable {t t' : DiskTree} {aim : Aim} {here place : List Bytes} {name path : Bytes}
  {rest : List Bytes} {n : DiskNode} {k hops : Nat}

/-- A name that an entry of a directory may have. -/
structure IsEntry (name : Bytes) : Prop where
  not_isStep : isStep name = false
  no_slash : 47 ∉ name
  no_nul : 0 ∉ name
  short : name.length ≤ maxName

/-- Every entry is in a directory and has a name that an entry may have, and no target holds a
NUL. -/
structure Sound (t : DiskTree) : Prop where
  parent : ∀ {place name n}, t.node? (place ++ [name]) = some n → t.isDirectory place = true
  isEntry : ∀ {place name n}, t.node? (place ++ [name]) = some n → IsEntry name
  target : ∀ {place target}, t.node? place = some (.link target) → 0 ∉ target

lemma isDirectory_iff : t.isDirectory place = true ↔ t.node? place = some .directory := by
  rw [isDirectory, beq_iff_eq]

/-- The parent of a directory is a directory, and so is that of the root. -/
lemma Sound.isDirectory_dropLast (ht : Sound t) (hd : t.isDirectory place = true) :
    t.isDirectory place.dropLast = true := by
  rcases List.eq_nil_or_concat place with rfl | ⟨place, name, rfl⟩
  · exact hd
  · rw [List.concat_eq_append] at hd ⊢
    rw [List.dropLast_concat]
    exact ht.parent (isDirectory_iff.1 hd)

lemma Sound.isEntry_of_mem (ht : Sound t) (h : t.node? place = some n) :
    ∀ name ∈ place, IsEntry name := by
  induction place using List.reverseRecOn generalizing n with
  | nil => nofun
  | append_singleton place name ih =>
    have hparent := ih (isDirectory_iff.1 (ht.parent h))
    exact List.forall_mem_append.2 ⟨hparent, List.forall_mem_singleton.2 (ht.isEntry h)⟩

/-! ### Putting and taking away -/

/-- A node may be put at the place: it is the root, or there is a directory to put it in. -/
def Takes (t : DiskTree) (place : List Bytes) : Prop :=
  ∀ here name, place = here ++ [name] → t.isDirectory here = true ∧ IsEntry name

lemma takes_concat (hd : t.isDirectory here = true) (hname : IsEntry name) :
    Takes t (here ++ [name]) := by
  intro here' name' he
  obtain ⟨rfl, rfl⟩ := List.append_singleton_inj.1 he
  exact ⟨hd, hname⟩

lemma Sound.takes (ht : Sound t) (h : t.node? place = some n) : Takes t place := by
  rintro here name rfl
  exact ⟨ht.parent h, ht.isEntry h⟩

/-- A node is put where it may be, and not in place of a directory. -/
lemma Sound.put (ht : Sound t) (hplace : Takes t place)
    (hkeep : t.node? place = some .directory → n = .directory)
    (htarget : ∀ target, n = .link target → 0 ∉ target) :
    Sound { t with nodes := t.nodes.put place n } := by
  have hnode (q : List Bytes) : ({ t with nodes := t.nodes.put place n } : DiskTree).node? q =
      if q = place then some n else t.node? q := t.nodes.get?_put place q n
  -- a directory stays one, since nothing is put in its place
  have hdir {q : List Bytes} (hq : t.isDirectory q = true) :
      ({ t with nodes := t.nodes.put place n } : DiskTree).isDirectory q = true := by
    rw [isDirectory_iff] at hq ⊢
    rw [hnode]
    split
    · next he => rw [hkeep (he ▸ hq)]
    · exact hq
  refine ⟨?_, ?_, ?_⟩
  · intro q name m h
    rw [hnode] at h
    split at h
    · next he => exact hdir (hplace q name he.symm).1
    · exact hdir (ht.parent h)
  · intro q name m h
    rw [hnode] at h
    split at h
    · next he => exact (hplace q name he.symm).2
    · exact ht.isEntry h
  · intro q target h
    rw [hnode] at h
    split at h
    · exact htarget target (Option.some.inj h)
    · exact ht.target h

/-- Whatever is taken away, if all that is below goes with it. -/
lemma Sound.restrict (ht : Sound t)
    (hsub : ∀ {q m}, t'.node? q = some m → t.node? q = some m)
    (hparent : ∀ {q name m}, t'.node? (q ++ [name]) = some m → t'.node? q = t.node? q) :
    Sound t' := by
  refine ⟨fun h => ?_, fun h => ht.isEntry (hsub h), fun h => ht.target (hsub h)⟩
  rw [isDirectory_iff, hparent h]
  exact isDirectory_iff.1 (ht.parent (hsub h))

lemma Sound.prune (ht : Sound t) (place : List Bytes) :
    Sound { t with nodes := t.nodes.prune place } := by
  have hnode (q : List Bytes) : ({ t with nodes := t.nodes.prune place } : DiskTree).node? q =
      if place <+: q then none else t.node? q := t.nodes.get?_prune place q
  refine ht.restrict (fun {q m} h => ?_) fun {q name m} h => ?_
  · rw [hnode] at h
    split at h
    · cases h
    · exact h
  · rw [hnode] at h ⊢
    split at h
    · cases h
    · next hnot => rw [if_neg fun hq => hnot (hq.trans (List.prefix_append q [name]))]

lemma Sound.bare (ht : Sound t) (place : List Bytes) :
    Sound { t with nodes := t.nodes.bare place } := by
  have hnode (q : List Bytes) : ({ t with nodes := t.nodes.bare place } : DiskTree).node? q =
      if place <+: q ∧ q ≠ place then none else t.node? q := t.nodes.get?_bare place q
  refine ht.restrict (fun {q m} h => ?_) fun {q name m} h => ?_
  · rw [hnode] at h
    split at h
    · cases h
    · exact h
  · rw [hnode] at h ⊢
    split at h
    · cases h
    · next hnot =>
      refine if_neg fun hq => hnot ⟨hq.1.trans (List.prefix_append q [name]), ?_⟩
      -- what stands above a place does not go with it
      rintro rfl
      have hlength := hq.1.length_le
      rw [List.length_append, List.length_singleton] at hlength
      exact Nat.not_succ_le_self _ hlength

/-! ### Where edits put things -/

lemma guard_eq_ok_iff {α : Type} {c : Prop} [Decidable c] {r : Refusal} {x : Except Refusal α}
    {a : α} : (if c then (do throw r; x) else x) = .ok a ↔ ¬ c ∧ x = .ok a := by
  split <;> simp_all [bind, Except.bind, throw, throwThe, MonadExceptOf.throw]

/-- The last entry of a path is looked for in a directory, under a name of the path. -/
lemma lastEntry_eq_ok (h : t.lastEntry path = .ok (here, name)) :
    t.isDirectory here = true ∧ (isStep name = false → name ∈ Text.parts (· == 47) path) ∧
      0 ∉ path := by
  unfold lastEntry at h
  obtain ⟨⟨⟩, haccepts, h⟩ := bind_eq_ok_iff.1 h
  obtain ⟨here', hresolve, h⟩ := bind_eq_ok_iff.1 h
  obtain ⟨rfl, rfl⟩ := Prod.mk.inj (Except.ok.inj h)
  refine ⟨?_, fun hs => ?_, ?_⟩
  · -- the way ends in one more `.`, which only a directory lets pass
    obtain ⟨k, -, hk⟩ := (resolveWithin_eq_ok_iff (by decide)).1 hresolve
    obtain ⟨k₁, k₂, mid, -, -, hlast⟩ := hk.split fun he => by simp at he
    have hdir := hlast.enters.isDirectory
    have hend := leads_of_passes (.turn rfl) hlast
    cases hend
    exact hdir
  · rcases hnames : (Text.parts (· == 47) path).getLast? with _ | last
    · rw [hnames] at hs
      cases hs
    · exact List.mem_of_getLast? hnames
  · intro hnul
    rw [accepts, if_pos hnul] at haccepts
    cases haccepts

/-- Names that a way may have: they hold no slash and no NUL. -/
def Clean (way : List Bytes) : Prop := ∀ name ∈ way, 47 ∉ name ∧ 0 ∉ name

lemma clean_parts (h : 0 ∉ path) : Clean (Text.parts (· == 47) path) := by
  intro name hname
  refine ⟨fun hslash => ?_, fun hnul => h (Text.mem_of_mem_parts hname hnul)⟩
  simpa using (Text.mem_parts hname).2 47 hslash

lemma clean_way (h : 0 ∉ path) : Clean (way path) := by
  unfold way
  dsimp only
  split
  · exact clean_parts h
  · exact List.forall_mem_append.2 ⟨clean_parts h, by simp⟩

lemma takes_of_vacancy (h : t.vacancy path = .ok place) :
    Takes t place ∧ t.node? place = none := by
  unfold vacancy at h
  obtain ⟨⟨here, name⟩, hlast, h⟩ := bind_eq_ok_iff.1 h
  dsimp only at h
  rw [guard_eq_ok_iff, guard_eq_ok_iff, guard_eq_ok_iff] at h
  obtain ⟨hs, hlen, hnone, h⟩ := h
  obtain rfl := Except.ok.inj h
  have hstep : isStep name = false := by simpa using hs
  obtain ⟨hdir, hmem, hnul⟩ := lastEntry_eq_ok hlast
  obtain ⟨hslash, hnul⟩ := clean_parts hnul name (hmem hstep)
  exact ⟨takes_concat hdir ⟨hstep, hslash, hnul, Nat.not_lt.1 hlen⟩, by simpa using hnone⟩

lemma takes_root : Takes t [] := fun here name he => by simp at he

lemma Sound.takes_base (ht : Sound t) (hd : t.isDirectory here = true) (target : Bytes) :
    Takes t (base here target) := by
  unfold base
  split
  · exact takes_root
  · exact ht.takes (isDirectory_iff.1 hd)

/-- Where one who writes comes, a node may be put. -/
lemma takes_of_follow (ht : Sound t)
    {onLink : List Bytes → List Bytes → Except Refusal (List Bytes)}
    (honLink : ∀ here way, Takes t here → Clean way → onLink here way = .ok place → Takes t place)
    (hhere : Takes t here) (hrest : Clean rest)
    (h : t.follow .writing onLink here rest = .ok place) : Takes t place := by
  induction rest generalizing here with
  | nil =>
    rw [follow] at h
    exact Except.ok.inj h ▸ hhere
  | cons name rest ih =>
    obtain ⟨⟨hslash, hnul⟩, hclean⟩ := List.forall_mem_cons.1 hrest
    have hin := enters_of_follow h
    have hdir := hin.isDirectory
    rw [follow, if_neg (by simp [hdir]), if_neg (by simp)] at h
    by_cases hs : isStep name = true
    · rw [if_pos hs] at h
      refine ih ?_ hclean h
      split
      · -- `..` leads to a directory that is there, and `.` stays
        exact ht.takes (isDirectory_iff.1 (ht.isDirectory_dropLast hdir))
      · exact hhere
    · rw [if_neg hs] at h
      split at h
      · cases h
      · split at h
        · cases h
        · next hlen =>
          have hentry : IsEntry name :=
            ⟨by simpa using hs, hslash, hnul, Nat.not_lt.1 hlen⟩
          rcases hn : t.node? (here ++ [name]) with _ | n
          · simp only [hn] at h
            split at h
            · -- nothing has the name so far: it may be put here, in a directory
              exact Except.ok.inj h ▸ takes_concat hdir hentry
            · cases h
          · cases n with
            | directory | file _ _ =>
              simp only [hn] at h
              exact ih (ht.takes hn) hclean h
            | link target =>
              simp only [hn] at h
              rw [if_neg (by simp)] at h
              -- the target is written without NUL, so its names are clean as well
              refine honLink _ _ (ht.takes_base hdir target) ?_ h
              exact List.forall_mem_append.2 ⟨clean_way (ht.target hn), hclean⟩

lemma takes_of_resolveWithin (ht : Sound t) (hhere : Takes t here) (hrest : Clean rest)
    (h : t.resolveWithin .writing hops here rest = .ok place) : Takes t place := by
  induction hops generalizing here rest with
  | zero =>
    rw [resolveWithin] at h
    exact takes_of_follow ht (fun _ _ _ _ hlink => by cases hlink) hhere hrest h
  | succ hops ih => exact takes_of_follow ht (fun _ _ h h' hp => ih h h' hp) hhere hrest h

lemma takes_of_resolve (ht : Sound t) (hroot : isRooted path = true)
    (h : t.resolve .writing path = .ok place) : Takes t place := by
  obtain ⟨⟨⟩, haccepts, h⟩ := bind_eq_ok_iff.1 h
  have hnul : 0 ∉ path := by
    intro hnul
    rw [accepts, if_pos hnul] at haccepts
    cases haccepts
  rw [start, if_pos hroot] at h
  exact takes_of_resolveWithin ht takes_root (clean_way hnul) h

/-! ### Edits -/

lemma put_eq_ok (h : t.put place n = .ok t') :
    t' = { t with nodes := t.nodes.put place n } := by
  unfold DiskTree.put at h
  split at h
  · exact (Except.ok.inj h).symm
  · cases h

lemma Sound.makeDirectory (ht : Sound t) (h : t.makeDirectory path = .ok t') : Sound t' := by
  unfold DiskTree.makeDirectory at h
  split at h
  · next place hplace =>
    obtain ⟨htakes, hnone⟩ := takes_of_vacancy hplace
    rw [put_eq_ok h]
    exact ht.put htakes (fun _ => rfl) nofun
  · split at h
    · exact Except.ok.inj h ▸ ht
    · cases h
  · cases h

lemma Sound.makeWay (ht : Sound t) {above : List Bytes} (h : t.makeWay path above = .ok t') :
    Sound t' := by
  induction above generalizing path t' with
  | nil => exact ht.makeDirectory h
  | cons name above ih =>
    rw [DiskTree.makeWay] at h
    split at h
    · obtain ⟨made, hmade, h⟩ := bind_eq_ok_iff.1 h
      exact (ih hmade).makeDirectory h
    · exact ht.makeDirectory h

lemma Sound.write (ht : Sound t) {content : Bytes} {mode : UInt32} (hroot : isRooted path = true)
    (h : t.write path content mode = .ok t') : Sound t' := by
  unfold DiskTree.write at h
  obtain ⟨place, hplace, h⟩ := bind_eq_ok_iff.1 h
  have htakes := takes_of_resolve ht hroot hplace
  have hput (hnot : t.node? place ≠ some .directory)
      (h : t.put place (.file content (mode &&& 0o7777)) = .ok t') : Sound t' := by
    rw [put_eq_ok h]
    exact ht.put htakes (fun hd => absurd hd hnot) nofun
  dsimp only at h
  split at h
  · next hn => exact hput (by simp [hn]) h
  · next hn =>
    rw [guard_eq_ok_iff] at h
    exact hput (by simp [hn]) h.2
  · cases h

lemma Sound.makeHolders (ht : Sound t) (h : t.makeHolders path = .ok t') : Sound t' :=
  ht.makeWay h

lemma Sound.makeLink (ht : Sound t) {target : Bytes} (h : t.makeLink path target = .ok t') :
    Sound t' := by
  unfold DiskTree.makeLink at h
  rw [guard_eq_ok_iff] at h
  obtain ⟨-, h⟩ := h
  obtain ⟨⟨⟩, haccepts, h⟩ := bind_eq_ok_iff.1 h
  obtain ⟨place, hplace, h⟩ := bind_eq_ok_iff.1 h
  rw [guard_eq_ok_iff] at h
  obtain ⟨htakes, hnone⟩ := takes_of_vacancy hplace
  have hnul : 0 ∉ target := by
    intro hnul
    rw [accepts, if_pos hnul] at haccepts
    cases haccepts
  rw [put_eq_ok h.2]
  exact ht.put htakes (fun hd => by simp [hnone] at hd) fun _ he => DiskNode.link.inj he ▸ hnul

lemma Sound.removeDirectory (ht : Sound t) (h : t.removeDirectory path = .ok t') : Sound t' := by
  unfold DiskTree.removeDirectory at h
  split at h
  · exact Except.ok.inj h ▸ ht
  · cases h
  · split at h
    · cases h
    · split at h
      · cases h
      · split at h
        · exact Except.ok.inj h ▸ ht
        · exact Except.ok.inj h ▸ ht.prune _
        · cases h

lemma Sound.remove (ht : Sound t) (h : t.remove path = .ok t') : Sound t' := by
  unfold DiskTree.remove at h
  obtain ⟨place, -, h⟩ := bind_eq_ok_iff.1 h
  rw [guard_eq_ok_iff] at h
  obtain ⟨-, h⟩ := h
  split at h
  · exact (ht.bare place).removeDirectory h
  · exact Except.ok.inj h ▸ ht.prune place

/-- **An edit** leaves a file system in order. -/
theorem Sound.apply (ht : Sound t) {e : Edit} (h : t.apply e = .ok t') : Sound t' := by
  cases e with
  | directory path => exact ht.makeWay h
  | file parents path content mode =>
    rw [DiskTree.apply] at h
    split at h
    · obtain ⟨made, hmade, h⟩ := bind_eq_ok_iff.1 h
      exact (ht.makeHolders hmade).write rfl h
    · exact ht.write rfl h
  | link parents path target =>
    rw [DiskTree.apply] at h
    split at h
    · obtain ⟨made, hmade, h⟩ := bind_eq_ok_iff.1 h
      exact (ht.makeHolders hmade).makeLink h
    · exact ht.makeLink h
  | remove path => exact ht.remove h

/-! ### The start -/

lemma furnish_concat (nodes : Trie Bytes DiskNode) (place : List Bytes) (name : Bytes) :
    furnish nodes (place ++ [name]) = (furnish nodes place).put (place ++ [name]) .directory := by
  have hlength : (place ++ [name]).length + 1 = place.length + 1 + 1 := by simp
  have hfront : (List.range (place.length + 1)).map (place ++ [name]).take =
      (List.range (place.length + 1)).map place.take := by
    refine List.map_congr_left fun i hi => ?_
    rw [List.take_append_of_le_length (Nat.le_of_lt_succ (List.mem_range.1 hi))]
  have hlast : (place ++ [name]).take (place.length + 1) = place ++ [name] :=
    List.take_of_length_le (by simp)
  rw [furnish, hlength, List.range_succ, List.map_append, List.foldl_append, hfront,
    List.map_singleton, hlast]
  rfl

lemma sound_furnish {nodes : Trie Bytes DiskNode} {scratch work : List Bytes}
    (h : Sound ⟨nodes, scratch, work⟩) (hplace : ∀ name ∈ place, IsEntry name) :
    Sound ⟨furnish nodes place, scratch, work⟩ ∧
      (⟨furnish nodes place, scratch, work⟩ : DiskTree).isDirectory place = true := by
  have hput {nodes : Trie Bytes DiskNode} (place : List Bytes) :
      (⟨nodes.put place .directory, scratch, work⟩ : DiskTree).isDirectory place = true := by
    rw [isDirectory_iff, node?, Trie.get?_put, if_pos rfl]
  induction place using List.reverseRecOn with
  | nil => exact ⟨h.put takes_root (fun _ => rfl) nofun, hput []⟩
  | append_singleton place name ih =>
    -- the places above are furnished first, so there is a directory to put the last one in
    obtain ⟨hfront, hname⟩ := List.forall_mem_append.1 hplace
    obtain ⟨hsound, hdir⟩ := ih hfront
    rw [furnish_concat]
    refine ⟨hsound.put ?_ (fun _ => rfl) nofun, hput _⟩
    exact takes_concat hdir (List.forall_mem_singleton.1 hname)

lemma sound_ofPlaces {scratch work : List Bytes} (hscratch : ∀ name ∈ scratch, IsEntry name)
    (hwork : ∀ name ∈ work, IsEntry name) : Sound (ofPlaces scratch work) := by
  have hempty : Sound ⟨.empty, scratch, work⟩ := by
    have hnone (q : List Bytes) : (⟨.empty, scratch, work⟩ : DiskTree).node? q = none :=
      Trie.get?_empty q
    refine ⟨fun h => ?_, fun h => ?_, fun h => ?_⟩ <;> simp [hnone] at h
  exact (sound_furnish (sound_furnish hempty hscratch).1 hwork).1

lemma Sound.applyAll (ht : Sound t) {edits : List Edit}
    (h : edits.foldlM DiskTree.apply t = .ok t') : Sound t' := by
  induction edits generalizing t with
  | nil => exact Except.ok.inj h ▸ ht
  | cons e edits ih =>
    rw [List.foldlM_cons] at h
    obtain ⟨next, hnext, h⟩ := bind_eq_ok_iff.1 h
    exact ih (ht.apply hnext) h

/-- **Whatever edits have come**, a file system that began with two directories is in order. -/
theorem sound_of_edits {scratch work : List Bytes} (hscratch : ∀ name ∈ scratch, IsEntry name)
    (hwork : ∀ name ∈ work, IsEntry name) {edits : List Edit}
    (h : edits.foldlM DiskTree.apply (ofPlaces scratch work) = .ok t) : Sound t :=
  (sound_ofPlaces hscratch hwork).applyAll h

end DeviceModel.DiskTree
