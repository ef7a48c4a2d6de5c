import DeviceModel.Proofs.Path.Relative
import DeviceModel.Proofs.Tree.Stored

/-!
Ways through a tree, told without a limit: `Leads` is one derivation of where a way leads, with
the links that are followed on it. Looking up a path that follows at most so many links finds
just the ways with no more.

Ways are put together and taken apart at any name, and every way leads to one place.
-/

namespace DeviceModel.MemoryTree

open DeviceModel.Path (IsEntry)

variable {t : MemoryTree} {last : Bool} {here place : Place} {name : String}
  {way rest : List String} {hops k : Nat}

/-- A link at the end of a way may itself be asked for; all others are followed. -/
def Follows (last : Bool) (rest : List String) : Prop := last = true ∨ rest ≠ []

/-- The way `rest` from `here` leads to a place, and so many links are followed on it. -/
inductive Leads (t : MemoryTree) (last : Bool) : Place → List String → Nat → Place → Prop
  | done (here : Place) : Leads t last here [] 0 here
  | down {here : Place} {name : String} {rest : List String} {n : MemoryNode} {k : Nat}
      {place : Place} (hn : t.node? (here ++ [name]) = some n)
      (hlink : ∀ target, n = .link target → ¬ Follows last rest)
      (h : Leads t last (here ++ [name]) rest k place) : Leads t last here (name :: rest) k place
  | hop {here : Place} {name : String} {rest : List String} {target : String} {k : Nat}
      {place : Place} (hn : t.node? (here ++ [name]) = some (.link target))
      (hlink : Follows last rest)
      (h : Leads t last [] (Path.walk target here ++ rest) k place) :
      Leads t last here (name :: rest) (k + 1) place

/-! ### Looking up -/

lemma leads_cons_iff {n : MemoryNode} (hn : t.node? (here ++ [name]) = some n) :
    Leads t last here (name :: rest) k place ↔
      (∀ target, n = .link target → ¬ Follows last rest) ∧
          Leads t last (here ++ [name]) rest k place ∨
        ∃ target k', n = .link target ∧ Follows last rest ∧ k = k' + 1 ∧
          Leads t last [] (Path.walk target here ++ rest) k' place := by
  constructor
  · intro h
    cases h with
    | down hn' hlink h =>
      cases hn.symm.trans hn'
      exact .inl ⟨hlink, h⟩
    | hop hn' hlink h =>
      cases hn.symm.trans hn'
      exact .inr ⟨_, _, rfl, hlink, rfl, h⟩
  · rintro (⟨hlink, h⟩ | ⟨target, k', rfl, hlink, rfl, h⟩)
    · exact .down hn hlink h
    · exact .hop hn hlink h

/-- Going down finds the ways that follow at most `hops` links, if what is done at a link finds
those that follow fewer. -/
lemma follow_eq_ok_iff {onLink : List String → Except Error Place}
    (honLink : ∀ way place, onLink way = .ok place ↔ ∃ k < hops, Leads t last [] way k place) :
    t.follow last onLink here rest = .ok place ↔ ∃ k ≤ hops, Leads t last here rest k place := by
  induction rest generalizing here with
  | nil =>
    rw [follow, Except.ok.injEq]
    constructor
    · rintro rfl
      exact ⟨0, Nat.zero_le _, .done here⟩
    · rintro ⟨k, -, h⟩
      cases h
      rfl
  | cons name rest ih =>
    rw [follow]
    rcases hn : t.node? (here ++ [name]) with _ | n
    · -- no node, so no way on
      refine iff_of_false (by simp) ?_
      rintro ⟨k, -, h⟩
      cases h <;> simp_all
    · simp only [leads_cons_iff hn]
      by_cases hlink : ∃ target, n = .link target ∧ Follows last rest
      · -- a link that is followed takes one of the hops, and `honLink` counts the others
        obtain ⟨target, rfl, hf⟩ := hlink
        have hcond : (last || !rest.isEmpty) = true := by
          rcases hf with rfl | hne
          · rfl
          · simp [hne]
        simp only [hcond, if_true, honLink]
        constructor
        · rintro ⟨k, hk, h⟩
          exact ⟨k + 1, hk, .inr ⟨target, k, rfl, hf, rfl, h⟩⟩
        · rintro ⟨k, hk, ⟨hnot, -⟩ | ⟨target', k', he, -, rfl, h⟩⟩
          · exact absurd hf (hnot target rfl)
          · cases he
            exact ⟨k', hk, h⟩
      · -- no hop is taken here, so only the way down is left
        have hnot : ∀ target, n = .link target → ¬ Follows last rest :=
          fun target he hf => hlink ⟨target, he, hf⟩
        have hdown : t.follow last onLink (here ++ [name]) rest = .ok place ↔
            ∃ k ≤ hops,
              ((∀ target, n = .link target → ¬ Follows last rest) ∧
                  Leads t last (here ++ [name]) rest k place ∨
                ∃ target k', n = .link target ∧ Follows last rest ∧ k = k' + 1 ∧
                  Leads t last [] (Path.walk target here ++ rest) k' place) := by
          rw [ih]
          refine exists_congr fun k => and_congr_right fun _ => ?_
          constructor
          · exact fun h => .inl ⟨hnot, h⟩
          · rintro (⟨-, h⟩ | ⟨target, -, he, hf, -⟩)
            · exact h
            · exact absurd hf (hnot target he)
        cases n with
        | directory _ | file _ _ => exact hdown
        | link target =>
          have hcond : ¬ (last || !rest.isEmpty) = true := by
            have hf := hnot target rfl
            rw [Follows, not_or, not_ne_iff] at hf
            simp [hf]
          dsimp only
          rw [if_neg hcond]
          exact hdown

/-- **Looking up** a way finds a place just if the way leads there by no more links than may be
followed. -/
theorem resolveWithin_eq_ok_iff (t : MemoryTree) (last : Bool) (hops : Nat) (way : List String)
    (place : Place) :
    t.resolveWithin last hops way = .ok place ↔ ∃ k ≤ hops, Leads t last [] way k place := by
  induction hops generalizing way place with
  | zero => exact follow_eq_ok_iff fun way place => by simp
  | succ hops ih =>
    refine follow_eq_ok_iff fun way place => (ih way place).trans ?_
    simp only [Nat.lt_succ_iff]

lemma resolve_eq_ok_iff {path : String} :
    t.resolve path = .ok place ↔ ∃ k ≤ maxHops, Leads t true [] (address path) k place :=
  resolveWithin_eq_ok_iff t true maxHops (address path) place

/-! ### One way, one place -/

lemma Leads.unique {k' : Nat} {place' : Place} (h : Leads t last here way k place)
    (h' : Leads t last here way k' place') : k = k' ∧ place = place' := by
  induction h generalizing k' with
  | done here =>
    cases h'
    exact ⟨rfl, rfl⟩
  | down hn hlink _ ih =>
    rcases (leads_cons_iff hn).1 h' with ⟨-, h'⟩ | ⟨target, k', he, hf, -⟩
    · exact ih h'
    · exact absurd hf (hlink target he)
  | hop hn hlink _ ih =>
    rcases (leads_cons_iff hn).1 h' with ⟨hnot, -⟩ | ⟨target, k', he, -, rfl, h'⟩
    · exact absurd hlink (hnot _ rfl)
    · cases he
      obtain ⟨rfl, hp⟩ := ih h'
      exact ⟨rfl, hp⟩

/-- A way is gone on from where its front leads. -/
lemma Leads.append {mid : Place} {k' : Nat} (h : Leads t true here way k mid)
    (h' : Leads t last mid rest k' place) (hf : Follows last rest) :
    Leads t last here (way ++ rest) (k + k') place := by
  induction h with
  | done here => rwa [Nat.zero_add]
  | down hn hlink _ ih =>
    exact .down hn (fun target he _ => hlink target he (.inl rfl)) (ih h')
  | @hop here name way target k mid hn hlink _ ih =>
    have hmore : Follows last (way ++ rest) :=
      hf.imp_right fun hne => List.append_ne_nil_of_right_ne_nil _ hne
    have hrest := ih h'
    rw [List.append_assoc] at hrest
    rw [Nat.add_right_comm]
    exact .hop hn hmore hrest

/-- A way leads through the place where its front leads. -/
lemma Leads.split (hf : Follows last rest) (h : Leads t last here (way ++ rest) k place) :
    ∃ k₁ k₂ mid, k = k₁ + k₂ ∧ Leads t true here way k₁ mid ∧ Leads t last mid rest k₂ place := by
  generalize hw : way ++ rest = whole at h
  have hmore (way : List String) : Follows last (way ++ rest) :=
    hf.imp_right fun hne => List.append_ne_nil_of_right_ne_nil _ hne
  induction h generalizing way with
  | done here =>
    obtain ⟨rfl, rfl⟩ := List.append_eq_nil_iff.1 hw
    exact ⟨0, 0, here, rfl, .done here, .done here⟩
  | @down here name whole n k place hn hlink hrest ih =>
    cases way with
    | nil =>
      rw [List.nil_append] at hw
      subst hw
      exact ⟨0, k, here, (Nat.zero_add k).symm, .done here, .down hn hlink hrest⟩
    | cons a way =>
      obtain ⟨rfl, rfl⟩ := List.cons.inj hw
      obtain ⟨k₁, k₂, mid, rfl, h₁, h₂⟩ := ih rfl
      have hnot : ∀ target, n = .link target → ¬ Follows true way :=
        fun target he => absurd (hmore way) (hlink target he)
      exact ⟨k₁, k₂, mid, rfl, .down hn hnot h₁, h₂⟩
  | @hop here name whole target k place hn hlink hrest ih =>
    cases way with
    | nil =>
      rw [List.nil_append] at hw
      subst hw
      -- the front is used up before the link
      exact ⟨0, k + 1, here, (Nat.zero_add _).symm, .done here, .hop hn hlink hrest⟩
    | cons a way =>
      obtain ⟨rfl, rfl⟩ := List.cons.inj hw
      -- the way of the target comes in front of what is left of the front
      obtain ⟨k₁, k₂, mid, rfl, h₁, h₂⟩ := ih (List.append_assoc _ _ _)
      exact ⟨k₁ + 1, k₂, mid, Nat.add_right_comm _ _ _, .hop hn (.inl rfl) h₁, h₂⟩

/-- Through a link of a directory leads the way to the directory, and then that of its target. -/
theorem leads_link_iff {target : String} {mid : Place} {K : Nat}
    (hdir : Leads t true here way k mid) (hn : t.node? (mid ++ [name]) = some (.link target)) :
    Leads t true here (way ++ [name]) K place ↔
      ∃ h, K = k + h + 1 ∧ Leads t true [] (Path.walk target mid) h place := by
  constructor
  · intro hK
    obtain ⟨k₁, k₂, mid', rfl, h₁, h₂⟩ := hK.split (.inl rfl)
    obtain ⟨rfl, rfl⟩ := hdir.unique h₁
    rcases (leads_cons_iff hn).1 h₂ with ⟨hnot, -⟩ | ⟨target', h, he, -, rfl, h₂⟩
    · exact absurd (.inl rfl) (hnot target rfl)
    · cases he
      rw [List.append_nil] at h₂
      exact ⟨h, rfl, h₂⟩
  · rintro ⟨h, rfl, htarget⟩
    have hlink : Leads t true mid [name] (h + 1) place := by
      refine .hop hn (.inl rfl) ?_
      rwa [List.append_nil]
    exact hdir.append hlink (.inl rfl)

/-! ### Where ways lead -/

lemma not_follows_iff : ¬ Follows last rest ↔ last = false ∧ rest = [] := by
  simp [Follows]

/-- Without following a link a way leads down by its own names, where nodes stand all along it. -/
theorem leads_zero_iff : Leads t last here rest 0 place ↔
    place = here ++ rest ∧ ∀ l, l ≠ [] → l <+: rest → ∃ n, t.node? (here ++ l) = some n ∧
      ∀ target, n = .link target → last = false ∧ l = rest := by
  induction rest generalizing here with
  | nil =>
    constructor
    · intro h
      cases h
      exact ⟨by simp, fun l hl hpre => absurd (List.prefix_nil.1 hpre) hl⟩
    · rintro ⟨rfl, -⟩
      rw [List.append_nil]
      exact .done _
  | cons name rest ih =>
    constructor
    · intro h
      cases h with
      | @down _ _ _ n _ _ hn hlink h =>
        obtain ⟨rfl, hbelow⟩ := ih.1 h
        refine ⟨by simp, fun l hl hpre => ?_⟩
        obtain ⟨a, l, rfl⟩ := List.exists_cons_of_ne_nil hl
        obtain ⟨rfl, hrest⟩ := List.cons_prefix_cons.1 hpre
        -- the first node on the way, and those further down
        by_cases hnil : l = []
        · subst hnil
          refine ⟨n, hn, fun target he => ?_⟩
          obtain ⟨hlast, rfl⟩ := not_follows_iff.1 (hlink target he)
          exact ⟨hlast, rfl⟩
        · obtain ⟨m, hm, hend⟩ := hbelow l hnil hrest
          refine ⟨m, by simpa using hm, fun target he => ?_⟩
          obtain ⟨hlast, rfl⟩ := hend target he
          exact ⟨hlast, rfl⟩
    · rintro ⟨rfl, hall⟩
      obtain ⟨n, hn, hend⟩ := hall [name] (by simp) (by simp)
      refine .down hn (fun target he => ?_) (ih.2 ⟨by simp, fun l hl hpre => ?_⟩)
      · obtain ⟨hlast, hrest⟩ := hend target he
        exact not_follows_iff.2 ⟨hlast, (List.cons.inj hrest).2.symm⟩
      · obtain ⟨m, hm, hlinks⟩ := hall (name :: l) (by simp) (List.cons_prefix_cons.2 ⟨rfl, hpre⟩)
        refine ⟨m, by simpa using hm, fun target he => ?_⟩
        obtain ⟨hlast, hrest⟩ := hlinks target he
        exact ⟨hlast, (List.cons.inj hrest).2⟩

/-- What a way leads to is reached from the root without any link. -/
lemma Leads.settled (h : Leads t true here way k place) (hhere : Leads t true [] here 0 here) :
    Leads t true [] place 0 place := by
  induction h with
  | done here => exact hhere
  | @down here name rest n k place hn hlink _ ih =>
    have hstep : Leads t true here [name] 0 (here ++ [name]) :=
      .down hn (fun target he _ => hlink target he (.inl rfl)) (.done _)
    have hbelow := hhere.append hstep (.inl rfl)
    exact ih hbelow
  | hop _ _ _ ih => exact ih (.done [])

lemma Leads.isEntry (ht : Sound t) (h : Leads t last here way k place)
    (hhere : ∀ m ∈ here, IsEntry m) : ∀ m ∈ place, IsEntry m := by
  induction h with
  | done here => exact hhere
  | down hn _ _ ih => exact ih (ht.isEntry hn)
  | hop _ _ _ ih => exact ih (by simp)

/-! ### Addresses -/

lemma address_normalize (path : String) : address (Path.normalize path) = address path := by
  rw [address, Path.normalize_idem, address]

lemma address_of_spells {st : List String} {path : String} (h : Path.Spells st path) :
    address path = st := by
  rw [address, h.normalize_eq, h.names_eq]

lemma address_render {st : List String} (h : ∀ m ∈ st, IsEntry m) :
    address (Path.render st) = st := by
  rw [address, Path.normalize_render h, Path.names_render (Path.isName_of_isEntry h)]

/-- A path that leads somewhere does not go up from where it is read. -/
lemma Leads.spells {path : String} (ht : Sound t) (hne : address path ≠ [])
    (h : Leads t last [] (address path) k place) :
    Path.Spells (address path) (Path.normalize path) := by
  obtain ⟨name, rest, hp⟩ := List.exists_cons_of_ne_nil hne
  rw [hp] at h
  have hname : IsEntry name := by
    cases h with
    | down hn _ _ => exact ht.isEntry hn name (by simp)
    | hop hn _ _ => exact ht.isEntry hn name (by simp)
  exact Path.spells_normalize hne (Path.isEntry_of_head hp hname)

end DeviceModel.MemoryTree
