import Mathlib.Logic.Basic
import Mathlib.Tactic.ByContra
import Mathlib.Tactic.Lemma
import DeviceModel.Tree.Disk

/-!
Ways through a file system, told without a limit: `Leads` is one derivation of where a way leads,
with the links that are followed on it. Looking up a way that follows at most so many links finds
just the ways with no more.

This is told of ways that are gone to read something. Every way leads to one place, ways are put
together and taken apart at any name, and a way whose places can be written out leads where it leads
otherwise.
-/

namespace DeviceModel.DiskTree

open Text (Bytes)

variable {t : DiskTree} {aim aim' : Aim} {here mid place place' : List Bytes} {name : Bytes}
  {rest more : List Bytes} {n : DiskNode} {hops k k' : Nat}

/-- The place can be written out, if that is asked for. -/
def Fits (aim : Aim) (place : List Bytes) : Prop :=
  aim = .spelling → (render place).length < maxPath

/-- A name may be looked for in the directory that has been reached. -/
structure Enters (t : DiskTree) (aim : Aim) (here : List Bytes) (name : Bytes) : Prop where
  isDirectory : t.isDirectory here = true
  fits : Fits aim (here ++ [if isStep name then [] else name])

/-- An entry has the name. -/
structure Finds (t : DiskTree) (here : List Bytes) (name : Bytes) (n : DiskNode) : Prop where
  not_isStep : isStep name = false
  short : name.length ≤ maxName
  node : t.node? (here ++ [name]) = some n

/-- A link at the end of a way may itself be asked for; all others are followed. -/
def Follows (aim : Aim) (rest : List Bytes) : Prop := ¬ (aim = .entry ∧ rest = [])

/-- Where a name leads if no link is followed for it. -/
inductive Passes (t : DiskTree) (aim : Aim) (here : List Bytes) (name : Bytes)
    (rest : List Bytes) : List Bytes → Prop
  | turn (hs : isStep name = true) :
      Passes t aim here name rest (if name = [46, 46] then here.dropLast else here)
  | down {n : DiskNode} (hn : Finds t here name n)
      (hlink : ∀ target, n = .link target → ¬ Follows aim rest) :
      Passes t aim here name rest (here ++ [name])

/-- Where the target of a link starts. -/
def base (here : List Bytes) (target : Bytes) : List Bytes := if isRooted target then [] else here

/-- The way `rest` from `here` leads to a place, and so many links are followed on it. -/
inductive Leads (t : DiskTree) (aim : Aim) : List Bytes → List Bytes → Nat → List Bytes → Prop
  | done (here : List Bytes) : Leads t aim here [] 0 here
  | pass {here mid rest place : List Bytes} {name : Bytes} {k : Nat} (hin : Enters t aim here name)
      (hp : Passes t aim here name rest mid) (h : Leads t aim mid rest k place) :
      Leads t aim here (name :: rest) k place
  | hop {here rest place : List Bytes} {name target : Bytes} {k : Nat}
      (hin : Enters t aim here name) (hn : Finds t here name (.link target))
      (hf : Follows aim rest) (h : Leads t aim (base here target) (way target ++ rest) k place) :
      Leads t aim here (name :: rest) (k + 1) place

/-! ### One name -/

lemma Finds.unique {n' : DiskNode} (h : Finds t here name n) (h' : Finds t here name n') :
    n = n' :=
  Option.some.inj (h.node.symm.trans h'.node)

lemma Passes.unique (h : Passes t aim here name rest mid) {mid' : List Bytes}
    (h' : Passes t aim here name rest mid') : mid = mid' := by
  cases h with
  | turn hs =>
    cases h' with
    | turn _ => rfl
    | down hn _ => simp [hn.not_isStep] at hs
  | down hn _ =>
    cases h' with
    | turn hs => simp [hn.not_isStep] at hs
    | down _ _ => rfl

/-- A name is not passed where a link is followed. -/
lemma Passes.not_follows {target : Bytes} (h : Passes t aim here name rest mid)
    (hn : Finds t here name (.link target)) : ¬ Follows aim rest := by
  cases h with
  | turn hs => simp [hn.not_isStep] at hs
  | down hn' hlink => exact hlink target (hn'.unique hn)

lemma Leads.enters (h : Leads t aim here (name :: rest) k place) : Enters t aim here name := by
  cases h <;> assumption

lemma leads_of_passes (hp : Passes t aim here name rest mid)
    (h : Leads t aim here (name :: rest) k place) : Leads t aim mid rest k place := by
  cases h with
  | pass _ hp' h => rwa [hp.unique hp']
  | hop _ hn hf _ => exact absurd hf (hp.not_follows hn)

lemma leads_of_finds_link {target : Bytes} (hn : Finds t here name (.link target))
    (hf : Follows aim rest) (h : Leads t aim here (name :: rest) k place) :
    ∃ k', k = k' + 1 ∧ Leads t aim (base here target) (way target ++ rest) k' place := by
  cases h with
  | pass _ hp _ => exact absurd hf (hp.not_follows hn)
  | hop _ hn' _ h =>
    obtain rfl := DiskNode.link.inj (hn.unique hn')
    exact ⟨_, rfl, h⟩

/-! ### Looking up -/

section

variable {onLink : List Bytes → List Bytes → Except Refusal (List Bytes)}

lemma enters_of_follow (h : t.follow aim onLink here (name :: rest) = .ok place) :
    Enters t aim here name := by
  rw [follow] at h
  have hdir : t.isDirectory here = true := by
    by_contra hdir
    rw [if_pos (by simpa using hdir)] at h
    cases h
  refine ⟨hdir, fun haim => ?_⟩
  rw [if_neg (by simpa using hdir)] at h
  by_contra hfit
  rw [if_pos ⟨haim, Nat.not_lt.1 hfit⟩] at h
  cases h

/-- What one who reads does with a name that may be looked for. -/
lemma follow_of_enters (haim : aim ≠ .writing) (hin : Enters t aim here name) :
    t.follow aim onLink here (name :: rest) =
      if isStep name then
        t.follow aim onLink (if name = [46, 46] then here.dropLast else here) rest
      else if name.length > maxName then .error .nameTooLong
      else
        match t.node? (here ++ [name]) with
        | none => .error .noEntry
        | some (.link target) =>
          if aim = .entry ∧ rest = [] then .ok (here ++ [name])
          else onLink (base here target) (way target ++ rest)
        | some _ => t.follow aim onLink (here ++ [name]) rest := by
  have hfit : ¬ (aim = .spelling ∧
      (render (here ++ [if isStep name then [] else name])).length ≥ maxPath) :=
    fun h => Nat.not_le.2 (hin.fits h.1) h.2
  rw [follow, if_neg (by simp [hin.isDirectory]), if_neg hfit]
  simp only [haim, false_and, if_false]
  rfl

lemma follow_of_passes (haim : aim ≠ .writing) (hin : Enters t aim here name)
    (hp : Passes t aim here name rest mid) :
    t.follow aim onLink here (name :: rest) = t.follow aim onLink mid rest := by
  rw [follow_of_enters haim hin]
  cases hp with
  | turn hs => rw [if_pos hs]
  | @down n hn hlink =>
    rw [if_neg (by simp [hn.not_isStep]), if_neg (Nat.not_lt.2 hn.short), hn.node]
    cases n with
    | directory | file _ _ => rfl
    | link target =>
      have hf : aim = .entry ∧ rest = [] := not_not.1 (hlink target rfl)
      dsimp only
      rw [if_pos hf, hf.2, follow]

lemma follow_of_finds_link {target : Bytes} (haim : aim ≠ .writing) (hin : Enters t aim here name)
    (hn : Finds t here name (.link target)) (hf : Follows aim rest) :
    t.follow aim onLink here (name :: rest) = onLink (base here target) (way target ++ rest) := by
  rw [follow_of_enters haim hin, if_neg (by simp [hn.not_isStep]), if_neg (Nat.not_lt.2 hn.short),
    hn.node]
  exact if_neg hf

/-- A name that is found is passed, or it is a link that is followed. -/
lemma passes_or_finds_link (haim : aim ≠ .writing)
    (h : t.follow aim onLink here (name :: rest) = .ok place) :
    (∃ mid, Passes t aim here name rest mid) ∨
      ∃ target, Finds t here name (.link target) ∧ Follows aim rest := by
  rw [follow_of_enters haim (enters_of_follow h)] at h
  by_cases hs : isStep name = true
  · exact .inl ⟨_, .turn hs⟩
  · rw [if_neg hs] at h
    by_cases hlen : name.length > maxName
    · rw [if_pos hlen] at h
      cases h
    · rw [if_neg hlen] at h
      rcases hn : t.node? (here ++ [name]) with _ | n
      · rw [hn] at h
        cases h
      · have hfinds : Finds t here name n := ⟨by simpa using hs, Nat.not_lt.1 hlen, hn⟩
        by_cases hf : ∃ target, n = .link target ∧ Follows aim rest
        · obtain ⟨target, rfl, hf⟩ := hf
          exact .inr ⟨target, hfinds, hf⟩
        · exact .inl ⟨_, .down hfinds fun target he hfollow => hf ⟨target, he, hfollow⟩⟩

/-- Going down finds the ways that follow at most `hops` links, if what is done at a link finds
those that follow fewer. -/
lemma follow_eq_ok_iff (haim : aim ≠ .writing)
    (honLink : ∀ here way place, onLink here way = .ok place ↔
      ∃ k < hops, Leads t aim here way k place) :
    t.follow aim onLink here rest = .ok place ↔ ∃ k ≤ hops, Leads t aim here rest k place := by
  induction rest generalizing here with
  | nil =>
    rw [follow, Except.ok.injEq]
    constructor
    · rintro rfl
      exact ⟨0, Nat.zero_le _, .done here⟩
    · rintro ⟨k, -, h⟩
      cases h
      rfl
  | cons name rest ih =>
    constructor
    · intro h
      -- what is found is passed or followed, and only to follow it takes one of the hops
      have hin := enters_of_follow h
      rcases passes_or_finds_link haim h with ⟨mid, hp⟩ | ⟨target, hn, hf⟩
      · rw [follow_of_passes haim hin hp] at h
        obtain ⟨k, hk, h⟩ := ih.1 h
        exact ⟨k, hk, .pass hin hp h⟩
      · rw [follow_of_finds_link haim hin hn hf] at h
        obtain ⟨k, hk, h⟩ := (honLink _ _ _).1 h
        exact ⟨k + 1, hk, .hop hin hn hf h⟩
    · rintro ⟨k, hk, h⟩
      cases h with
      | pass hin hp h =>
        rw [follow_of_passes haim hin hp]
        exact ih.2 ⟨k, hk, h⟩
      | hop hin hn hf h =>
        rw [follow_of_finds_link haim hin hn hf]
        exact (honLink _ _ _).2 ⟨_, hk, h⟩

end

/-- **Looking up** a way finds a place just if the way leads there by no more links than may be
followed. -/
theorem resolveWithin_eq_ok_iff (haim : aim ≠ .writing) {way : List Bytes} :
    t.resolveWithin aim hops here way = .ok place ↔ ∃ k ≤ hops, Leads t aim here way k place := by
  induction hops generalizing here way place with
  | zero => exact follow_eq_ok_iff haim fun here way place => by simp
  | succ hops ih =>
    refine follow_eq_ok_iff haim fun here way place => ih.trans ?_
    simp only [Nat.lt_add_one_iff]

/-! ### One way, one place -/

lemma Leads.unique (h : Leads t aim here rest k place) {k' : Nat}
    (h' : Leads t aim here rest k' place') : k = k' ∧ place = place' := by
  induction h generalizing k' with
  | done here =>
    cases h'
    exact ⟨rfl, rfl⟩
  | pass _ hp _ ih => exact ih (leads_of_passes hp h')
  | hop _ hn hf _ ih =>
    obtain ⟨j, rfl, hrest⟩ := leads_of_finds_link hn hf h'
    obtain ⟨rfl, hplace⟩ := ih hrest
    exact ⟨rfl, hplace⟩

/-- What may be done for one aim may be done for another, if all places that can be written out for
the one can be for the other, and the same links are followed. -/
lemma Leads.congr (hfit : ∀ p, Fits aim p → Fits aim' p)
    (hfollow : ∀ rest, Follows aim rest ↔ Follows aim' rest) (h : Leads t aim here rest k place) :
    Leads t aim' here rest k place := by
  induction h with
  | done here => exact .done here
  | pass hin hp _ ih =>
    refine .pass ⟨hin.isDirectory, hfit _ hin.fits⟩ ?_ ih
    cases hp with
    | turn hs => exact .turn hs
    | down hn hlink => exact .down hn fun target he hf => hlink target he ((hfollow _).2 hf)
  | hop hin hn hf _ ih => exact .hop ⟨hin.isDirectory, hfit _ hin.fits⟩ hn ((hfollow _).1 hf) ih

lemma fits_of_ne (haim : aim ≠ .spelling) (p : List Bytes) : Fits aim p := fun h => absurd h haim

lemma follows_of_ne (haim : aim ≠ .entry) (rest : List Bytes) : Follows aim rest :=
  fun h => haim h.1

/-- Whoever writes out the places on the way comes where others come. -/
lemma Leads.target (haim : aim ≠ .entry) (h : Leads t aim here rest k place) :
    Leads t .target here rest k place :=
  h.congr (fun p _ => fits_of_ne (by decide) p) fun rest =>
    iff_of_true (follows_of_ne haim rest) (follows_of_ne (by decide) rest)

/-! ### Ways put together -/

/-- What the front of a way is gone for: only at the end of a way may a link be asked for. -/
def Aim.front : Aim → Aim
  | .entry => .target
  | aim => aim

lemma follows_front (aim : Aim) (rest : List Bytes) : Follows aim.front rest :=
  follows_of_ne (by cases aim <;> decide) rest

lemma fits_front_iff {p : List Bytes} : Fits aim.front p ↔ Fits aim p := by
  cases aim <;> simp [Fits, Aim.front]

lemma enters_front_iff : Enters t aim.front here name ↔ Enters t aim here name :=
  ⟨fun h => ⟨h.isDirectory, fits_front_iff.1 h.fits⟩,
    fun h => ⟨h.isDirectory, fits_front_iff.2 h.fits⟩⟩

lemma follows_append (hf : Follows aim more) (rest : List Bytes) : Follows aim (rest ++ more) :=
  fun h => hf ⟨h.1, (List.append_eq_nil_iff.1 h.2).2⟩

/-- In front of what is gone on with, names are passed as they are in the whole way. -/
lemma passes_append_iff (hf : Follows aim more) :
    Passes t aim here name (rest ++ more) mid ↔ Passes t aim.front here name rest mid := by
  have hboth : ∀ target : Bytes, Follows aim (rest ++ more) ↔ Follows aim.front rest :=
    fun _ => iff_of_true (follows_append hf rest) (follows_front aim rest)
  constructor
  all_goals
    intro h
    cases h with
    | turn hs => exact .turn hs
    | down hn hlink => exact .down hn fun target he => by simpa [hboth target] using hlink target he

/-- A way is gone on from where its front leads. -/
lemma Leads.append (h : Leads t aim.front here rest k mid) (h' : Leads t aim mid more k' place)
    (hf : Follows aim more) : Leads t aim here (rest ++ more) (k + k') place := by
  induction h with
  | done here => rwa [Nat.zero_add]
  | pass hin hp _ ih => exact .pass (enters_front_iff.1 hin) ((passes_append_iff hf).2 hp) (ih h')
  | hop hin hn _ _ ih =>
    have hrest := ih h'
    rw [List.append_assoc] at hrest
    rw [Nat.add_right_comm]
    exact .hop (enters_front_iff.1 hin) hn (follows_append hf _) hrest

/-- A way leads through the place where its front leads. -/
lemma Leads.split (hf : Follows aim more) (h : Leads t aim here (rest ++ more) k place) :
    ∃ k₁ k₂ mid, k = k₁ + k₂ ∧ Leads t aim.front here rest k₁ mid ∧
      Leads t aim mid more k₂ place := by
  generalize hw : rest ++ more = whole at h
  induction h generalizing rest with
  | done here =>
    obtain ⟨rfl, rfl⟩ := List.append_eq_nil_iff.1 hw
    exact ⟨0, 0, here, rfl, .done here, .done here⟩
  | @pass here next whole place name k hin hp h ih =>
    cases rest with
    | nil =>
      rw [List.nil_append] at hw
      subst hw
      exact ⟨0, k, here, (Nat.zero_add k).symm, .done here, .pass hin hp h⟩
    | cons a rest =>
      obtain ⟨rfl, rfl⟩ := List.cons.inj hw
      obtain ⟨k₁, k₂, mid, rfl, h₁, h₂⟩ := ih rfl
      exact ⟨k₁, k₂, mid, rfl, .pass (enters_front_iff.2 hin) ((passes_append_iff hf).1 hp) h₁, h₂⟩
  | @hop here whole place name target k hin hn hlink h ih =>
    cases rest with
    | nil =>
      rw [List.nil_append] at hw
      subst hw
      -- the front is used up before the link
      exact ⟨0, k + 1, here, (Nat.zero_add _).symm, .done here, .hop hin hn hlink h⟩
    | cons a rest =>
      obtain ⟨rfl, rfl⟩ := List.cons.inj hw
      -- the way of the target comes in front of what is left of the front
      obtain ⟨k₁, k₂, mid, rfl, h₁, h₂⟩ := ih (List.append_assoc _ _ _)
      exact ⟨k₁ + 1, k₂, mid, Nat.add_right_comm _ _ _,
        .hop (enters_front_iff.2 hin) hn (follows_front aim rest) h₁, h₂⟩

end DeviceModel.DiskTree
