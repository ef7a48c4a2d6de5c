import Mathlib.Data.Prod.Lex
import Mathlib.Logic.Relation
import DeviceModel.Proofs.Tree.Announced

/-!
Looking up a path as a search that goes on step by step.

A search goes one name further down, or starts again from the root behind a link, with as many more
names to go as the target has. Each step leaves fewer links that may be followed, or as many of them
and fewer names, so every search ends, and with what the look-up finds. Where links lead round in a
circle, that is nothing. A place that is found has no link on the way down to it, and a path is
answered about as its place is.
-/

namespace DeviceModel.MemoryTree

open DeviceModel.Path (IsEntry)

variable {t : MemoryTree} {last : Bool} {here place : Place} {name path : String}
  {way way' rest : List String} {k : Nat}

/-! ### Steps -/

/-- A search on its way: the place it has come to, the names that are left, and how many links it
has followed. -/
structure Search where
  here : Place
  rest : List String
  hops : Nat

namespace Search

/-- A path is looked up from the root. -/
def start (path : String) : Search := ⟨[], address path, 0⟩

/-- What a search does next: one step, or it ends with what is found. -/
def next (t : MemoryTree) (last : Bool) : Search → Search ⊕ Except Error Place
  | ⟨here, [], _⟩ => .inr (.ok here)
  | ⟨here, name :: rest, hops⟩ =>
    match t.node? (here ++ [name]) with
    | none => .inr (.error .notFound)
    | some (.link target) =>
      if last || !rest.isEmpty then
        if hops < maxHops then .inl ⟨[], Path.walk target here ++ rest, hops + 1⟩
        else .inr (.error .notFound)
      else .inl ⟨here ++ [name], rest, hops⟩
    | some _ => .inl ⟨here ++ [name], rest, hops⟩

/-- One search goes on to another by some steps. -/
def GoesTo (t : MemoryTree) (last : Bool) : Search → Search → Prop :=
  Relation.ReflTransGen fun s s' => s.next t last = .inl s'

variable {s s' : Search}

/-- A step goes one name further down, or follows one link more. -/
lemma next_cases (h : next t last s = .inl s') :
    (s'.hops = s.hops ∧ s'.rest.length < s.rest.length) ∨
      (s.hops < maxHops ∧ s'.hops = s.hops + 1) := by
  obtain ⟨here, rest, hops⟩ := s
  cases rest with
  | nil => cases h
  | cons name rest =>
    -- a name without a link to follow is left behind, whatever stands there
    have hdown (he : Sum.inl ⟨here ++ [name], rest, hops⟩ =
        (Sum.inl s' : Search ⊕ Except Error Place)) :
        s'.hops = hops ∧ s'.rest.length < (name :: rest).length := by
      cases he
      exact ⟨rfl, Nat.lt_succ_self _⟩
    rw [next] at h
    split at h
    · cases h
    · split at h
      · split at h
        · next hhops =>
          cases h
          exact .inr ⟨hhops, rfl⟩
        · cases h
      · exact .inl (hdown h)
    · exact .inl (hdown h)

/-- The links that may still be followed, and the names that are left. -/
def remaining (s : Search) : Nat × Nat := (maxHops - s.hops, s.rest.length)

/-- **Every search ends**: a step leaves fewer links to follow, or as many and fewer names. -/
theorem wellFounded_next (t : MemoryTree) (last : Bool) :
    WellFounded fun s' s => next t last s = .inl s' := by
  have hlex : WellFounded (Prod.Lex (· < · : Nat → Nat → Prop) (· < ·)) :=
    WellFounded.prod_lex Nat.lt_wfRel.wf Nat.lt_wfRel.wf
  refine Subrelation.wf (fun {s' s} h => ?_) (InvImage.wf remaining hlex)
  change Prod.Lex _ _ (remaining s') (remaining s)
  rw [Prod.lex_def]
  rcases next_cases h with ⟨hhops, hrest⟩ | ⟨hlt, hhops⟩
  · exact .inr ⟨by simp [remaining, hhops], hrest⟩
  · exact .inl (by simp only [remaining]; omega)

/-- No search follows more links than it may. -/
lemma hops_le_of_goesTo (h : GoesTo t last s s') (hs : s.hops ≤ maxHops) : s'.hops ≤ maxHops := by
  induction h with
  | refl => exact hs
  | tail _ hstep ih => rcases next_cases hstep with ⟨hhops, -⟩ | ⟨hlt, hhops⟩ <;> omega

/-! ### What is found -/

/-- What is done at a link when so many may be followed. -/
def onward (t : MemoryTree) (last : Bool) : Nat → List String → Except Error Place
  | 0 => fun _ => .error .notFound
  | hops + 1 => t.resolveWithin last hops

/-- What the look-up finds from where a search has come to. -/
def answer (t : MemoryTree) (last : Bool) (s : Search) : Except Error Place :=
  t.follow last (onward t last (maxHops - s.hops)) s.here s.rest

lemma resolveWithin_eq (t : MemoryTree) (last : Bool) (hops : Nat) (way : List String) :
    t.resolveWithin last hops way = t.follow last (onward t last hops) [] way := by
  cases hops <;> rfl

lemma answer_start (t : MemoryTree) (last : Bool) (path : String) :
    answer t last (start path) = t.resolveWithin last maxHops (address path) :=
  (resolveWithin_eq t last maxHops (address path)).symm

/-- A step leaves what is found, and at the end that is what the search ends with. -/
lemma answer_eq (s : Search) :
    answer t last s = (next t last s).elim (answer t last) id := by
  obtain ⟨here, rest, hops⟩ := s
  cases rest with
  | nil => rfl
  | cons name rest =>
    rw [answer, follow, next]
    rcases hn : t.node? (here ++ [name]) with _ | ⟨_ | _ | target⟩
    · rfl
    · rfl
    · rfl
    · dsimp only
      split
      · -- a followed link is counted up by the step and down by the look-up
        by_cases hhops : hops < maxHops
        · obtain ⟨left, hleft⟩ := Nat.exists_eq_succ_of_ne_zero (Nat.sub_ne_zero_of_lt hhops)
          have hbehind : maxHops - (hops + 1) = left := by omega
          rw [if_pos hhops, hleft]
          simp only [onward, resolveWithin_eq, Sum.elim_inl, answer, hbehind]
        · have hnone : maxHops - hops = 0 := by omega
          rw [if_neg hhops, hnone]
          rfl
      · rfl

lemma answer_of_goesTo (h : GoesTo t last s s') : answer t last s = answer t last s' := by
  induction h with
  | refl => rfl
  | tail _ hstep ih => rw [ih, answer_eq, hstep, Sum.elim_inl]

lemma exists_next_eq_inr (t : MemoryTree) (last : Bool) (s : Search) :
    ∃ s' found, GoesTo t last s s' ∧ next t last s' = .inr found := by
  induction s using (wellFounded_next t last).induction with
  | _ s ih =>
    rcases hs : next t last s with s₁ | found
    · obtain ⟨s', found, hgoes, hend⟩ := ih s₁ hs
      exact ⟨s', found, .head hs hgoes, hend⟩
    · exact ⟨s, found, .refl, hs⟩

/-- A search comes to an end, and finds what the look-up finds. -/
theorem exists_end (t : MemoryTree) (last : Bool) (s : Search) :
    ∃ s', GoesTo t last s s' ∧ next t last s' = .inr (answer t last s) := by
  obtain ⟨s', found, hgoes, hend⟩ := exists_next_eq_inr t last s
  have hfound : answer t last s = found := by
    rw [answer_of_goesTo hgoes, answer_eq, hend, Sum.elim_inr, id]
  exact ⟨s', hgoes, by rw [hend, hfound]⟩

/-- A search that finds no place finds nothing. -/
lemma notFound_of_next {e : Error} (h : next t last s = .inr (.error e)) : e = .notFound := by
  obtain ⟨here, rest, hops⟩ := s
  cases rest with
  | nil => cases h
  | cons name rest =>
    rw [next] at h
    split at h
    · cases h
      rfl
    · split at h
      · split at h
        · cases h
        · cases h
          rfl
      · cases h
    · cases h

end Search

/-! ### Circles -/

/-- The first link on a way is followed: what is then left is a way from the root. -/
inductive Hop (t : MemoryTree) : Place → List String → List String → Prop
  | link {here : Place} {name : String} {rest : List String} {target : String}
      (hn : t.node? (here ++ [name]) = some (.link target)) :
      Hop t here (name :: rest) (Path.walk target here ++ rest)
  | down {here : Place} {name : String} {rest way : List String} {n : MemoryNode}
      (hn : t.node? (here ++ [name]) = some n) (hlink : ∀ target, n ≠ .link target)
      (h : Hop t (here ++ [name]) rest way) : Hop t here (name :: rest) way

lemma Hop.of_walk {target : String} (hn : t.node? (here ++ [name]) = some (.link target))
    (hway : Path.walk target here ++ rest = way) : Hop t here (name :: rest) way :=
  hway ▸ .link hn

/-- What comes behind a way stays behind it. -/
lemma Hop.append (h : Hop t here way way') (rest : List String) :
    Hop t here (way ++ rest) (way' ++ rest) := by
  induction h with
  | link hn =>
    rw [List.cons_append, List.append_assoc]
    exact .link hn
  | down hn hlink _ ih => exact .down hn hlink ih

/-- Behind its first link a way follows one link less. -/
lemma Hop.leads (h : Hop t here way way') (hleads : Leads t true here way k place) :
    ∃ k' < k, Leads t true [] way' k' place := by
  induction h with
  | link hn =>
    rcases (leads_cons_iff hn).1 hleads with ⟨hnot, -⟩ | ⟨target, k', he, -, rfl, hrest⟩
    · exact absurd (.inl rfl) (hnot _ rfl)
    · cases he
      exact ⟨k', Nat.lt_succ_self k', hrest⟩
  | down hn hlink _ ih =>
    rcases (leads_cons_iff hn).1 hleads with ⟨-, hrest⟩ | ⟨target, -, he, -⟩
    · exact ih hrest
    · exact absurd he (hlink target)

lemma leads_of_hops (h : Relation.ReflTransGen (Hop t []) way way')
    (hleads : Leads t true [] way k place) : ∃ k' ≤ k, Leads t true [] way' k' place := by
  induction h with
  | refl => exact ⟨k, Nat.le_refl k, hleads⟩
  | tail _ hstep ih =>
    obtain ⟨k₁, hk₁, hmid⟩ := ih
    obtain ⟨k', hk', hrest⟩ := hstep.leads hmid
    exact ⟨k', by omega, hrest⟩

/-- Links lead round in a circle: by following some, one comes back to a way, with more names left
to go or the same. -/
def Circles (t : MemoryTree) (way : List String) : Prop :=
  ∃ more, Relation.TransGen (Hop t []) way (way ++ more)

/-- **A circle** leads nowhere, whatever comes behind it. -/
theorem Circles.not_leads (h : Circles t way) (rest : List String) :
    ¬ Leads t true [] (way ++ rest) k place := by
  obtain ⟨more, hround⟩ := h
  -- one time round leaves the same way, with more behind it, and fewer links
  induction k using Nat.strong_induction_on generalizing rest with
  | _ k ih =>
    intro hleads
    have hround' : Relation.TransGen (Hop t []) (way ++ rest) (way ++ more ++ rest) :=
      hround.lift (· ++ rest) fun _ _ hstep => hstep.append rest
    obtain ⟨mid, hfirst, hothers⟩ := Relation.TransGen.head'_iff.1 hround'
    obtain ⟨k₁, hk₁, hmid⟩ := hfirst.leads hleads
    obtain ⟨k₂, hk₂, hback⟩ := leads_of_hops hothers hmid
    rw [List.append_assoc] at hback
    exact ih k₂ (by omega) (more ++ rest) hback

/-! ### What a path is found to be -/

lemma resolve_cases (t : MemoryTree) (path : String) :
    (∃ place, t.resolve path = .ok place) ∨ t.resolve path = .error .notFound := by
  obtain ⟨s, -, hend⟩ := Search.exists_end t true (.start path)
  rw [Search.answer_start] at hend
  change s.next t true = .inr (t.resolve path) at hend
  rcases hr : t.resolve path with e | place
  · rw [hr] at hend
    rw [Search.notFound_of_next hend]
    exact .inr rfl
  · exact .inl ⟨place, rfl⟩

/-- A path that comes to a circle of links is not found. -/
lemma Circles.realPath_eq (h : Circles t way)
    (hpath : Relation.ReflTransGen (Hop t []) (address path) (way ++ rest)) :
    t.realPath path = .error .notFound := by
  rcases resolve_cases t path with ⟨place, hplace⟩ | hnone
  · obtain ⟨k, -, hleads⟩ := resolve_eq_ok_iff.1 hplace
    obtain ⟨k', -, hback⟩ := leads_of_hops hpath hleads
    exact absurd hback (h.not_leads rest)
  · rw [realPath, hnone]
    rfl

/-- On the way down to a place that is found stand nodes that are no links. -/
lemma stored_of_resolve (hroot : t.HasDirectory []) (h : t.resolve path = .ok place)
    {q : Place} (hq : q <+: place) : ∃ n, t.node? q = some n ∧ ∀ target, n ≠ .link target := by
  obtain ⟨k, -, hleads⟩ := resolve_eq_ok_iff.1 h
  obtain ⟨-, hdown⟩ := leads_zero_iff.1 (hleads.settled (.done []))
  by_cases hnil : q = []
  · obtain ⟨children, hd⟩ := hroot
    exact ⟨_, hnil ▸ hd, by simp⟩
  · obtain ⟨n, hn, hlink⟩ := hdown q hnil hq
    refine ⟨n, hn, fun target he => ?_⟩
    cases (hlink target he).1

lemma stat_ne_symlink (hroot : t.HasDirectory []) (path : String) :
    t.stat path ≠ .ok .symlink := by
  rcases resolve_cases t path with ⟨place, hplace⟩ | hnone
  · obtain ⟨n, hn, hlink⟩ := stored_of_resolve hroot hplace List.prefix_rfl
    rw [stat_of_resolve hplace hn]
    cases n with
    | link target => exact absurd rfl (hlink target)
    | directory _ | file _ _ => simp [MemoryNode.kind]
  · rw [stat, hnone]
    simp [bind, Except.bind]

/-- A path `r` is the real place of a path. -/
structure RealPlace (t : MemoryTree) (path r : String) : Prop where
  isAbsolute : Path.isAbsolute r = true
  normalize_eq : Path.normalize r = r
  /-- The root, and what stands at every name further down to the end, is there and is no link. -/
  stored : ∀ q, q <+: Path.names r → ∃ n, t.node? q = some n ∧ ∀ target, n ≠ .link target
  realPath_eq : t.realPath r = .ok r
  stat_eq : t.stat path = t.stat r
  readDir_eq : t.readDir path = t.readDir r
  readAttr_eq : t.readAttr path = t.readAttr r

lemma realPlace_of_realPath (ht : Sound t) (hroot : t.HasDirectory []) {r : String}
    (h : t.realPath path = .ok r) : RealPlace t path r := by
  obtain ⟨place, hplace, rfl⟩ := realPath_eq_ok_iff.1 h
  obtain ⟨k, -, hleads⟩ := resolve_eq_ok_iff.1 hplace
  have hentry := hleads.isEntry ht (by simp)
  have hself : t.resolve (Path.render place) = .ok place :=
    resolve_render hentry (hleads.settled (.done []))
  have hsame : t.resolve path = t.resolve (Path.render place) := hplace.trans hself.symm
  refine ⟨Path.isAbsolute_render place, Path.normalize_render hentry, fun q hq => ?_,
    realPath_eq_ok_iff.2 ⟨place, hself, rfl⟩, ?_, ?_, ?_⟩
  · rw [Path.names_render (Path.isName_of_isEntry hentry)] at hq
    exact stored_of_resolve hroot hplace hq
  · rw [stat, stat, hsame]
  · rw [readDir, readDir, hsame]
  · rw [readAttr, readAttr, hsame]

/-- Looking up a path comes to an end, with a real place or with nothing. -/
structure Settles (t : MemoryTree) (path : String) : Prop where
  /-- No search goes on for ever, from wherever it starts. -/
  terminates : ∀ last, WellFounded fun s' s => Search.next t last s = .inl s'
  /-- The search for the path ends with what the look-up finds. -/
  ends : ∀ last, ∃ s, Search.GoesTo t last (.start path) s ∧
    Search.next t last s = .inr (t.resolveWithin last maxHops (address path))
  hops_le : ∀ last s, Search.GoesTo t last (.start path) s → s.hops ≤ maxHops
  /-- What is found is what the way leads to by no more links than may be followed. -/
  found : ∀ place, t.resolve path = .ok place ↔
    ∃ k ≤ maxHops, Leads t true [] (address path) k place
  circle : ∀ way rest, Circles t way →
    Relation.ReflTransGen (Hop t []) (address path) (way ++ rest) →
      t.realPath path = .error .notFound
  stat_ne : t.stat path ≠ .ok .symlink
  place : ∀ r, t.realPath path = .ok r → RealPlace t path r

/-- **Looking up a path** in a tree that was built by edits comes to an end, after forty links at
the most, so that a circle of links leads nowhere. What is found is a real place: no link stands on
the way down to it, and the path is answered about as the place is. -/
theorem resolve_settles (edits : List Edit) (path : String) :
    Settles (empty.applyAll edits) path where
  terminates := Search.wellFounded_next _
  ends last := by
    rw [← Search.answer_start]
    exact Search.exists_end _ last (.start path)
  hops_le last s h := Search.hops_le_of_goesTo h (Nat.zero_le _)
  found _ := resolve_eq_ok_iff
  circle _ _ hround hpath := hround.realPath_eq hpath
  stat_ne := stat_ne_symlink (hasDirectory_root_applyAll edits) path
  place _ h := realPlace_of_realPath (sound_applyAll edits) (hasDirectory_root_applyAll edits) h

/-- Two links that lead to each other, the second with a name more, in a directory that a link leads
to; and a link to a card. -/
def ringEdits : List Edit :=
  [.link "/ring/a" "b", .link "/ring/b" "../ring/a/deeper", .link "/class/ring" "../ring",
    .directory "/card", .link "/class/eth0" "../card"]

theorem resolve_ring_settles :
    (empty.applyAll ringEdits).realPath "/class/ring/a/x" = .error .notFound ∧
      (empty.applyAll ringEdits).realPath "/class/eth0" = .ok "/card" ∧
      RealPlace (empty.applyAll ringEdits) "/class/eth0" "/card" := by
  have hring : (empty.applyAll ringEdits).node? ["ring"] = some (.directory ["a", "b"]) := by
    decide +kernel
  have ha : (empty.applyAll ringEdits).node? ["ring", "a"] = some (.link "b") := by decide +kernel
  have hb : (empty.applyAll ringEdits).node? ["ring", "b"] = some (.link "../ring/a/deeper") := by
    decide +kernel
  have hround : Circles (empty.applyAll ringEdits) ["ring", "a"] := by
    have hfirst : Hop (empty.applyAll ringEdits) [] ["ring", "a"] ["ring", "b"] :=
      .down hring (by simp) (.of_walk ha (by decide +kernel))
    have hsecond : Hop (empty.applyAll ringEdits) [] ["ring", "b"] ["ring", "a", "deeper"] :=
      .down hring (by simp) (.of_walk hb (by decide +kernel))
    exact ⟨["deeper"], .tail (.single hfirst) hsecond⟩
  have hway : Hop (empty.applyAll ringEdits) [] (address "/class/ring/a/x")
      (["ring", "a"] ++ ["x"]) := by
    have hclass : (empty.applyAll ringEdits).node? ["class"] =
        some (.directory ["ring", "eth0"]) := by decide +kernel
    have hlink : (empty.applyAll ringEdits).node? ["class", "ring"] = some (.link "../ring") := by
      decide +kernel
    have haddress : address "/class/ring/a/x" = ["class", "ring", "a", "x"] := by decide +kernel
    rw [haddress]
    exact .down hclass (by simp) (.of_walk hlink (by decide +kernel))
  have hcard : (empty.applyAll ringEdits).realPath "/class/eth0" = .ok "/card" := by decide +kernel
  exact ⟨(resolve_settles ringEdits "/class/ring/a/x").circle _ _ hround (.single hway), hcard,
    (resolve_settles ringEdits "/class/eth0").place _ hcard⟩

end DeviceModel.MemoryTree
