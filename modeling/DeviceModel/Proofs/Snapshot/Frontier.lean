import DeviceModel.Proofs.Snapshot.Reading
import DeviceModel.Proofs.Snapshot.Sweeping

/-!
How far the reading of all that is left unread has come.

As long as directories do not go down further than a scan does, such a reading is a sweep: it has
listed all there is, or it has stopped at the first directory in pre-order that cannot be read.
-/

namespace DeviceModel

open Event (listings)

/-- From `path` on, directories that list directories go down at most `depth` levels. -/
def Backend.ListsWithin (b : Backend) : Nat → String → Prop
  | 0, _ => False
  | depth + 1, path => ∀ l, b.readDir path = .ok l → ∀ e ∈ l.entries, e.kind = .directory →
      b.ListsWithin depth (Path.join path e.name)

namespace Directory

/-- What is still unread does not go down further than a scan does. -/
def UnreadWithin (b : Backend) (d : Directory) : Prop :=
  ∀ q n p, d.at? q = some (unread n p) → b.ListsWithin b.depth p

variable {b : Backend}

/-! ### Reading all that is left -/

section

variable {f : Directory → Logged (Directory × Except Error Unit)} {ds : List Directory}

lemma ok_of_untilFailure (h : (untilFailure f ds).value.2 = .ok ()) :
    ∀ d ∈ ds, (f d).value.2 = .ok () := by
  induction ds with
  | nil => simp
  | cons d ds ih =>
    rw [untilFailure, Logged.value_bind] at h
    rcases hd : (f d).value with ⟨d', e | ⟨⟩⟩
    · rw [hd] at h
      cases h
    · rw [hd] at h
      exact List.forall_mem_cons.2 ⟨by rw [hd], ih h⟩

lemma untilFailure_sweeps
    (h : ∀ d ∈ ds, Sweeps b [d] [(f d).value.1] (listings (f d).events) (f d).value.2) :
    Sweeps b ds (untilFailure f ds).value.1 (listings (untilFailure f ds).events)
      (untilFailure f ds).value.2 := by
  induction ds with
  | nil => exact .done
  | cons d ds ih =>
    obtain ⟨hd, hds⟩ := List.forall_mem_cons.1 h
    rw [untilFailure, Logged.value_bind, Logged.events_bind, Event.listings_append]
    rcases hv : (f d).value with ⟨d', e | ⟨⟩⟩
    · rw [hv] at hd
      simpa using hd.stop ds
    · rw [hv] at hd
      simpa using hd.cons (ih hds)

lemma untilFailure_eq_pure (h : ∀ d ∈ ds, f d = pure (d, .ok ())) :
    untilFailure f ds = pure (ds, .ok ()) := by
  induction ds with
  | nil => rfl
  | cons d ds ih =>
    obtain ⟨hd, hds⟩ := List.forall_mem_cons.1 h
    rw [untilFailure, hd, pure_bind, ih hds]
    rfl

end

/-- A directory that has never been read is swept as long as there are levels to go down. -/
lemma readBelow_sweeps {depth : Nat} {p : String} (n : String)
    (h : b.ListsWithin depth p ∨ (readBelow b depth (unread n p)).value.2 = .ok ()) :
    Sweeps b [unread n p] [(readBelow b depth (unread n p)).value.1]
      (listings (readBelow b depth (unread n p)).events)
      (readBelow b depth (unread n p)).value.2 := by
  induction depth generalizing n p with
  | zero =>
    rcases h with h | h
    · exact h.elim
    · cases h
  | succ depth ih =>
    rcases hr : ((unread n p).read b).run.value with e | r
    · rw [readBelow_of_error b hr, listings_read]
      exact .refused hr
    · have hbelow : ∀ s ∈ r.subdirs, Sweeps b [s] [(readBelow b depth s).value.1]
          (listings (readBelow b depth s).events) (readBelow b depth s).value.2 := by
        intro s hs
        obtain ⟨l, hl, e, he, hk, rfl⟩ := exists_of_mem_subdirs b hr hs
        -- either there are levels enough for what is listed, or it was all read without a failure
        refine ih e.name (h.imp (fun hw => hw l hl e he hk) fun hok => ?_)
        rw [readBelow_of_ok b hr] at hok
        exact ok_of_untilFailure hok _ hs
      rw [readBelow_of_ok b hr, Event.listings_append, listings_read]
      exact .enter hr (untilFailure_sweeps hbelow)

lemma unreadWithin_unread {n p : String} :
    (unread n p).UnreadWithin b ↔ b.ListsWithin b.depth p := by
  constructor
  · exact fun h => h [] n p rfl
  · rintro h (_ | ⟨i, q⟩) n' p' hx
    · cases hx
      exact h
    · simp at hx

lemma unreadWithin_listed {n p : String} {as : List Attribute} {ls : List Link}
    {ds : List Directory} :
    (listed n p as ls ds).UnreadWithin b ↔ ∀ d ∈ ds, d.UnreadWithin b := by
  constructor
  · intro h d hd q n' p' hx
    obtain ⟨i, hi⟩ := List.mem_iff_getElem?.1 hd
    refine h (i :: q) n' p' ?_
    rw [at?_cons, subdirs_listed, pick, hi]
    exact hx
  · rintro h (_ | ⟨i, q⟩) n' p' hx
    · cases hx
    · obtain ⟨d, hd, hx⟩ := Option.bind_eq_some_iff.1 hx
      exact h d (List.mem_of_getElem? hd) q n' p' hx

lemma readAll_sweeps {d : Directory}
    (h : d.UnreadWithin b ∨ (readAll b d).value.2 = .ok ()) :
    Sweeps b [d] [(readAll b d).value.1] (listings (readAll b d).events)
      (readAll b d).value.2 := by
  induction d using Directory.induction with
  | unread n p =>
    rw [readAll_unread] at h ⊢
    exact readBelow_sweeps n (h.imp_left unreadWithin_unread.1)
  | listed n p as ls ds ih =>
    rw [readAll_listed] at h ⊢
    have hbelow : ∀ s ∈ ds, Sweeps b [s] [(readAll b s).value.1]
        (listings (readAll b s).events) (readAll b s).value.2 := fun s hs =>
      ih s hs (h.imp (fun hw => unreadWithin_listed.1 hw s hs)
        fun hok => ok_of_untilFailure hok s hs)
    rw [Logged.events_map]
    exact .enter (opened_of_listed rfl) (untilFailure_sweeps hbelow)

/-- Where all is listed, nothing is left to read. -/
lemma readAll_of_listed {d : Directory} (h : ∀ q x, d.at? q = some x → x.isListed = true) :
    readAll b d = pure (d, .ok ()) := by
  induction d using Directory.induction with
  | unread n p => cases h [] _ rfl
  | listed n p as ls ds ih =>
    have hds : untilFailure (readAll b) ds = pure (ds, .ok ()) := by
      refine untilFailure_eq_pure fun s hs => ih s hs fun q x hx => ?_
      obtain ⟨i, hi⟩ := List.mem_iff_getElem?.1 hs
      refine h (i :: q) x ?_
      rw [at?_cons, subdirs_listed, pick, hi]
      exact hx
    rw [readAll_listed, hds]
    rfl

/-- How a sweep through all that is unread in `d` has ended. -/
def Ends (b : Backend) (d : Directory) : Directory × Except Error Unit → Prop
  | (d', .ok ()) => (∀ q x, d'.at? q = some x → x.isListed = true) ∧
      ∀ b', readAll b' d' = pure (d', .ok ())
  | (d', .error e) => ∃ p, StoppedAt b e p d.at? d'.at?

/-- **Reading all that is left**: if it ends well, all directories are listed, and reading all again
asks nothing and changes nothing. Otherwise it has stopped at the first unread directory that cannot
be read: all before is listed, and this one and what comes after are as they were. In either case no
directory that was listed has changed, and the others hold what a read finds. Taken up with another
file system that answers alike where a read has succeeded, it ends where a single sweep ends. -/
theorem readAll_frontier (b : Backend) (d : Directory) (hn : d.UnreadWithin b) :
    Ends b d (readAll b d).value ∧ Grown b d.at? (readAll b d).value.1.at? ∧
      ∀ b' : Backend, d.UnreadWithin b' → ReadAlike b b' (listings (readAll b d).events) →
        (readAll b' (readAll b d).value.1).value.2 = .ok () →
          (readAll b' (readAll b d).value.1).value = (readAll b' d).value := by
  have hsweeps := readAll_sweeps (.inl hn)
  have hgrown := hsweeps.grown
  refine ⟨?_, ⟨fun q => hgrown.kept (0 :: q), fun q => hgrown.found (0 :: q)⟩, ?_⟩
  · rcases hv : (readAll b d).value with ⟨d', e | ⟨⟩⟩
    · rw [hv] at hsweeps
      obtain ⟨i, p, hp⟩ := hsweeps.exists_stoppedAt
      exact ⟨p, hp.of_single⟩
    · rw [hv] at hsweeps
      have hall : ∀ q x, d'.at? q = some x → x.isListed = true :=
        fun q => hsweeps.listed_of_ok (0 :: q)
      exact ⟨hall, fun b' => readAll_of_listed hall⟩
  · intro b' hn' halike hok
    have hsecond := readAll_sweeps (b := b') (.inr hok)
    rw [hok] at hsecond
    obtain ⟨ts, hts⟩ := hsweeps.resume halike hsecond
    have honce := readAll_sweeps (b := b') (.inl hn')
    -- taken up, the sweep is one through the whole, and there is only one such
    obtain ⟨hd, hres⟩ := hts.unique honce
    exact Prod.ext (List.head_eq_of_cons_eq hd) (hok.trans hres)

/-- A cabinet with two drawers, of which one has a box that cannot be opened at first. -/
def cabinetBackend (unlocked : Bool) : Backend where
  stat _ := .ok .directory
  readDir path :=
    if path = "/cabinet/b" then .ok { entries := [⟨"box", .directory, 0o755⟩] }
    else if path = "/cabinet/b/box" ∧ unlocked = false then .error .readError
    else .ok { entries := [] }
  readLink _ := .error .notFound
  readAttr _ := .error .notFound
  realPath path := .ok path
  depth := 2

/-- The cabinet with its first drawer read. -/
def cabinet : Directory :=
  listed "cabinet" "/cabinet" [] [] [listed "a" "/cabinet/a" [] [] [], unread "b" "/cabinet/b"]

lemma cabinet_unreadWithin (unlocked : Bool) : cabinet.UnreadWithin (cabinetBackend unlocked) := by
  have hbox : (cabinetBackend unlocked).ListsWithin 1 "/cabinet/b/box" := by
    intro l hl e he
    rcases unlocked with _ | _
    · cases hl
    · cases hl
      cases he
  have hdrawer : (cabinetBackend unlocked).ListsWithin 2 "/cabinet/b" := by
    intro l hl e he _
    cases hl
    rw [List.mem_singleton.1 he]
    exact hbox
  refine unreadWithin_listed.2 (List.forall_mem_cons.2 ⟨?_, List.forall_mem_singleton.2 ?_⟩)
  · exact unreadWithin_listed.2 (by simp)
  · exact unreadWithin_unread.2 hdrawer

theorem readAll_cabinet_frontier :
    ∃ d', (readAll (cabinetBackend false) cabinet).value = (d', .error .readError) ∧
      (∃ p, StoppedAt (cabinetBackend false) .readError p cabinet.at? d'.at?) ∧
      Grown (cabinetBackend false) cabinet.at? d'.at? ∧
      (readAll (cabinetBackend true) d').value.2 = .ok () ∧
      (readAll (cabinetBackend true) d').value = (readAll (cabinetBackend true) cabinet).value := by
  obtain ⟨hends, hgrown, hresumes⟩ :=
    readAll_frontier (cabinetBackend false) cabinet (cabinet_unreadWithin false)
  have hv : (readAll (cabinetBackend false) cabinet).value =
      ((readAll (cabinetBackend false) cabinet).value.1, .error .readError) := by
    rfl
  have hok : (readAll (cabinetBackend true)
      (readAll (cabinetBackend false) cabinet).value.1).value.2 = .ok () := by
    rfl
  have hlist : listings (readAll (cabinetBackend false) cabinet).events =
      ["/cabinet/b", "/cabinet/b/box"] := by
    rfl
  rw [hv] at hends
  refine ⟨_, hv, hends, hgrown, hok, hresumes _ (cabinet_unreadWithin true) ?_ hok⟩
  rw [hlist]
  rintro p hp n r hr
  rcases List.mem_cons.1 hp with rfl | hp
  · exact hr
  · rw [List.mem_singleton.1 hp] at hr
    cases hr

/-! ### In pre-order -/

lemma nodes_of_unread {d : Directory} (h : d.isListed = false) : d.nodes = [d] := by
  rw [eq_stub h]
  rfl

lemma flatMap_nodes_of_unread {ds : List Directory} (h : ∀ d ∈ ds, d.isListed = false) :
    ds.flatMap nodes = ds := by
  induction ds with
  | nil => rfl
  | cons d ds ih =>
    obtain ⟨hd, hds⟩ := List.forall_mem_cons.1 h
    rw [List.flatMap_cons, nodes_of_unread hd, ih hds, List.singleton_append]

lemma nodes_holding (r : Directory) (ds : List Directory) :
    (r.holding ds).nodes = r.holding ds :: ds.flatMap nodes := by
  rw [nodes_eq, subdirs_holding]

/-- How far some directories, given in pre-order, have been read: all of them, or those before the
first that cannot be read. -/
def Populated (b : Backend) (xs : List Directory) : Except Error Unit → Prop
  | .ok () => ∀ x ∈ xs, x.isListed = true
  | .error e => ∃ before f after, xs = before ++ f :: after ∧
      (∀ x ∈ before, x.isListed = true) ∧ (∀ x ∈ f :: after, x.isListed = false) ∧
      (f.read b).run.value = .error e

namespace Populated

variable {xs ys : List Directory} {res : Except Error Unit}

lemma append (hx : Populated b xs (.ok ())) (hy : Populated b ys res) :
    Populated b (xs ++ ys) res := by
  rcases res with e | ⟨⟩
  · obtain ⟨before, f, after, rfl, hbefore, hafter, hf⟩ := hy
    refine ⟨xs ++ before, f, after, (List.append_assoc _ _ _).symm, ?_, hafter, hf⟩
    exact List.forall_mem_append.2 ⟨hx, hbefore⟩
  · exact List.forall_mem_append.2 ⟨hx, hy⟩

lemma cons {x : Directory} (hx : x.isListed = true) (hy : Populated b ys res) :
    Populated b (x :: ys) res := by
  have hfirst : Populated b [x] (.ok ()) := List.forall_mem_singleton.2 hx
  exact hfirst.append hy

lemma stop {e : Error} (hx : Populated b xs (.error e)) (hy : ∀ y ∈ ys, y.isListed = false) :
    Populated b (xs ++ ys) (.error e) := by
  obtain ⟨before, f, after, rfl, hbefore, hafter, hf⟩ := hx
  have hrest : ∀ x ∈ (f :: after) ++ ys, x.isListed = false :=
    List.forall_mem_append.2 ⟨hafter, hy⟩
  exact ⟨before, f, after ++ ys, by rw [List.append_assoc, List.cons_append], hbefore, hrest, hf⟩

end Populated

/-- A sweep through directories that were all unread. -/
lemma Sweeps.populated {ds ds' : List Directory} {ps : List String} {res : Except Error Unit}
    (h : Sweeps b ds ds' ps res) (hun : ∀ d ∈ ds, d.isListed = false) :
    Populated b (ds'.flatMap nodes) res := by
  have hbelow {d r : Directory} (hd : d.isListed = false) (hr : opened b d = .ok r) :
      ∀ s ∈ r.subdirs, s.isListed = false := by
    rw [opened_of_unread hd] at hr
    exact unread_of_mem_subdirs hr
  induction h with
  | done =>
    intro x hx
    cases hx
  | @refused d ds e hd =>
    rw [opened_of_unread (hun d List.mem_cons_self)] at hd
    rw [flatMap_nodes_of_unread hun]
    exact ⟨[], d, ds, rfl, by simp, hun, hd⟩
  | @stopped d r ds below ps e hd _ ih =>
    obtain ⟨hhead, htail⟩ := List.forall_mem_cons.1 hun
    rw [List.flatMap_cons, nodes_holding, flatMap_nodes_of_unread htail]
    exact ((ih (hbelow hhead hd)).cons (isListed_holding _ _)).stop htail
  | passed hd _ _ ih ihrest =>
    obtain ⟨hhead, htail⟩ := List.forall_mem_cons.1 hun
    rw [List.flatMap_cons, nodes_holding]
    exact ((ih (hbelow hhead hd)).cons (isListed_holding _ _)).append (ihrest htail)

/-- **Pre-order**: below a directory that was just read, exactly the directories before the first
that cannot be read are populated, or all if there is no such. -/
theorem readAll_populated {d r : Directory} (h : (d.read b).run.value = .ok r)
    (hn : r.UnreadWithin b) :
    Populated b (readAll b r).value.1.nodes (readAll b r).value.2 := by
  have hlisted : r.isListed = true := (read_keeps b h).1
  have hsweeps := readAll_sweeps (.inl hn)
  generalize (readAll b r).value.1 = r', listings (readAll b r).events = ps,
    (readAll b r).value.2 = res at hsweeps ⊢
  -- a directory that is listed cannot be refused, so the sweep is one of what is below it
  cases hsweeps with
  | refused hd =>
    rw [opened_of_listed hlisted] at hd
    cases hd
  | stopped hd hbelow =>
    rw [opened_of_listed hlisted] at hd
    cases hd
    rw [nodes_holding]
    exact (hbelow.populated (unread_of_mem_subdirs h)).cons (isListed_holding _ _)
  | passed hd hbelow hdone =>
    rw [opened_of_listed hlisted] at hd
    cases hd
    cases hdone
    rw [nodes_holding]
    exact (hbelow.populated (unread_of_mem_subdirs h)).cons (isListed_holding _ _)

end Directory

end DeviceModel
