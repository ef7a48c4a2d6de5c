import DeviceModel.Proofs.Graph.Sweep
import DeviceModel.Proofs.Snapshot.Positions

/-!
Sweeps through directories side by side, which read what is unread and stop where a read fails.

Up to where a sweep has stopped all is listed, and from there on all is as it was. Whoever takes up
the sweep there ends where a sweep from the start would have ended.
-/

namespace DeviceModel.Directory

variable (b : Backend)

/-- The directory once it holds something: an unread one is read. -/
def opened (d : Directory) : Except Error Directory :=
  if d.isListed then .ok d else (d.read b).run.value

/-- The listing that this takes. -/
def reads (d : Directory) : List String := if d.isListed then [] else [d.path]

/-- A sweep through directories side by side: what becomes of them, what it lists and how it ends. -/
inductive Sweeps : List Directory → List Directory → List String → Except Error Unit → Prop
  | done : Sweeps [] [] [] (.ok ())
  /-- The first directory cannot be read. -/
  | refused {d ds e} : opened b d = .error e → Sweeps (d :: ds) (d :: ds) d.reads (.error e)
  /-- Something below the first directory cannot be read. -/
  | stopped {d r ds below ps e} : opened b d = .ok r → Sweeps r.subdirs below ps (.error e) →
      Sweeps (d :: ds) (r.holding below :: ds) (d.reads ++ ps) (.error e)
  | passed {d r ds ds' below ps qs res} : opened b d = .ok r →
      Sweeps r.subdirs below ps (.ok ()) → Sweeps ds ds' qs res →
        Sweeps (d :: ds) (r.holding below :: ds') (d.reads ++ ps ++ qs) res

variable {b}

lemma opened_of_listed {d : Directory} (h : d.isListed = true) : opened b d = .ok d := by
  rw [opened, if_pos h]

lemma opened_of_unread {d : Directory} (h : d.isListed = false) :
    opened b d = (d.read b).run.value := by
  rw [opened, if_neg (by simp [h])]

/-- A directory that has been opened was listed before, or has just been read. -/
lemma opened_cases {d r : Directory} (h : opened b d = .ok r) :
    (d.isListed = true ∧ r = d) ∨ (d.isListed = false ∧ (d.read b).run.value = .ok r) := by
  rcases hd : d.isListed with _ | _
  · rw [opened_of_unread hd] at h
    exact .inr ⟨rfl, h⟩
  · rw [opened_of_listed hd] at h
    exact .inl ⟨rfl, (Except.ok.inj h).symm⟩

lemma isListed_of_opened {d r : Directory} (h : opened b d = .ok r) :
    r.isListed = true ∧ r.name = d.name ∧ r.path = d.path := by
  rcases opened_cases h with ⟨hd, rfl⟩ | ⟨-, hr⟩
  · exact ⟨hd, rfl, rfl⟩
  · exact read_keeps b hr

lemma map_stub_subdirs {d r : Directory} (h : (d.read b).run.value = .ok r) :
    r.subdirs.map stub = r.subdirs := by
  have hsub := subdirs_of_read b h
  rw [hsub, List.map_map, List.map_map, List.map_map]
  rfl

lemma unread_of_mem_subdirs {d r : Directory} (h : (d.read b).run.value = .ok r) :
    ∀ s ∈ r.subdirs, s.isListed = false := by
  intro s hs
  rw [← map_stub_subdirs h] at hs
  obtain ⟨s, -, rfl⟩ := List.mem_map.1 hs
  rfl

namespace Sweeps

variable {d r d' : Directory} {ds ds' ds'' : List Directory} {ps qs : List String} {e : Error}
  {res : Except Error Unit}

/-- Opening a directory and sweeping what is then below it. -/
lemma enter {below : List Directory} (h : opened b d = .ok r)
    (hs : Sweeps b r.subdirs below ps res) :
    Sweeps b [d] [r.holding below] (d.reads ++ ps) res := by
  rcases res with e | ⟨⟩
  · exact .stopped h hs
  · have hpassed := Sweeps.passed h hs .done
    rwa [List.append_nil] at hpassed

lemma cons (h : Sweeps b [d] [d'] ps (.ok ())) (hs : Sweeps b ds ds' qs res) :
    Sweeps b (d :: ds) (d' :: ds') (ps ++ qs) res := by
  cases h with
  | passed hd hbelow hdone =>
    cases hdone
    rw [List.append_nil]
    exact .passed hd hbelow hs

lemma stop (h : Sweeps b [d] [d'] ps (.error e)) (ds : List Directory) :
    Sweeps b (d :: ds) (d' :: ds) ps (.error e) := by
  cases h with
  | refused hd => exact .refused hd
  | stopped hd hbelow => exact .stopped hd hbelow
  | passed hd hbelow hdone => cases hdone

/-- What a sweep comes to depends on where it starts alone. -/
lemma unique (h : Sweeps b ds ds' ps res) {qs : List String} {res' : Except Error Unit}
    (h' : Sweeps b ds ds'' qs res') : ds' = ds'' ∧ res = res' := by
  induction h generalizing ds'' qs res' with
  | done =>
    cases h'
    exact ⟨rfl, rfl⟩
  | refused hd =>
    cases h' with
    | refused hd' =>
      cases hd.symm.trans hd'
      exact ⟨rfl, rfl⟩
    | stopped hd' _ | passed hd' _ _ => cases hd.symm.trans hd'
  | stopped hd hbelow ih =>
    cases h' with
    | refused hd' => cases hd.symm.trans hd'
    | stopped hd' hbelow' =>
      cases hd.symm.trans hd'
      -- opening gives one result, so what is swept below starts out the same
      obtain ⟨rfl, he⟩ := ih hbelow'
      exact ⟨rfl, he⟩
    | passed hd' hbelow' _ =>
      cases hd.symm.trans hd'
      cases (ih hbelow').2
  | passed hd hbelow hrest ih ihrest =>
    cases h' with
    | refused hd' => cases hd.symm.trans hd'
    | stopped hd' hbelow' =>
      cases hd.symm.trans hd'
      cases (ih hbelow').2
    | passed hd' hbelow' hrest' =>
      cases hd.symm.trans hd'
      obtain ⟨rfl, -⟩ := ih hbelow'
      obtain ⟨rfl, he⟩ := ihrest hrest'
      exact ⟨rfl, he⟩

/-- A sweep moves nothing. -/
lemma map_stub (h : Sweeps b ds ds' ps res) : ds'.map stub = ds.map stub := by
  induction h with
  | done => rfl
  | refused _ => rfl
  | stopped hd _ _ =>
    obtain ⟨-, hname, hpath⟩ := isListed_of_opened hd
    simp [stub, hname, hpath]
  | passed hd _ _ _ ih =>
    obtain ⟨-, hname, hpath⟩ := isListed_of_opened hd
    rw [List.map_cons, List.map_cons, ih]
    simp [stub, hname, hpath]

end Sweeps

/-! ### What a sweep has done -/

/-- What a sweep makes of the directories that are seen at the positions: each stays where it is,
those that were listed hold what they held, and the others that are listed then hold what a read
finds. -/
structure Grown (b : Backend) (before after : List Nat → Option Directory) : Prop where
  kept : ∀ q x, before q = some x → ∃ y, after q = some y ∧ y.name = x.name ∧ y.path = x.path ∧
    (x.isListed = true → y.alone = x.alone)
  found : ∀ q y, after q = some y → y.isListed = true →
    (∃ x, before q = some x ∧ x.isListed = true) ∨ (y.stub.read b).run.value = .ok y.alone

/-- A sweep has stopped at the position `p` with the error of the read there: what comes before is
listed, and there and from there on all is as it was, but for unread directories that have just been
found. -/
structure StoppedAt (b : Backend) (e : Error) (p : List Nat)
    (before after : List Nat → Option Directory) : Prop where
  refused : ∃ x, after p = some x ∧ x.isListed = false ∧ (x.read b).run.value = .error e
  done : ∀ q, Precedes q p → ∀ x, after q = some x → x.isListed = true
  left : ∀ q, ¬ Precedes q p → ∀ x, before q = some x → after q = some x
  found : ∀ q, ¬ Precedes q p → ∀ x, after q = some x →
    before q = some x ∨ (before q = none ∧ x.isListed = false)

namespace Grown

variable {d r d' : Directory} {ds ds' : List Directory}

lemma refl (look : List Nat → Option Directory) : Grown b look look where
  kept := fun _ x hx => ⟨x, hx, rfl, rfl, fun _ => rfl⟩
  found := fun _ y hy hl => .inl ⟨y, hy, hl⟩

lemma cons (h : Grown b d.at? d'.at?) (hs : Grown b (pick ds) (pick ds')) :
    Grown b (pick (d :: ds)) (pick (d' :: ds')) where
  kept := by
    rintro (_ | ⟨_ | i, q⟩) x hx
    · cases hx
    · exact h.kept q x hx
    · exact hs.kept (i :: q) x hx
  found := by
    rintro (_ | ⟨_ | i, q⟩) y hy hl
    · cases hy
    · exact h.found q y hy hl
    · exact hs.found (i :: q) y hy hl

lemma enter {below : List Directory} (hd : opened b d = .ok r)
    (hstub : below.map stub = r.subdirs.map stub) (h : Grown b (pick r.subdirs) (pick below)) :
    Grown b d.at? (r.holding below).at? := by
  rcases opened_cases hd with ⟨hl, rfl⟩ | ⟨hun, hr⟩
  · refine ⟨?_, ?_⟩
    · rintro (_ | ⟨i, q⟩) x hx
      · cases hx
        exact ⟨_, rfl, rfl, rfl, fun _ => alone_holding hl hstub⟩
      · exact h.kept (i :: q) x hx
    · rintro (_ | ⟨i, q⟩) y hy hly
      · exact .inl ⟨_, rfl, hl⟩
      · exact h.found (i :: q) y hy hly
  · obtain ⟨hrl, hname, hpath⟩ := read_keeps b hr
    have hnone : d.subdirs = [] := by rw [eq_stub hun]; rfl
    refine ⟨?_, ?_⟩
    · rintro (_ | ⟨i, q⟩) x hx
      · cases hx
        exact ⟨_, rfl, hname, hpath, fun hl => absurd hl (by simp [hun])⟩
      · simp [hnone] at hx
    · rintro (_ | ⟨i, q⟩) y hy hly
      · cases hy
        have halone : (r.holding below).alone = r := by
          rw [holding, alone, hstub, map_stub_subdirs hr]
          exact holding_subdirs hrl
        -- what was listed just now was unread before, so it is found by a read
        have hstub : (r.holding below).stub = d := by
          rw [eq_stub hun, stub, name_holding, path_holding, hname, hpath]
          rfl
        rw [halone, hstub]
        exact .inr hr
      · rcases h.found (i :: q) y hy hly with ⟨x, hx, hlx⟩ | hfound
        · rw [unread_of_pick (unread_of_mem_subdirs hr) hx] at hlx
          cases hlx
        · exact .inr hfound

end Grown

namespace StoppedAt

variable {d r d' : Directory} {ds ds' : List Directory} {e : Error} {i : Nat} {p : List Nat}

lemma head (h : StoppedAt b e p d.at? d'.at?) (ds : List Directory) :
    StoppedAt b e (0 :: p) (pick (d :: ds)) (pick (d' :: ds)) where
  refused := h.refused
  done := by
    rintro (_ | ⟨_ | i, q⟩) hq x hx
    · cases hx
    · exact h.done q (by simpa using hq) x hx
    · simp at hq
  left := by
    rintro (_ | ⟨_ | i, q⟩) hq x hx
    · cases hx
    · exact h.left q (by simpa using hq) x hx
    · exact hx
  found := by
    rintro (_ | ⟨_ | i, q⟩) hq x hx
    · cases hx
    · exact h.found q (by simpa using hq) x hx
    · exact .inl hx

lemma tail (hd : ∀ q x, d'.at? q = some x → x.isListed = true)
    (h : StoppedAt b e (i :: p) (pick ds) (pick ds')) :
    StoppedAt b e ((i + 1) :: p) (pick (d :: ds)) (pick (d' :: ds')) where
  refused := h.refused
  done := by
    rintro (_ | ⟨_ | j, q⟩) hq x hx
    · cases hx
    · exact hd q x hx
    · exact h.done (j :: q) (by simpa using hq) x hx
  left := by
    rintro (_ | ⟨_ | j, q⟩) hq x hx
    · cases hx
    · simp at hq
    · exact h.left (j :: q) (by simpa using hq) x hx
  found := by
    rintro (_ | ⟨_ | j, q⟩) hq x hx
    · cases hx
    · simp at hq
    · exact h.found (j :: q) (by simpa using hq) x hx

lemma enter {below : List Directory} (hd : opened b d = .ok r)
    (h : StoppedAt b e (i :: p) (pick r.subdirs) (pick below)) :
    StoppedAt b e (i :: p) d.at? (r.holding below).at? where
  refused := h.refused
  done := by
    rintro (_ | ⟨j, q⟩) hq x hx
    · cases hx
      rfl
    · exact h.done (j :: q) hq x hx
  left := by
    rintro (_ | ⟨j, q⟩) hq x hx
    · simp at hq
    · rcases opened_cases hd with ⟨-, rfl⟩ | ⟨hun, -⟩
      · exact h.left (j :: q) hq x hx
      · rw [eq_stub hun] at hx
        simp [stub] at hx
  found := by
    rintro (_ | ⟨j, q⟩) hq x hx
    · simp at hq
    · have hx' := h.found (j :: q) hq x hx
      rcases opened_cases hd with ⟨-, rfl⟩ | ⟨hun, hr⟩
      · exact hx'
      · -- nothing was known below a directory that has only been read now
        refine .inr ⟨by rw [eq_stub hun]; simp [stub], ?_⟩
        rcases hx' with hx' | ⟨-, hx'⟩
        · exact unread_of_pick (unread_of_mem_subdirs hr) hx'
        · exact hx'

lemma of_single (h : StoppedAt b e (i :: p) (pick [d]) (pick [d'])) :
    StoppedAt b e p d.at? d'.at? := by
  obtain ⟨x, hx, hun, hr⟩ := h.refused
  rcases i with _ | i
  · refine ⟨⟨x, hx, hun, hr⟩, fun q hq => ?_, fun q hq => ?_, fun q hq => ?_⟩
    · exact h.done (0 :: q) (by simpa using hq)
    · exact h.left (0 :: q) (by simpa using hq)
    · exact h.found (0 :: q) (by simpa using hq)
  · simp at hx

end StoppedAt

namespace Sweeps

variable {ds ds' : List Directory} {ps : List String} {res : Except Error Unit}

lemma grown (h : Sweeps b ds ds' ps res) : Grown b (pick ds) (pick ds') := by
  induction h with
  | done => exact .refl _
  | refused _ => exact .refl _
  | stopped hd hbelow ih => exact .cons (.enter hd hbelow.map_stub ih) (.refl _)
  | passed hd hbelow _ ih ihrest => exact .cons (.enter hd hbelow.map_stub ih) ihrest

/-- A sweep that comes to its end has listed all. -/
lemma listed_of_ok (h : Sweeps b ds ds' ps (.ok ())) :
    ∀ q x, pick ds' q = some x → x.isListed = true := by
  generalize hres : (Except.ok () : Except Error Unit) = res at h
  induction h with
  | done => simp
  | refused _ | stopped _ _ _ => cases hres
  | passed hd _ _ ih ihrest =>
    rintro (_ | ⟨_ | i, _ | ⟨j, q⟩⟩) x hx
    · cases hx
    · cases hx
      rfl
    · exact ih rfl (j :: q) x hx
    all_goals exact ihrest hres (i :: _) x hx

lemma exists_stoppedAt {e : Error} (h : Sweeps b ds ds' ps (.error e)) :
    ∃ i p, StoppedAt b e (i :: p) (pick ds) (pick ds') := by
  generalize hres : (Except.error e : Except Error Unit) = res at h
  induction h with
  | done => cases hres
  | @refused d ds e' hd =>
    cases hres
    rcases hun : d.isListed with _ | _
    · rw [opened_of_unread hun] at hd
      refine ⟨0, [], .head ⟨⟨d, rfl, hun, hd⟩, ?_, ?_, ?_⟩ ds⟩
      · intro q hq
        exact absurd hq (not_precedes_nil q)
      · exact fun q _ x hx => hx
      · exact fun q _ x hx => .inl hx
    · rw [opened_of_listed hun] at hd
      cases hd
  | @stopped d r ds below ps e' hd _ ih =>
    cases hres
    obtain ⟨i, p, hp⟩ := ih rfl
    exact ⟨0, i :: p, .head (.enter hd hp) ds⟩
  | passed hd hbelow _ _ ihrest =>
    obtain ⟨i, p, hp⟩ := ihrest hres
    have hall := (enter hd hbelow).listed_of_ok
    exact ⟨i + 1, p, .tail (fun q x hx => hall (0 :: q) x hx) hp⟩

end Sweeps

/-! ### Taking up a sweep -/

/-- What can be read of the directories `ps` is read the same from another file system. -/
def ReadAlike (b b' : Backend) (ps : List String) : Prop :=
  ∀ p ∈ ps, ∀ n r, ((unread n p).read b).run.value = .ok r →
    ((unread n p).read b').run.value = .ok r

lemma ReadAlike.opened {b' : Backend} {d r : Directory} (h : ReadAlike b b' d.reads)
    (hd : opened b d = .ok r) : Directory.opened b' d = .ok r := by
  rcases opened_cases hd with ⟨hl, rfl⟩ | ⟨hun, hr⟩
  · exact opened_of_listed hl
  · rw [opened_of_unread hun]
    rw [eq_stub hun] at hr ⊢
    exact h _ (by simp [reads, hun]) _ _ hr

/-- A sweep that is taken up where another has ended, and that ends well, ends where a single sweep
does. -/
lemma Sweeps.resume {b' : Backend} {ds mid ds' : List Directory} {ps qs : List String}
    {res : Except Error Unit} (h : Sweeps b ds mid ps res) (hb : ReadAlike b b' ps)
    (h' : Sweeps b' mid ds' qs (.ok ())) : ∃ ts, Sweeps b' ds ds' ts (.ok ()) := by
  induction h generalizing ds' qs with
  | done => exact ⟨_, h'⟩
  | refused _ => exact ⟨_, h'⟩
  | stopped hd hbelow ih =>
    cases h' with
    | passed hr hbelow' hrest =>
      rw [opened_of_listed (isListed_holding _ _)] at hr
      cases hr
      obtain ⟨ts, hts⟩ := ih (fun p hp => hb p (List.mem_append_right _ hp)) hbelow'
      have hd' := ReadAlike.opened (fun p hp => hb p (List.mem_append_left _ hp)) hd
      rw [holding_holding]
      exact ⟨_, .passed hd' hts hrest⟩
  | passed hd hbelow hrest ih ihrest =>
    cases h' with
    | passed hr hbelow' hrest' =>
      rw [opened_of_listed (isListed_holding _ _)] at hr
      cases hr
      obtain ⟨ts, hts⟩ :=
        ih (fun p hp => hb p (List.mem_append_left _ (List.mem_append_right _ hp))) hbelow'
      obtain ⟨us, hus⟩ := ihrest (fun p hp => hb p (List.mem_append_right _ hp)) hrest'
      have hd' := ReadAlike.opened
        (fun p hp => hb p (List.mem_append_left _ (List.mem_append_left _ hp))) hd
      rw [holding_holding]
      exact ⟨_, .passed hd' hts hus⟩

end DeviceModel.Directory
