import DeviceModel.Proofs.Graph.Building
import DeviceModel.Proofs.Graph.Survey

/-!
The order in which a tree of devices is built: the directories are surveyed one after another
in pre-order, and the first that fails is the last that is looked at.
-/

namespace DeviceModel

/-- The questions among some events. -/
def Event.queries (es : List Event) : List (Query × String) := es.filterMap query?

namespace Event

@[simp] lemma queries_nil : queries [] = [] := rfl
@[simp] lemma queries_append (es fs : List Event) : queries (es ++ fs) = queries es ++ queries fs :=
  List.filterMap_append

/-- A question, or an object made: what is done to get an answer, releases and notices apart. -/
def isDeed : Event → Bool
  | asked _ _ | opened _ _ => true
  | closed _ _ | noticed _ => false

def deeds (es : List Event) : List Event := es.filter isDeed

@[simp] lemma deeds_nil : deeds [] = [] := rfl
@[simp] lemma deeds_append (es fs : List Event) : deeds (es ++ fs) = deeds es ++ deeds fs :=
  List.filter_append es fs

lemma deeds_eq_nil {es : List Event} (h : ∀ e ∈ es, ∃ k p, e = .closed k p) : deeds es = [] := by
  refine List.filter_eq_nil_iff.2 fun e he => ?_
  obtain ⟨k, p, rfl⟩ := h e he
  simp [isDeed]

/-- What concerns questions and objects made is seen in the deeds. -/
lemma filterMap_deeds {α : Type} {f : Event → Option α} (hclosed : ∀ k p, f (.closed k p) = none)
    (hnoticed : ∀ n, f (.noticed n) = none) (es : List Event) :
    (deeds es).filterMap f = es.filterMap f := by
  rw [deeds, List.filterMap_filter]
  refine congrArg (fun g => es.filterMap g) (funext fun e => ?_)
  cases e with
  | asked | opened => rfl
  | closed k p => exact (hclosed k p).symm
  | noticed n => exact (hnoticed n).symm

lemma queries_deeds (es : List Event) : queries (deeds es) = queries es :=
  filterMap_deeds (fun _ _ => rfl) (fun _ => rfl) es

lemma mem_queries {es : List Event} {q : Query} {x : String} :
    (q, x) ∈ queries es ↔ .asked q x ∈ es := by
  simp only [queries, List.mem_filterMap]
  constructor
  · rintro ⟨e, he, hq⟩
    cases e with
    | asked q' x' =>
      cases hq
      exact he
    | opened | closed | noticed => cases hq
  · exact fun h => ⟨_, h, rfl⟩

end Event

open Event (queries deeds)

namespace Backend

/-- The deeds are those that are done at the visited places of `ps`, and there is a failure if the
visit meets one. -/
def Visits (b : Backend) (f : String → List Event) (ps : List String) (es : List Event)
    (failed : Option Error) : Prop :=
  deeds es = (b.visit ps).1.flatMap f ∧ failed = (b.visit ps).2

namespace Visits

variable {b : Backend} {f : String → List Event} {ps qs : List String} {es fs : List Event}

lemma nil : b.Visits f [] [] none := ⟨rfl, rfl⟩

lemma append {failed : Option Error} (h : b.Visits f ps es none)
    (h' : b.Visits f qs fs failed) : b.Visits f (ps ++ qs) (es ++ fs) failed := by
  obtain ⟨he, hf⟩ := h
  obtain ⟨he', hf'⟩ := h'
  rcases hv : b.visit ps with ⟨vs, _ | e⟩
  · rw [hv] at he
    refine ⟨?_, ?_⟩
    · rw [Event.deeds_append, he, he', Backend.visit_append, hv, List.flatMap_append]
    · rw [hf', Backend.visit_append, hv]
  · rw [hv] at hf
    cases hf

/-- Nothing that comes after a failure is visited. -/
lemma stop {e : Error} (h : b.Visits f ps es (some e)) (qs : List String) :
    b.Visits f (ps ++ qs) es (some e) := by
  obtain ⟨he, hf⟩ := h
  rcases hv : b.visit ps with ⟨vs, _ | e'⟩
  · rw [hv] at hf
    cases hf
  · rw [hv] at he hf
    refine ⟨?_, ?_⟩
    · rw [he, Backend.visit_append, hv]
    · rw [hf, Backend.visit_append, hv]

lemma silent {failed : Option Error} (h : b.Visits f ps es failed)
    (hfs : deeds fs = []) : b.Visits f ps (es ++ fs) failed :=
  ⟨by rw [Event.deeds_append, hfs, List.append_nil, h.1], h.2⟩

/-- What concerns questions and objects made is what is done at the visited places. -/
lemma filterMap_eq {α : Type} {g : Event → Option α} {failed : Option Error}
    (h : b.Visits f ps es failed) (hclosed : ∀ k p, g (.closed k p) = none)
    (hnoticed : ∀ n, g (.noticed n) = none) :
    es.filterMap g = (b.visit ps).1.flatMap fun p => (f p).filterMap g := by
  rw [← Event.filterMap_deeds hclosed hnoticed, h.1, List.filterMap_flatMap]

end Visits

end Backend

lemma Directory.closing_closed (d : Directory) : ∀ e ∈ d.closing, ∃ k p, e = .closed k p := by
  induction d using Directory.induction with
  | unread n p => simp [closing]
  | listed n p as ls ds ih =>
    intro e he
    rw [closing_eq, List.mem_cons, closingAll_eq_flatMap, List.mem_flatMap] at he
    rcases he with rfl | ⟨d, hd, he⟩
    · exact ⟨_, _, rfl⟩
    · exact ih d hd e he

lemma Directory.closingAll_closed (ds : List Directory) :
    ∀ e ∈ closingAll ds, ∃ k p, e = .closed k p := by
  intro e he
  rw [closingAll_eq_flatMap, List.mem_flatMap] at he
  obtain ⟨d, -, he⟩ := he
  exact d.closing_closed e he

namespace Device

lemma closing_closed (d : Device) : ∀ e ∈ d.closing, ∃ k p, e = .closed k p := by
  induction d using Device.induction with
  | step d ih =>
    intro e he
    rw [closing_eq, closingAll_eq_flatMap, List.mem_append, List.mem_flatMap,
      List.mem_cons] at he
    rcases he with ⟨c, hc, he⟩ | rfl | he
    · exact ih c hc e he
    · exact ⟨_, _, rfl⟩
    · exact d.directory.closing_closed e he

variable (sys : Mounted) (buses : BusList)

/-! ### One device -/

/-- What opening one device asks. -/
def asks (path : String) : List (Query × String) := queries (loadOn sys buses path).run.events

lemma deeds_loadOn {path : String} (h : path ≠ "") :
    deeds (loadOn sys buses path).run.events =
      deeds (Directory.load sys.backend path).run.events ++
        ((Directory.load sys.backend path).run.value.toOption.map fun d =>
          deeds (buses.nameFor sys.backend d.name).events ++ [.opened .device d.path]).getD [] := by
  rw [loadOn, if_neg h]
  rcases hd : (Directory.load sys.backend path).run.value with e | d
  · -- the notice of a failure is no deed
    have hnoting := Scan.run_noting_of_error hd (.invalid .device path)
    rw [Scan.run_bind_of_error (congrArg Logged.value hnoting), hnoting, Event.deeds_append]
    rfl
  · have hnoting := Scan.run_noting_of_ok hd (.invalid .device path)
    rw [Scan.run_bind_of_ok (hnoting ▸ hd), hnoting, ExceptT.run_bind_lift, Event.deeds_append,
      Logged.events_bind, Event.deeds_append]
    rfl

lemma asks_eq {path : String} (h : path ≠ "") :
    asks sys buses path =
      queries (Directory.load sys.backend path).run.events ++
        ((Directory.load sys.backend path).run.value.toOption.map fun d =>
          queries (buses.nameFor sys.backend d.name).events).getD [] := by
  rw [asks, ← Event.queries_deeds, deeds_loadOn sys buses h, Event.queries_append,
    Event.queries_deeds]
  rcases (Directory.load sys.backend path).run.value with e | d
  · rfl
  · change _ ++ queries (deeds _ ++ [.opened .device d.path]) = _
    rw [Event.queries_append, Event.queries_deeds]
    exact congrArg _ (List.append_nil _)

lemma deeds_normalize {path : String} (h : path ≠ "") :
    deeds (loadOn sys buses (Path.normalize path)).run.events =
      deeds (loadOn sys buses path).run.events := by
  rw [deeds_loadOn sys buses h, deeds_loadOn sys buses (Path.normalize_ne_empty path),
    Directory.load_normalize _ h]

/-- A device that cannot be opened has a directory that cannot be surveyed, and for the same
reason. -/
lemma survey_of_loadOn_error {path : String} (hne : path ≠ "") {e : Error}
    (h : (loadOn sys buses path).run.value = .error e) :
    sys.backend.survey (Path.normalize path) = .error e := by
  rw [value_loadOn] at h
  rw [← Directory.load_survey sys.backend hne]
  rcases hd : (Directory.load sys.backend path).run.value with e' | d
  · rw [hd] at h
    cases h
    rfl
  · rw [hd] at h
    cases h

/-- An opened device stands at its path, bears the last name of it, and its directory holds
what its survey has found. -/
lemma exists_of_loadOn {path : String} (hne : path ≠ "") {root : Device}
    (h : (loadOn sys buses path).run.value = .ok root) :
    ∃ names, sys.backend.survey (Path.normalize path) = .ok names ∧
      root.path = Path.normalize path ∧ Path.nameOf (Path.normalize path) = .ok root.busId ∧
      root.directory.subdirs.map (·.path) = names.map (Path.join (Path.normalize path)) := by
  rw [value_loadOn] at h
  obtain ⟨d, hd, rfl⟩ := map_eq_ok_iff.1 h
  obtain ⟨hpath, hname, hsub⟩ := Directory.exists_of_load sys.backend hd
  refine ⟨d.subdirs.map (·.name), ?_, hpath, hpath ▸ hname, ?_⟩
  · rw [← Directory.load_survey sys.backend hne, hd]
    rfl
  · have hpaths := congrArg (List.map (·.path)) hsub
    rw [List.map_map, hpath] at hpaths
    exact hpaths

/-- Opening a device asks for its own directory alone, besides the look-ups on the buses. -/
lemma mem_asks {path x : String} {q : Query} (h : (q, x) ∈ asks sys buses path) :
    (q = .readDir → x = Path.normalize path) ∧
      (q = .stat → x = Path.normalize path ∨
        ∃ bus ∈ buses.buses, ∃ busId, x = Path.join bus.2 busId) := by
  by_cases hne : path = ""
  · subst hne
    simp [asks, loadOn] at h
  · rw [asks_eq sys buses hne, List.mem_append] at h
    rcases h with h | h
    · -- asked when its own directory was loaded
      have hd : (Directory.load sys.backend path).run.Emits
          (Event.OfSnapshot (· = Path.normalize path)) := Directory.load_emits _ rfl
      have hx := hd _ (Event.mem_queries.1 h)
      refine ⟨?_, ?_⟩
      · rintro rfl
        exact hx
      · rintro rfl
        exact .inl hx
    · -- or when the buses were looked up
      rcases hd : (Directory.load sys.backend path).run.value with e | d
      · simp [hd, Except.toOption] at h
      · simp only [hd, Except.toOption, Option.map_some, Option.getD_some] at h
        rcases buses.nameFor_looks sys.backend d.name _ (Event.mem_queries.1 h) with
          ⟨bus, hbus, he⟩ | he
        · cases he
          exact ⟨by simp, fun _ => .inr ⟨bus, hbus, d.name, rfl⟩⟩
        · cases he

/-- Opening a device where it stands leaves every other place alone, the buses apart. -/
lemma asks_of_ne {x q : String} (hx : Path.normalize x = x) (hne : x ≠ q) :
    (.readDir, q) ∉ asks sys buses x ∧
      ((.stat, q) ∈ asks sys buses x →
        ∃ bus ∈ buses.buses, ∃ busId, q = Path.join bus.2 busId) := by
  refine ⟨fun hm => ?_, fun hm => ?_⟩
  · have hq := (mem_asks sys buses hm).1 rfl
    rw [hx] at hq
    exact hne hq.symm
  · rcases (mem_asks sys buses hm).2 rfl with hq | hbus
    · rw [hx] at hq
      exact absurd hq.symm hne
    · exact hbus

/-! ### One device after another -/

/-- The error of what has failed. -/
def failure? {α : Type} : Except Error α → Option Error
  | .ok _ => none
  | .error e => some e

lemma exists_eq_ok_iff {α : Type} {x : Except Error α} :
    (∃ a, x = .ok a) ↔ failure? x = none := by
  cases x <;> simp [failure?]

/-- The deeds are those of opening the visited devices of `ps`, and there is a failure if the visit
meets one. -/
abbrev Visits : List String → List Event → Option Error → Prop :=
  sys.backend.Visits fun p => deeds (loadOn sys buses p).run.events

variable {sys buses} in
/-- What concerns questions and objects made is that of opening the visited devices. -/
lemma Visits.filterMap_eq {α : Type} {f : Event → Option α} {ps : List String} {es : List Event}
    {failed : Option Error} (h : Visits sys buses ps es failed)
    (hclosed : ∀ k p, f (.closed k p) = none) (hnoticed : ∀ n, f (.noticed n) = none) :
    es.filterMap f = (sys.backend.visit ps).1.flatMap fun p =>
      (loadOn sys buses p).run.events.filterMap f := by
  rw [Backend.Visits.filterMap_eq h hclosed hnoticed]
  refine congrArg (fun g => List.flatMap g _) (funext fun p => ?_)
  exact Event.filterMap_deeds hclosed hnoticed _

lemma loadOn_visits {path : String} (h : path ≠ "") :
    Visits sys buses [Path.normalize path] (loadOn sys buses path).run.events
      (failure? (loadOn sys buses path).run.value) := by
  have hs := Directory.load_survey sys.backend h
  unfold Visits Backend.Visits Backend.visit
  rw [← deeds_normalize sys buses h, value_loadOn, ← hs]
  rcases hd : (Directory.load sys.backend path).run.value with e | d <;>
    simp [Except.map, failure?, Backend.visit]

lemma loadChildren_visits {f : String → Scan Device} {below : String → List String}
    {paths : List String}
    (h : ∀ p ∈ paths, Visits sys buses (below p) (f p).run.events (failure? (f p).run.value))
    (acc : List Device) :
    Visits sys buses (paths.flatMap below) (loadChildren f paths acc).events
      (loadChildren f paths acc).value.2 := by
  induction paths generalizing acc with
  | nil => exact .nil
  | cons p paths ih =>
    have hp := h p List.mem_cons_self
    rw [List.flatMap_cons, loadChildren, Logged.events_bind, Logged.value_bind]
    rcases hr : (f p).run.value with e | c
    · rw [hr] at hp
      -- the notice of the failure is no deed, and what comes after it is not visited
      exact (hp.silent rfl).stop _
    · rw [hr] at hp
      exact hp.append (ih (fun q hq => h q (List.mem_cons_of_mem _ hq)) (c :: acc))

/-- What a directory lists stands at paths in normal form. -/
lemma normalize_join {b : Backend} (hw : b.WellNamed) {path : String}
    (h : Path.isAbsolute path = true) {names : List String}
    (hs : b.survey (Path.normalize path) = .ok names) {n : String} (hn : n ∈ names) :
    Path.normalize (Path.join (Path.normalize path) n) = Path.join (Path.normalize path) n ∧
      Path.isAbsolute (Path.join (Path.normalize path) n) = true := by
  obtain ⟨st, hst, hp⟩ := Path.exists_render_of_isAbsolute h
  have hentry := (hw.of_survey hs).1 n hn
  rw [hp, Path.join_render hst hentry]
  exact ⟨Path.normalize_render (Path.isEntry_concat hst hentry), Path.isAbsolute_render _⟩

lemma trail_of_wellNamed {b : Backend} (hw : b.WellNamed) :
    b.Trail fun path => Path.isAbsolute path = true ∧ Path.normalize path = path where
  normalize := fun h => h.2
  join := by
    intro path names n h hs hn
    rw [← h.2] at hs ⊢
    obtain ⟨hnormal, habs⟩ := normalize_join hw h.1 hs hn
    exact ⟨habs, hnormal⟩

section

variable {P : String → Prop} (hP : sys.backend.Trail P)

include hP

/-- **Pre-order**: building a tree visits its directories in pre-order. -/
theorem loadTreeOn_visits_trail {depth : Nat} {path : String} (hne : path ≠ "")
    (h : P (Path.normalize path)) (hn : sys.backend.NestsWithin depth (Path.normalize path)) :
    Visits sys buses (sys.backend.preorder depth (Path.normalize path))
      (loadTreeOn sys buses depth path).run.events
      (failure? (loadTreeOn sys buses depth path).run.value) := by
  induction depth generalizing path with
  | zero => exact hn.elim
  | succ depth ih =>
    have hroot := loadOn_visits sys buses hne
    rcases hr : (loadOn sys buses path).run.value with e | root
    · have hs := survey_of_loadOn_error sys buses hne hr
      rw [hr] at hroot
      rw [Backend.preorder, hs, loadTreeOn, Scan.run_bind_of_error hr]
      exact hroot
    · obtain ⟨names, hs, -, -, hsub⟩ := exists_of_loadOn sys buses hne hr
      have hchildren : Visits sys buses
          ((root.directory.subdirs.map (·.path)).flatMap (sys.backend.preorder depth))
          (loadChildren (loadTreeOn sys buses depth)
            (root.directory.subdirs.map (·.path)) []).events
          (loadChildren (loadTreeOn sys buses depth)
            (root.directory.subdirs.map (·.path)) []).value.2 := by
        refine loadChildren_visits sys buses (fun p hp => ?_) []
        rw [hsub] at hp
        obtain ⟨n, hmem, rfl⟩ := List.mem_map.1 hp
        obtain ⟨hnormal, hchild, hnests⟩ := hP.below h hn hs hmem
        have hbelow := ih (Path.join_ne_empty _ _) hchild hnests
        rwa [hnormal] at hbelow
      rw [hr] at hroot
      rw [Backend.preorder, hs, loadTreeOn, Scan.run_bind_of_ok hr]
      have hall := hroot.append hchildren
      rw [hsub, List.flatMap_map] at hall
      rw [hsub]
      rcases hc : (loadChildren (loadTreeOn sys buses depth)
        (names.map (Path.join (Path.normalize path))) []).value with ⟨children, _ | e⟩
      · rw [hc] at hall
        simpa [Scan.events_run_bind, Scan.value_run_bind, hc, Except.bind, Except.toOption,
          failure?] using hall
      · rw [hc] at hall
        -- the release of what was built does nothing more
        have hclosing := Event.deeds_eq_nil
          (closing_closed { root with children := children })
        simpa [Scan.events_run_bind, Scan.value_run_bind, hc, Except.bind, Except.toOption,
          failure?] using hall.silent hclosing

/-- **Depth**: where directories go down so many levels at most, more levels change nothing. -/
theorem run_loadTreeOn_add (more : Nat) {depth : Nat} {path : String} (hne : path ≠ "")
    (h : P (Path.normalize path)) (hn : sys.backend.NestsWithin depth (Path.normalize path)) :
    (loadTreeOn sys buses (depth + more) path).run = (loadTreeOn sys buses depth path).run := by
  induction depth generalizing path with
  | zero => exact hn.elim
  | succ depth ih =>
    rw [Nat.add_right_comm]
    rcases hr : (loadOn sys buses path).run.value with e | root
    · rw [loadTreeOn, loadTreeOn, Scan.run_bind_of_error hr, Scan.run_bind_of_error hr]
    · obtain ⟨names, hs, -, -, hsub⟩ := exists_of_loadOn sys buses hne hr
      have hbelow : ∀ p ∈ root.directory.subdirs.map (·.path),
          (loadTreeOn sys buses (depth + more) p).run = (loadTreeOn sys buses depth p).run := by
        intro p hp
        rw [hsub] at hp
        obtain ⟨n, hmem, rfl⟩ := List.mem_map.1 hp
        obtain ⟨-, hchild, hnests⟩ := hP.below h hn hs hmem
        exact ih (Path.join_ne_empty _ _) hchild hnests
      rw [run_loadTreeOn_of_ok sys buses hr, run_loadTreeOn_of_ok sys buses hr,
        loadChildren_congr hbelow]

end

theorem loadTreeOn_visits_preorder (hw : sys.backend.WellNamed) {depth : Nat} {path : String}
    (h : Path.isAbsolute path = true)
    (hn : sys.backend.NestsWithin depth (Path.normalize path)) :
    Visits sys buses (sys.backend.preorder depth (Path.normalize path))
      (loadTreeOn sys buses depth path).run.events
      (failure? (loadTreeOn sys buses depth path).run.value) :=
  loadTreeOn_visits_trail sys buses (trail_of_wellNamed hw) (Path.ne_empty_of_isAbsolute h)
    ⟨Path.isAbsolute_normalize h, Path.normalize_idem path⟩ hn

/-- The list of the buses costs one reading of the directory that holds them. -/
lemma deeds_available :
    deeds (BusList.available sys).events =
      deeds (Directory.load sys.backend sys.busPath).run.events := by
  unfold BusList.available BusList.load
  rcases hd : (Directory.load sys.backend sys.busPath).run.value with e | d
  · simp [Scan.run_bind_of_error hd, deeds, Event.isDeed]
  · have hclosing := Event.deeds_eq_nil d.closing_closed
    simp [Scan.run_bind_of_ok hd, hclosing, Except.map]

/-- So it asks what opening the visited devices one after another asks. -/
lemma loadTreeOn_visits (hw : sys.backend.WellNamed) {depth : Nat} {path : String}
    (h : Path.isAbsolute path = true)
    (hn : sys.backend.NestsWithin depth (Path.normalize path)) :
    queries (loadTreeOn sys buses depth path).run.events =
        (sys.backend.visit (sys.backend.preorder depth (Path.normalize path))).1.flatMap
          (asks sys buses) ∧
      failure? (loadTreeOn sys buses depth path).run.value =
        (sys.backend.visit (sys.backend.preorder depth (Path.normalize path))).2 := by
  have hv := loadTreeOn_visits_preorder sys buses hw h hn
  exact ⟨hv.filterMap_eq (fun _ _ => rfl) fun _ => rfl, hv.2⟩

end Device

end DeviceModel
