import DeviceModel.Proofs.Graph.Mirror
import DeviceModel.Proofs.Ownership.Loading

/-!
What is released when a tree of devices cannot be built.

The devices that were built are released, each after all that stand below it and so the root
last, and no snapshot of a directory outlives the build.
-/

namespace DeviceModel

/-! ### Objects made and released, by kind -/

/-- The path of an object of the given kind. -/
def pathOf? (kind : ObjectKind) (o : Object) : Option String := if o.1 = kind then some o.2 else none

namespace Event

/-- The objects of a kind that are made, by their paths and in this order. -/
def made (kind : ObjectKind) (es : List Event) : List String :=
  es.filterMap fun e => e.opened?.bind (pathOf? kind)

/-- The objects of a kind that are released, by their paths and in this order. -/
def released (kind : ObjectKind) (es : List Event) : List String :=
  es.filterMap fun e => e.closed?.bind (pathOf? kind)

variable {kind : ObjectKind}

@[simp] lemma made_nil : made kind [] = [] := rfl
@[simp] lemma made_append (es fs : List Event) :
    made kind (es ++ fs) = made kind es ++ made kind fs :=
  List.filterMap_append
@[simp] lemma released_nil : released kind [] = [] := rfl
@[simp] lemma released_append (es fs : List Event) :
    released kind (es ++ fs) = released kind es ++ released kind fs :=
  List.filterMap_append

/-- A replay from nothing to nothing releases what it makes. -/
lemma released_perm_made {es : List Event} (h : replay 0 es = some 0) (kind : ObjectKind) :
    (released kind es).Perm (made kind es) := by
  have hbalance := replay_balance h
  rw [zero_add, add_zero] at hbalance
  have hmade : (Multiset.filterMap (pathOf? kind) (madeIn es)) = made kind es := by
    rw [madeIn, Multiset.filterMap_coe, List.filterMap_filterMap]
    rfl
  have hreleased : (Multiset.filterMap (pathOf? kind) (releasedIn es)) = released kind es := by
    rw [releasedIn, Multiset.filterMap_coe, List.filterMap_filterMap]
    rfl
  rw [← Multiset.coe_eq_coe, ← hmade, ← hreleased, hbalance]

lemma made_closed_eq_nil {es : List Event} (h : ∀ e ∈ es, ∃ k p, e = .closed k p) :
    made kind es = [] := by
  refine List.filterMap_eq_nil_iff.2 fun e he => ?_
  obtain ⟨k, p, rfl⟩ := h e he
  rfl

/-- Loading a directory, a device or a driver releases no device. -/
lemma released_device_eq_nil {es : List Event} (r : Role) (h : ∀ e ∈ es, e.OfLoading r) :
    released .device es = [] := by
  refine List.filterMap_eq_nil_iff.2 fun e he => ?_
  have hof := h e he
  rcases e with ⟨q, p⟩ | ⟨k, p⟩ | ⟨k, p⟩ | n
  · rfl
  · rfl
  · cases k with
    | directory => rfl
    | device | driver | classDevice | deviceClass => exact hof.elim
  · rfl

end Event

open Event (made released)

/-! ### Snapshots made -/

namespace Backend

variable (b : Backend)

/-- There is a directory at `path`, and it has a name. -/
def opens (path : String) : Bool :=
  (Path.nameOf path).isOk && b.stat path matches .ok .directory

/-- The snapshots that are made when the directory at `path` is read: its own, if there is a
directory, and one for each directory that it lists, if it can be listed. -/
def snapshots (path : String) : List String :=
  (if b.opens path then [path] else []) ++
    ((b.survey path).toOption.getD []).map (Path.join path)

end Backend

namespace Directory

variable (b : Backend)

lemma made_readEntry (dir base : String) (e : Entry) :
    made .directory (readEntry b dir base e).events =
      if e.kind = .directory then [Path.join dir e.name] else [] := by
  unfold readEntry
  rcases hk : e.kind with _ | _ | _
  · rfl
  · simp only [Logged.events_bind]
    cases (b.askLink (Path.join dir e.name)).run.value <;> rfl
  · by_cases ha : (Access.ofMode e.mode).shows = true
    · simp only [ha, if_true, readValue, Logged.events_bind]
      cases (b.askAttr (Path.join dir e.name)).run.value <;> rfl
    · simp only [ha]
      rfl

lemma made_readEntries (dir base : String) (es : List Entry) :
    made .directory (readEntries b dir base es).events =
      (es.filter (·.kind = .directory)).map fun e => Path.join dir e.name := by
  induction es with
  | nil => rfl
  | cons e es ih =>
    rw [readEntries_cons, Logged.events_bind, Logged.events_bind, Logged.events_pure,
      List.append_nil, Event.made_append, ih, made_readEntry, List.filter_cons]
    by_cases hk : e.kind = .directory <;> simp [hk]

lemma made_askDir (path : String) : made .directory (b.askDir path).run.events = [] := by
  refine List.filterMap_eq_nil_iff.2 fun e he => ?_
  unfold Backend.askDir at he
  rw [Scan.events_run_bind, List.mem_append] at he
  rcases he with he | he
  · rw [Scan.run_ask, List.mem_singleton] at he
    rw [he]
    rfl
  · rcases hl : b.readDir path with e' | listing
    · simp [hl, Except.toOption] at he
    · simp only [hl, Scan.run_ask, Except.toOption, Option.map_some, Option.getD_some,
        Scan.events_run_bind, Scan.run_emit, List.mem_append] at he
      rcases he with he | he
      · rw [List.eq_of_mem_replicate he]
        rfl
      · cases he

lemma made_linkBase (dir : String) (es : List Entry) :
    made .directory (linkBase b dir es).run.events = [] := by
  unfold linkBase
  split <;> rfl

/-- A read makes a snapshot for each directory that it finds. -/
lemma made_read (d : Directory) :
    made .directory (d.read b).run.events =
      ((d.read b).run.value.toOption.map fun r => r.subdirs.map (·.path)).getD [] := by
  have hclosing : made .directory (closingAll d.subdirs) = [] :=
    Event.made_closed_eq_nil (closingAll_closed d.subdirs)
  have hask := value_askDir b d.path
  rw [value_read]
  rcases hl : b.readDir d.path with e | listing
  · rw [hl] at hask
    rw [Directory.read, Scan.run_bind_of_error hask, made_askDir]
    rfl
  · rw [hl] at hask
    rcases hb : (linkBase b d.path listing.entries).run.value with e | base
    · rw [Directory.read, Scan.run_bind_of_ok hask, Scan.run_bind_of_error hb, Event.made_append,
        made_askDir, made_linkBase, Except.bind, hb]
      rfl
    · rw [events_read_of_ok b hl hb, Event.made_append, made_askDir, Event.made_append,
        made_linkBase, Event.made_append, made_readEntries, hclosing, List.append_nil,
        Except.bind, hb]
      change _ = (ofItems _ _ _).subdirs.map (·.path)
      rw [ofItems, subdirs_listed, subdirs_readEntries, List.map_map]
      rfl

lemma made_locate {path : String} (h : path ≠ "") :
    made .directory (locate b path).run.events =
      if b.opens (Path.normalize path) then [Path.normalize path] else [] := by
  rw [events_locate b h, Backend.opens]
  rcases Path.nameOf (Path.normalize path) with e | n
  · rfl
  · rcases b.stat (Path.normalize path) with e | _ | _ | _ <;> rfl

/-- Loading a directory makes the snapshots that its survey tells of. -/
theorem made_load {path : String} (h : path ≠ "") :
    made .directory (load b path).run.events = b.snapshots (Path.normalize path) := by
  have hsurvey := load_survey b h
  unfold Backend.snapshots
  rw [← hsurvey]
  rcases hl : (locate b path).run.value with e | d
  · rw [value_load, hl]
    unfold load
    rw [Scan.run_bind_of_error hl]
    exact (made_locate b h).trans (List.append_nil _).symm
  · have hread := made_read b d
    have hvalue := value_load b path
    rw [hl] at hvalue
    rcases hr : (d.read b).run.value with e | r
    · have hclosing : made .directory d.closing = [] := Event.made_closed_eq_nil d.closing_closed
      simp only [hr, Except.bind, Except.toOption] at hread hvalue
      rw [hvalue, load, Scan.run_bind_of_ok hl, Event.made_append, made_locate b h,
        ExceptT.run_bind_lift, Logged.events_bind, Event.made_append, hread, hr]
      change _ ++ ([] ++ made .directory ((d.closing ++ []) ++ [])) = _
      rw [List.append_nil, List.append_nil, hclosing]
      rfl
    · simp only [hr, Except.bind, Except.toOption] at hread hvalue
      obtain ⟨hpath, -, hsub⟩ := exists_of_load b hvalue
      have hpaths := congrArg (List.map (·.path)) hsub
      rw [List.map_map, hpath] at hpaths
      rw [hvalue, load, Scan.run_bind_of_ok hl, Event.made_append, made_locate b h]
      simp only [hr, ExceptT.run_bind_lift, Logged.events_bind, ExceptT.run_pure,
        Logged.events_pure, List.append_nil, Except.map, Except.toOption]
      rw [hread]
      exact congrArg _ hpaths

end Directory

namespace Device

variable (sys : Mounted) (buses : BusList)

/-! ### What is made -/

lemma made_nameFor (kind : ObjectKind) (busId : String) :
    made kind (buses.nameFor sys.backend busId).events = [] := by
  refine List.filterMap_eq_nil_iff.2 fun e he => ?_
  rcases buses.nameFor_looks sys.backend busId e he with ⟨bus, -, rfl⟩ | rfl <;> rfl

/-- Opening a device makes what loading its directory makes, and then the device. -/
lemma made_loadOn (kind : ObjectKind) {path : String} (h : path ≠ "") :
    made kind (loadOn sys buses path).run.events =
      made kind (Directory.load sys.backend path).run.events ++
        ((Directory.load sys.backend path).run.value.toOption.map fun d =>
          made kind [.opened .device d.path]).getD [] := by
  have hdeeds (es : List Event) : made kind (Event.deeds es) = made kind es :=
    Event.filterMap_deeds (fun _ _ => rfl) (fun _ => rfl) es
  rw [← hdeeds, deeds_loadOn sys buses h, Event.made_append, hdeeds]
  refine congrArg _ ?_
  rcases (Directory.load sys.backend path).run.value with e | d
  · rfl
  · change made kind (Event.deeds _ ++ _) = _
    rw [Event.made_append, hdeeds, made_nameFor]
    rfl

lemma made_directory_loadOn {path : String} (h : path ≠ "") :
    made .directory (loadOn sys buses path).run.events =
      sys.backend.snapshots (Path.normalize path) := by
  rw [made_loadOn sys buses _ h, Directory.made_load _ h]
  cases (Directory.load sys.backend path).run.value <;> simp [Except.toOption, made, pathOf?,
    Event.opened?]

lemma made_device_load (b : Backend) (path : String) :
    made .device (Directory.load b path).run.events = [] := by
  refine List.filterMap_eq_nil_iff.2 fun e he => ?_
  have hof := Directory.load_emits b (p := fun _ => True) trivial e he
  rcases e with ⟨q, p⟩ | ⟨k, p⟩ | ⟨k, p⟩ | n
  · rfl
  · cases k with
    | directory => rfl
    | device | driver | classDevice | deviceClass => exact hof.elim
  · rfl
  · rfl

/-- A device is made if its directory can be surveyed. -/
lemma made_device_loadOn {path : String} (h : path ≠ "") :
    made .device (loadOn sys buses path).run.events =
      ((sys.backend.survey (Path.normalize path)).toOption.map fun _ =>
        [Path.normalize path]).getD [] := by
  rw [made_loadOn sys buses _ h, made_device_load, ← Directory.load_survey _ h]
  rcases hd : (Directory.load sys.backend path).run.value with e | d
  · rfl
  · rw [← (Directory.exists_of_load _ hd).1]
    rfl

/-! ### What is released -/

/-- The devices of a build that are released in the end: by the build itself if it fails, else
when its device is. -/
def gone (x : Scan Device) : List String :=
  released .device x.run.events ++
    (x.run.value.toOption.map fun d => released .device d.closing).getD []

lemma gone_of_error {x : Scan Device} {e : Error} (h : x.run.value = .error e) :
    gone x = released .device x.run.events := by
  rw [gone, h]
  exact List.append_nil _

/-- A device that is released comes after all that its children release. -/
lemma released_closing (d : Device) :
    released .device d.closing = released .device (closingAll d.children) ++ [d.path] := by
  have hdirectory : released .device d.directory.closing = [] :=
    Event.released_device_eq_nil .device fun e he =>
      (d.directory.closing_ofSnapshot (p := fun _ => True) e he).ofLoading e
  rw [closing_eq, Event.released_append]
  change _ ++ d.path :: released .device d.directory.closing = _
  rw [hdirectory]

lemma released_loadOn (path : String) :
    released .device (loadOn sys buses path).run.events = [] :=
  Event.released_device_eq_nil .device (loadOn_emits sys buses path)

lemma released_loadChildren_of_none {f : String → Scan Device}
    (hf : ∀ p d, (f p).run.value = .ok d → released .device (f p).run.events = [])
    {paths : List String} {acc children : List Device}
    (h : (loadChildren f paths acc).value = (children, none)) :
    released .device (loadChildren f paths acc).events = [] := by
  induction paths generalizing acc with
  | nil => rfl
  | cons p paths ih =>
    rw [loadChildren, Logged.value_bind] at h
    rw [loadChildren, Logged.events_bind, Event.released_append]
    rcases hp : (f p).run.value with e | d
    · simp [hp] at h
    · rw [hp] at h
      rw [hf p d hp, List.nil_append]
      exact ih h

/-- A build that succeeds has released no device. -/
lemma released_loadTreeOn_of_ok {depth : Nat} {path : String} {d : Device}
    (h : (loadTreeOn sys buses depth path).run.value = .ok d) :
    released .device (loadTreeOn sys buses depth path).run.events = [] := by
  induction depth generalizing path d with
  | zero => simp [loadTreeOn] at h
  | succ depth ih =>
    obtain ⟨root, -, hr, -, -⟩ := exists_of_loadTreeOn sys buses h
    rw [run_loadTreeOn_of_ok sys buses hr] at h ⊢
    rcases hc : loadChildren (loadTreeOn sys buses depth) (root.directory.subdirs.map (·.path)) []
      with ⟨es, children, _ | e⟩
    · have hnone : (loadChildren (loadTreeOn sys buses depth)
          (root.directory.subdirs.map (·.path)) []).value = (children, none) := by rw [hc]
      have hchildren := released_loadChildren_of_none (fun p d hd => ih hd) hnone
      simp only [hc] at hchildren
      simp only [hc, Event.released_append, released_loadOn, List.nil_append]
      exact hchildren
    · simp [hc] at h

/-- The children that a build has come to are released from the last to the first. -/
lemma gone_loadChildren {f : String → Scan Device}
    (hf : ∀ p d, (f p).run.value = .ok d → released .device (f p).run.events = [])
    (paths : List String) (acc : List Device) :
    ∃ ps, ps <+: paths ∧ released .device (loadChildren f paths acc).events ++
        released .device (closingAll (loadChildren f paths acc).value.1) =
      ps.reverse.flatMap (fun p => gone (f p)) ++ released .device (closingAll acc) := by
  induction paths generalizing acc with
  | nil => exact ⟨[], List.prefix_rfl, rfl⟩
  | cons p paths ih =>
    rw [loadChildren, Logged.events_bind, Logged.value_bind]
    rcases hp : (f p).run.value with e | d
    · -- the child that fails has released what it had, and no other is loaded
      refine ⟨[p], by simp, ?_⟩
      have hnote : released .device [.noticed (.treeAbandoned p e)] = [] := rfl
      simp [gone_of_error hp, hnote]
    · obtain ⟨ps, hps, he⟩ := ih (d :: acc)
      refine ⟨p :: ps, List.cons_prefix_cons.2 ⟨rfl, hps⟩, ?_⟩
      -- a child that is loaded has released nothing so far, and goes before those already there
      have hgone : gone (f p) = released .device d.closing := by
        rw [gone, hf p d hp, hp]
        rfl
      rw [Event.released_append, hf p d hp, List.nil_append, he, closingAll_cons,
        Event.released_append, List.reverse_cons, List.flatMap_append, List.flatMap_singleton,
        hgone, List.append_assoc]

/-- What is released of a tree: its children, from the last to the first, and then its root. -/
lemma gone_loadTreeOn_succ (depth : Nat) {path : String} {root : Device}
    (h : (loadOn sys buses path).run.value = .ok root) :
    ∃ ps, ps <+: root.directory.subdirs.map (·.path) ∧
      gone (loadTreeOn sys buses (depth + 1) path) =
        ps.reverse.flatMap (fun p => gone (loadTreeOn sys buses depth p)) ++ [root.path] := by
  obtain ⟨ps, hps, he⟩ := gone_loadChildren
    (fun p d (hd : (loadTreeOn sys buses depth p).run.value = .ok d) =>
      released_loadTreeOn_of_ok sys buses hd) (root.directory.subdirs.map (·.path)) []
  refine ⟨ps, hps, ?_⟩
  rw [closingAll_nil, Event.released_nil, List.append_nil] at he
  rw [← he, gone, run_loadTreeOn_of_ok sys buses h]
  rcases hc : loadChildren (loadTreeOn sys buses depth) (root.directory.subdirs.map (·.path)) []
    with ⟨es, children, _ | e⟩
  · simp only [hc, released_loadOn, released_closing, Event.released_append, Except.toOption,
      Option.map_some, Option.getD_some, List.nil_append, List.append_assoc]
    rfl
  · simp only [hc, released_loadOn, released_closing, Event.released_append, Except.toOption,
      Option.map_none, Option.getD_none, List.nil_append, List.append_nil, List.append_assoc]
    rfl

/-! ### The order of release -/

/-- Places at or below `st`, none of which stands before one that is at or below it. -/
structure Unwound (st : List String) (ps : List String) : Prop where
  below : ∀ p ∈ ps, st <+: Path.names p
  order : ps.Pairwise fun p q => ¬ Path.names p <+: Path.names q

lemma unwound_nil (st : List String) : Unwound st [] := ⟨by simp, .nil⟩

/-- What is released below different names of a directory, and then the directory. -/
lemma unwound_node {st names : List String} (hst : ∀ n ∈ st, Path.IsEntry n) (hn : names.Nodup)
    {below : String → List String} (h : ∀ n ∈ names, Unwound (st ++ [n]) (below n)) :
    Unwound st (names.flatMap below ++ [Path.render st]) := by
  have hroot : Path.names (Path.render st) = st :=
    Path.names_render (Path.isName_of_isEntry hst)
  refine ⟨fun p hp => ?_, List.pairwise_append.2
    ⟨List.pairwise_flatMap.2 ⟨fun n hm => (h n hm).order, ?_⟩, List.pairwise_singleton _ _,
      fun p hp q hq => ?_⟩⟩
  · rcases List.mem_append.1 hp with hp | hp
    · obtain ⟨n, hm, hp⟩ := List.mem_flatMap.1 hp
      exact (List.prefix_append st [n]).trans ((h n hm).below p hp)
    · have hat : Path.names p = st := by rw [List.mem_singleton.1 hp, hroot]
      exact hat ▸ List.prefix_rfl
  · refine hn.imp_of_mem fun {n m} hmn hmm hne p hp q hq hpq => ?_
    -- two names would stand in one place of the same list
    have hfirst := ((h n hmn).below p hp).trans hpq
    have hsecond := (h m hmm).below q hq
    have heq := List.prefix_of_prefix_length_le hfirst hsecond (by simp)
    have hsame : st ++ [n] = st ++ [m] := heq.eq_of_length (by simp)
    exact hne (List.cons.inj (List.append_cancel_left hsame)).1
  · obtain ⟨n, hm, hp⟩ := List.mem_flatMap.1 hp
    rw [List.mem_singleton.1 hq, hroot]
    intro hle
    have hlen := ((h n hm).below p hp).length_le.trans hle.length_le
    rw [List.length_append, List.length_singleton] at hlen
    omega

/-- **Order**: no device of a build is released before one that stands below it. -/
theorem gone_unwound (hw : sys.backend.WellNamed) {depth : Nat} {path : String}
    (h : Path.isAbsolute path = true) {st : List String} (hst : ∀ n ∈ st, Path.IsEntry n)
    (hp : Path.normalize path = Path.render st) :
    Unwound st (gone (loadTreeOn sys buses depth path)) := by
  induction depth generalizing path st with
  | zero => exact unwound_nil st
  | succ depth ih =>
    rcases hr : (loadOn sys buses path).run.value with e | root
    · rw [gone, loadTreeOn, Scan.run_bind_of_error hr, released_loadOn]
      exact unwound_nil st
    · obtain ⟨names, hs, hpath, -, hsub⟩ :=
        exists_of_loadOn sys buses (Path.ne_empty_of_isAbsolute h) hr
      obtain ⟨hentry, hnodup⟩ := hw.of_survey hs
      obtain ⟨ps, hps, hgone⟩ := gone_loadTreeOn_succ sys buses depth hr
      rw [hsub] at hps
      -- the children come to are the first of those listed
      obtain ⟨done, hdone, rfl⟩ : ∃ done, done <+: names ∧
          ps = done.map (Path.join (Path.normalize path)) := by
        refine ⟨names.take ps.length, List.take_prefix _ _, ?_⟩
        rw [List.map_take]
        exact List.prefix_iff_eq_take.1 hps
      rw [hgone, hpath, hp, ← List.map_reverse, List.flatMap_map]
      have hnames := List.nodup_reverse.2 (hnodup.sublist hdone.sublist)
      refine unwound_node hst hnames fun n hm => ?_
      have hn := hentry n (hdone.subset (List.mem_reverse.1 hm))
      rw [Path.join_render hst hn]
      exact ih (Path.isAbsolute_render _) (Path.isEntry_concat hst hn)
        (Path.normalize_render (Path.isEntry_concat hst hn))

/-! ### A build that fails -/

/-- What a build of the tree at `path` has done when it fails at the directory `f`, after the
directories `earlier`. -/
structure Unwinds (sys : Mounted) (path : String) (earlier : List String) (f : String)
    (es : List Event) : Prop where
  /-- The devices released are those of the directories that come before `f`. -/
  devices : (released .device es).Perm earlier
  /-- None is released before one that stands below it. -/
  order : (released .device es).Pairwise fun p q => ¬ Path.names p <+: Path.names q
  root : f ≠ Path.normalize path →
    (released .device es).getLast? = some (Path.normalize path)
  /-- The snapshots made: those of the list of the buses, of the directories before `f`, and of
  `f` itself. -/
  snapshots : made .directory es =
    (Path.normalize sys.busPath :: earlier ++ [f]).flatMap sys.backend.snapshots
  /-- All of them are released. -/
  closed : (released .directory es).Perm (made .directory es)
  /-- Nothing is released before it is made, or twice, and nothing is left. -/
  settled : replay 0 es = some 0

/-- What a build makes, in terms of the directories that it visits. -/
lemma made_loadTree (hw : sys.backend.WellNamed) {path : String}
    (h : Path.isAbsolute path = true)
    (hn : sys.backend.NestsWithin sys.backend.depth (Path.normalize path)) (kind : ObjectKind) :
    made kind (loadTree sys path).run.events =
      made kind (Directory.load sys.backend sys.busPath).run.events ++
        (sys.backend.visit
          (sys.backend.preorder sys.backend.depth (Path.normalize path))).1.flatMap fun p =>
            made kind (loadOn sys (BusList.available sys).value p).run.events := by
  have hvisits := loadTreeOn_visits_preorder sys (BusList.available sys).value hw h hn
  have hbuses : made kind (BusList.available sys).events =
      made kind (Directory.load sys.backend sys.busPath).run.events := by
    have hdeeds (es : List Event) : made kind (Event.deeds es) = made kind es :=
      Event.filterMap_deeds (fun _ _ => rfl) (fun _ => rfl) es
    rw [← hdeeds, deeds_available, hdeeds]
  rw [events_loadTree, Event.made_append, hbuses]
  exact congrArg _ (hvisits.filterMap_eq (fun _ _ => rfl) fun _ => rfl)

lemma ne_empty_of_normal {p : String} (h : Path.normalize p = p) : p ≠ "" := by
  rw [← h]
  exact Path.normalize_ne_empty p

section

variable {sys} {path : String} {earlier : List String} {f : String}
  (hnormal : ∀ p ∈ earlier ++ [f], Path.normalize p = p)

include hnormal

/-- Of the visited directories all but the failing one have devices made for them. -/
lemma flatMap_made_device (hok : ∀ p ∈ earlier, ∃ names, sys.backend.survey p = .ok names)
    {e : Error} (hbad : sys.backend.survey f = .error e) :
    (earlier ++ [f]).flatMap (fun p => made .device (loadOn sys buses p).run.events) =
      earlier := by
  have hbefore : earlier.flatMap (fun p => made .device (loadOn sys buses p).run.events) =
      earlier.flatMap fun p => [p] := by
    refine List.flatMap_congr fun p hmem => ?_
    obtain ⟨names, hnames⟩ := hok p hmem
    have hp := hnormal p (List.mem_append_left _ hmem)
    rw [made_device_loadOn sys buses (ne_empty_of_normal hp), hp, hnames]
    rfl
  have hlast : made .device (loadOn sys buses f).run.events = [] := by
    have hf := hnormal f (by simp)
    rw [made_device_loadOn sys buses (ne_empty_of_normal hf), hf, hbad]
    rfl
  rw [List.flatMap_append, hbefore, List.flatMap_singleton, hlast]
  simp

lemma flatMap_made_directory :
    (earlier ++ [f]).flatMap (fun p => made .directory (loadOn sys buses p).run.events) =
      (earlier ++ [f]).flatMap sys.backend.snapshots := by
  refine List.flatMap_congr fun p hmem => ?_
  have hp := hnormal p hmem
  rw [made_directory_loadOn sys buses (ne_empty_of_normal hp), hp]

end

/-- The root of a build that comes past it is released last. -/
lemma getLast?_gone {depth : Nat} {path : String} (h : path ≠ "") {names : List String}
    (hs : sys.backend.survey (Path.normalize path) = .ok names) :
    (gone (loadTreeOn sys buses (depth + 1) path)).getLast? = some (Path.normalize path) := by
  rcases hr : (loadOn sys buses path).run.value with e | root
  · rw [survey_of_loadOn_error sys buses h hr] at hs
    cases hs
  · obtain ⟨-, -, hpath, -, -⟩ := exists_of_loadOn sys buses h hr
    obtain ⟨ps, -, hgone⟩ := gone_loadTreeOn_succ sys buses depth hr
    rw [hgone, hpath, List.getLast?_concat]

/-- A build whose first failure is not at the root comes past it. -/
lemma getLast?_gone_of_ne {depth : Nat} {path : String} (h : path ≠ "")
    (hn : sys.backend.NestsWithin depth (Path.normalize path)) {earlier later : List String}
    {f : String}
    (hps : sys.backend.preorder depth (Path.normalize path) = earlier ++ f :: later)
    (hok : ∀ p ∈ earlier, ∃ names, sys.backend.survey p = .ok names)
    (hf : f ≠ Path.normalize path) :
    (gone (loadTreeOn sys buses depth path)).getLast? = some (Path.normalize path) := by
  cases depth with
  | zero => exact hn.elim
  | succ depth =>
    have hhead := Backend.head?_preorder sys.backend depth (Path.normalize path)
    rw [hps] at hhead
    cases earlier with
    | nil =>
      -- the root is visited first, so `f` would be the root
      exact absurd (Option.some.inj hhead) hf
    | cons p rest =>
      obtain ⟨names, hnames⟩ := hok p List.mem_cons_self
      rw [Option.some.inj hhead] at hnames
      exact getLast?_gone sys buses h hnames

/-- **Failed trees.** A build fails at the first directory that cannot be opened or listed. By
then it has released each device that was built before, none before those below it and the root
last, and each snapshot that was made. -/
theorem loadTree_unwinds (sys : Mounted) (hw : sys.backend.WellNamed) {path : String}
    (h : Path.isAbsolute path = true)
    (hn : sys.backend.NestsWithin sys.backend.depth (Path.normalize path)) {e : Error}
    (he : (loadTree sys path).run.value = .error e) :
    ∃ earlier f later,
      sys.backend.preorder sys.backend.depth (Path.normalize path) = earlier ++ f :: later ∧
      (∀ p ∈ earlier, ∃ names, sys.backend.survey p = .ok names) ∧
      sys.backend.survey f = .error e ∧
      Unwinds sys path earlier f (loadTree sys path).run.events := by
  obtain ⟨st, hst, hp⟩ := Path.exists_render_of_isAbsolute h
  have hvalue := he
  rw [value_loadTree] at hvalue
  have hfailed := (loadTreeOn_visits_preorder sys (BusList.available sys).value hw h hn).2
  rw [hvalue] at hfailed
  obtain ⟨earlier, f, later, hps, hv, hok, hbad⟩ :=
    Backend.exists_of_visit_eq_some hfailed.symm
  have hnormal : ∀ p ∈ earlier ++ [f], Path.normalize p = p := by
    intro p hmem
    have hpre : p ∈ sys.backend.preorder sys.backend.depth (Path.normalize path) := by
      rw [hps, ← List.singleton_append, ← List.append_assoc]
      exact List.mem_append_left _ hmem
    exact Backend.normalize_of_mem_preorder hw h hpre
  -- what is released was made, and nothing is left
  have hreplay : replay 0 (loadTree sys path).run.events = some 0 := by
    have hturns := loadTree_turns sys path
    unfold Scan.Turns Logged.Turns at hturns
    rwa [he] at hturns
  -- the release of a build that fails is all that is ever released of it
  have hgone : released .device (loadTree sys path).run.events =
      gone (loadTreeOn sys (BusList.available sys).value sys.backend.depth path) := by
    rw [events_loadTree, Event.released_append, gone_of_error hvalue,
      Event.released_device_eq_nil .device (BusList.available_emits sys), List.nil_append]
  refine ⟨earlier, f, later, hps, hok, hbad, ?_, ?_, fun hf => ?_, ?_, ?_, hreplay⟩
  · have hmade : made .device (loadTree sys path).run.events = earlier := by
      rw [made_loadTree sys hw h hn, hv, made_device_load, List.nil_append,
        flatMap_made_device _ hnormal hok hbad]
    exact hmade ▸ Event.released_perm_made hreplay .device
  · rw [hgone]
    exact (gone_unwound sys _ hw h hst hp).order
  · rw [hgone]
    exact getLast?_gone_of_ne sys _ (Path.ne_empty_of_isAbsolute h) hn hps hok hf
  · have hbus : sys.busPath ≠ "" := Path.join_ne_empty _ _
    rw [made_loadTree sys hw h hn, hv, Directory.made_load _ hbus,
      flatMap_made_directory _ hnormal]
    rfl
  · exact Event.released_perm_made hreplay .directory

/-- The second slot of the rack cannot be listed: by then the rack and its first slot, with what
is in it, are built, and they are released again. -/
theorem loadTree_rack_unwinds :
    ∃ earlier f later, ["/d", "/d/a", "/d/a/x", "/d/a/y", "/d/b", "/d/c"] = earlier ++ f :: later ∧
      (∀ p ∈ earlier, ∃ names, rackBackend.survey p = .ok names) ∧
      rackBackend.survey f = .error .readError ∧
      Unwinds rackSystem "/d" earlier f (loadTree rackSystem "/d").run.events := by
  have hw : rackSystem.backend.WellNamed := rackBackend_wellNamed
  have hrack := @loadTree_unwinds rackSystem hw "/d" (by decide) (by decide +kernel)
  have hfails : (loadTree rackSystem "/d").run.value = .error .readError := by rfl
  exact hrack hfails

end Device

end DeviceModel
