import DeviceModel.Proofs.Graph.Lookup

/-!
Which directories are listed when a tree of devices is built, and when a directory is read with all
that is below it.

Either goes down in pre-order and stops at the first directory that fails, and lists each that it
comes to once. How many levels it may go down does not matter as long as there are no more.
-/

namespace DeviceModel

open Event (OfSnapshot deeds)

/-! ### Listings -/

namespace Event

/-- The directory that an event lists. -/
def listing? : Event → Option String
  | asked .readDir path => some path
  | _ => none

/-- The directories that are listed, in their order. -/
def listings (es : List Event) : List String := es.filterMap listing?

@[simp] lemma listings_nil : listings [] = [] := rfl

@[simp] lemma listings_append (es fs : List Event) :
    listings (es ++ fs) = listings es ++ listings fs :=
  List.filterMap_append

lemma listings_eq_nil {es : List Event} (h : ∀ e ∈ es, e.OfSnapshot fun _ => False) :
    listings es = [] := by
  refine List.filterMap_eq_nil_iff.2 fun e he => ?_
  rcases e with ⟨_ | _ | _ | _ | _, _⟩ | _ | _ | _
  · rfl
  · exact (h _ he).elim
  all_goals rfl

end Event

open Event (listings)

namespace Directory

variable (b : Backend)

/-- Reading a directory lists it, and nothing else. -/
lemma listings_read (d : Directory) : listings (d.read b).run.events = [d.path] := by
  have hask : listings (b.askDir d.path).run.events = [d.path] := by
    unfold Backend.askDir
    rw [Scan.events_run_bind]
    rcases hr : b.readDir d.path with e | l
    · rfl
    · simp [Except.toOption, listings, Event.listing?]
  unfold Directory.read
  rw [Scan.events_run_bind, Event.listings_append, hask]
  rcases (b.askDir d.path).run.value with e | es
  · rfl
  · exact congrArg _ (Event.listings_eq_nil (readListed_emits b d es))

lemma listings_locate (path : String) : listings (locate b path).run.events = [] := by
  by_cases h : path = ""
  · subst h
    rfl
  · rw [events_locate b h]
    rcases Path.nameOf (Path.normalize path) with e | n
    · rfl
    · rcases b.stat (Path.normalize path) with e | _ | _ | _ <;> rfl

/-- Loading a directory lists it if it is there. -/
lemma listings_load (path : String) :
    listings (load b path).run.events =
      ((locate b path).run.value.toOption.map (·.path)).toList := by
  unfold load
  rw [Scan.events_run_bind, Event.listings_append, listings_locate, List.nil_append]
  rcases hl : (locate b path).run.value with e | d
  · rfl
  · have hclosing : listings d.closing = [] := Event.listings_eq_nil d.closing_ofSnapshot
    have hread := listings_read b d
    rw [Except.toOption, Option.map_some, Option.getD_some, ExceptT.run_bind_lift,
      Logged.events_bind, Event.listings_append, hread]
    rcases (d.read b).run.value with e | r
    · -- a directory that cannot be read is released, which lists nothing
      change _ ++ listings ((d.closing ++ []) ++ []) = _
      rw [List.append_nil, List.append_nil, hclosing]
      rfl
    · rfl

end Directory

lemma BusList.listings_nameFor (buses : BusList) (b : Backend) (busId : String) :
    listings (buses.nameFor b busId).events = [] := by
  refine List.filterMap_eq_nil_iff.2 fun e he => ?_
  rcases buses.nameFor_looks b busId e he with ⟨bus, -, rfl⟩ | rfl
  · rfl
  · rfl

namespace Device

variable (sys : Mounted) (buses : BusList)

lemma listings_deeds (es : List Event) : listings (deeds es) = listings es :=
  Event.filterMap_deeds (fun _ _ => rfl) (fun _ => rfl) es

/-- Opening a device lists its directory, and the buses are not listed again. -/
lemma listings_loadOn {path : String} (h : path ≠ "") :
    listings (loadOn sys buses path).run.events =
      listings (Directory.load sys.backend path).run.events := by
  rw [← listings_deeds, deeds_loadOn sys buses h, Event.listings_append, listings_deeds]
  rcases (Directory.load sys.backend path).run.value with e | d
  · exact List.append_nil _
  · have hopened : listings [.opened .device d.path] = [] := rfl
    simp [Except.toOption, listings_deeds, BusList.listings_nameFor, hopened]

lemma listings_available :
    listings (BusList.available sys).events =
      listings (Directory.load sys.backend sys.busPath).run.events := by
  rw [← listings_deeds, deeds_available, listings_deeds]

/-- A tree is built by listing the directories that are visited, as far as they are there. -/
lemma listings_loadTreeOn {P : String → Prop} (hP : sys.backend.Trail P) {depth : Nat}
    {path : String} (hne : path ≠ "") (h : P (Path.normalize path))
    (hn : sys.backend.NestsWithin depth (Path.normalize path)) :
    listings (loadTreeOn sys buses depth path).run.events =
      (sys.backend.visit (sys.backend.preorder depth (Path.normalize path))).1.flatMap fun p =>
        listings (loadOn sys buses p).run.events :=
  (loadTreeOn_visits_trail sys buses hP hne h hn).filterMap_eq (fun _ _ => rfl) fun _ => rfl

/-- Where a directory is it is listed, whether that succeeds or not. -/
lemma listings_loadOn_of_locate {path : String} {d : Directory} (hne : path ≠ "")
    (h : (Directory.locate sys.backend path).run.value = .ok d) :
    listings (loadOn sys buses path).run.events = [d.path] := by
  rw [listings_loadOn sys buses hne, Directory.listings_load, h]
  rfl

lemma listings_of_loadOn {path : String} {d : Device}
    (h : (loadOn sys buses path).run.value = .ok d) :
    listings (loadOn sys buses path).run.events = [d.path] := by
  have hne := ne_empty_of_loadOn sys buses h
  obtain ⟨-, -, hpath, -, -⟩ := exists_of_loadOn sys buses hne h
  obtain ⟨found, hl, -⟩ := (Directory.load_eq_ok_iff _).1 (load_of_loadOn h)
  rw [listings_loadOn_of_locate sys buses hne hl, hpath]
  obtain ⟨-, n, -, -, rfl⟩ := (Directory.locate_eq_ok_iff _).1 hl
  rfl

/-- Where no directory is there is no tree, and nothing is listed. -/
lemma loadTreeOn_of_locate_error {depth : Nat} {path : String} {e : Error} (hne : path ≠ "")
    (h : (Directory.locate sys.backend path).run.value = .error e) :
    (loadTreeOn sys buses (depth + 1) path).run.value = .error e ∧
      listings (loadTreeOn sys buses (depth + 1) path).run.events = [] := by
  have hvalue : (loadOn sys buses path).run.value = .error e := by
    rw [value_loadOn, Directory.value_load, h]
    rfl
  rw [loadTreeOn, Scan.run_bind_of_error hvalue]
  refine ⟨rfl, ?_⟩
  change listings (loadOn sys buses path).run.events = []
  rw [listings_loadOn sys buses hne, Directory.listings_load, h]
  rfl

/-- To list the buses, the directory that holds them is listed, if it is there. -/
lemma exists_listings_loadTree (path : String) :
    ∃ scan, (scan = [] ∨ scan = [Path.normalize sys.busPath]) ∧
      listings (loadTree sys path).run.events =
        scan ++ listings
          (loadTreeOn sys (BusList.available sys).value sys.backend.depth path).run.events := by
  refine ⟨listings (BusList.available sys).events, ?_, ?_⟩
  · rw [listings_available, Directory.listings_load]
    rcases hl : (Directory.locate sys.backend sys.busPath).run.value with e | d
    · exact .inl rfl
    · obtain ⟨-, own, -, -, rfl⟩ := (Directory.locate_eq_ok_iff _).1 hl
      right
      simp only [Except.toOption, Option.map_some, Option.toList_some, Directory.path_unread]
  · rw [events_loadTree, Event.listings_append]

lemma listings_eq_filterMap (es : List Event) : listings es =
    (Event.queries es).filterMap fun q => if q.1 = .readDir then some q.2 else none := by
  rw [Event.queries, List.filterMap_filterMap]
  refine List.filterMap_congr fun e _ => ?_
  rcases e with ⟨_ | _ | _ | _ | _, _⟩ | _ | _ | _ <;> rfl

/-- A tree has a node for each directory that is listed. -/
theorem length_nodes_loadTreeOn {depth : Nat} {path : String} {root : Device}
    (h : (loadTreeOn sys buses depth path).run.value = .ok root) :
    root.nodes.length = (listings (loadTreeOn sys buses depth path).run.events).length := by
  have hnode : ∀ n ∈ root.scanned, listings (loadOn sys buses n.path).run.events = [n.path] := by
    intro n hn
    have hopened := opened_of_loadTreeOn sys buses h n (root.scanned_perm.mem_iff.1 hn)
    have halone : (loadOn sys buses n.path).run.value = .ok n.alone := hopened.again
    have hlisted := listings_of_loadOn sys buses halone
    exact hlisted
  have hlisted : listings (loadTreeOn sys buses depth path).run.events =
      root.scanned.map (·.path) := by
    rw [listings_eq_filterMap, queries_loadTreeOn sys buses h, List.filterMap_flatMap,
      List.map_eq_flatMap]
    refine List.flatMap_congr fun n hn => ?_
    rw [asks, ← listings_eq_filterMap, hnode n hn]
  rw [hlisted, List.length_map]
  exact root.scanned_perm.length_eq.symm

end Device

/-! ### Reading all below -/

open List in
/-- A place where directories nest is itself the first to be visited. -/
lemma Backend.singleton_sublist_preorder {b : Backend} {depth : Nat} {path : String}
    (h : b.NestsWithin depth path) : [path] <+ b.preorder depth path := by
  cases depth with
  | zero => exact h.elim
  | succ depth => exact List.singleton_sublist.2 (List.mem_of_head? (head?_preorder b depth path))

namespace Directory

open Device (failure?)

variable (b : Backend)

/-- The name under which a directory is read is nothing that is done. -/
lemma events_read_unread (name name' path : String) :
    ((unread name path).read b).run.events = ((unread name' path).read b).run.events := by
  simp only [Directory.read, Scan.events_run_bind, path_unread, subdirs_unread]
  rfl

/-- What is done to read the directory at a path. -/
def reading (path : String) : List Event := deeds ((unread "" path).read b).run.events

/-- A directory that is there is read to what its survey tells, or fails as its survey does. -/
lemma read_unread_cases (own : String) {path : String} (hn : ∃ n, Path.nameOf path = .ok n)
    (hs : b.stat path = .ok .directory) :
    (∃ e, ((unread own path).read b).run.value = .error e ∧ b.survey path = .error e) ∨
      ∃ r names, ((unread own path).read b).run.value = .ok r ∧ b.survey path = .ok names ∧
        r.path = path ∧ r.subdirs = names.map fun n => unread n (Path.join path n) := by
  have hsurvey := @read_survey b own path hn hs
  rcases hr : ((unread own path).read b).run.value with e | r
  · rw [hr] at hsurvey
    exact .inl ⟨e, rfl, hsurvey.symm⟩
  · rw [hr, Except.map] at hsurvey
    have hsub := subdirs_of_read b hr
    simp only [path_unread] at hsub
    exact .inr ⟨r, _, rfl, hsurvey.symm, (read_keeps b hr).2.2, hsub⟩

lemma readBelow_of_error {depth : Nat} {d : Directory} {e : Error}
    (h : (d.read b).run.value = .error e) :
    readBelow b (depth + 1) d = ⟨(d.read b).run.events, d, .error e⟩ := by
  rw [readBelow]
  ext : 1 <;> simp [h]

lemma readBelow_of_ok {depth : Nat} {d r : Directory} (h : (d.read b).run.value = .ok r) :
    readBelow b (depth + 1) d =
      ⟨(d.read b).run.events ++ (untilFailure (readBelow b depth) r.subdirs).events,
        listed r.name r.path r.attributes r.links
          (untilFailure (readBelow b depth) r.subdirs).value.1,
        (untilFailure (readBelow b depth) r.subdirs).value.2⟩ := by
  rw [readBelow]
  ext : 1 <;> simp [h]

section

variable {f g : Directory → Logged (Directory × Except Error Unit)}
  {below : Directory → List String} {ds : List Directory}

lemma untilFailure_congr (h : ∀ d ∈ ds, f d = g d) : untilFailure f ds = untilFailure g ds := by
  induction ds with
  | nil => rfl
  | cons d ds ih =>
    obtain ⟨hd, hds⟩ := List.forall_mem_cons.1 h
    simp only [untilFailure, hd, ih hds]

/-- **Two steps**: to read a directory and then all that is still unread in it is, with one level
more, to read it with all below it. -/
theorem readBelow_of_read {d r : Directory} (h : (d.read b).run.value = .ok r) :
    readBelow b (b.depth + 1) d = ⟨(d.read b).run.events ++ (readAll b r).events,
      (readAll b r).value⟩ := by
  have hsub := subdirs_of_read b h
  obtain ⟨hlisted, -⟩ := read_keeps b h
  rw [readBelow_of_ok b h]
  cases r with
  | unread name path => cases hlisted
  | listed name path as ls ds =>
    have hbelow : ∀ s ∈ ds, readAll b s = readBelow b b.depth s := by
      intro s hs
      rw [subdirs_listed] at hsub
      rw [hsub] at hs
      obtain ⟨n, -, rfl⟩ := List.mem_map.1 hs
      exact readAll_unread b n _
    rw [readAll_listed, untilFailure_congr hbelow, Logged.events_map, Logged.value_map]
    rfl

lemma untilFailure_visits {done : String → List Event}
    (h : ∀ d ∈ ds, b.Visits done (below d) (f d).events (failure? (f d).value.2)) :
    b.Visits done (ds.flatMap below) (untilFailure f ds).events
      (failure? (untilFailure f ds).value.2) := by
  induction ds with
  | nil => exact .nil
  | cons d ds ih =>
    obtain ⟨hd, hds⟩ := List.forall_mem_cons.1 h
    rw [List.flatMap_cons, untilFailure, Logged.events_bind, Logged.value_bind]
    rcases hv : (f d).value with ⟨d', e | u⟩
    · rw [hv] at hd
      exact (hd.silent rfl).stop _
    · rw [hv] at hd
      have hall := hd.append (ih hds)
      simpa using hall

open List in
/-- What comes after a failure is left as it was. -/
lemma nodes_untilFailure
    (h : ∀ d ∈ ds, (f d).value.1.nodes.map path <+ below d ∧ d.nodes.map path <+ below d) :
    ((untilFailure f ds).value.1.flatMap nodes).map path <+ ds.flatMap below := by
  -- the directories behind a failure are as they were
  have hkept {ds : List Directory} (h : ∀ d ∈ ds, d.nodes.map path <+ below d) :
      (ds.flatMap nodes).map path <+ ds.flatMap below := by
    induction ds with
    | nil => exact .slnil
    | cons d ds ih =>
      obtain ⟨hd, hds⟩ := List.forall_mem_cons.1 h
      rw [List.flatMap_cons, List.flatMap_cons, List.map_append]
      exact hd.append (ih hds)
  induction ds with
  | nil => exact .slnil
  | cons d ds ih =>
    obtain ⟨⟨hd, -⟩, hds⟩ := List.forall_mem_cons.1 h
    rw [untilFailure, Logged.value_bind, List.flatMap_cons]
    rcases hv : (f d).value with ⟨d', e | u⟩
    · rw [hv] at hd
      have hall := hd.append (hkept fun s hs => (hds s hs).2)
      simpa using hall
    · rw [hv] at hd
      have hall := hd.append (ih hds)
      simpa using hall

end

section

variable {b} {P : String → Prop} (hP : b.Trail P)
  (hthere : ∀ path, P path → (∃ n, Path.nameOf path = .ok n) ∧ b.stat path = .ok .directory)

include hP hthere

/-- **Reading all below** a directory visits in pre-order. -/
theorem readBelow_visits {depth : Nat} {path : String} (h : P path)
    (hn : b.NestsWithin depth path) (own : String) :
    b.Visits (reading b) (b.preorder depth path) (readBelow b depth (unread own path)).events
      (failure? (readBelow b depth (unread own path)).value.2) := by
  induction depth generalizing path own with
  | zero => exact hn.elim
  | succ depth ih =>
    obtain ⟨hname, hstat⟩ := hthere path h
    have hreading : deeds ((unread own path).read b).run.events = reading b path := by
      rw [reading, events_read_unread b own "" path]
    rcases read_unread_cases b own hname hstat with ⟨e, hr, hs⟩ | ⟨r, names, hr, hs, -, hsub⟩
    · rw [readBelow_of_error b hr, Backend.preorder, hs]
      refine ⟨?_, ?_⟩
      · simp [Backend.visit, hs, hreading]
      · simp [Backend.visit, hs, failure?]
    · -- the directory itself has been read, so a failure can only come from below
      have hroot : b.Visits (reading b) [path] ((unread own path).read b).run.events none := by
        refine ⟨?_, ?_⟩ <;> simp [Backend.visit, hs, hreading]
      have hbelow : b.Visits (reading b) (r.subdirs.flatMap fun s => b.preorder depth s.path)
          (untilFailure (readBelow b depth) r.subdirs).events
          (failure? (untilFailure (readBelow b depth) r.subdirs).value.2) := by
        refine untilFailure_visits b fun s hmem => ?_
        rw [hsub] at hmem
        obtain ⟨n, hin, rfl⟩ := List.mem_map.1 hmem
        exact ih (hP.join h hs hin) (hn names hs n hin) n
      have hall := hroot.append hbelow
      rw [readBelow_of_ok b hr, Backend.preorder, hs]
      rw [hsub, List.flatMap_map] at hall
      rw [hsub]
      exact hall

/-- So each directory that is visited is listed, and nothing else. -/
lemma listings_readBelow {depth : Nat} {path : String} (h : P path)
    (hn : b.NestsWithin depth path) (own : String) :
    listings (readBelow b depth (unread own path)).events =
      (b.visit (b.preorder depth path)).1 := by
  have hvisits := readBelow_visits hP hthere h hn own
  have hone (p : String) : (reading b p).filterMap Event.listing? = [p] := by
    rw [reading, Event.filterMap_deeds (fun _ _ => rfl) fun _ => rfl]
    exact listings_read b (unread "" p)
  rw [listings, hvisits.filterMap_eq (fun _ _ => rfl) fun _ => rfl]
  simp only [hone, List.flatMap_singleton']

/-- **Depth**: where directories go down so many levels at most, more levels change nothing. -/
theorem readBelow_add (more : Nat) {depth : Nat} {path : String} (h : P path)
    (hn : b.NestsWithin depth path) (own : String) :
    readBelow b (depth + more) (unread own path) = readBelow b depth (unread own path) := by
  induction depth generalizing path own with
  | zero => exact hn.elim
  | succ depth ih =>
    obtain ⟨hname, hstat⟩ := hthere path h
    rw [Nat.add_right_comm]
    rcases read_unread_cases b own hname hstat with ⟨e, hr, hs⟩ | ⟨r, names, hr, hs, -, hsub⟩
    · rw [readBelow_of_error b hr, readBelow_of_error b hr]
    · have hbelow : ∀ s ∈ r.subdirs, readBelow b (depth + more) s = readBelow b depth s := by
        intro s hmem
        rw [hsub] at hmem
        obtain ⟨n, hin, rfl⟩ := List.mem_map.1 hmem
        exact ih (hP.join h hs hin) (hn names hs n hin) n
      rw [readBelow_of_ok b hr, readBelow_of_ok b hr, untilFailure_congr hbelow]

open List in
/-- Whether it fails or not, what is then known of are directories that were to be visited. -/
theorem nodes_readBelow {depth : Nat} {path : String} (h : P path)
    (hn : b.NestsWithin depth path) (own : String) :
    (readBelow b depth (unread own path)).value.1.nodes.map Directory.path <+
      b.preorder depth path := by
  induction depth generalizing path own with
  | zero => exact hn.elim
  | succ depth ih =>
    obtain ⟨hname, hstat⟩ := hthere path h
    rcases read_unread_cases b own hname hstat with ⟨e, hr, hs⟩ | ⟨r, names, hr, hs, hpath, hsub⟩
    · rw [readBelow_of_error b hr, Backend.preorder, hs]
      exact .refl [path]
    · have hbelow : ((untilFailure (readBelow b depth) r.subdirs).value.1.flatMap nodes).map
          Directory.path <+ r.subdirs.flatMap fun s => b.preorder depth s.path := by
        refine nodes_untilFailure fun s hmem => ?_
        rw [hsub] at hmem
        obtain ⟨n, hin, rfl⟩ := List.mem_map.1 hmem
        have hnests := hn names hs n hin
        exact ⟨ih (hP.join h hs hin) hnests n, Backend.singleton_sublist_preorder hnests⟩
      rw [readBelow_of_ok b hr, Backend.preorder, hs, nodes_eq, List.map_cons, path_listed,
        subdirs_listed, hpath]
      rw [hsub, List.flatMap_map] at hbelow
      rw [hsub]
      exact hbelow.cons_cons path

end

end Directory

end DeviceModel
