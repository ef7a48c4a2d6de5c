import DeviceModel.Proofs.Graph.Mirror

/-!
The list of the buses is loaded once for a whole tree.

Nothing is lost by that: each node is what it would be if it were opened alone. What is asked
is the list of the buses first and then, node by node in the order of the scan, its directory
and the buses up to the first that knows it.
-/

namespace DeviceModel

open Event (queries)

/-! ### Look-ups -/

namespace BusList

variable (b : Backend) (busId : String)

/-- The places where a device is looked for, up to the first bus that answers. -/
def probes (buses : BusList) : List String :=
  let places := buses.buses.map fun bus => Path.join bus.2 busId
  places.take (places.findIdx (fun place => (b.stat place).isOk) + 1)

lemma probes_cons (bus : String × String) (rest : List (String × String)) :
    probes b busId ⟨bus :: rest⟩ =
      Path.join bus.2 busId ::
        if (b.stat (Path.join bus.2 busId)).isOk then [] else probes b busId ⟨rest⟩ := by
  unfold probes
  by_cases h : (b.stat (Path.join bus.2 busId)).isOk = true <;> simp [List.findIdx_cons, h]

/-- The buses are asked one after another, and none after the first that answers. -/
lemma queries_firstWith (buses : List (String × String)) :
    queries (firstWith b busId buses).events =
      (probes b busId ⟨buses⟩).map (Query.stat, ·) := by
  induction buses with
  | nil => rfl
  | cons bus rest ih =>
    rw [probes_cons, firstWith, Logged.events_bind, Event.queries_append]
    unfold Backend.askStat
    rw [Scan.run_ask]
    rcases hs : b.stat (Path.join bus.2 busId) with e | kind
    · simpa [Except.isOk, Except.toBool, queries, Event.query?] using ih
    · simp [Except.isOk, Except.toBool, queries, Event.query?]

lemma queries_nameFor (buses : BusList) (h : busId ≠ "") :
    queries (buses.nameFor b busId).events = (buses.probes b busId).map (Query.stat, ·) := by
  have hfind : queries (buses.find b busId).run.events =
      queries (firstWith b busId buses.buses).events := by
    unfold find
    rcases hf : (firstWith b busId buses.buses).value with _ | name <;>
      simp [h, hf, queries, Event.query?]
  have hname : queries (buses.nameFor b busId).events = queries (buses.find b busId).run.events := by
    unfold nameFor
    rcases hf : (buses.find b busId).run.value with e | name <;> simp [hf]
  rw [hname, hfind, queries_firstWith]

lemma value_nameFor (buses : BusList) :
    (buses.nameFor b busId).value = (buses.find b busId).run.value.toOption.getD "" := by
  unfold nameFor
  rw [Logged.value_bind]
  cases (buses.find b busId).run.value <;> rfl

/-- With no buses listed, none is found. -/
lemma toOption_find_empty : (empty.find b busId).run.value.toOption = none := by
  unfold find
  by_cases h : busId = ""
  · simp [h, Except.toOption]
  · simp [h, empty, firstWith, Except.toOption]

/-- The bus of a device is looked for on the buses there are. -/
lemma value_findBus (sys : Mounted) (h : busId ≠ "") : (sys.findBus busId).run.value =
    (load sys).run.value.bind fun buses => (buses.find sys.backend busId).run.value := by
  unfold Mounted.findBus
  rw [if_neg h]
  exact Scan.value_run_bind _ _

/-- The name a device gets is that of its bus, and empty where there is any error. -/
theorem value_nameFor_available (sys : Mounted) (h : busId ≠ "") :
    ((available sys).value.nameFor sys.backend busId).value =
      (sys.findBus busId).run.value.toOption.getD "" := by
  have havailable : (available sys).value = (load sys).run.value.toOption.getD empty := by
    unfold available
    rw [Logged.value_bind]
    cases (load sys).run.value <;> rfl
  rw [value_nameFor, value_findBus busId sys h, havailable]
  rcases (load sys).run.value with e | buses
  · exact congrArg (Option.getD · "") (toOption_find_empty sys.backend busId)
  · rfl

end BusList

namespace Device

variable (sys : Mounted) (buses : BusList)

/-! ### One node -/

lemma loadOn_normalize {path : String} (h : path ≠ "") :
    (loadOn sys buses (Path.normalize path)).run.value = (loadOn sys buses path).run.value := by
  rw [value_loadOn, value_loadOn, Directory.load_normalize _ h]

lemma asks_normalize {path : String} (h : path ≠ "") :
    asks sys buses (Path.normalize path) = asks sys buses path := by
  rw [asks, asks, ← Event.queries_deeds, deeds_normalize sys buses h, Event.queries_deeds]

lemma ne_empty_of_loadOn {path : String} {d : Device}
    (h : (loadOn sys buses path).run.value = .ok d) : path ≠ "" := by
  rintro rfl
  simp [loadOn] at h

lemma ne_empty_of_nameOf {path n : String} (h : Path.nameOf path = .ok n) : n ≠ "" := by
  have hmem := List.mem_of_getLast? (Path.nameOf_eq_ok_iff.1 h)
  exact (Path.isName_of_mem_names hmem).1

/-- A device that was opened on its own: opening its place gives it again. -/
structure Opened (d : Device) : Prop where
  again : (loadOn sys buses d.path).run.value = .ok d
  named : d.busId ≠ ""
  bus : d.busName = (buses.nameFor sys.backend d.busId).value
  asks : asks sys buses d.path = queries (Directory.load sys.backend d.path).run.events ++
    (buses.probes sys.backend d.busId).map (Query.stat, ·)

lemma opened_of_loadOn {path : String} {d : Device}
    (h : (loadOn sys buses path).run.value = .ok d) :
    d.path = Path.normalize path ∧ Opened sys buses d := by
  have hne := ne_empty_of_loadOn sys buses h
  obtain ⟨-, -, hpath, hname, -⟩ := exists_of_loadOn sys buses hne h
  have hagain : (loadOn sys buses d.path).run.value = .ok d := by
    rw [hpath, loadOn_normalize sys buses hne, h]
  have hne' := ne_empty_of_loadOn sys buses hagain
  have hload := load_of_loadOn hagain
  have hvalue := hagain
  rw [value_loadOn, hload] at hvalue
  have hbus := congrArg Device.busName (Except.ok.inj hvalue)
  have hid : d.busId ≠ "" := ne_empty_of_nameOf hname
  refine ⟨hpath, hagain, hid, hbus.symm, ?_⟩
  rw [asks_eq sys buses hne', hload, ← BusList.queries_nameFor _ _ _ hid]
  rfl

/-! ### All nodes -/

/-- A node without what is below it. -/
def alone (d : Device) : Device := { d with children := [] }

/-- **Nodes**: each node of a tree is, but for its children, what opening its place gives. -/
theorem opened_of_loadTreeOn {depth : Nat} {path : String} {d : Device}
    (h : (loadTreeOn sys buses depth path).run.value = .ok d) :
    ∀ n ∈ d.nodes, Opened sys buses n.alone := by
  induction depth generalizing path d with
  | zero => simp [loadTreeOn] at h
  | succ depth ih =>
    obtain ⟨root, cs, hr, hcs, rfl⟩ := exists_of_loadTreeOn sys buses h
    rw [nodes_eq, List.forall_mem_cons]
    refine ⟨?_, fun n hn => ?_⟩
    · -- opened on its own it has no children, so to take them away is to get it back
      have hroot : ({ root with children := cs.reverse } : Device).alone = root := by
        have hchildren := (driver_of_loadOn hr).2
        cases root
        cases hchildren
        rfl
      rw [hroot]
      exact (opened_of_loadOn sys buses hr).2
    · obtain ⟨c, hc, hn⟩ := List.mem_flatMap.1 hn
      have hok : Except.ok c ∈ cs.map (Except.ok (ε := Error)) :=
        List.mem_map_of_mem (List.mem_reverse.1 hc)
      rw [← hcs] at hok
      obtain ⟨p, -, hp⟩ := List.mem_map.1 hok
      exact ih hp n hn

/-- What holds of each list of a family holds of them one after another. -/
lemma flatMap_of_map_eq {α : Type} {F : String → Except Error Device} {paths : List String}
    {cs : List Device} (h : paths.map F = cs.map .ok) {f : String → List α} {g : Device → List α}
    (hfg : ∀ p c, F p = .ok c → f p = g c) : paths.flatMap f = cs.flatMap g := by
  induction paths generalizing cs with
  | nil =>
    cases List.map_eq_nil_iff.1 h.symm
    rfl
  | cons p paths ih =>
    obtain ⟨c, cs, rfl, hc, hrest⟩ := List.map_eq_cons_iff.1 h.symm
    rw [List.flatMap_cons, List.flatMap_cons, hfg p c hc.symm, ih hrest.symm]

/-- **Order**: a tree asks, node by node in the order of the scan, what opening the node asks. -/
theorem queries_loadTreeOn {depth : Nat} {path : String} {d : Device}
    (h : (loadTreeOn sys buses depth path).run.value = .ok d) :
    queries (loadTreeOn sys buses depth path).run.events =
      d.scanned.flatMap fun n => asks sys buses n.path := by
  induction depth generalizing path d with
  | zero => simp [loadTreeOn] at h
  | succ depth ih =>
    obtain ⟨root, cs, hr, hcs, rfl⟩ := exists_of_loadTreeOn sys buses h
    have hroot : asks sys buses root.path = asks sys buses path := by
      rw [(opened_of_loadOn sys buses hr).1,
        asks_normalize sys buses (ne_empty_of_loadOn sys buses hr)]
    rw [run_loadTreeOn_of_ok sys buses hr] at h ⊢
    rcases hc : loadChildren (loadTreeOn sys buses depth) (root.directory.subdirs.map (·.path)) []
      with ⟨es, children, _ | e⟩
    · have hevents := events_loadChildren_of_none (congrArg Logged.value hc)
      rw [hc] at hevents
      have hes : es = (root.directory.subdirs.map (·.path)).flatMap fun p =>
          (loadTreeOn sys buses depth p).run.events := hevents
      have hbelow : queries es = (root.directory.subdirs.map (·.path)).flatMap fun p =>
          queries (loadTreeOn sys buses depth p).run.events := by
        rw [hes]
        exact List.filterMap_flatMap
      rw [scanned_eq, List.flatMap_cons, List.reverse_reverse, List.flatMap_assoc]
      simp only [hc, Event.queries_append, hbelow]
      rw [flatMap_of_map_eq hcs fun p c hp => ih hp]
      exact congrArg (· ++ _) hroot.symm
    · simp [hc] at h

/-- What a node of a tree has in common with the device that is opened at its place, and which
bus it is on. -/
structure OpensAlone (n : Device) : Prop where
  alone : ∃ d, (load sys n.path).run.value = .ok d ∧ d.busId = n.busId ∧ d.busName = n.busName ∧
    d.name = n.name ∧ d.directory = n.directory
  bus : n.busName = (sys.findBus n.busId).run.value.toOption.getD ""

/-- **Shared list of buses.** Each node of a tree is what it would be if it were opened alone. The
list of the buses is read once and before any node; the rest is asked node by node in the order of
the scan: first for the directory, then for the buses up to the first that answers. -/
theorem loadTree_shares_buses (sys : Mounted) {path : String} {root : Device}
    (h : (loadTree sys path).run.value = .ok root) :
    (∀ n ∈ root.nodes, OpensAlone sys n) ∧ root.scanned.Perm root.nodes ∧
      queries (loadTree sys path).run.events =
        queries (Directory.load sys.backend sys.busPath).run.events ++
          root.scanned.flatMap fun n =>
            queries (Directory.load sys.backend n.path).run.events ++
              ((BusList.available sys).value.probes sys.backend n.busId).map (Query.stat, ·) := by
  have hbuses : queries (BusList.available sys).events =
      queries (Directory.load sys.backend sys.busPath).run.events := by
    rw [← Event.queries_deeds, deeds_available, Event.queries_deeds]
  have htree := h
  rw [value_loadTree] at htree
  have hopened := opened_of_loadTreeOn sys _ htree
  refine ⟨fun n hn => ?_, root.scanned_perm, ?_⟩
  · have hn := hopened n hn
    refine ⟨⟨n.alone, (value_load sys n.path).trans hn.again, rfl, rfl, rfl, rfl⟩, ?_⟩
    exact hn.bus.trans (BusList.value_nameFor_available n.busId sys hn.named)
  · rw [queries_loadTree, hbuses, queries_loadTreeOn sys _ htree]
    refine congrArg _ (List.flatMap_congr fun n hn => ?_)
    exact (hopened n (root.scanned_perm.mem_iff.1 hn)).asks

/-- A rack in `/d` with two slots, and two buses, of which the first does not know the slot `y`. -/
def crateBackend : Backend where
  stat path := if path = "/bus/i2c/devices/y" then .error .notFound else .ok .directory
  readDir path :=
    if path = "/bus" then
      .ok { entries := [⟨"i2c", .directory, 0o755⟩, ⟨"pci", .directory, 0o755⟩] }
    else if path = "/d" then
      .ok { entries := [⟨"x", .directory, 0o755⟩, ⟨"y", .directory, 0o755⟩] }
    else .ok { entries := [] }
  readLink _ := .error .notFound
  readAttr _ := .error .readError
  realPath path := .ok path
  depth := 3

def crateSystem : Mounted := .ofMount "/" crateBackend

/-- For the slot `y` both buses are asked, for the rack and for the slot `x` only the first. -/
theorem loadTree_crate_shares_buses :
    ∃ root, (loadTree crateSystem "/d").run.value = .ok root ∧
      (∀ n ∈ root.nodes, OpensAlone crateSystem n) ∧ root.scanned.Perm root.nodes ∧
      queries (loadTree crateSystem "/d").run.events =
        queries (Directory.load crateSystem.backend crateSystem.busPath).run.events ++
          root.scanned.flatMap fun n =>
            queries (Directory.load crateSystem.backend n.path).run.events ++
              ((BusList.available crateSystem).value.probes crateSystem.backend n.busId).map
                (Query.stat, ·) := by
  have hok : (loadTree crateSystem "/d").run.value.isOk = true := by rfl
  rcases hr : (loadTree crateSystem "/d").run.value with e | root
  · rw [hr] at hok
    cases hok
  · exact ⟨root, rfl, loadTree_shares_buses crateSystem hr⟩

end Device

end DeviceModel
