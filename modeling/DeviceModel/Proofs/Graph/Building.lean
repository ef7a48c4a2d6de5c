import DeviceModel.Proofs.Binding.FirstLink
import DeviceModel.Proofs.Graph.Nodes

/-!
How a tree of devices is built: a root, and the children that its directory lists, each built
in the same way one level further down.
-/

namespace DeviceModel.Device

section

variable {f : String → Scan Device} {paths : List String} {acc children : List Device}

/-- Children that have all been loaded come in front of what was there, the last one first. -/
theorem loadChildren_eq_none (h : (loadChildren f paths acc).value = (children, none)) :
    ∃ cs : List Device, paths.map (fun p => (f p).run.value) = cs.map .ok ∧
      children = cs.reverse ++ acc := by
  induction paths generalizing acc with
  | nil =>
    cases h
    exact ⟨[], rfl, rfl⟩
  | cons p paths ih =>
    rw [loadChildren, Logged.value_bind] at h
    rcases hp : (f p).run.value with e | c
    · simp [hp] at h
    · rw [hp] at h
      obtain ⟨cs, hcs, rfl⟩ := ih h
      exact ⟨c :: cs, by rw [List.map_cons, List.map_cons, hp, hcs], by simp⟩

lemma loadChildren_congr {g : String → Scan Device} (h : ∀ p ∈ paths, (f p).run = (g p).run) :
    loadChildren f paths acc = loadChildren g paths acc := by
  induction paths generalizing acc with
  | nil => rfl
  | cons p paths ih =>
    obtain ⟨hp, hrest⟩ := List.forall_mem_cons.1 h
    simp only [loadChildren, hp, ih hrest]

/-- They cost what loading each of them costs. -/
theorem events_loadChildren_of_none (h : (loadChildren f paths acc).value = (children, none)) :
    (loadChildren f paths acc).events = paths.flatMap fun p => (f p).run.events := by
  induction paths generalizing acc with
  | nil => rfl
  | cons p paths ih =>
    rw [loadChildren, Logged.value_bind] at h
    rw [loadChildren, Logged.events_bind, List.flatMap_cons]
    rcases hp : (f p).run.value with e | c
    · simp [hp] at h
    · rw [hp] at h
      exact congrArg _ (ih h)

end

variable (sys : Mounted) (buses : BusList)

theorem value_loadTreeOn_succ (depth : Nat) (path : String) :
    (loadTreeOn sys buses (depth + 1) path).run.value =
      (loadOn sys buses path).run.value.bind fun root =>
        match (loadChildren (loadTreeOn sys buses depth)
          (root.directory.subdirs.map (·.path)) []).value with
        | (children, none) => .ok { root with children := children }
        | (_, some e) => .error e := by
  rw [loadTreeOn, Scan.value_run_bind]
  refine congrArg _ (funext fun root => ?_)
  rw [Scan.value_run_bind, Scan.value_run_lift, Except.bind]
  rcases hc : (loadChildren (loadTreeOn sys buses depth)
    (root.directory.subdirs.map (·.path)) []).value with ⟨children, _ | e⟩ <;> rw [hc] <;> rfl

/-- With a root, its children are loaded next; a failure there releases it with those it has. -/
theorem run_loadTreeOn_of_ok {depth : Nat} {path : String} {root : Device}
    (h : (loadOn sys buses path).run.value = .ok root) :
    (loadTreeOn sys buses (depth + 1) path).run =
      match loadChildren (loadTreeOn sys buses depth) (root.directory.subdirs.map (·.path)) [] with
      | ⟨es, (children, none)⟩ =>
        ⟨(loadOn sys buses path).run.events ++ es, .ok { root with children := children }⟩
      | ⟨es, (children, some e)⟩ =>
        ⟨(loadOn sys buses path).run.events ++ es ++
          ({ root with children := children } : Device).closing, .error e⟩ := by
  rw [loadTreeOn, Scan.run_bind_of_ok h, ExceptT.run_bind_lift]
  rcases hc : loadChildren (loadTreeOn sys buses depth)
    (root.directory.subdirs.map (·.path)) [] with ⟨es, children, _ | e⟩
  · rw [hc]
    ext : 1
    · change _ ++ (es ++ []) = _ ++ es
      rw [List.append_nil]
    · rfl
  · rw [hc]
    ext : 1
    · change _ ++ (es ++ ((_ ++ []) ++ [])) = _
      rw [List.append_nil, List.append_nil]
      exact (List.append_assoc _ _ _).symm
    · rfl

/-- A tree that is loaded is a root with one loaded tree for each directory it lists, the last
one first. -/
theorem exists_of_loadTreeOn {depth : Nat} {path : String} {d : Device}
    (h : (loadTreeOn sys buses (depth + 1) path).run.value = .ok d) :
    ∃ root, ∃ cs : List Device, (loadOn sys buses path).run.value = .ok root ∧
      (root.directory.subdirs.map (·.path)).map
        (fun p => (loadTreeOn sys buses depth p).run.value) = cs.map .ok ∧
      d = { root with children := cs.reverse } := by
  rw [value_loadTreeOn_succ] at h
  obtain ⟨root, hr, h⟩ := bind_eq_ok_iff.1 h
  rcases hc : (loadChildren (loadTreeOn sys buses depth)
    (root.directory.subdirs.map (·.path)) []).value with ⟨children, _ | e⟩
  · obtain ⟨cs, hcs, rfl⟩ := loadChildren_eq_none hc
    rw [hc, List.append_nil] at h
    exact ⟨root, cs, hr, hcs, (Except.ok.inj h).symm⟩
  · rw [hc] at h
    cases h

/-! ### No node is bound -/

/-- Neither the device nor any device below it is bound to a driver. -/
def Unbound (d : Device) : Prop := ∀ n ∈ d.nodes, n.driver = none

lemma unbound_iff {d : Device} : d.Unbound ↔ d.driver = none ∧ ∀ c ∈ d.children, c.Unbound := by
  unfold Unbound
  rw [nodes_eq, List.forall_mem_cons]
  simp only [List.mem_flatMap]
  exact and_congr_right fun _ => ⟨fun h c hc n hn => h n ⟨c, hc, hn⟩,
    fun h n ⟨c, hc, hn⟩ => h c hc n hn⟩

lemma unbound_of_load {path : String} {d : Device} (h : (load sys path).run.value = .ok d) :
    d.Unbound := by
  obtain ⟨hd, hc⟩ := driver_of_load h
  rw [unbound_iff, hc]
  exact ⟨hd, by simp⟩

lemma unbound_of_loadTreeOn {depth : Nat} {path : String} {d : Device}
    (h : (loadTreeOn sys buses depth path).run.value = .ok d) : d.Unbound := by
  induction depth generalizing path d with
  | zero => simp [loadTreeOn] at h
  | succ depth ih =>
    obtain ⟨root, cs, hr, hcs, rfl⟩ := exists_of_loadTreeOn sys buses h
    rw [unbound_iff]
    refine ⟨(driver_of_loadOn hr).1, fun c hc => ?_⟩
    have hok : Except.ok c ∈ cs.map (Except.ok (ε := Error)) :=
      List.mem_map_of_mem (List.mem_reverse.1 hc)
    rw [← hcs] at hok
    obtain ⟨p, -, hp⟩ := List.mem_map.1 hok
    exact ih hp

lemma value_loadTree (path : String) :
    (loadTree sys path).run.value =
      (loadTreeOn sys (BusList.available sys).value sys.backend.depth path).run.value := by
  rw [loadTree, Scan.value_run_bind]
  rfl

theorem unbound_of_loadTree {path : String} {d : Device}
    (h : (loadTree sys path).run.value = .ok d) : d.Unbound := by
  rw [value_loadTree] at h
  exact unbound_of_loadTreeOn sys _ h

end DeviceModel.Device
