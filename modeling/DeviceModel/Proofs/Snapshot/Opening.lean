import Mathlib.Data.List.Basic
import DeviceModel.Proofs.Path.Normal
import DeviceModel.Snapshot.Read

/-!
When a directory can be opened, and what the snapshot then is.
-/

namespace DeviceModel.Directory

variable (b : Backend)

theorem value_locate {path : String} (h : path ≠ "") :
    (locate b path).run.value =
      (Path.nameOf (Path.normalize path)).bind fun n =>
        (b.stat (Path.normalize path)).bind fun
          | .directory => .ok (unread n (Path.normalize path))
          | _ => .error .notFound := by
  rw [locate, if_neg h, Scan.value_run_bind, Scan.run_liftM]
  refine congrArg _ (funext fun n => ?_)
  rw [Scan.value_run_bind]
  refine congrArg _ (funext fun kind => ?_)
  cases kind <;> rfl

/-- Only a path with a name at its end is asked for, and only a directory is opened. -/
theorem events_locate {path : String} (h : path ≠ "") :
    (locate b path).run.events =
      match Path.nameOf (Path.normalize path) with
      | .error _ => []
      | .ok _ => .asked .stat (Path.normalize path) ::
        match b.stat (Path.normalize path) with
        | .ok .directory => [.opened .directory (Path.normalize path)]
        | _ => [] := by
  rw [locate, if_neg h, Scan.events_run_bind, Scan.run_liftM]
  cases Path.nameOf (Path.normalize path) with
  | error e => rfl
  | ok n =>
    rw [Except.toOption, Option.map_some, Option.getD_some, List.nil_append,
      Scan.events_run_bind, Backend.askStat, Scan.run_ask]
    rcases b.stat (Path.normalize path) with e | _ | _ | _ <;> rfl

theorem locate_eq_ok_iff {path : String} {d : Directory} :
    (locate b path).run.value = .ok d ↔
      path ≠ "" ∧ ∃ n, Path.nameOf (Path.normalize path) = .ok n ∧
        b.stat (Path.normalize path) = .ok .directory ∧ d = unread n (Path.normalize path) := by
  by_cases h : path = ""
  · simp [locate, h]
  · rw [value_locate b h]
    rcases Path.nameOf (Path.normalize path) with e | n
    · simp [Except.bind]
    · rcases b.stat (Path.normalize path) with e | _ | _ | _ <;> simp [h, Except.bind, eq_comm]

theorem value_load (path : String) :
    (load b path).run.value =
      (locate b path).run.value.bind fun d => (d.read b).run.value := by
  rw [load, Scan.value_run_bind]
  refine congrArg _ (funext fun d => ?_)
  rw [Scan.value_run_bind, Scan.value_run_lift, Except.bind]
  cases (d.read b).run.value <;> rfl

/-- A loaded directory was located and then read. -/
theorem load_eq_ok_iff {path : String} {d : Directory} :
    (load b path).run.value = .ok d ↔
      ∃ x, (locate b path).run.value = .ok x ∧ (x.read b).run.value = .ok d := by
  rw [value_load]
  exact bind_eq_ok_iff

/-- A directory that can be loaded has a name, however its path is spelled. -/
lemma exists_name_of_load {path : String} {d : Directory}
    (h : (load b path).run.value = .ok d) : path ≠ "" ∧ ∃ n, Path.nameOf path = .ok n := by
  obtain ⟨x, hl, -⟩ := (load_eq_ok_iff b).1 h
  obtain ⟨he, n, hn, -, -⟩ := (locate_eq_ok_iff b).1 hl
  refine ⟨he, Path.exists_nameOf (Path.names_ne_nil_of_normalize he fun h0 => ?_)⟩
  rw [Path.nameOf_eq_ok_iff, h0] at hn
  simp at hn

/-! ### What a read keeps -/

/-- The snapshot that is made of the items found in a directory. -/
def ofItems (name path : String) (items : List Item) : Directory :=
  listed name path (items.filterMap Item.attr?) (items.filterMap Item.link?)
    (items.filterMap Item.subdir?)

lemma value_askDir (path : String) :
    (b.askDir path).run.value = (b.readDir path).map Listing.entries := by
  rw [Backend.askDir, Scan.value_run_bind, Scan.run_ask]
  cases b.readDir path <;> rfl

theorem value_read (d : Directory) :
    (d.read b).run.value =
      (b.readDir d.path).bind fun l => (linkBase b d.path l.entries).run.value.bind fun base =>
        .ok (ofItems d.name d.path (readEntries b d.path base l.entries).value) := by
  rw [Directory.read, Scan.value_run_bind, value_askDir]
  cases b.readDir d.path with
  | error e => rfl
  | ok l =>
    rw [Except.map, Except.bind, Scan.value_run_bind]
    rfl

/-- A read succeeds with what is made of the entries, where these and the place for the links are
told. -/
theorem read_eq_ok_iff {d r : Directory} :
    (d.read b).run.value = .ok r ↔ ∃ l base, b.readDir d.path = .ok l ∧
      (linkBase b d.path l.entries).run.value = .ok base ∧
        r = ofItems d.name d.path (readEntries b d.path base l.entries).value := by
  rw [value_read, bind_eq_ok_iff]
  refine exists_congr fun l => ?_
  rw [bind_eq_ok_iff, ← exists_and_left]
  refine exists_congr fun base => and_congr_right fun _ => and_congr_right fun _ => ?_
  rw [Except.ok.injEq, eq_comm]

/-- What a read that succeeds leaves. What the directory held before is released at the end. -/
theorem events_read_of_ok {d : Directory} {l : Listing} {base : String}
    (hl : b.readDir d.path = .ok l) (hb : (linkBase b d.path l.entries).run.value = .ok base) :
    (d.read b).run.events = (b.askDir d.path).run.events ++
      ((linkBase b d.path l.entries).run.events ++
        ((readEntries b d.path base l.entries).events ++ closingAll d.subdirs)) := by
  have hask : (b.askDir d.path).run.value = .ok l.entries := by
    rw [value_askDir, hl]
    rfl
  rw [Directory.read, Scan.run_bind_of_ok hask, Scan.run_bind_of_ok hb]
  change _ ++ (_ ++ (((readEntries b d.path base l.entries).events ++ []) ++
    ((closingAll d.subdirs ++ []) ++ []))) = _
  rw [List.append_nil, List.append_nil, List.append_nil]

/-- What is found in place of an entry: a link or a value that cannot be read is left out. -/
lemma value_readEntry (dir base : String) (e : Entry) :
    (readEntry b dir base e).value =
      match e.kind with
      | .directory => some (.subdir (unread e.name (Path.join dir e.name)))
      | .symlink => (b.readLink (Path.join dir e.name)).toOption.map fun target =>
          .link ⟨e.name, Path.join dir e.name, Path.resolve base target⟩
      | .file => some (.attr ⟨e.name, Path.join dir e.name,
          if (Access.ofMode e.mode).shows then
            (b.readAttr (Path.join dir e.name)).toOption.map Text.decodeLossy
          else none,
          Access.ofMode e.mode⟩) := by
  unfold readEntry
  rcases hk : e.kind with _ | _ | _
  · rfl
  · rcases hl : b.readLink (Path.join dir e.name) with err | target <;>
      simp [Backend.askLink, hl, Except.toOption]
  · by_cases ha : (Access.ofMode e.mode).shows = true
    · rcases hv : b.readAttr (Path.join dir e.name) with err | bytes <;>
        simp [readValue, Backend.askAttr, ha, hv, Except.toOption]
    · simp [ha]

lemma value_readEntries (dir base : String) (es : List Entry) :
    (readEntries b dir base es).value = es.filterMap fun e => (readEntry b dir base e).value := by
  induction es with
  | nil => rfl
  | cons e es ih =>
    rw [readEntries_cons, Logged.value_bind, Logged.value_bind, Logged.value_pure, ih,
      List.filterMap_cons]
    cases (readEntry b dir base e).value <;> rfl

/-- The directories found are those listed, unread. -/
lemma subdirs_readEntries (dir base : String) (es : List Entry) :
    (readEntries b dir base es).value.filterMap Item.subdir? =
      (es.filter (·.kind = .directory)).map fun e => unread e.name (Path.join dir e.name) := by
  rw [value_readEntries, List.filterMap_filterMap, ← List.filterMap_eq_map,
    List.filterMap_filter]
  refine List.filterMap_congr fun e _ => ?_
  rw [value_readEntry]
  rcases hk : e.kind with _ | _ | _
  · rfl
  · cases b.readLink (Path.join dir e.name) <;> rfl
  · rfl

/-- A link that was read was listed, and its target is told from the real place of the
directory. -/
lemma mem_links_of_read {d r : Directory} {l : Link} (h : (d.read b).run.value = .ok r)
    (hl : l ∈ r.links) :
    ∃ listing e base target, b.readDir d.path = .ok listing ∧ e ∈ listing.entries ∧
      e.kind = .symlink ∧ b.realPath d.path = .ok base ∧
        b.readLink (Path.join d.path e.name) = .ok target ∧
          l = ⟨e.name, Path.join d.path e.name, Path.resolve base target⟩ := by
  obtain ⟨listing, base, hr, hb, rfl⟩ := (read_eq_ok_iff b).1 h
  obtain ⟨item, hitem, hlink⟩ := List.mem_filterMap.1 hl
  rw [value_readEntries] at hitem
  obtain ⟨e, he, hitem⟩ := List.mem_filterMap.1 hitem
  rw [value_readEntry] at hitem
  rcases hk : e.kind with _ | _ | _
  · rw [hk] at hitem
    cases hitem
    cases hlink
  · rw [hk] at hitem
    obtain ⟨target, ht, rfl⟩ := Option.map_eq_some_iff.1 hitem
    cases hlink
    -- as there is a link, the real place was asked for
    have hany : listing.entries.any (·.kind = .symlink) = true :=
      List.any_eq_true.2 ⟨e, he, by simpa using hk⟩
    rw [linkBase, if_pos hany] at hb
    refine ⟨listing, e, base, target, hr, he, hk, hb, ?_, rfl⟩
    rcases ha : b.readLink (Path.join d.path e.name) with err | target'
    · simp [ha, Except.toOption] at ht
    · simpa [ha, Except.toOption] using ht
  · rw [hk] at hitem
    cases hitem
    cases hlink

/-- A read that succeeds lists the directory and keeps its name and its path. -/
lemma read_keeps {d r : Directory} (h : (d.read b).run.value = .ok r) :
    r.isListed = true ∧ r.name = d.name ∧ r.path = d.path := by
  obtain ⟨l, base, -, -, rfl⟩ := (read_eq_ok_iff b).1 h
  exact ⟨rfl, rfl, rfl⟩

lemma isListed_of_load {path : String} {d : Directory} (h : (load b path).run.value = .ok d) :
    d.isListed = true := by
  obtain ⟨x, -, hread⟩ := (load_eq_ok_iff b).1 h
  exact (read_keeps b hread).1

/-- Reading what is below a listed directory keeps what it holds itself. -/
lemma readAll_keeps {d : Directory} (h : d.isListed = true) :
    (readAll b d).value.1.links = d.links ∧ (readAll b d).value.1.path = d.path := by
  cases d with
  | unread n p => simp [isListed] at h
  | listed n p as ls ds =>
    rw [readAll_listed]
    exact ⟨rfl, rfl⟩

/-! ### Reading below -/

lemma value_untilFailure {f : Directory → Logged (Directory × Except Error Unit)}
    {g : Directory → Directory} {ds : List Directory}
    (h : ∀ d ∈ ds, (f d).value = (g d, .ok ())) :
    (untilFailure f ds).value = (ds.map g, .ok ()) := by
  induction ds with
  | nil => rfl
  | cons d ds ih =>
    obtain ⟨hd, hds⟩ := List.forall_mem_cons.1 h
    simp only [untilFailure, Logged.value_bind, hd, ih hds]
    rfl

/-- A directory that can be read with all below it is what was read, with these in place. -/
lemma value_readBelow_succ {g : Directory → Directory} {d r : Directory} {depth : Nat}
    (hr : (d.read b).run.value = .ok r)
    (h : ∀ s ∈ r.subdirs, (readBelow b depth s).value = (g s, .ok ())) :
    (readBelow b (depth + 1) d).value =
      (listed r.name r.path r.attributes r.links (r.subdirs.map g), .ok ()) := by
  simp only [readBelow, Logged.value_bind, hr, value_untilFailure h]
  rfl

end DeviceModel.Directory
