import DeviceModel.Proofs.Graph.Sweep
import DeviceModel.Proofs.Snapshot.Positions
import DeviceModel.Proofs.Snapshot.Reading

/-!
What holds throughout a snapshot, whatever reads it has come through.

A snapshot is opened once and then read, as a whole or with all below it, and each of these reads
may fail on its way. What is true of every directory in it has to be kept by two things only: by a
read of one directory, and by other directories put in place of those below it (`Lasts`).
-/

namespace DeviceModel.Directory

variable {B : Backend → Prop} {P : Directory → Prop} {b : Backend} {path : String}
  {d d' r : Directory}

/-- The snapshots that come of one that was opened at a path, by reads that may fail. Each call
finds some file system of `B`. -/
inductive Reached (B : Backend → Prop) (path : String) : Directory → Prop
  | opened {b : Backend} {d : Directory} (hb : B b) (h : (locate b path).run.value = .ok d) :
      Reached B path d
  | read {b : Backend} {d : Directory} (hb : B b) (h : Reached B path d) :
      Reached B path (Session.readOnce b d).value.1
  | readAll {b : Backend} {d : Directory} (hb : B b) (h : Reached B path d) :
      Reached B path (Directory.readAll b d).value.1

/-- All directories of a snapshot have the property. -/
def Throughout (P : Directory → Prop) (d : Directory) : Prop := ∀ x ∈ d.nodes, P x

lemma throughout_iff : d.Throughout P ↔ P d ∧ ∀ s ∈ d.subdirs, s.Throughout P := by
  simp only [Throughout, nodes_eq d, List.forall_mem_cons, List.mem_flatMap]
  exact and_congr_right fun _ => ⟨fun h s hs x hx => h x ⟨s, hs, hx⟩,
    fun h x ⟨s, hs, hx⟩ => h s hs x hx⟩

lemma throughout_unread {n p : String} (h : P (unread n p)) : (unread n p).Throughout P :=
  throughout_iff.2 ⟨h, nofun⟩

/-- A property that reads of a file system keep. -/
structure Lasts (b : Backend) (P : Directory → Prop) : Prop where
  read : ∀ {d r}, P d → (d.read b).run.value = .ok r → r.Throughout P
  holding : ∀ {d ds}, P d → ds.map stub = d.subdirs.map stub → P (d.holding ds)

/-- What may become of a directory: it stays where it is, and keeps the property throughout. -/
def Stays (P : Directory → Prop) (d d' : Directory) : Prop :=
  d'.stub = d.stub ∧ (d.Throughout P → d'.Throughout P)

lemma Stays.refl (d : Directory) : Stays P d d := ⟨rfl, id⟩

lemma Stays.trans (h : Stays P d r) (h' : Stays P r d') : Stays P d d' :=
  ⟨h'.1.trans h.1, h'.2 ∘ h.2⟩

lemma map_stub_of_stays {ds ds' : List Directory} (h : List.Forall₂ (Stays P) ds ds') :
    ds'.map stub = ds.map stub := by
  induction h with
  | nil => rfl
  | cons hd _ ih => rw [List.map_cons, List.map_cons, hd.1, ih]

lemma throughout_of_stays {ds ds' : List Directory} (h : List.Forall₂ (Stays P) ds ds')
    (hds : ∀ s ∈ ds, s.Throughout P) : ∀ s ∈ ds', s.Throughout P := by
  induction h with
  | nil => exact hds
  | cons hd _ ih =>
    obtain ⟨hhead, htail⟩ := List.forall_mem_cons.1 hds
    exact List.forall_mem_cons.2 ⟨hd.2 hhead, ih htail⟩

/-! ### Reads -/

lemma Lasts.stays_holding (hP : Lasts b P) {ds : List Directory}
    (h : List.Forall₂ (Stays P) d.subdirs ds) : Stays P d (d.holding ds) := by
  refine ⟨rfl, fun hall => ?_⟩
  obtain ⟨hd, hbelow⟩ := throughout_iff.1 hall
  exact throughout_iff.2 ⟨hP.holding hd (map_stub_of_stays h), throughout_of_stays h hbelow⟩

lemma Lasts.stays_read (hP : Lasts b P) (h : (d.read b).run.value = .ok r) : Stays P d r := by
  obtain ⟨-, hname, hpath⟩ := read_keeps b h
  refine ⟨by rw [stub, hname, hpath, stub], fun hall => ?_⟩
  exact hP.read (throughout_iff.1 hall).1 h

lemma Lasts.stays_readOnce (hP : Lasts b P) (d : Directory) :
    Stays P d (Session.readOnce b d).value.1 := by
  rcases hr : (d.read b).run.value with e | r
  · have hvalue : (Session.readOnce b d).value = (d, .error e) := by simp [Session.readOnce, hr]
    rw [hvalue]
    exact .refl d
  · have hvalue : (Session.readOnce b d).value = (r, .ok ()) := by simp [Session.readOnce, hr]
    rw [hvalue]
    exact hP.stays_read hr

/-- Up to the failure each directory may have changed, and those behind it are as they were. -/
lemma stays_untilFailure {f : Directory → Logged (Directory × Except Error Unit)}
    {ds : List Directory} (h : ∀ d ∈ ds, Stays P d (f d).value.1) :
    List.Forall₂ (Stays P) ds (untilFailure f ds).value.1 := by
  induction ds with
  | nil => exact .nil
  | cons d ds ih =>
    obtain ⟨hd, hds⟩ := List.forall_mem_cons.1 h
    rw [untilFailure, Logged.value_bind]
    rcases hv : (f d).value with ⟨d', e | u⟩
    · rw [hv] at hd
      exact .cons hd (List.forall₂_same.2 fun s _ => .refl s)
    · rw [hv] at hd
      exact .cons hd (ih hds)

/-- The induction is on the levels that may still be read. -/
lemma Lasts.stays_readBelow (hP : Lasts b P) (depth : Nat) (d : Directory) :
    Stays P d (readBelow b depth d).value.1 := by
  induction depth generalizing d with
  | zero => exact .refl d
  | succ depth ih =>
    rcases hr : (d.read b).run.value with e | r
    · rw [readBelow_of_error b hr]
      exact .refl d
    · rw [readBelow_of_ok b hr]
      have hbelow := stays_untilFailure fun s (_ : s ∈ r.subdirs) => ih s
      exact (hP.stays_read hr).trans (hP.stays_holding hbelow)

lemma Lasts.stays_readAll (hP : Lasts b P) (d : Directory) :
    Stays P d (Directory.readAll b d).value.1 := by
  induction d using Directory.induction with
  | unread n p =>
    rw [readAll_unread]
    exact hP.stays_readBelow _ _
  | listed n p as ls ds ih =>
    rw [readAll_listed]
    exact hP.stays_holding (d := .listed n p as ls ds) (stays_untilFailure ih)

/-- What is true of the directory that is opened, and lasts, is true throughout. -/
theorem Reached.throughout (hP : ∀ b, B b → Lasts b P)
    (hopen : ∀ b d, B b → (locate b path).run.value = .ok d → P d) (h : Reached B path d) :
    d.Throughout P := by
  induction h with
  | @opened b d hb h =>
    have hd := hopen b d hb h
    obtain ⟨-, n, -, -, rfl⟩ := (locate_eq_ok_iff b).1 h
    exact throughout_unread hd
  | read hb _ ih => exact ((hP _ hb).stays_readOnce _).2 ih
  | readAll hb _ ih => exact ((hP _ hb).stays_readAll _).2 ih

/-! ### Links -/

/-- Each link of the directory is one that a read of it finds. -/
def FindsLinks (b : Backend) (d : Directory) : Prop :=
  ∀ l ∈ d.links, ∃ r, (d.stub.read b).run.value = .ok r ∧ l ∈ r.links

/-- What a read finds is told by where the directory stands. -/
lemma value_read_stub (d : Directory) : (d.stub.read b).run.value = (d.read b).run.value := by
  rw [value_read, value_read]
  rfl

lemma lasts_findsLinks (b : Backend) : Lasts b (FindsLinks b) where
  read := by
    intro d r _ hr
    obtain ⟨-, hname, hpath⟩ := read_keeps b hr
    have hstub : r.stub = d.stub := by rw [stub, hname, hpath, stub]
    refine throughout_iff.2 ⟨fun l hl => ⟨r, ?_, hl⟩, fun s hs => ?_⟩
    · rw [hstub, value_read_stub, hr]
    · rw [subdirs_of_read b hr] at hs
      obtain ⟨n, -, rfl⟩ := List.mem_map.1 hs
      exact throughout_unread nofun
  holding := fun h _ => h

/-- In a file system that stays the same each link of a snapshot is one that a read of its directory
finds. -/
theorem Reached.findsLinks (h : Reached (· = b) path d) : d.Throughout (FindsLinks b) := by
  have hlasts (b' : Backend) (hb : b' = b) : Lasts b' (FindsLinks b) := hb ▸ lasts_findsLinks b
  refine h.throughout hlasts fun b' d _ hd => ?_
  obtain ⟨-, n, -, -, rfl⟩ := (locate_eq_ok_iff b').1 hd
  exact nofun

end DeviceModel.Directory
