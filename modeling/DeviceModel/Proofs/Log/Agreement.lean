import DeviceModel.Proofs.Graph.Visit

/-!
A scan sees nothing of a file system but the answers to what it asks.

So it goes the same way over two file systems that agree on the questions that it puts to the
first: `Tracks` says so of the scan over the one and the scan over the other, and it holds of each
operation from the single question up to a class device's links.
-/

namespace DeviceModel

open Event (queries)

namespace Backend

/-- Two file systems give the same answer to a question. -/
def SameAnswer (b b' : Backend) : Query × String → Prop
  | (.stat, path) => b'.stat path = b.stat path
  | (.readDir, path) => b'.readDir path = b.readDir path
  | (.readLink, path) => b'.readLink path = b.readLink path
  | (.readAttr, path) => b'.readAttr path = b.readAttr path
  | (.realPath, path) => b'.realPath path = b.realPath path

/-- Two file systems give the same answers to the questions `qs`. -/
def Agrees (b b' : Backend) (qs : List (Query × String)) : Prop := ∀ q ∈ qs, b.SameAnswer b' q

lemma agrees_append {b b' : Backend} {qs rs : List (Query × String)} :
    b.Agrees b' (qs ++ rs) ↔ b.Agrees b' qs ∧ b.Agrees b' rs :=
  List.forall_mem_append

end Backend

/-! ### Following the answers -/

section

variable {α β : Type} {b b' : Backend}

/-- With the answers that `x` gets, `x'` does what `x` does. -/
def Logged.Tracks (b b' : Backend) (x x' : Logged α) : Prop :=
  b.Agrees b' (queries x.events) → x' = x

/-- With the answers that `x` gets, `x'` does what `x` does. -/
def Scan.Tracks (b b' : Backend) (x x' : Scan α) : Prop := x.run.Tracks b b' x'.run

namespace Logged

lemma tracks_refl (x : Logged α) : x.Tracks b b' x := fun _ => rfl

lemma Tracks.bind {x x' : Logged α} {f f' : α → Logged β} (hx : x.Tracks b b' x')
    (hf : ∀ a, (f a).Tracks b b' (f' a)) : (x >>= f).Tracks b b' (x' >>= f') := by
  intro h
  rw [events_bind, Event.queries_append, Backend.agrees_append] at h
  have hvalue := hf x.value h.2
  rw [hx h.1]
  ext
  · rw [events_bind, events_bind, hvalue]
  · rw [value_bind, value_bind, hvalue]

end Logged

namespace Scan

lemma tracks_refl (x : Scan α) : x.Tracks b b' x := Logged.tracks_refl x.run

lemma tracks_ask {query : Query} {path : String} {answer answer' : Except Error α}
    (h : b.SameAnswer b' (query, path) → answer' = answer) :
    (ask query path answer).Tracks b b' (ask query path answer') := by
  intro hq
  rw [h (hq _ (by simp [queries, Event.query?]))]

lemma tracks_lift {x x' : Logged α} (h : x.Tracks b b' x') :
    Scan.Tracks b b' (ExceptT.lift x) (ExceptT.lift x') :=
  h.bind fun _ => Logged.tracks_refl _

lemma Tracks.bind {x x' : Scan α} {f f' : α → Scan β} (hx : x.Tracks b b' x')
    (hf : ∀ a, (f a).Tracks b b' (f' a)) : (x >>= f).Tracks b b' (x' >>= f') := by
  unfold Tracks
  rw [ExceptT.run_bind, ExceptT.run_bind]
  refine Logged.Tracks.bind hx fun r => ?_
  cases r with
  | ok a => exact hf a
  | error e => exact Logged.tracks_refl _

lemma Tracks.noting {x x' : Scan α} (hx : x.Tracks b b' x') (n : Error → Notice) :
    (x.noting n).Tracks b b' (x'.noting n) :=
  Logged.Tracks.bind hx fun _ => Logged.tracks_refl _

/-- What would come after a refusal at the start does not matter. -/
lemma tracks_unless {c : Prop} [Decidable c] {e : Error} {f f' : PUnit → Scan α}
    (h : ¬ c → (f ⟨⟩).Tracks b b' (f' ⟨⟩)) :
    Scan.Tracks b b' (if c then throw e >>= f else f ⟨⟩) (if c then throw e >>= f' else f' ⟨⟩) := by
  by_cases hc : c
  · rw [if_pos hc, if_pos hc]
    exact fun _ => rfl
  · rw [if_neg hc, if_neg hc]
    exact h hc

end Scan

end

/-! ### Directories -/

variable (b b' : Backend)

lemma Backend.askStat_tracks (path : String) : (b.askStat path).Tracks b b' (b'.askStat path) :=
  Scan.tracks_ask id

lemma Backend.askLink_tracks (path : String) : (b.askLink path).Tracks b b' (b'.askLink path) :=
  Scan.tracks_ask id

lemma Backend.askAttr_tracks (path : String) : (b.askAttr path).Tracks b b' (b'.askAttr path) :=
  Scan.tracks_ask id

lemma Backend.askRealPath_tracks (path : String) :
    (b.askRealPath path).Tracks b b' (b'.askRealPath path) :=
  Scan.tracks_ask id

lemma Backend.askDir_tracks (path : String) : (b.askDir path).Tracks b b' (b'.askDir path) := by
  have hlisting : (Scan.ask .readDir path (b.readDir path)).Tracks b b'
      (Scan.ask .readDir path (b'.readDir path)) := Scan.tracks_ask id
  exact hlisting.bind fun _ => Scan.tracks_refl _

namespace Directory

lemma locate_tracks (path : String) : (locate b path).Tracks b b' (locate b' path) := by
  unfold locate
  refine Scan.tracks_unless fun _ => ?_
  refine (Scan.tracks_refl _).bind fun name => ?_
  exact (b.askStat_tracks b' _).bind fun _ => Scan.tracks_refl _

lemma readValue_tracks (path : String) : (readValue b path).Tracks b b' (readValue b' path) :=
  Logged.Tracks.bind (b.askAttr_tracks b' path) fun _ => Logged.tracks_refl _

lemma readEntry_tracks (dir base : String) (e : Entry) :
    (readEntry b dir base e).Tracks b b' (readEntry b' dir base e) := by
  unfold readEntry
  cases e.kind with
  | directory => exact Logged.tracks_refl _
  | symlink =>
    exact Logged.Tracks.bind (b.askLink_tracks b' _) fun _ => Logged.tracks_refl _
  | file =>
    by_cases h : (Access.ofMode e.mode).shows = true
    · simp only [h, if_true]
      exact (readValue_tracks b b' _).bind fun _ => Logged.tracks_refl _
    · simp only [h]
      exact Logged.tracks_refl _

lemma readEntries_tracks (dir base : String) (es : List Entry) :
    (readEntries b dir base es).Tracks b b' (readEntries b' dir base es) := by
  induction es with
  | nil => exact Logged.tracks_refl _
  | cons e es ih =>
    rw [readEntries_cons, readEntries_cons]
    refine (readEntry_tracks b b' dir base e).bind fun item => ?_
    exact ih.bind fun _ => Logged.tracks_refl _

lemma linkBase_tracks (dir : String) (es : List Entry) :
    (linkBase b dir es).Tracks b b' (linkBase b' dir es) := by
  unfold linkBase
  split
  · exact b.askRealPath_tracks b' dir
  · exact Scan.tracks_refl _

lemma read_tracks (d : Directory) : (d.read b).Tracks b b' (d.read b') := by
  unfold Directory.read
  refine (b.askDir_tracks b' _).bind fun es => ?_
  refine (linkBase_tracks b b' _ es).bind fun base => ?_
  refine (Scan.tracks_lift (readEntries_tracks b b' _ base es)).bind fun items => ?_
  exact Scan.tracks_refl _

/-- **Own answers**: a directory is loaded the same from any file system that answers alike what is
asked about it. -/
theorem load_tracks (path : String) : (load b path).Tracks b b' (load b' path) := by
  unfold load
  refine (locate_tracks b b' path).bind fun d => ?_
  exact (Scan.tracks_lift (read_tracks b b' d)).bind fun _ => Scan.tracks_refl _

end Directory

/-! ### Devices and drivers -/

/-- The same mount over another file system. -/
def Mounted.over (sys : Mounted) (b' : Backend) : Mounted := { sys with backend := b' }

variable (sys : Mounted)

namespace BusList

lemma load_tracks : (load sys).Tracks sys.backend b' (load (sys.over b')) :=
  (Directory.load_tracks sys.backend b' sys.busPath).bind fun _ => Scan.tracks_refl _

lemma available_tracks : (available sys).Tracks sys.backend b' (available (sys.over b')) :=
  Logged.Tracks.bind (load_tracks b' sys) fun _ => Logged.tracks_refl _

lemma firstWith_tracks (busId : String) (buses : List (String × String)) :
    (firstWith b busId buses).Tracks b b' (firstWith b' busId buses) := by
  induction buses with
  | nil => exact Logged.tracks_refl _
  | cons bus rest ih =>
    refine Logged.Tracks.bind (b.askStat_tracks b' _) fun r => ?_
    cases r with
    | ok kind => exact Logged.tracks_refl _
    | error e => exact ih

lemma find_tracks (buses : BusList) (busId : String) :
    (buses.find b busId).Tracks b b' (buses.find b' busId) := by
  unfold find
  refine Scan.tracks_unless fun _ => ?_
  refine (Scan.tracks_lift (firstWith_tracks b b' busId _)).bind fun r => ?_
  exact Scan.tracks_refl _

lemma nameFor_tracks (buses : BusList) (busId : String) :
    (buses.nameFor b busId).Tracks b b' (buses.nameFor b' busId) :=
  Logged.Tracks.bind (find_tracks b b' buses busId) fun _ => Logged.tracks_refl _

end BusList

lemma Device.loadOn_tracks (buses : BusList) (path : String) :
    (loadOn sys buses path).Tracks sys.backend b' (loadOn (sys.over b') buses path) := by
  unfold loadOn
  refine Scan.tracks_unless fun _ => ?_
  refine ((Directory.load_tracks sys.backend b' path).noting _).bind fun d => ?_
  refine (Scan.tracks_lift (buses.nameFor_tracks sys.backend b' d.name)).bind fun name => ?_
  exact Scan.tracks_refl _

/-- A device depends on its own directory, the list of the buses and the look-ups there. -/
theorem Device.load_tracks (path : String) :
    (load sys path).Tracks sys.backend b' (load (sys.over b') path) :=
  (Scan.tracks_lift (BusList.available_tracks b' sys)).bind fun buses =>
    loadOn_tracks b' sys buses path

theorem Driver.load_tracks (path : String) :
    (load sys path).Tracks sys.backend b' (load (sys.over b') path) := by
  unfold load
  refine Scan.tracks_unless fun _ => ?_
  exact ((Directory.load_tracks sys.backend b' path).noting _).bind fun _ => Scan.tracks_refl _

/-! ### Links -/

namespace Bound

lemma follow_tracks (serial : Serial) (bound : Bound) (link : Link) :
    (bound.follow sys serial link).Tracks sys.backend b'
      (bound.follow (sys.over b') serial link) := by
  unfold follow
  rcases Role.ofLink link.name with _ | _ | _
  · exact Logged.tracks_refl _
  · by_cases h : bound.device.isSome = true
    · simp only [h, if_true]
      exact Logged.tracks_refl _
    · simp only [h]
      exact Logged.Tracks.bind (Device.load_tracks b' sys _) fun _ => Logged.tracks_refl _
  · by_cases h : bound.driver.isSome = true
    · simp only [h, if_true]
      exact Logged.tracks_refl _
    · simp only [h]
      exact Logged.Tracks.bind (Driver.load_tracks b' sys _) fun _ => Logged.tracks_refl _

/-- The links of a class device lead to the same objects over any file system that answers alike
what is asked on the way. -/
theorem followAll_tracks (serial : Serial) (links : List Link) (bound : Bound) :
    (followAll sys serial links bound).Tracks sys.backend b'
      (followAll (sys.over b') serial links bound) := by
  induction links generalizing bound with
  | nil => exact Logged.tracks_refl _
  | cons link links ih =>
    rw [followAll_cons, followAll_cons]
    exact (follow_tracks b' sys serial bound link).bind ih

end Bound

end DeviceModel
