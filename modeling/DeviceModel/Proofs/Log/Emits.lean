import Mathlib.Tactic.Lemma
import DeviceModel.Graph.Class
import DeviceModel.Proofs.Snapshot.Opening

/-!
What kinds of events an operation may leave.

A scan of directories asks, makes and releases directories, and gives three notices; loading
a device or a driver adds a few of its own. So whatever is not in one of these vocabularies
is left by the caller and by nobody else.
-/

namespace DeviceModel

namespace Logged

variable {α β : Type} {P : Event → Prop}

/-- All events that are left satisfy `P`. -/
def Emits (P : Event → Prop) (x : Logged α) : Prop := ∀ e ∈ x.events, P e

lemma emits_pure (a : α) : (pure a : Logged α).Emits P := by
  intro e he
  simp at he

lemma emits_emit {es : List Event} (h : ∀ e ∈ es, P e) : (emit es).Emits P := h

lemma emits_note {n : Notice} (h : P (.noticed n)) : (note n).Emits P := by
  intro e he
  rw [events_note, List.mem_singleton] at he
  rw [he]
  exact h

lemma Emits.bind {x : Logged α} {f : α → Logged β} (hx : x.Emits P)
    (hf : ∀ a, (f a).Emits P) : (x >>= f).Emits P := by
  intro e he
  rw [events_bind, List.mem_append] at he
  rcases he with he | he
  · exact hx e he
  · exact hf _ e he

lemma Emits.map {x : Logged α} (hx : x.Emits P) (f : α → β) : (f <$> x).Emits P := by
  intro e he
  rw [events_map] at he
  exact hx e he

lemma Emits.mono {Q : Event → Prop} {x : Logged α} (hx : x.Emits P) (h : ∀ e, P e → Q e) :
    x.Emits Q :=
  fun e he => h e (hx e he)

end Logged

namespace Scan

variable {α β : Type} {P : Event → Prop}

lemma emits_pure (a : α) : (pure a : Scan α).run.Emits P := Logged.emits_pure _

lemma emits_throw (e : Error) : (throw e : Scan α).run.Emits P := Logged.emits_pure _

lemma emits_liftM (x : Except Error α) : (liftM x : Scan α).run.Emits P := by
  rw [run_liftM]
  exact Logged.emits_pure x

lemma emits_ask {query : Query} {path : String} (answer : Except Error α)
    (h : P (.asked query path)) : (ask query path answer).run.Emits P := by
  intro e he
  rw [run_ask, List.mem_singleton] at he
  rw [he]
  exact h

lemma emits_emit {es : List Event} (h : ∀ e ∈ es, P e) : (emit es).run.Emits P := by
  rw [Logged.Emits, run_emit]
  exact h

lemma emits_lift {x : Logged α} (hx : x.Emits P) : (ExceptT.lift x : Scan α).run.Emits P :=
  hx.map _

lemma emits_bind {x : Scan α} {f : α → Scan β} (hx : x.run.Emits P)
    (hf : ∀ a, (f a).run.Emits P) : (x >>= f).run.Emits P := by
  rw [ExceptT.run_bind]
  refine hx.bind fun r => ?_
  cases r with
  | ok a => exact hf a
  | error e => exact Logged.emits_pure _

/-- What comes next may rely on what has been found. -/
lemma emits_bind_of_ok {x : Scan α} {f : α → Scan β} (hx : x.run.Emits P)
    (hf : ∀ a, x.run.value = .ok a → (f a).run.Emits P) : (x >>= f).run.Emits P := by
  intro e he
  rw [events_run_bind, List.mem_append] at he
  rcases he with he | he
  · exact hx e he
  · rcases hr : x.run.value with e' | a
    · simp [hr, Except.toOption] at he
    · rw [hr] at he
      exact hf a hr e he

/-- A refusal at the start leaves nothing. -/
lemma emits_unless {c : Prop} [Decidable c] {e : Error} {f : PUnit → Scan α}
    (h : ¬ c → (f ⟨⟩).run.Emits P) : (if c then throw e >>= f else f ⟨⟩).run.Emits P := by
  by_cases hc : c
  · rw [if_pos hc]
    exact Logged.emits_pure _
  · rw [if_neg hc]
    exact h hc

lemma emits_noting {x : Scan α} {n : Error → Notice} (hx : x.run.Emits P)
    (hn : ∀ e, P (.noticed (n e))) : (x.noting n).run.Emits P := by
  refine Logged.Emits.bind hx fun r => ?_
  cases r with
  | ok a => exact Logged.emits_pure _
  | error e => exact (Logged.emits_note (hn e)).bind fun _ => Logged.emits_pure _

end Scan

/-! ### Directories -/

/-- What a scan of directories may leave that opens and lists only paths with `p`. -/
def Event.OfSnapshot (p : String → Prop) : Event → Prop
  | asked .stat path | asked .readDir path => p path
  | asked _ _ | opened .directory _ | closed .directory _ => True
  | noticed (.linkUnreadable _ _) | noticed (.attributeUnreadable _ _)
  | noticed (.nameNotText _) => True
  | _ => False

namespace Directory

open Event (OfSnapshot)

variable {p : String → Prop}

lemma closingAll_eq_flatMap (ds : List Directory) : closingAll ds = ds.flatMap closing := by
  induction ds with
  | nil => rfl
  | cons d ds ih => rw [closingAll_cons, ih, List.flatMap_cons]

lemma closing_ofSnapshot (d : Directory) : ∀ e ∈ d.closing, e.OfSnapshot p := by
  induction d using Directory.induction with
  | unread n x => simp [closing, OfSnapshot]
  | listed n x as ls ds ih =>
    intro e he
    rw [closing_eq, List.mem_cons, closingAll_eq_flatMap, List.mem_flatMap] at he
    rcases he with rfl | ⟨d, hd, he⟩
    · trivial
    · exact ih d hd e he

variable (b : Backend)

lemma askDir_emits {path : String} (h : p path) : (b.askDir path).run.Emits (OfSnapshot p) := by
  unfold Backend.askDir
  refine Scan.emits_bind (Scan.emits_ask _ h) fun listing => ?_
  refine Scan.emits_bind (Scan.emits_emit fun e he => ?_) fun _ => Scan.emits_pure _
  rw [List.eq_of_mem_replicate he]
  trivial

lemma locate_emits {path : String} (hp : p (Path.normalize path)) :
    (locate b path).run.Emits (OfSnapshot p) := by
  unfold locate
  refine Scan.emits_unless fun _ => ?_
  refine Scan.emits_bind (Scan.emits_liftM _) fun name => ?_
  refine Scan.emits_bind (Scan.emits_ask _ hp) fun kind => ?_
  cases kind with
  | directory =>
    exact Scan.emits_bind (Scan.emits_emit (by simp [OfSnapshot])) fun _ => Scan.emits_pure _
  | symlink | file => exact Scan.emits_throw _

lemma readValue_emits (path : String) : (readValue b path).Emits (OfSnapshot p) := by
  refine Logged.Emits.bind (Scan.emits_ask _ trivial) fun r => ?_
  cases r with
  | ok bytes => exact Logged.emits_pure _
  | error e => exact (Logged.emits_note trivial).bind fun _ => Logged.emits_pure _

lemma readEntry_emits (dir base : String) (e : Entry) :
    (readEntry b dir base e).Emits (OfSnapshot p) := by
  unfold readEntry
  cases e.kind with
  | directory =>
    exact Logged.Emits.bind (Logged.emits_emit (by simp [OfSnapshot])) fun _ => Logged.emits_pure _
  | symlink =>
    refine Logged.Emits.bind (Scan.emits_ask _ trivial) fun r => ?_
    cases r with
    | ok target => exact Logged.emits_pure _
    | error e => exact (Logged.emits_note trivial).bind fun _ => Logged.emits_pure _
  | file =>
    by_cases h : (Access.ofMode e.mode).shows = true
    · simp only [h, if_true]
      exact (readValue_emits b _).bind fun _ => Logged.emits_pure _
    · simp only [h]
      exact (Logged.emits_pure _).bind fun _ => Logged.emits_pure _

lemma readEntries_emits (dir base : String) (es : List Entry) :
    (readEntries b dir base es).Emits (OfSnapshot p) := by
  induction es with
  | nil => exact Logged.emits_pure _
  | cons e es ih =>
    rw [readEntries_cons]
    exact (readEntry_emits b dir base e).bind fun _ => ih.bind fun _ => Logged.emits_pure _

lemma linkBase_emits (dir : String) (es : List Entry) :
    (linkBase b dir es).run.Emits (OfSnapshot p) := by
  unfold linkBase
  split
  · exact Scan.emits_ask _ trivial
  · exact Scan.emits_pure _

/-- What follows the listing of a directory opens and lists no other. -/
lemma readListed_emits (d : Directory) (es : List Entry) :
    (do
      let base ← linkBase b d.path es
      let items ← readEntries b d.path base es
      Scan.emit (closingAll d.subdirs)
      return listed d.name d.path (items.filterMap Item.attr?) (items.filterMap Item.link?)
        (items.filterMap Item.subdir?) : Scan Directory).run.Emits (OfSnapshot p) := by
  refine Scan.emits_bind (linkBase_emits b _ es) fun base => ?_
  refine Scan.emits_bind (Scan.emits_lift (readEntries_emits b _ base es)) fun items => ?_
  refine Scan.emits_bind (Scan.emits_emit fun e he => ?_) fun _ => Scan.emits_pure _
  rw [closingAll_eq_flatMap, List.mem_flatMap] at he
  obtain ⟨s, -, he⟩ := he
  exact closing_ofSnapshot s e he

lemma read_emits {d : Directory} (h : p d.path) : (d.read b).run.Emits (OfSnapshot p) := by
  unfold Directory.read
  exact Scan.emits_bind (askDir_emits b h) fun es => readListed_emits b d es

lemma load_emits {path : String} (hp : p (Path.normalize path)) :
    (load b path).run.Emits (OfSnapshot p) := by
  unfold load
  refine Scan.emits_bind_of_ok (locate_emits b hp) fun d hd => ?_
  obtain ⟨-, n, -, -, rfl⟩ := (locate_eq_ok_iff b).1 hd
  refine Scan.emits_bind (Scan.emits_lift (read_emits b hp)) fun r => ?_
  cases r with
  | ok d => exact Scan.emits_pure _
  | error e =>
    exact Scan.emits_bind (Scan.emits_emit (closing_ofSnapshot _)) fun _ => Scan.emits_throw _

lemma untilFailure_emits {P : Event → Prop}
    {f : Directory → Logged (Directory × Except Error Unit)} {ds : List Directory}
    (h : ∀ d ∈ ds, (f d).Emits P) : (untilFailure f ds).Emits P := by
  induction ds with
  | nil => exact Logged.emits_pure _
  | cons d ds ih =>
    refine Logged.Emits.bind (h d List.mem_cons_self) fun r => ?_
    obtain ⟨d, e | u⟩ := r
    · exact Logged.emits_pure _
    · exact (ih fun x hx => h x (List.mem_cons_of_mem _ hx)).bind fun _ => Logged.emits_pure _

lemma readBelow_emits (depth : Nat) (d : Directory) :
    (readBelow b depth d).Emits (OfSnapshot fun _ => True) := by
  induction depth generalizing d with
  | zero => exact Logged.emits_pure _
  | succ depth ih =>
    refine Logged.Emits.bind (read_emits b trivial) fun r => ?_
    cases r with
    | ok d => exact (untilFailure_emits fun x _ => ih x).bind fun _ => Logged.emits_pure _
    | error e => exact Logged.emits_pure _

lemma readAll_emits (d : Directory) : (readAll b d).Emits (OfSnapshot fun _ => True) := by
  induction d using Directory.induction with
  | unread n p =>
    rw [readAll_unread]
    exact readBelow_emits b _ _
  | listed n p as ls ds ih =>
    rw [readAll_listed]
    exact (untilFailure_emits ih).map _

end Directory

/-! ### Devices and drivers -/

/-- What loading a device alone, or a driver, may leave. -/
def Event.OfLoading (role : Role) : Event → Prop
  | opened .device _ | noticed (.busesUnavailable _) | noticed (.onNoBus _) => role = .device
  | opened .driver _ => role = .driver
  | noticed (.invalid r _ _) => r = role
  | e => e.OfSnapshot fun _ => True

open Event (OfSnapshot OfLoading)

lemma Event.OfSnapshot.ofLoading {p : String → Prop} {role : Role} :
    ∀ e : Event, e.OfSnapshot p → e.OfLoading role
  | asked .stat _, _ | asked .readDir _, _ | asked .readLink _, _ => trivial
  | asked .readAttr _, _ | asked .realPath _, _ => trivial
  | opened .directory _, _ | closed .directory _, _ => trivial
  | noticed (.linkUnreadable _ _), _ | noticed (.attributeUnreadable _ _), _
  | noticed (.nameNotText _), _ => trivial

lemma BusList.load_emits (sys : Mounted) :
    (BusList.load sys).run.Emits (OfSnapshot fun _ => True) := by
  unfold BusList.load
  refine Scan.emits_bind (Directory.load_emits _ trivial) fun d => ?_
  exact Scan.emits_bind (Scan.emits_emit (Directory.closing_ofSnapshot d)) fun _ =>
    Scan.emits_pure _

lemma BusList.available_emits (sys : Mounted) :
    (BusList.available sys).Emits (OfLoading .device) := by
  refine Logged.Emits.bind ((load_emits sys).mono Event.OfSnapshot.ofLoading) fun r => ?_
  cases r with
  | ok buses => exact Logged.emits_pure _
  | error e => exact Logged.Emits.bind (Logged.emits_note rfl) fun _ => Logged.emits_pure _

/-- What the search for the bus of a device may leave: it looks for the bus id on the buses. -/
def BusList.Looks (buses : List (String × String)) (busId : String) (e : Event) : Prop :=
  (∃ bus ∈ buses, e = .asked .stat (Path.join bus.2 busId)) ∨ e = .noticed (.onNoBus busId)

lemma BusList.firstWith_emits (b : Backend) (busId : String) (buses : List (String × String)) :
    (firstWith b busId buses).Emits (Looks buses busId) := by
  induction buses with
  | nil => exact Logged.emits_pure _
  | cons bus rest ih =>
    have hbus : Looks (bus :: rest) busId (.asked .stat (Path.join bus.2 busId)) :=
      .inl ⟨bus, List.mem_cons_self, rfl⟩
    refine Logged.Emits.bind (Scan.emits_ask _ hbus) fun r => ?_
    cases r with
    | ok kind => exact Logged.emits_pure _
    | error e =>
      refine Logged.Emits.mono ih fun e he => he.imp_left ?_
      rintro ⟨bus', hbus', rfl⟩
      exact ⟨bus', List.mem_cons_of_mem _ hbus', rfl⟩

lemma BusList.nameFor_looks (buses : BusList) (b : Backend) (busId : String) :
    (buses.nameFor b busId).Emits (Looks buses.buses busId) := by
  have hf : (buses.find b busId).run.Emits (Looks buses.buses busId) := by
    unfold BusList.find
    refine Scan.emits_unless fun _ => ?_
    refine Scan.emits_bind (Scan.emits_lift (firstWith_emits b busId _)) fun r => ?_
    cases r with
    | some name => exact Scan.emits_pure _
    | none =>
      exact Scan.emits_bind (Scan.emits_lift (Logged.emits_note (.inr rfl))) fun _ =>
        Scan.emits_throw _
  refine Logged.Emits.bind hf fun r => ?_
  cases r <;> exact Logged.emits_pure _

lemma BusList.nameFor_emits (buses : BusList) (b : Backend) (busId : String) :
    (buses.nameFor b busId).Emits (OfLoading .device) := by
  refine (nameFor_looks buses b busId).mono fun e he => ?_
  rcases he with ⟨bus, -, rfl⟩ | rfl
  · trivial
  · rfl

lemma Device.loadOn_emits (sys : Mounted) (buses : BusList) (path : String) :
    (Device.loadOn sys buses path).run.Emits (OfLoading .device) := by
  unfold Device.loadOn
  refine Scan.emits_unless fun _ => ?_
  have hd : (Directory.load sys.backend path).run.Emits (OfSnapshot fun _ => True) :=
    Directory.load_emits _ trivial
  refine Scan.emits_bind (Scan.emits_noting (hd.mono Event.OfSnapshot.ofLoading)
    fun _ => rfl) fun d => ?_
  refine Scan.emits_bind (Scan.emits_lift (buses.nameFor_emits _ _)) fun name => ?_
  exact Scan.emits_bind (Scan.emits_emit (by simp [OfLoading])) fun _ => Scan.emits_pure _

lemma Device.load_emits (sys : Mounted) (path : String) :
    (Device.load sys path).run.Emits (OfLoading .device) :=
  Scan.emits_bind (Scan.emits_lift (BusList.available_emits sys)) fun buses =>
    loadOn_emits sys buses path

lemma Driver.load_emits (sys : Mounted) (path : String) :
    (Driver.load sys path).run.Emits (OfLoading .driver) := by
  unfold Driver.load
  refine Scan.emits_unless fun _ => ?_
  have hd : (Directory.load sys.backend path).run.Emits (OfSnapshot fun _ => True) :=
    Directory.load_emits _ trivial
  refine Scan.emits_bind (Scan.emits_noting (hd.mono Event.OfSnapshot.ofLoading)
    fun _ => rfl) fun d => ?_
  exact Scan.emits_bind (Scan.emits_emit (by simp [OfLoading])) fun _ => Scan.emits_pure _

end DeviceModel
