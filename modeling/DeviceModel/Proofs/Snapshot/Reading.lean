import DeviceModel.Proofs.Graph.Visit
import DeviceModel.Session.Run

/-!
What reading a directory makes of its listing.

A read fails only if the directory cannot be listed, or if links are listed and its real place is
not known; the directory is then left as it was. Otherwise each entry becomes an attribute, a link
or a directory, in the order of the listing, but for the links that cannot be read. Only a file
that its owner may read is asked for its value.
-/

namespace DeviceModel

open Event (queries)

/-! ### One entry -/

/-- What is asked about an entry of the directory `dir`. -/
def Entry.query? (dir : String) (e : Entry) : Option (Query × String) :=
  match e.kind with
  | .directory => none
  | .symlink => some (.readLink, Path.join dir e.name)
  | .file => if e.mode &&& 0o400 ≠ 0 then some (.readAttr, Path.join dir e.name) else none

/-- An attribute shows a file of the directory `dir`. -/
structure Attribute.Shows (b : Backend) (dir : String) (e : Entry) (a : Attribute) : Prop where
  name : a.name = e.name
  path : a.path = Path.join dir e.name
  access : a.access = Access.ofMode e.mode
  value : ∀ text, a.value = some text ↔ e.mode &&& 0o400 ≠ 0 ∧
    ∃ bytes, b.readAttr (Path.join dir e.name) = .ok bytes ∧ text = Text.decodeLossy bytes

/-- A link shows a symbolic link of the directory `dir`, with its target told from `base`. -/
structure Link.Shows (b : Backend) (dir base : String) (e : Entry) (l : Link) : Prop where
  name : l.name = e.name
  path : l.path = Path.join dir e.name
  target : ∃ target, b.readLink (Path.join dir e.name) = .ok target ∧
    l.target = Path.resolve base target

lemma Access.shows_ofMode (mode : UInt32) :
    (Access.ofMode mode).shows = true ↔ mode &&& 0o400 ≠ 0 := by
  simp [Access.ofMode]

namespace Directory

variable (b : Backend) (dir base : String)

lemma queries_readEntry (e : Entry) :
    queries (readEntry b dir base e).events = (e.query? dir).toList := by
  unfold readEntry Entry.query?
  rcases e.kind with _ | _ | _
  · rfl
  · rcases hl : b.readLink (Path.join dir e.name) with err | target <;>
      simp [Backend.askLink, hl, queries, Event.query?]
  · by_cases hs : (Access.ofMode e.mode).shows = true
    · have hm := (Access.shows_ofMode e.mode).1 hs
      rcases hv : b.readAttr (Path.join dir e.name) with err | bytes <;>
        simp [readValue, Backend.askAttr, hs, hm, hv, queries, Event.query?]
    · have hm : ¬ e.mode &&& 0o400 ≠ 0 := fun hm => hs ((Access.shows_ofMode e.mode).2 hm)
      simp [hs, hm]

lemma queries_readEntries (es : List Entry) :
    queries (readEntries b dir base es).events = es.filterMap (Entry.query? dir) := by
  induction es with
  | nil => rfl
  | cons e es ih =>
    rw [readEntries_cons, Logged.events_bind, Event.queries_append, queries_readEntry,
      Logged.events_bind, Event.queries_append, ih, List.filterMap_cons]
    cases e.query? dir <;> simp

/-! ### All entries -/

/-- What is picked of some elements stands in the order of those that it is picked of. -/
lemma forall₂_filterMap {α β : Type} {R : α → β → Prop} {f : α → Option β} {p : α → Bool}
    {l : List α} (hsome : ∀ a ∈ l, p a = true → ∃ x, f a = some x ∧ R a x)
    (hnone : ∀ a ∈ l, p a = false → f a = none) :
    List.Forall₂ R (l.filter p) (l.filterMap f) := by
  induction l with
  | nil => exact .nil
  | cons a l ih =>
    obtain ⟨hsome_a, hsome_l⟩ := List.forall_mem_cons.1 hsome
    obtain ⟨hnone_a, hnone_l⟩ := List.forall_mem_cons.1 hnone
    have hrest := ih hsome_l hnone_l
    rcases hp : p a with _ | _
    · rwa [List.filter_cons_of_neg (by simp [hp]), List.filterMap_cons_none (hnone_a hp)]
    · obtain ⟨x, hx, hr⟩ := hsome_a hp
      rw [List.filter_cons_of_pos hp, List.filterMap_cons_some hx]
      exact .cons hr hrest

lemma filterMap_readEntries {α : Type} (pick : Item → Option α) (es : List Entry) :
    (readEntries b dir base es).value.filterMap pick =
      es.filterMap fun e => (readEntry b dir base e).value.bind pick := by
  rw [value_readEntries, List.filterMap_filterMap]

/-- Each file is shown by an attribute. -/
lemma attributes_readEntries (es : List Entry) :
    List.Forall₂ (Attribute.Shows b dir) (es.filter (·.kind = .file))
      ((readEntries b dir base es).value.filterMap Item.attr?) := by
  rw [filterMap_readEntries]
  refine forall₂_filterMap (fun e _ hk => ?_) fun e _ hk => ?_
  · have hfile : e.kind = .file := by simpa using hk
    rw [value_readEntry, hfile]
    refine ⟨_, rfl, ⟨rfl, rfl, rfl, fun text => ?_⟩⟩
    have hshows := Access.shows_ofMode e.mode
    -- the value is that of the file if the mode lets its owner read it, and else there is none
    by_cases hs : (Access.ofMode e.mode).shows = true
    · have hm := hshows.1 hs
      rcases hv : b.readAttr (Path.join dir e.name) with err | bytes <;>
        simp [hs, hm, Except.toOption, eq_comm]
    · have hm : ¬ e.mode &&& 0o400 ≠ 0 := fun hm => hs (hshows.2 hm)
      simp [hs, hm]
  · have hfile : e.kind ≠ .file := by simpa using hk
    rw [value_readEntry]
    rcases hkind : e.kind with _ | _ | _
    · rfl
    · cases b.readLink (Path.join dir e.name) <;> rfl
    · exact absurd hkind hfile

/-- Each symbolic link that can be read is shown by a link. -/
lemma links_readEntries (es : List Entry) :
    List.Forall₂ (Link.Shows b dir base)
      (es.filter fun e => e.kind = .symlink ∧ (b.readLink (Path.join dir e.name)).isOk)
      ((readEntries b dir base es).value.filterMap Item.link?) := by
  rw [filterMap_readEntries]
  refine forall₂_filterMap (fun e _ hk => ?_) fun e _ hk => ?_
  · have hlink : e.kind = .symlink ∧ (b.readLink (Path.join dir e.name)).isOk = true := by
      simpa using hk
    rw [value_readEntry, hlink.1]
    rcases hl : b.readLink (Path.join dir e.name) with err | target
    · simp [hl, Except.isOk, Except.toBool] at hlink
    · exact ⟨_, rfl, ⟨rfl, rfl, target, hl, rfl⟩⟩
  · have hlink : e.kind = .symlink → (b.readLink (Path.join dir e.name)).isOk = false := by
      simpa using hk
    rw [value_readEntry]
    rcases hkind : e.kind with _ | _ | _
    · rfl
    · rcases hl : b.readLink (Path.join dir e.name) with err | target
      · rfl
      · have hfails := hlink hkind
        simp [hl, Except.isOk, Except.toBool] at hfails
    · rfl

/-! ### The whole read -/

lemma queries_askDir (path : String) :
    queries (b.askDir path).run.events = [(.readDir, path)] := by
  unfold Backend.askDir
  rw [Scan.events_run_bind]
  rcases hr : b.readDir path with e | l
  · rfl
  · simp [Except.toOption, queries, Event.query?]

lemma queries_linkBase (es : List Entry) :
    queries (linkBase b dir es).run.events =
      if es.any (·.kind = .symlink) then [(.realPath, dir)] else [] := by
  unfold linkBase
  split <;> rfl

lemma value_linkBase (es : List Entry) :
    (linkBase b dir es).run.value =
      if es.any (·.kind = .symlink) then b.realPath dir else .ok dir := by
  unfold linkBase
  split <;> rfl

/-- All that is asked to read a directory that lists `es`. -/
def questions (d : Directory) (es : List Entry) : List (Query × String) :=
  (.readDir, d.path) :: ((if es.any (·.kind = .symlink) then [(.realPath, d.path)] else []) ++
    es.filterMap (Entry.query? d.path))

lemma queries_closingAll (ds : List Directory) : queries (closingAll ds) = [] := by
  refine List.filterMap_eq_nil_iff.2 fun e he => ?_
  obtain ⟨k, p, rfl⟩ := closingAll_closed ds e he
  rfl

/-- The two calls that a read stands or falls with come before all others. -/
lemma read_cases (d : Directory) :
    (∃ e, (d.read b).run.value = .error e ∧
      ∀ p, (.readAttr, p) ∉ queries (d.read b).run.events) ∨
    ∃ l base, b.readDir d.path = .ok l ∧ (linkBase b d.path l.entries).run.value = .ok base ∧
      (d.read b).run.value = .ok (ofItems d.name d.path
        (readEntries b d.path base l.entries).value) ∧
      queries (d.read b).run.events = d.questions l.entries := by
  have hask := value_askDir b d.path
  rcases hl : b.readDir d.path with e | l
  · rw [hl] at hask
    refine .inl ⟨e, ?_, fun p => ?_⟩
    · rw [Directory.read, Scan.run_bind_of_error hask]
    · rw [Directory.read, Scan.run_bind_of_error hask, queries_askDir]
      simp
  · rw [hl] at hask
    have hbase := value_linkBase b d.path l.entries
    rcases hb : (linkBase b d.path l.entries).run.value with e | base
    · -- the base can only be refused where it is asked for, which is if there are links
      have hlinks : l.entries.any (·.kind = .symlink) = true := by
        by_contra hnone
        rw [hb, if_neg hnone] at hbase
        cases hbase
      refine .inl ⟨e, ?_, fun p => ?_⟩
      · rw [Directory.read, Scan.run_bind_of_ok hask, Scan.run_bind_of_error hb]
      · rw [Directory.read, Scan.run_bind_of_ok hask, Scan.run_bind_of_error hb,
          Event.queries_append, queries_askDir, queries_linkBase, if_pos hlinks]
        simp
    · refine .inr ⟨l, base, rfl, hb, ?_, ?_⟩
      · rw [value_read, hl, Except.bind, hb, Except.bind]
      · rw [events_read_of_ok b hl hb, Event.queries_append, queries_askDir,
          Event.queries_append, queries_linkBase, Event.queries_append, queries_readEntries,
          queries_closingAll, List.append_nil]
        rfl

/-- What a read makes of the entries `es` of the directory `d`, with the links told from `base`. -/
structure MadeOf (d : Directory) (es : List Entry) (base : String) (r : Directory) : Prop where
  isListed : r.isListed = true
  name : r.name = d.name
  path : r.path = d.path
  attributes : List.Forall₂ (Attribute.Shows b d.path) (es.filter (·.kind = .file)) r.attributes
  links : List.Forall₂ (Link.Shows b d.path base)
    (es.filter fun e => e.kind = .symlink ∧ (b.readLink (Path.join d.path e.name)).isOk) r.links
  subdirs : r.subdirs =
    (es.filter (·.kind = .directory)).map fun e => unread e.name (Path.join d.path e.name)

lemma madeOf_ofItems (d : Directory) (es : List Entry) (base : String) :
    d.MadeOf b es base (ofItems d.name d.path (readEntries b d.path base es).value) where
  isListed := rfl
  name := rfl
  path := rfl
  attributes := attributes_readEntries b d.path base es
  links := links_readEntries b d.path base es
  subdirs := subdirs_readEntries b d.path base es

/-- A directory that is found was listed. -/
lemma exists_of_mem_subdirs {d r s : Directory} (h : (d.read b).run.value = .ok r)
    (hs : s ∈ r.subdirs) :
    ∃ l, b.readDir d.path = .ok l ∧ ∃ e ∈ l.entries, e.kind = .directory ∧
      s = unread e.name (Path.join d.path e.name) := by
  obtain ⟨l, base, hl, -, rfl⟩ := (read_eq_ok_iff b).1 h
  rw [(madeOf_ofItems b d l.entries base).subdirs] at hs
  obtain ⟨e, he, rfl⟩ := List.mem_map.1 hs
  obtain ⟨hmem, hk⟩ := List.mem_filter.1 he
  exact ⟨l, hl, e, hmem, by simpa using hk, rfl⟩

/-- Only files that their owner may read are asked for their values. -/
lemma exists_of_readAttr_mem {d : Directory} {es : List Entry} {p : String}
    (h : (.readAttr, p) ∈ d.questions es) :
    ∃ e ∈ es, e.kind = .file ∧ e.mode &&& 0o400 ≠ 0 ∧ p = Path.join d.path e.name := by
  rw [questions, List.mem_cons, List.mem_append] at h
  rcases h with h | h | h
  · cases h
  · split at h <;> simp at h
  · obtain ⟨e, he, hq⟩ := List.mem_filterMap.1 h
    simp only [Entry.query?] at hq
    rcases hk : e.kind with _ | _ | _ <;> simp only [hk] at hq
    · cases hq
    · simp at hq
    · split at hq
      · next hm =>
        simp only [Option.some.injEq, Prod.mk.injEq, true_and] at hq
        exact ⟨e, he, hk, hm, hq.symm⟩
      · cases hq

/-- A question that no link answers. -/
def isBrokenLink (q : Query × String) : Bool := q.1 = .readLink ∧ ¬ (b.readLink q.2).isOk

/-- Links are asked for their targets one by one. -/
lemma countP_questions (d : Directory) (es : List Entry) :
    (d.questions es).countP (isBrokenLink b) =
      es.countP fun e => e.kind = .symlink ∧ ¬ (b.readLink (Path.join d.path e.name)).isOk := by
  have hbase : (if es.any (·.kind = .symlink) then [(Query.realPath, d.path)]
      else []).countP (isBrokenLink b) = 0 := by
    split <;> rfl
  have hdir : isBrokenLink b (.readDir, d.path) = false := rfl
  rw [questions, List.countP_cons_of_neg (by simp [hdir]), List.countP_append, hbase,
    Nat.zero_add, List.countP_filterMap]
  refine List.countP_congr fun e _ => ?_
  rcases hk : e.kind with _ | _ | _
  · simp [Entry.query?, hk]
  · simp [Entry.query?, hk, isBrokenLink]
  · by_cases hm : e.mode &&& 0o400 = 0 <;> simp [Entry.query?, hk, hm, isBrokenLink]

/-- An entry is of one kind, and a link can be read or not. -/
lemma countP_kinds (ok : Entry → Bool) (es : List Entry) :
    es.countP (·.kind = .file) + es.countP (fun e => e.kind = .symlink ∧ ok e) +
      es.countP (·.kind = .directory) + es.countP (fun e => e.kind = .symlink ∧ ¬ ok e) =
        es.length := by
  induction es with
  | nil => rfl
  | cons e es ih =>
    rw [List.length_cons, ← ih]
    rcases hk : e.kind with _ | _ | _ <;> rcases ho : ok e with _ | _ <;> simp [hk, ho] <;> omega

/-- No entry is lost and none is counted twice. -/
lemma MadeOf.length_eq {d r : Directory} {es : List Entry} {base : String}
    (h : d.MadeOf b es base r) :
    r.attributes.length + r.links.length + r.subdirs.length +
      (d.questions es).countP (isBrokenLink b) = es.length := by
  rw [← h.attributes.length_eq, ← h.links.length_eq, h.subdirs, List.length_map,
    countP_questions, ← List.countP_eq_length_filter, ← List.countP_eq_length_filter,
    ← List.countP_eq_length_filter]
  exact countP_kinds (fun e => (b.readLink (Path.join d.path e.name)).isOk) es

/-- Why a directory cannot be read: it cannot be listed, or there are links and its real place is
not known. -/
def Refuses (d : Directory) (e : Error) : Prop :=
  b.readDir d.path = .error e ∨ ∃ l, b.readDir d.path = .ok l ∧
    (∃ x ∈ l.entries, x.kind = .symlink) ∧ b.realPath d.path = .error e

lemma refuses_iff {d : Directory} {e : Error} :
    (d.read b).run.value = .error e ↔ d.Refuses b e := by
  rw [value_read]
  unfold Refuses
  rcases hl : b.readDir d.path with e' | l
  · simp [Except.bind]
  · have hbase := value_linkBase b d.path l.entries
    by_cases hlinks : ∃ x ∈ l.entries, x.kind = .symlink
    · rw [if_pos (by simpa using hlinks)] at hbase
      rw [Except.bind, hbase]
      rcases hr : b.realPath d.path with e' | base <;> simp [Except.bind, hlinks]
    · rw [if_neg (by simpa using hlinks)] at hbase
      rw [Except.bind, hbase]
      simp [Except.bind, hlinks]

/-- **A read, entry by entry**: it fails if the directory cannot be listed, or if there are links
and its real place is not known, and leaves the directory as it was. Otherwise the files, the
links that can be read and the directories are what is listed, each in the order of the listing. No
file is asked for its value that its owner may not read. -/
theorem readOnce_classifies (d : Directory) :
    (∀ e, (Session.readOnce b d).value.2 = .error e ↔ d.Refuses b e) ∧
    (match (Session.readOnce b d).value with
      | (r, .error _) => r = d
      | (r, .ok ()) => ∃ l base, b.readDir d.path = .ok l ∧
          ((∃ x ∈ l.entries, x.kind = .symlink) → b.realPath d.path = .ok base) ∧
          d.MadeOf b l.entries base r ∧
          queries (Session.readOnce b d).events = d.questions l.entries ∧
          r.attributes.length + r.links.length + r.subdirs.length +
            (d.questions l.entries).countP (isBrokenLink b) = l.entries.length) ∧
    ∀ p, (.readAttr, p) ∈ queries (Session.readOnce b d).events →
      ∃ l, b.readDir d.path = .ok l ∧ ∃ e ∈ l.entries,
        e.kind = .file ∧ e.mode &&& 0o400 ≠ 0 ∧ p = Path.join d.path e.name := by
  rcases read_cases b d with ⟨e, hr, hasks⟩ | ⟨l, base, hl, hb, hr, hasks⟩
  · have honce : Session.readOnce b d = ⟨(d.read b).run.events, (d, .error e)⟩ := by
      ext : 1 <;> simp [Session.readOnce, hr]
    rw [honce]
    refine ⟨fun e' => ?_, rfl, fun p hp => absurd hp (hasks p)⟩
    rw [← refuses_iff, hr]
    simp
  · have honce : Session.readOnce b d = ⟨(d.read b).run.events, (ofItems d.name d.path
        (readEntries b d.path base l.entries).value, .ok ())⟩ := by
      ext : 1 <;> simp [Session.readOnce, hr]
    have hmade := madeOf_ofItems b d l.entries base
    rw [honce]
    refine ⟨fun e => ?_, ⟨l, base, hl, fun hlinks => ?_, hmade, hasks, hmade.length_eq⟩,
      fun p hp => ?_⟩
    · rw [← refuses_iff, hr]
      simp
    · rw [value_linkBase, if_pos (by simpa using hlinks)] at hb
      exact hb
    · rw [hasks] at hp
      exact ⟨l, hl, exists_of_readAttr_mem hp⟩

end Directory

end DeviceModel
