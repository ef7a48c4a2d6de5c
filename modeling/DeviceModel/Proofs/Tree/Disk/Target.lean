import DeviceModel.Proofs.Snapshot.Enumeration
import DeviceModel.Proofs.Snapshot.Reached
import DeviceModel.Proofs.Tree.Disk.Answers
import DeviceModel.Proofs.Tree.Disk.Stored

/-!
What the targets of links denote in a file system.

The kernel follows a target name by name, and `..` leads to the parent of the directory that has
been reached. The target that a snapshot tells is put together from names alone: there `..` takes
back the name before it. `Trails` relates the two while they go together, and they do as long as
each `..` that takes back a name of the target leads back to where that name was looked for
(`retraces`). So they do where a target climbs first, and where all that it takes back are
directories; behind a link to a directory elsewhere they part.
-/

namespace DeviceModel.DiskTree

open Text (Bytes encode)

variable {t : DiskTree} {aim : Aim} {here mid place object stack : List Bytes} {name : Bytes}
  {rest : List Bytes} {trail : List (List Bytes)} {n : DiskNode} {k m : Nat}

/-! ### Directories -/

lemma length_render_le (place : List Bytes) (name : Bytes) :
    (render place).length ≤ (render (place ++ [name])).length := by
  by_cases h : place = []
  · subst h
    exact Nat.succ_le_succ (Nat.zero_le _)
  · rw [render, render, Text.join_concat h]
    simp

lemma Fits.of_concat (h : Fits aim (place ++ [name])) : Fits aim place :=
  fun haim => Nat.lt_of_le_of_lt (length_render_le place name) (h haim)

/-- A directory is reached from the root by its own names. -/
lemma Sound.leads_self (ht : Sound t) (hd : place = [] ∨ t.isDirectory place = true)
    (hfit : Fits aim place) : Leads t aim [] place 0 place := by
  induction place using List.reverseRecOn generalizing aim with
  | nil => exact .done []
  | append_singleton place name ih =>
    have hnode : t.node? (place ++ [name]) = some .directory :=
      isDirectory_iff.1 (hd.resolve_left (by simp))
    have hname := ht.isEntry hnode
    have hparent := ht.parent hnode
    have hin : Enters t aim place name := ⟨hparent, by rwa [hname.not_isStep]⟩
    have hfinds : Finds t place name .directory := ⟨hname.not_isStep, hname.short, hnode⟩
    have hlast : Leads t aim place [name] 0 (place ++ [name]) :=
      .pass hin (.down hfinds nofun) (.done _)
    have hfront : Leads t aim.front [] place 0 place :=
      ih (.inr hparent) (fits_front_iff.2 hfit.of_concat)
    exact hfront.append hlast fun h => by simp at h

lemma Fits.dropLast (h : Fits aim place) : Fits aim place.dropLast := by
  rcases List.eq_nil_or_concat place with rfl | ⟨place, name, rfl⟩
  · exact h
  · rw [List.concat_eq_append] at h ⊢
    rw [List.dropLast_concat]
    exact h.of_concat

/-! ### Ways back -/

/-- Each `..` on the way that takes back a name of the way leads back to where that name was looked
for. These places are in `trail`, the last one first. Where a name leads nowhere the way ends. -/
def retraces (t : DiskTree) : List (List Bytes) → List Bytes → List Bytes → Bool
  | _, _, [] => true
  | trail, here, name :: rest =>
    if name = [46, 46] then
      trail.head?.all (· = here.dropLast) && t.retraces trail.tail here.dropLast rest
    else if isStep name then t.retraces trail here rest
    else
      match t.resolveWithin .target maxHops here [name] with
      | .ok next => t.retraces (here :: trail) next rest
      | .error _ => true

/-- A way that takes nothing back leads on. -/
lemma retraces_of_not_mem (h : [46, 46] ∉ rest) : t.retraces trail here rest = true := by
  induction rest generalizing trail here with
  | nil => rfl
  | cons name rest ih =>
    rw [List.mem_cons, not_or] at h
    rw [retraces, if_neg (Ne.symm h.1)]
    split
    · exact ih h.2
    · split
      · exact ih h.2
      · rfl

/-- So does a way that climbs first. -/
theorem retraces_of_climbs (up : Nat) (h : [46, 46] ∉ rest) (here : List Bytes) :
    t.retraces [] here (List.replicate up [46, 46] ++ rest) = true := by
  induction up generalizing here with
  | zero => exact retraces_of_not_mem h
  | succ up ih => exact ih here.dropLast

/-- The names of `stack` lead from the root to where the kernel is, with no more than `k` links
followed on them. The names that were put on the stack last were looked for at the places of
`trail`, and those before them are a place of their own. -/
inductive Trails (t : DiskTree) (aim : Aim) :
    Nat → List Bytes → List (List Bytes) → List Bytes → Prop
  | start {here : List Bytes} (hd : here = [] ∨ t.isDirectory here = true) (hfit : Fits aim here) :
      Trails t aim 0 here [] here
  | name {k j : Nat} {stack here next : List Bytes} {trail : List (List Bytes)} {name : Bytes}
      (h : Trails t aim k stack trail here) (hn : Leads t aim here [name] j next) :
      Trails t aim (k + j) (stack ++ [name]) (here :: trail) next

lemma front_of_ne (haim : aim ≠ .entry) : aim.front = aim := by
  cases aim <;> first | rfl | exact absurd rfl haim

lemma Trails.leads (ht : Sound t) (haim : aim ≠ .entry) (h : Trails t aim k stack trail here) :
    Leads t aim [] stack k here := by
  induction h with
  | start hd hfit => exact ht.leads_self hd hfit
  | name _ hn ih =>
    rw [← front_of_ne haim] at ih
    exact ih.append hn (follows_of_ne haim _)

/-- Where `..` takes back a name, both are where they were before it. -/
lemma Trails.back (ht : Sound t) (h : Trails t aim k stack trail here)
    (hd : t.isDirectory here = true) (hr : t.retraces trail here ([46, 46] :: rest) = true) :
    ∃ k' ≤ k, ∃ trail', Trails t aim k' stack.dropLast trail' here.dropLast ∧
      t.retraces trail' here.dropLast rest = true := by
  cases h with
  | start _ hfit =>
    -- no name was put on the stack yet: both climb from where they began
    have hparent := ht.isDirectory_dropLast hd
    exact ⟨0, Nat.le_refl 0, [], .start (.inr hparent) hfit.dropLast, hr⟩
  | @name k j stack back _ trail name h _ =>
    rw [retraces, if_pos rfl, Bool.and_eq_true] at hr
    obtain ⟨hback, hr⟩ := hr
    have hback : back = here.dropLast := by simpa using hback
    rw [List.dropLast_concat, ← hback]
    exact ⟨k, Nat.le_add_right k j, trail, h, hback ▸ hr⟩

/-- One name followed by both. -/
lemma Trails.step (ht : Sound t) (haim : aim ≠ .entry) (h : Trails t aim k stack trail here)
    (hw : Leads t aim here (name :: rest) m object) (hm : m ≤ maxHops)
    (hr : t.retraces trail here (name :: rest) = true) :
    ∃ k' m' trail' here', Trails t aim k' (climb stack name) trail' here' ∧
      Leads t aim here' rest m' object ∧ k' + m' ≤ k + m ∧ m' ≤ m ∧
        t.retraces trail' here' rest = true := by
  by_cases hs : isStep name = true
  · have hpass := leads_of_passes (.turn hs) hw
    by_cases hdots : name = [46, 46]
    · -- `..` takes back a name
      subst hdots
      obtain ⟨k', hk, trail', h', hr'⟩ := h.back ht hw.enters.isDirectory hr
      exact ⟨k', m, trail', here.dropLast, h', hpass, Nat.add_le_add_right hk m, Nat.le_refl m, hr'⟩
    · -- `.` leads nowhere
      rw [if_neg hdots] at hpass
      rw [retraces, if_neg hdots, if_pos hs] at hr
      rw [climb, if_neg hdots, if_pos hs]
      exact ⟨k, m, trail, here, h, hpass, Nat.le_refl _, Nat.le_refl m, hr⟩
  · have hdots : name ≠ [46, 46] := by
      rintro rfl
      exact hs rfl
    obtain ⟨j, m', next, rfl, hname, hrest⟩ :=
      Leads.split (follows_of_ne haim rest)
        (show Leads t aim here ([name] ++ rest) m object from hw)
    rw [front_of_ne haim] at hname
    -- the name leads to the same place within the limit that `retraces` puts to it
    have hresolve : t.resolveWithin .target maxHops here [name] = .ok next :=
      (resolveWithin_eq_ok_iff (by decide)).2
        ⟨j, Nat.le_trans (Nat.le_add_right j m') hm, hname.target haim⟩
    rw [retraces, if_neg hdots, if_neg hs, hresolve] at hr
    rw [climb, if_neg hdots, if_neg hs]
    exact ⟨k + j, m', here :: trail, next, .name h hname, hrest, by omega, by omega, hr⟩

/-- The whole of a way followed by both. -/
lemma Trails.run (ht : Sound t) (haim : aim ≠ .entry) (h : Trails t aim k stack trail here)
    (hw : Leads t aim here rest m object) (hm : m ≤ maxHops)
    (hr : t.retraces trail here rest = true) :
    ∃ k' ≤ k + m, Leads t aim [] (rest.foldl climb stack) k' object := by
  induction rest generalizing k stack trail here m with
  | nil =>
    cases hw
    exact ⟨k, Nat.le_add_right k 0, h.leads ht haim⟩
  | cons name rest ih =>
    obtain ⟨k', m', trail', here', h', hw', hle, hm', hr'⟩ := h.step ht haim hw hm hr
    obtain ⟨j, hj, hleads⟩ := ih h' hw' (Nat.le_trans hm' hm) hr'
    exact ⟨j, Nat.le_trans hj hle, hleads⟩

/-! ### Targets -/

lemma isEntry_of_encode {s : String} (h : IsEntry (encode s)) : Path.IsEntry s := by
  have hstep : ¬ (s = "" ∨ s = "." ∨ s = "..") := by
    rw [← isStep_encode_iff, h.not_isStep]
    exact Bool.false_ne_true
  rw [not_or, not_or] at hstep
  exact ⟨⟨hstep.1, fun hs => h.no_slash (Text.mem_encode_slash_iff.2 hs)⟩, hstep.2⟩

/-- The text of a place that is written out is the path of names that its octets are. -/
lemma exists_render_of_encode {base : String} (hplace : ∀ name ∈ place, IsEntry name)
    (h : encode base = render place) :
    ∃ st, (∀ m ∈ st, Path.IsEntry m) ∧ st.map encode = place ∧ base = Path.render st := by
  -- no name of a place is empty or has a slash, so they are cut where they were
  have hparts : Text.parts (· == 47) (render place) = place := by
    rw [render, Text.parts_cons_sep rfl]
    refine Text.parts_join fun name hname => ⟨?_, fun b hb => ?_⟩
    · rintro rfl
      cases (hplace _ hname).not_isStep
    · rw [beq_eq_false_iff_ne]
      rintro rfl
      exact (hplace _ hname).no_slash hb
  have hnames : (Path.names base).map encode = place := by
    rw [← Text.parts_encode, h, hparts]
  refine ⟨Path.names base, fun m hm => ?_, hnames, ?_⟩
  · exact isEntry_of_encode (hplace _ (hnames ▸ List.mem_map_of_mem hm))
  · rw [← Text.encode_eq_iff, encode_render, hnames, h]

/-- The slash at the end of a path asks for a directory, and leads no further. -/
lemma Leads.of_way_encode {s : String} (haim : aim ≠ .entry)
    (h : Leads t aim here (way (encode s)) k place) :
    Leads t aim here ((Path.names s).map encode) k place := by
  rcases way_encode s with hway | hway
  · rwa [hway] at h
  · rw [hway] at h
    obtain ⟨k₁, k₂, mid, rfl, h₁, h₂⟩ := h.split (follows_of_ne haim _)
    have hlast := leads_of_passes (.turn rfl) h₂
    cases hlast
    rwa [front_of_ne haim] at h₁

/-- The way to an entry of a directory leads through the directory. -/
lemma exists_leads_entry {dir name : String} (hn : Path.IsName name)
    (hdir : t.resolve .target (encode dir) = .ok place)
    (h : Leads t aim (t.start (encode (Path.join dir name))) (way (encode (Path.join dir name)))
      k object) :
    ∃ j ≤ k, Leads t aim place [encode name] j object := by
  obtain ⟨haccepts, k₀, -, h₀⟩ := (resolve_eq_ok_iff (by decide)).1 hdir
  have hne : dir ≠ "" := fun he => (accepts_eq_ok_iff.1 haccepts).2.2 (he ▸ rfl)
  have hstart : t.start (encode (Path.join dir name)) = t.start (encode dir) := by
    rw [start, start, isRooted_encode, isRooted_encode, Path.isAbsolute_join hne]
  rw [hstart, way_encode_join dir hn] at h
  obtain ⟨k₁, k₂, mid, rfl, h₁, h₂⟩ := h.split fun he => by simp at he
  -- both ways to the directory are written alike, but for the slash at the end
  have hmid : place = mid :=
    ((h₀.of_way_encode (by decide)).unique (h₁.target (by cases aim <;> decide))).2
  exact ⟨k₂, Nat.le_add_left k₂ k₁, hmid ▸ h₂⟩

/-- What is read of an entry as a link is the target that stands there. -/
lemma node?_of_readLink (ht : Sound t) {dir name target : String} (hname : Path.IsName name)
    (hdir : t.resolve .target (encode dir) = .ok place)
    (hn : t.node? (place ++ [encode name]) = some n)
    (h : t.backend.readLink (Path.join dir name) = .ok target) :
    t.node? (place ++ [encode name]) = some (.link (encode target)) := by
  obtain ⟨stop, hend, htarget⟩ := readLink_eq_ok_iff.1 h
  obtain ⟨-, k, -, hk⟩ := (resolve_eq_ok_iff (by decide)).1 hend
  obtain ⟨j, -, hj⟩ := exists_leads_entry hname hdir hk
  have hfinds : Finds t place (encode name) n :=
    ⟨(ht.isEntry hn).not_isStep, (ht.isEntry hn).short, hn⟩
  have hlast := leads_of_passes (.down hfinds fun _ _ hf => hf ⟨rfl, rfl⟩) hj
  cases hlast
  exact htarget

/-- The real path of what a path leads to is its place, written out. -/
lemma encode_of_realPath {s real : String} (h : t.resolve .target (encode s) = .ok place)
    (hreal : t.backend.realPath s = .ok real) : encode real = render place := by
  obtain ⟨place', hplace', hspelled⟩ := realPath_eq_ok_iff.1 hreal
  obtain ⟨-, k, -, hk⟩ := (resolve_eq_ok_iff (by decide)).1 h
  obtain ⟨-, k', -, hk'⟩ := (resolve_eq_ok_iff (by decide)).1 hplace'
  rw [hspelled, (hk.unique (hk'.target (by decide))).2]

/-- How a link came into a snapshot of a directory. -/
structure Holds (t : DiskTree) (d : Directory) (l : Link) (place : List Bytes) (target : String) :
    Prop where
  resolve : t.resolve .target (encode d.path) = .ok place
  isDirectory : t.isDirectory place = true
  isEntry : Path.IsEntry l.name
  node : t.node? (place ++ [encode l.name]) = some (.link (encode target))
  path : l.path = Path.join d.path l.name
  target : ∃ st, (∀ m ∈ st, Path.IsEntry m) ∧ st.map encode = place ∧
    l.target = Path.render (Path.walk target st)

section

variable {d : Directory} {l : Link} {target : String}

lemma holds_of_read (ht : Sound t) {r : Directory}
    (h : (d.read t.backend).run.value = .ok r) (hl : l ∈ r.links) :
    ∃ place target, t.Holds d l place target := by
  obtain ⟨listing, e, base, target, hdir, he, -, hbase, hlink, rfl⟩ :=
    Directory.mem_links_of_read t.backend h hl
  obtain ⟨place, hplace, hd, rfl⟩ := readDir_eq_ok_iff.1 hdir
  obtain ⟨n, hn, -⟩ := exists_of_mem_ofDirents he
  have hentry := isEntry_of_encode (ht.isEntry hn)
  have hnode := node?_of_readLink ht hentry.1 hplace hn hlink
  have hspelled := encode_of_realPath hplace hbase
  obtain ⟨st, hst, hmap, rfl⟩ :=
    exists_render_of_encode (ht.isEntry_of_mem (isDirectory_iff.1 hd)) hspelled
  refine ⟨place, target, hplace, hd, hentry, hnode, rfl, st, hst, hmap, ?_⟩
  rw [Path.resolve_eq_render (Path.isAbsolute_render st), Path.walk_render hst]

/-- The target of a snapshot is written with the names that the target of the link leaves. -/
lemma Holds.encode_target (h : t.Holds d l place target) :
    ∃ ns, (∀ n ∈ ns, Path.IsEntry n) ∧ l.target = Path.render ns ∧
      ns.map encode = (way (encode target)).foldl climb (base place (encode target)) := by
  obtain ⟨st, hst, rfl, htarget⟩ := h.target
  refine ⟨Path.walk target st, fun n hn => ?_, htarget, map_encode_walk target st⟩
  rw [← Path.walk_render hst []] at hn
  exact Path.isEntry_of_mem_walk_walk (Path.isAbsolute_render st) hn

/-- It is accepted as a path, if it is not too long. -/
lemma Holds.accepts (ht : Sound t) (h : t.Holds d l place target)
    (hfit : aim = .spelling ∨ (encode l.target).length < maxPath) :
    accepts aim (encode l.target) = .ok () := by
  obtain ⟨ns, -, htarget, hmap⟩ := h.encode_target
  refine accepts_eq_ok_iff.2 ⟨fun hnul => ?_, hfit, ?_⟩
  · rw [htarget, encode_render, hmap, render, List.mem_cons] at hnul
    rcases Text.mem_join (hnul.resolve_left (by decide)) with hslash | ⟨name, hname, hmem⟩
    · cases hslash
    · rcases mem_foldl_climb hname with hbase | hway
      · -- a name of the directory, which is stored
        have hplace : name ∈ place := by
          unfold base at hbase
          split at hbase
          · cases hbase
          · exact hbase
        exact (ht.isEntry_of_mem (isDirectory_iff.1 h.isDirectory) name hplace).no_nul hmem
      · -- or one of the target of the link
        exact ht.target h.node (mem_of_mem_way hway hmem)
  · rw [htarget, encode_render]
    exact List.cons_ne_nil _ _

/-- What the path of the link leads to is what its target leads to from its directory, within the
limit that is left at the link. -/
lemma Holds.leads_target (ht : Sound t) (hne : aim ≠ .entry) (hreads : aim ≠ .writing)
    (h : t.Holds d l place target) (hobject : t.resolve aim (encode l.path) = .ok object) :
    Fits aim place ∧ ∃ m ≤ maxHops,
      Leads t aim (base place (encode target)) (way (encode target)) m object := by
  obtain ⟨-, k, hk, hleads⟩ := (resolve_eq_ok_iff hreads).1 hobject
  rw [h.path] at hleads
  obtain ⟨j, hj, hentry⟩ := exists_leads_entry h.isEntry.1 h.resolve hleads
  have hnode := ht.isEntry h.node
  have hfits : Fits aim place := by
    have hlink := hentry.enters.fits
    rw [hnode.not_isStep] at hlink
    exact hlink.of_concat
  obtain ⟨m, rfl, hway⟩ := leads_of_finds_link ⟨hnode.not_isStep, hnode.short, h.node⟩
    (follows_of_ne hne []) hentry
  rw [List.append_nil] at hway
  exact ⟨hfits, m, by omega, hway⟩

/-- From a link to what it leads to and from its target, told by the snapshot, it is the same way,
as long as the target retraces. -/
lemma Holds.resolve_target (ht : Sound t) (haim : aim = .spelling ∨ aim = .target)
    (h : t.Holds d l place target)
    (hr : t.retraces [] (base place (encode target)) (way (encode target)) = true)
    (hfit : aim = .spelling ∨ (encode l.target).length < maxPath)
    (hobject : t.resolve aim (encode l.path) = .ok object) :
    t.resolve aim (encode l.target) = .ok object := by
  have hne : aim ≠ .entry := by rcases haim with rfl | rfl <;> decide
  have hreads : aim ≠ .writing := by rcases haim with rfl | rfl <;> decide
  obtain ⟨hfits, m, hm, hway⟩ := h.leads_target ht hne hreads hobject
  -- both begin at the directory of the link, or at the root if the target is absolute
  have hstart : Trails t aim 0 (base place (encode target)) [] (base place (encode target)) := by
    unfold base
    split
    · exact .start (.inl rfl) fun _ => by decide
    · exact .start (.inr h.isDirectory) hfits
  obtain ⟨k, hk, hnames⟩ := hstart.run ht hne hway hm hr
  obtain ⟨ns, hns, htarget, hmap⟩ := h.encode_target
  refine (resolve_eq_ok_iff hreads).2 ⟨h.accepts ht hfit, k, by omega, ?_⟩
  rw [htarget, start, isRooted_encode, Path.isAbsolute_render, if_pos rfl, way_encode_render hns,
    hmap]
  exact hnames

end

/-- **Targets denote what their links do**: in a snapshot of a file system that stays the same, the
target of a link is told by names alone, from the real place of its directory. It leads where the
path of the link leads, so long as each `..` that takes back a name of the target leads back to
where that name was looked for, and the target is no longer than a path may be. What is asked about
either is then answered the same. -/
theorem targets_denote (ht : Sound t) {path : String} {d x : Directory} {l : Link}
    (h : Directory.Reached (· = t.backend) path d) (hx : x ∈ d.nodes) (hl : l ∈ x.links) :
    ∃ place target, t.resolve .target (encode x.path) = .ok place ∧
      t.node? (place ++ [encode l.name]) = some (.link target) ∧
      encode l.target = render ((way target).foldl climb (base place target)) ∧
      (t.retraces [] (base place target) (way target) = true →
        (∀ object, t.resolve .target (encode l.path) = .ok object →
          (encode l.target).length < maxPath →
            t.resolve .target (encode l.target) = .ok object ∧
            t.backend.stat l.target = t.backend.stat l.path ∧
            t.backend.readDir l.target = t.backend.readDir l.path ∧
            t.backend.readAttr l.target = t.backend.readAttr l.path) ∧
        ∀ real, t.backend.realPath l.path = .ok real → t.backend.realPath l.target = .ok real) := by
  obtain ⟨r, hr, hmem⟩ := h.findsLinks x hx l hl
  obtain ⟨place, target, hholds⟩ := holds_of_read ht hr hmem
  obtain ⟨ns, -, htold, hmap⟩ := hholds.encode_target
  refine ⟨place, encode target, hholds.resolve, hholds.node, ?_, fun hretraces => ⟨?_, ?_⟩⟩
  · rw [htold, encode_render, hmap]
  · intro object hobject hlength
    have hsame := hholds.resolve_target ht (.inr rfl) hretraces (.inr hlength) hobject
    exact ⟨hsame, answers_eq (hsame.trans hobject.symm)⟩
  · intro real hreal
    obtain ⟨object, hobject, hspelled⟩ := realPath_eq_ok_iff.1 hreal
    -- who writes out the real path has no limit on the length, so none is asked for
    have hsame := hholds.resolve_target ht (.inl rfl) hretraces (.inl rfl) hobject
    exact realPath_eq_ok_iff.2 ⟨object, hsame, hspelled⟩

/-! ### Two shelves -/

/-- The shelf `d` has a link `m` into the shelf `e`, a link `device` that climbs out of `e` again by
`m`, and a link `kin` that comes to the same by directories alone. -/
def shelfEdits : List Edit :=
  [.directory (encode "e/f"), .file true (encode "e/x/name") (encode "right\n") 0o644,
    .link true (encode "d/device") (encode "m/../x"),
    .link true (encode "d/kin") (encode "../e/./f/../x/"),
    .link true (encode "d/m") (encode "../e/f"),
    .file true (encode "d/x/name") (encode "wrong\n") 0o644]

def shelves : DiskTree :=
  (shelfEdits.foldlM DiskTree.apply (ofPlaces [encode "t"] [encode "t"])).toOption.getD
    (ofPlaces [encode "t"] [encode "t"])

lemma sound_shelves : Sound shelves := by
  have hname : ∀ name ∈ [encode "t"], IsEntry name := by
    rintro name hname
    rw [List.mem_singleton.1 hname]
    exact ⟨by decide, by decide, by decide, by decide⟩
  unfold shelves
  rcases h : shelfEdits.foldlM DiskTree.apply (ofPlaces [encode "t"] [encode "t"]) with e | t
  · exact sound_ofPlaces hname hname
  · exact sound_of_edits hname hname h

/-- The shelf `d`, once it has been read. -/
def shelf : Directory :=
  (Session.readOnce shelves.backend (.unread "d" "/t/d")).value.1

lemma reached_shelf : Directory.Reached (· = shelves.backend) "/t/d" shelf := by
  have hopen : (Directory.locate shelves.backend "/t/d").run.value = .ok (.unread "d" "/t/d") := by
    have hpath : Path.normalize "/t/d" = "/t/d" := by decide +kernel
    rw [Directory.locate_eq_ok_iff, hpath]
    exact ⟨by decide, "d", by decide +kernel, by decide +kernel, rfl⟩
  have hopened : Directory.Reached (· = shelves.backend) "/t/d" (.unread "d" "/t/d") :=
    .opened rfl hopen
  exact hopened.read rfl

def shelfEntries : List Entry :=
  [⟨"device", .symlink, 0o777⟩, ⟨"kin", .symlink, 0o777⟩, ⟨"m", .symlink, 0o777⟩,
    ⟨"x", .directory, 0o755⟩]

def shelfLinks : List Link :=
  [⟨"device", "/t/d/device", "/t/d/x"⟩, ⟨"kin", "/t/d/kin", "/t/e/x"⟩, ⟨"m", "/t/d/m", "/t/e/f"⟩]

lemma read_shelf : ∃ r, ((Directory.unread "d" "/t/d").read shelves.backend).run.value = .ok r ∧
    r.links = shelfLinks := by
  have hentries : (shelves.enumerate [encode "t", encode "d"]).filterMap Dirent.entry? =
      shelfEntries := by decide +kernel
  have hlist : shelves.backend.readDir "/t/d" = .ok ⟨shelfEntries, 0⟩ := by
    refine readDir_eq_ok_iff.2 ⟨[encode "t", encode "d"], by decide +kernel, by decide +kernel, ?_⟩
    rw [Listing.ofDirents_of_sorted hentries (by decide +kernel)]
    have hlength : (shelves.enumerate [encode "t", encode "d"]).length = 4 := by decide +kernel
    rw [hlength]
    rfl
  have hread : ((Directory.unread "d" "/t/d").read shelves.backend).run.value.map Directory.links =
      .ok shelfLinks := by
    rw [Directory.value_read]
    dsimp only [Directory.path_unread]
    rw [hlist]
    decide +kernel
  rcases hr : ((Directory.unread "d" "/t/d").read shelves.backend).run.value with e | r
  · rw [hr] at hread
    cases hread
  · rw [hr] at hread
    exact ⟨r, rfl, Except.ok.inj hread⟩

lemma shelf_links_path : shelf.links = shelfLinks ∧ shelf.path = "/t/d" := by
  obtain ⟨r, hr, hlinks⟩ := read_shelf
  have hshelf : shelf = r := by simp [shelf, Session.readOnce, hr]
  rw [hshelf]
  exact ⟨hlinks, (Directory.read_keeps _ hr).2.2⟩

/-- By directories alone the target is what the link leads to, though `..` takes back a name. -/
theorem targets_denote_kin :
    shelves.retraces [] [encode "t", encode "d"] (way (encode "../e/./f/../x/")) = true ∧
      shelves.resolve .target (encode "/t/d/kin") = .ok [encode "t", encode "e", encode "x"] ∧
      shelves.resolve .target (encode "/t/e/x") = .ok [encode "t", encode "e", encode "x"] ∧
      shelves.backend.readDir "/t/e/x" = shelves.backend.readDir "/t/d/kin" ∧
      shelves.backend.realPath "/t/d/kin" = .ok "/t/e/x" ∧
      shelves.backend.realPath "/t/e/x" = .ok "/t/e/x" := by
  obtain ⟨hlinks, hpath⟩ := shelf_links_path
  have hx : shelf ∈ shelf.nodes := by
    rw [Directory.nodes_eq]
    exact List.mem_cons_self
  have hl : ⟨"kin", "/t/d/kin", "/t/e/x"⟩ ∈ shelf.links := by
    rw [hlinks]
    decide
  obtain ⟨place, target, hplace, hnode, -, hdenotes⟩ :=
    targets_denote sound_shelves reached_shelf hx hl
  -- the directory and the target of the link are these
  have hat : shelves.resolve .target (encode "/t/d") = .ok [encode "t", encode "d"] := by
    decide +kernel
  rw [hpath, hat] at hplace
  obtain rfl := Except.ok.inj hplace
  have hlink : shelves.node? [encode "t", encode "d", encode "kin"] =
      some (.link (encode "../e/./f/../x/")) := by decide +kernel
  obtain rfl := DiskNode.link.inj (Option.some.inj (hnode.symm.trans hlink))
  have hretraces : shelves.retraces [] [encode "t", encode "d"] (way (encode "../e/./f/../x/")) =
      true := by decide +kernel
  have hobject : shelves.resolve .target (encode "/t/d/kin") =
      .ok [encode "t", encode "e", encode "x"] := by decide +kernel
  have hreal : shelves.backend.realPath "/t/d/kin" = .ok "/t/e/x" := by decide +kernel
  obtain ⟨hsame, hspelled⟩ := hdenotes hretraces
  obtain ⟨htarget, -, hlisted, -⟩ := hsame _ hobject (by decide)
  exact ⟨hretraces, hobject, htarget, hlisted, hreal, hspelled _ hreal⟩

/-- **A link on the way**: behind the link `m` the kernel climbs out of the shelf `e`, and the
target that is told climbs back to `d`. They have different attributes. -/
theorem targets_denote_parted :
    Sound shelves ∧ Directory.Reached (· = shelves.backend) "/t/d" shelf ∧
      ⟨"device", "/t/d/device", "/t/d/x"⟩ ∈ shelf.links ∧
      shelves.resolve .target (encode "/t/d/device") = .ok [encode "t", encode "e", encode "x"] ∧
      shelves.resolve .target (encode "/t/d/x") = .ok [encode "t", encode "d", encode "x"] ∧
      shelves.backend.readAttr "/t/d/device/name" = .ok (encode "right\n") ∧
      shelves.backend.readAttr "/t/d/x/name" = .ok (encode "wrong\n") := by
  refine ⟨sound_shelves, reached_shelf, ?_, by decide +kernel, by decide +kernel, by decide +kernel,
    by decide +kernel⟩
  rw [shelf_links_path.1]
  exact List.mem_cons_self

end DeviceModel.DiskTree
