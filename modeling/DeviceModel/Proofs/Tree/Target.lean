import DeviceModel.Proofs.Snapshot.Opening
import DeviceModel.Proofs.Tree.Answers

/-!
What the target of a link in a snapshot is worth.

The snapshot tells a target from the real place of the directory and cleans it up as text; the
tree goes there name by name, with the links it meets. Both come to the same node, however the
directory itself was reached.
-/

namespace DeviceModel.MemoryTree

open DeviceModel.Path (IsEntry)

variable {t : MemoryTree} {p : String} {d : Directory} {l : Link}

/-- The entry of a link. -/
lemma node?_of_entry_symlink {place : Place} {name : String} {e : Entry}
    (h : t.entry? place name = some e) (hk : e.kind = .symlink) :
    e.name = name ∧ ∃ target, t.node? (place ++ [name]) = some (.link target) := by
  unfold entry? at h
  obtain ⟨n, hn, rfl⟩ := Option.map_eq_some_iff.1 h
  cases n with
  | directory _ | file _ _ => cases hk
  | link target => exact ⟨rfl, target, hn⟩

/-- Where a link of a snapshot stands, and where its target is looked up. -/
structure Stands (t : MemoryTree) (p : String) (l : Link) (place : Place) (target : String)
    (k : Nat) : Prop where
  leads : Leads t true [] (address p) k place
  within : k ≤ maxHops
  node : t.node? (place ++ [l.name]) = some (.link target)
  path : address l.path = address p ++ [l.name]
  target : address l.target = Path.walk target place

/-- Every link of a snapshot stands in the directory that its path leads to. -/
lemma exists_stands (ht : Sound t) (h : (Directory.load t.backend p).run.value = .ok d)
    (hl : l ∈ d.links) : ∃ place target k, Stands t p l place target k := by
  obtain ⟨dir, hloc, hread⟩ := (Directory.load_eq_ok_iff t.backend).1 h
  obtain ⟨-, n, hname, -, rfl⟩ := (Directory.locate_eq_ok_iff t.backend).1 hloc
  obtain ⟨listing, e, base, target, hlisting, he, hk, hbase, htarget, rfl⟩ :=
    Directory.mem_links_of_read t.backend hread hl
  rw [Directory.path_unread] at hlisting hbase htarget
  -- the directory itself: listed at `place`, by a path that only goes down
  obtain ⟨place, children, hres, -, hdir, rfl⟩ := readDir_eq_ok_iff.1 hlisting
  obtain ⟨name, hnamed, hentry⟩ := List.mem_filterMap.1 he
  obtain ⟨hen, target', hnode⟩ := node?_of_entry_symlink hentry hk
  subst hen
  obtain ⟨k, hwithin, hleads⟩ := resolve_eq_ok_iff.1 hres
  rw [address_normalize] at hleads
  have hne : address p ≠ [] := by
    rw [Path.nameOf_eq_ok_iff] at hname
    intro hnil
    have hnone : (address p).getLast? = some n := hname
    rw [hnil] at hnone
    cases hnone
  have hspells := hleads.spells ht hne
  have hreach : Reaches t (Path.normalize p) place := ⟨_, k, hspells, hwithin, hleads⟩
  have hentry : IsEntry e.name := ht.isEntry hnode e.name (by simp)
  have hpath : address (Path.join (Path.normalize p) e.name) = address p ++ [e.name] :=
    address_of_spells (hspells.join hentry)
  -- the target: read at the link, and told from the place of the directory
  have hsame : target = target' :=
    Except.ok.inj (htarget.symm.trans (hreach.readLink_eq ht hnode))
  have hat : base = Path.render place := Except.ok.inj (hbase.symm.trans hreach.realPath_eq)
  have hto : address (Path.resolve base target) = Path.walk target place := by
    rw [hat, ← Path.names_resolve (hreach.isEntry ht) target, address, Path.resolve,
      Path.normalize_idem]
  exact ⟨place, target, k, hleads, hwithin, hsame ▸ hnode, hpath, hto⟩

/-- **Targets**: in a snapshot of a tree that was built by edits, the target of a link names what
following the link itself reaches; and what it names is reached by following the link, as long
as no more links are met on the way to the directory, at the link and on the way to its target
than may be followed. -/
theorem load_targets_agree (edits : List Edit)
    (h : (Directory.load (empty.applyAll edits).backend p).run.value = .ok d) (hl : l ∈ d.links) :
    (∀ r, (empty.applyAll edits).realPath l.path = .ok r →
      (empty.applyAll edits).realPath l.target = .ok r) ∧
    ∀ k hops mid r, (empty.applyAll edits).resolveWithin true k (address p) = .ok mid →
      (empty.applyAll edits).resolveWithin true hops (address l.target) = .ok r →
      k + hops + 1 ≤ maxHops → (empty.applyAll edits).realPath l.path = .ok (Path.render r) := by
  obtain ⟨place, target, k, hs⟩ := exists_stands (sound_applyAll edits) h hl
  -- the link is one more on the way, and its target goes on from the place of the directory
  have hthrough (K : Nat) (q : Place) :
      Leads (empty.applyAll edits) true [] (address p ++ [l.name]) K q ↔
        ∃ rest, K = k + rest + 1 ∧
          Leads (empty.applyAll edits) true [] (Path.walk target place) rest q :=
    leads_link_iff hs.leads hs.node
  constructor
  · intro r hr
    obtain ⟨q, hq, rfl⟩ := realPath_eq_ok_iff.1 hr
    obtain ⟨K, hK, hleads⟩ := resolve_eq_ok_iff.1 hq
    rw [hs.path] at hleads
    obtain ⟨rest, rfl, hrest⟩ := (hthrough K q).1 hleads
    rw [← hs.target] at hrest
    have hwithin : rest ≤ maxHops := by omega
    exact realPath_eq_ok_iff.2 ⟨q, resolve_eq_ok_iff.2 ⟨rest, hwithin, hrest⟩, rfl⟩
  · intro k' hops mid q hmid hq hsum
    obtain ⟨k₁, hk₁, hfront⟩ := (resolveWithin_eq_ok_iff _ true k' _ mid).1 hmid
    obtain ⟨rest, hrest, hleads⟩ := (resolveWithin_eq_ok_iff _ true hops _ q).1 hq
    -- there is one way to the directory, so the links counted on it are the same
    obtain ⟨rfl, -⟩ := hs.leads.unique hfront
    rw [hs.target] at hleads
    have hwhole := (hthrough (k + rest + 1) q).2 ⟨rest, rfl, hleads⟩
    rw [← hs.path] at hwhole
    have hwithin : k + rest + 1 ≤ maxHops := by omega
    exact realPath_eq_ok_iff.2 ⟨q, resolve_eq_ok_iff.2 ⟨_, hwithin, hwhole⟩, rfl⟩

/-- A network card reached by a link in its class, with a link that climbs out of the directory
of the card. -/
def cardEdits : List Edit :=
  [.directory "/bus/pci", .link "/devices/card/subsystem" "../../bus/pci",
    .link "/class/net/eth0" "../../devices/card"]

/-- Read at the path by which the card was reached, the target would be `/class/bus/pci`. -/
theorem load_card_targets_agree :
    ∃ d l, (Directory.load (empty.applyAll cardEdits).backend "/class/net/eth0").run.value = .ok d ∧
      l ∈ d.links ∧ l.path = "/class/net/eth0/subsystem" ∧ l.target = "/bus/pci" ∧
      (empty.applyAll cardEdits).realPath l.target = .ok "/bus/pci" ∧
      (empty.applyAll cardEdits).realPath l.path = .ok "/bus/pci" := by
  let l : Link := ⟨"subsystem", "/class/net/eth0/subsystem", "/bus/pci"⟩
  let found := (Directory.load (empty.applyAll cardEdits).backend "/class/net/eth0").run.value
  have hlinks : found.toOption.map (·.links) = some [l] := by decide +kernel
  rcases hload : found with e | d
  · rw [hload] at hlinks
    cases hlinks
  · rw [hload] at hlinks
    have hd : d.links = [l] := Option.some.inj hlinks
    have hl : l ∈ d.links := by simp [hd]
    obtain ⟨hto, hfrom⟩ := load_targets_agree cardEdits hload hl
    have hpath := hfrom 1 0 ["devices", "card"] ["bus", "pci"] (by decide +kernel)
      (by decide +kernel) (by decide)
    exact ⟨d, l, hload, hl, rfl, rfl, hto _ hpath, hpath⟩

end DeviceModel.MemoryTree
