import DeviceModel.Proofs.Path.Spelling
import DeviceModel.Proofs.Tree.Way

/-!
The last name of a path, put behind it and taken off again.

An absolute path in normal form is written with the names of a place, and the root with none. To
join a name to it is to write one name more, and to cut it at its last slash is to write one less,
so each undoes the other: `dirAndName_undoes_join`. An insertion into a tree goes by the same cut:
`insert_eq_of_dirAndName`.
-/

namespace DeviceModel

namespace Path

variable {d p n : String} {st : List String}

/-- What ends in a name is not the root. -/
lemma join_ne_root (hn : IsEntry n) : join d n ≠ "/" := by
  intro he
  have hnames := names_join d n
  rw [he, names_of_isName hn.1] at hnames
  have hroot : names "/" = [] := rfl
  simp [hroot] at hnames

/-! ### Canonical paths -/

/-- An absolute path in normal form. -/
structure Canonical (p : String) : Prop where
  absolute : isAbsolute p = true
  normal : normalize p = p

lemma canonical_render (h : ∀ m ∈ st, IsEntry m) : Canonical (render st) :=
  ⟨isAbsolute_render st, normalize_render h⟩

lemma canonical_normalize (h : isAbsolute p = true) : Canonical (normalize p) :=
  ⟨isAbsolute_normalize h, normalize_normalize h⟩

namespace Canonical

lemma exists_render (h : Canonical p) : ∃ st, (∀ m ∈ st, IsEntry m) ∧ p = render st := by
  obtain ⟨st, hst, hp⟩ := exists_render_of_isAbsolute h.absolute
  exact ⟨st, hst, h.normal.symm.trans hp⟩

/-- All but the root have a last name. -/
lemma exists_concat (h : Canonical p) (hne : p ≠ "/") :
    ∃ st m, (∀ k ∈ st, IsEntry k) ∧ IsEntry m ∧ p = render (st ++ [m]) := by
  obtain ⟨st, hst, rfl⟩ := h.exists_render
  rcases List.eq_nil_or_concat st with rfl | ⟨above, m, rfl⟩
  · exact absurd render_nil hne
  · rw [List.concat_eq_append] at hst ⊢
    obtain ⟨habove, hm⟩ := List.forall_mem_append.1 hst
    exact ⟨above, m, habove, hm m (by simp), rfl⟩

lemma address_eq (h : Canonical p) : MemoryTree.address p = names p := by
  rw [MemoryTree.address, h.normal]

/-! ### One name more -/

lemma join (hd : Canonical d) (hn : IsEntry n) : Canonical (Path.join d n) := by
  obtain ⟨st, hst, rfl⟩ := hd.exists_render
  rw [join_render hst hn]
  exact canonical_render (isEntry_concat hst hn)

lemma address_join (hd : Canonical d) (hn : IsEntry n) :
    MemoryTree.address (Path.join d n) = MemoryTree.address d ++ [n] := by
  rw [(hd.join hn).address_eq, hd.address_eq, names_join, names_of_isName hn.1]

/-- Cutting gives back what was joined. -/
lemma dirAndName_join (hd : Canonical d) (hn : IsEntry n) :
    dirAndName (Path.join d n) = (d, n) := by
  obtain ⟨st, hst, rfl⟩ := hd.exists_render
  rw [join_render hst hn, dirAndName_render st hn]

/-! ### One name less -/

/-- Joining gives back what was cut. -/
lemma join_dirAndName (h : Canonical p) (hne : p ≠ "/") :
    Canonical (dirAndName p).1 ∧ IsEntry (dirAndName p).2 ∧
      Path.join (dirAndName p).1 (dirAndName p).2 = p := by
  obtain ⟨st, m, hst, hm, rfl⟩ := h.exists_concat hne
  rw [dirAndName_render st hm]
  exact ⟨canonical_render hst, hm, join_render hst hm⟩

end Canonical

/-- **Joining and cutting**: a name joined to an absolute path in normal form gives such a path,
whose last name it is and whose names are those of the directory and this one; cut at its last
slash it gives the directory and the name back. Every absolute path in normal form but the root
comes from one directory and one name only, those that cutting it gives. -/
theorem dirAndName_undoes_join :
    (∀ d n, Canonical d → IsEntry n →
      isAbsolute (join d n) = true ∧ normalize (join d n) = join d n ∧ join d n ≠ "/" ∧
        nameOf (join d n) = .ok n ∧ dirAndName (join d n) = (d, n) ∧
        MemoryTree.address (join d n) = MemoryTree.address d ++ [n]) ∧
    ∀ p, Canonical p → p ≠ "/" → ∀ d n,
      (Canonical d ∧ IsEntry n ∧ join d n = p) ↔ dirAndName p = (d, n) := by
  refine ⟨fun d n hd hn => ?_, fun p hp hne d n => ⟨?_, fun hcut => ?_⟩⟩
  · obtain ⟨habsolute, hnormal⟩ := hd.join hn
    exact ⟨habsolute, hnormal, join_ne_root hn, nameOf_join d hn.1,
      hd.dirAndName_join hn, hd.address_join hn⟩
  · rintro ⟨hd, hn, rfl⟩
    exact hd.dirAndName_join hn
  · have hback := hp.join_dirAndName hne
    rwa [hcut] at hback

/-- A name right below the root, and a path that is cut. -/
theorem dirAndName_undoes_join_net :
    (Canonical "/" ∧ IsEntry "net" ∧ normalize (join "/" "net") = join "/" "net" ∧
      nameOf (join "/" "net") = .ok "net" ∧ dirAndName (join "/" "net") = ("/", "net") ∧
      MemoryTree.address (join "/" "net") = MemoryTree.address "/" ++ ["net"]) ∧
    Canonical "/class/net" ∧ "/class/net" ≠ "/" ∧
      ∀ d n, (Canonical d ∧ IsEntry n ∧ join d n = "/class/net") ↔ ("/class", "net") = (d, n) := by
  obtain ⟨hjoin, hcut⟩ := dirAndName_undoes_join
  have hroot : Canonical "/" := ⟨by decide, by decide +kernel⟩
  have hname : IsEntry "net" := by simp [IsEntry, IsName]
  have hclass : Canonical "/class/net" := ⟨by decide, by decide +kernel⟩
  have hpair : dirAndName "/class/net" = ("/class", "net") := by decide +kernel
  obtain ⟨-, hnormal, -, hlast, hback, haddress⟩ := hjoin "/" "net" hroot hname
  refine ⟨⟨hroot, hname, hnormal, hlast, hback, haddress⟩, hclass, by decide, fun d n => ?_⟩
  rw [← hpair]
  exact hcut "/class/net" hclass (by decide) d n

/-- A directory that is not in normal form may be given back in another spelling. -/
example : dirAndName (join "/class//" "net") = ("/class", "net") ∧
    dirAndName (join "/class/." "net") = ("/class/.", "net") := by decide +kernel

end Path

/-! ### Insertions -/

namespace MemoryTree

/-- The last name of an insertion is entered when all the others are directories. -/
lemma insertBelow_concat (t : MemoryTree) (here : Place) (n : MemoryNode) (rest : List String)
    (name : String) :
    t.insertBelow here n (rest ++ [name]) =
      (t.insertBelow here (.directory []) rest).enter (here ++ rest) name n := by
  induction rest generalizing t here with
  | nil =>
    rw [List.nil_append, insertBelow_cons, if_pos rfl, List.append_nil]
    rfl
  | cons m rest ih =>
    rw [List.cons_append, insertBelow_cons, insertBelow_cons, ih, if_neg (by simp), ite_self,
      List.append_assoc]
    rfl

/-- **Insertions go by the cut**: to insert at an absolute path is to make a directory of what its
normal form is cut into, and then to enter the name there. -/
theorem insert_eq_of_dirAndName {t : MemoryTree} {path dir name : String} {n : MemoryNode}
    (ha : Path.isAbsolute path = true) (hne : Path.normalize path ≠ "/")
    (hcut : Path.dirAndName (Path.normalize path) = (dir, name)) :
    t.insert path n = (t.insert dir (.directory [])).enter (address dir) name n := by
  obtain ⟨st, m, hst, hm, hp⟩ := (Path.canonical_normalize ha).exists_concat hne
  rw [hp, Path.dirAndName_render st hm] at hcut
  obtain ⟨rfl, rfl⟩ := Prod.mk.inj hcut
  have haddress : address path = st ++ [m] := by
    rw [← address_normalize, hp, address_render (Path.isEntry_concat hst hm)]
  rw [insert, insert, if_pos ha, if_pos (Path.isAbsolute_render st), haddress, address_render hst,
    insertBelow_concat]
  rfl

end MemoryTree

end DeviceModel
