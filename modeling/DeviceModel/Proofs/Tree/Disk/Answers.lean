import DeviceModel.Proofs.Tree.Disk.Spelled

/-!
What a file system answers about paths of text, by the ways that the paths are.
-/

namespace DeviceModel.DiskTree

open Text (Bytes encode)

variable {t : DiskTree} {aim : Aim} {here place : List Bytes} {name path bytes : Bytes}
  {n : DiskNode} {k : Nat} {s : String}

lemma accepts_eq_ok_iff : accepts aim path = .ok () ↔
    0 ∉ path ∧ (aim = .spelling ∨ path.length < maxPath) ∧ path ≠ [] := by
  unfold accepts
  by_cases hnul : 0 ∈ path
  · simp [hnul]
  · by_cases hlong : aim ≠ .spelling ∧ path.length ≥ maxPath
    · have hnot : ¬ (aim = .spelling ∨ path.length < maxPath) := by
        rw [not_or]
        exact ⟨hlong.1, Nat.not_lt.2 hlong.2⟩
      rw [if_neg hnul, if_pos hlong]
      exact iff_of_false nofun fun h => hnot h.2.1
    · have hfits : aim = .spelling ∨ path.length < maxPath := by
        by_contra hnot
        rw [not_or] at hnot
        exact hlong ⟨hnot.1, Nat.not_lt.1 hnot.2⟩
      rw [if_neg hnul, if_neg hlong]
      cases path <;> simp_all

/-- A path leads somewhere just if it is accepted as one and its way leads there. -/
lemma resolve_eq_ok_iff (haim : aim ≠ .writing) : t.resolve aim path = .ok place ↔
    accepts aim path = .ok () ∧ ∃ k ≤ maxHops, Leads t aim (t.start path) (way path) k place := by
  rw [← resolveWithin_eq_ok_iff haim, resolve]
  rcases accepts aim path with e | ⟨⟩
  · exact iff_of_false nofun fun h => nomatch h.1
  · exact ⟨fun h => ⟨rfl, h⟩, fun h => h.2⟩

lemma mapError_eq_ok_iff {α ε ε' : Type} {f : ε → ε'} {x : Except ε α} {a : α} :
    x.mapError f = .ok a ↔ x = .ok a := by
  cases x <;> simp [Except.mapError]

lemma readText_eq_ok_iff {r : Except Refusal Bytes} : readText r = .ok s ↔ r = .ok (encode s) := by
  rcases r with e | bytes
  · simp [readText]
  · rw [readText, Except.ok.injEq, ← Text.decode?_eq_some_iff]
    rcases Text.decode? bytes with _ | s' <;> simp

lemma readDir_eq_ok_iff {l : Listing} : t.backend.readDir s = .ok l ↔
    ∃ place, t.resolve .target (encode s) = .ok place ∧ t.isDirectory place = true ∧
      l = .ofDirents (t.enumerate place) := by
  change ((t.readDir (encode s)).map Listing.ofDirents).mapError Refusal.error = .ok l ↔ _
  rw [mapError_eq_ok_iff, readDir]
  rcases t.resolve .target (encode s) with e | place
  · simp [bind, Except.bind, Except.map]
  · rcases hd : t.isDirectory place with _ | _
    · simp [bind, Except.bind, Except.map, hd, throw, throwThe, MonadExceptOf.throw]
    · simp [bind, Except.bind, Except.map, hd, pure, Except.pure]
      exact eq_comm

lemma readLink_eq_ok_iff {target : String} : t.backend.readLink s = .ok target ↔
    ∃ place, t.resolve .entry (encode s) = .ok place ∧
      t.node? place = some (.link (encode target)) := by
  change readText (t.readLink (encode s)) = .ok target ↔ _
  rw [readText_eq_ok_iff, readLink]
  rcases t.resolve .entry (encode s) with e | place
  · simp [bind, Except.bind]
  · rcases hn : t.node? place with _ | _ | _ | _ <;>
      simp [bind, Except.bind, hn, pure, Except.pure, throw, throwThe, MonadExceptOf.throw]

lemma realPath_eq_ok_iff {real : String} : t.backend.realPath s = .ok real ↔
    ∃ place, t.resolve .spelling (encode s) = .ok place ∧ encode real = render place := by
  change readText (t.realPath (encode s)) = .ok real ↔ _
  rw [readText_eq_ok_iff, realPath]
  rcases t.resolve .spelling (encode s) with e | place <;>
    simp [bind, Except.bind, pure, Except.pure, eq_comm]

/-- Paths that lead to the same place are the same to those who ask what is there. -/
lemma answers_eq {s' : String} (h : t.resolve .target (encode s) = t.resolve .target (encode s')) :
    t.backend.stat s = t.backend.stat s' ∧ t.backend.readDir s = t.backend.readDir s' ∧
      t.backend.readAttr s = t.backend.readAttr s' := by
  simp only [backend, stat, readDir, readFile, h, and_self]

/-- What is listed stands in the directory under its name. -/
lemma exists_of_mem_ofDirents {e : Entry}
    (h : e ∈ (Listing.ofDirents (t.enumerate place)).entries) :
    ∃ n, t.node? (place ++ [encode e.name]) = some n ∧ (n.entry (encode e.name)).kind = e.kind := by
  rw [Listing.ofDirents, List.mem_mergeSort] at h
  obtain ⟨d, hd, he⟩ := List.mem_filterMap.1 h
  obtain ⟨⟨name, n⟩, hmem, rfl⟩ := List.mem_map.1 hd
  obtain ⟨s, hs, rfl⟩ := Option.map_eq_some_iff.1 he
  have hname : name = encode s := by
    rw [Text.decode?_eq_some_iff] at hs
    rw [← hs]
    cases n <;> rfl
  subst hname
  refine ⟨n, Trie.mem_children hmem, rfl⟩

end DeviceModel.DiskTree
