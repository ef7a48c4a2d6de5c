import DeviceModel.Proofs.Path.Targets
import DeviceModel.Proofs.Text.Octets
import DeviceModel.Proofs.Tree.Disk.Way

/-!
Paths of text in a file system that knows octets only.

A slash is an octet of no other character, so the octets of a path are cut where the path is. With
that all that is said of a path by its names can be said of its octets: whether it is absolute, what
way it is, and where its target leads on a stack of names.
-/

namespace DeviceModel

open Text (Bytes encode)

/-! ### Text -/

namespace Text

lemma utf8EncodeChar_ne_nil (c : Char) : String.utf8EncodeChar c ≠ [] := by
  rw [← List.length_pos_iff, String.length_utf8EncodeChar]
  exact c.utf8Size_pos

@[simp] lemma encode_append (s s' : String) : encode (s ++ s') = encode s ++ encode s' := by
  rw [encode, String.toList_append, List.flatMap_append]
  rfl

lemma encode_ofList (cs : List Char) :
    encode (String.ofList cs) = cs.flatMap String.utf8EncodeChar := by
  rw [encode, String.toList_ofList]

lemma utf8EncodeChar_slash : String.utf8EncodeChar '/' = [47] := by decide

/-- The octet of a slash stands for a slash. -/
lemma mem_encode_slash_iff {s : String} : 47 ∈ encode s ↔ '/' ∈ s.toList := by
  rw [encode, List.mem_flatMap]
  constructor
  · rintro ⟨c, hc, h⟩
    have hslash : c = '/' := eq_of_mem_utf8EncodeChar (a := '/') (by decide) h
    rwa [hslash] at hc
  · exact fun h => ⟨'/', h, by simp [utf8EncodeChar_slash]⟩

lemma encode_eq_iff {s s' : String} : encode s = encode s' ↔ s = s' :=
  ⟨encode_injective, congrArg encode⟩

lemma encode_eq_nil_iff {s : String} : encode s = [] ↔ s = "" := @encode_eq_iff s ""

lemma flatMap_join {f : Char → Bytes} {sep : Char} {b : UInt8} (h : f sep = [b])
    (ps : List (List Char)) : (join sep ps).flatMap f = join b (ps.map (List.flatMap f)) := by
  induction ps with
  | nil => rfl
  | cons p ps ih =>
    cases ps with
    | nil => rfl
    | cons q ps =>
      rw [join_cons_cons, List.flatMap_append, List.flatMap_cons, ih, h]
      rfl

/-- The octets of a path between its slashes are those of its names. -/
lemma parts_encode (s : String) : parts (· == 47) (encode s) = (Path.names s).map encode := by
  have hcut (c : Char) (hc : (c == '/') = true) :
      ∃ b : UInt8, (b == 47) = true ∧ String.utf8EncodeChar c = [b] :=
    ⟨47, rfl, beq_iff_eq.1 hc ▸ utf8EncodeChar_slash⟩
  have hkeep (c : Char) (hc : (c == '/') = false) :
      ∀ b ∈ String.utf8EncodeChar c, (b == 47) = false := by
    intro b hb
    rw [beq_eq_false_iff_ne] at hc ⊢
    rintro rfl
    exact hc (eq_of_mem_utf8EncodeChar (a := '/') (by decide) hb)
  rw [encode, parts_flatMap hcut hkeep utf8EncodeChar_ne_nil, Path.names, List.map_map]
  exact List.map_congr_left fun p _ => (encode_ofList p).symm

end Text

/-! ### Paths -/

namespace DiskTree

open DeviceModel.Path (IsName IsEntry Component)

variable {s n : String} {st : List String} {place : List Bytes}

lemma isRooted_encode (s : String) : isRooted (encode s) = Path.isAbsolute s := by
  rw [isRooted, Path.isAbsolute, encode]
  rcases s.toList with _ | ⟨c, cs⟩
  · rfl
  · rw [List.flatMap_cons, List.head?_append_of_ne_nil _ (Text.utf8EncodeChar_ne_nil c),
      List.head?_cons]
    by_cases hc : c = '/'
    · subst hc
      rfl
    · rw [Bool.eq_iff_iff, beq_iff_eq, beq_iff_eq, Option.some.injEq]
      refine iff_of_false (fun h => hc ?_) hc
      exact Text.eq_of_mem_utf8EncodeChar (a := '/') (by decide) (List.mem_of_head? h)

lemma encode_eq_dot_iff : encode n = [46] ↔ n = "." := @Text.encode_eq_iff n "."

lemma encode_eq_dots_iff : encode n = [46, 46] ↔ n = ".." := @Text.encode_eq_iff n ".."

lemma isStep_encode_iff : isStep (encode n) = true ↔ n = "" ∨ n = "." ∨ n = ".." := by
  rw [isStep, Bool.or_eq_true, Bool.or_eq_true, beq_iff_eq, beq_iff_eq, beq_iff_eq, or_assoc,
    Text.encode_eq_nil_iff, encode_eq_dot_iff, encode_eq_dots_iff]

lemma encode_render (st : List String) : encode (Path.render st) = render (st.map encode) := by
  rw [Path.render, Text.encode_ofList, List.flatMap_cons, Text.utf8EncodeChar_slash,
    Path.joined, Text.flatMap_join Text.utf8EncodeChar_slash, List.map_map]
  rfl

/-- A path has no slash at its end if it ends in a name. -/
lemma way_encode_of_isName (p : String) (hn : IsName n) :
    way (encode (p ++ n)) = (Path.names (p ++ n)).map encode := by
  have hlast : (encode (p ++ n)).getLast? ≠ some 47 := by
    rw [Text.encode_append, List.getLast?_append_of_ne_nil _ (mt Text.encode_eq_nil_iff.1 hn.1)]
    intro h
    exact hn.2 (Text.mem_encode_slash_iff.1 (List.mem_of_getLast? h))
  rw [way, Text.parts_encode]
  exact if_pos (by rw [bne_iff_ne.2 hlast, Bool.or_true])

lemma way_encode (s : String) : way (encode s) = (Path.names s).map encode ∨
    way (encode s) = (Path.names s).map encode ++ [[]] := by
  rw [way, Text.parts_encode]
  split
  · exact .inl rfl
  · exact .inr rfl

lemma way_encode_render (h : ∀ n ∈ st, IsEntry n) :
    way (encode (Path.render st)) = st.map encode := by
  rcases List.eq_nil_or_concat st with rfl | ⟨front, n, rfl⟩
  · rfl
  · rw [List.concat_eq_append] at h ⊢
    have hn : IsName n := (h n (by simp)).1
    have hends : ∃ p, Path.render (front ++ [n]) = p ++ n := by
      by_cases hne : front = []
      · exact ⟨"/", by rw [hne, List.nil_append, Path.render_singleton]⟩
      · exact ⟨Path.render front ++ "/", Path.render_concat hne n⟩
    obtain ⟨p, hp⟩ := hends
    rw [hp, way_encode_of_isName p hn, ← hp, Path.names_render (Path.isName_of_isEntry h)]

/-- An entry's name joined to a path is one name more on its way. -/
lemma way_encode_join (dir : String) (hn : IsName n) :
    way (encode (Path.join dir n)) = (Path.names dir).map encode ++ [encode n] := by
  have hends : Path.join dir n = Path.trimEnd dir ++ "/" ++ n := by
    rw [Path.join, Path.dropWhile_of_isName hn, ← String.toList_inj]
    simp
  rw [hends, way_encode_of_isName _ hn, ← hends, Path.names_join, Path.names_of_isName hn,
    List.map_append, List.map_singleton]

/-! ### Stacks of names -/

/-- Where a name leads on a stack of names, whatever it stands for in the file system. -/
def climb (stack : List Bytes) (name : Bytes) : List Bytes :=
  if name = [46, 46] then stack.dropLast else if isStep name then stack else stack ++ [name]

/-- All names of the stack were there before, or are the one that was climbed. -/
lemma mem_foldl_climb {ns stack : List Bytes} {name : Bytes} (h : name ∈ ns.foldl climb stack) :
    name ∈ stack ∨ name ∈ ns := by
  induction ns generalizing stack with
  | nil => exact .inl h
  | cons a ns ih =>
    rcases ih h with h | h
    · unfold climb at h
      split at h
      · exact .inl (List.dropLast_subset _ h)
      · split at h
        · exact .inl h
        · rcases List.mem_append.1 h with h | h
          · exact .inl h
          · exact .inr (List.mem_singleton.1 h ▸ List.mem_cons_self)
    · exact .inr (List.mem_cons_of_mem _ h)

/-- The names on a way hold nothing but what is in its path. -/
lemma mem_of_mem_way {bytes name : Bytes} {b : UInt8} (h : name ∈ way bytes) (hb : b ∈ name) :
    b ∈ bytes := by
  have hparts : name ∈ Text.parts (· == 47) bytes := by
    unfold way at h
    dsimp only at h
    split at h
    · exact h
    · rcases List.mem_append.1 h with h | h
      · exact h
      · rw [List.mem_singleton.1 h] at hb
        cases hb
  exact Text.mem_of_mem_parts hparts hb

lemma climb_encode (hn : n ≠ "") (st : List String) :
    climb (st.map encode) (encode n) = (Component.walk st (.ofName n)).map encode := by
  unfold climb Component.ofName
  simp only [encode_eq_dots_iff, isStep_encode_iff, hn, false_or]
  by_cases hdot : n = "."
  · subst hdot
    rfl
  · by_cases hdots : n = ".."
    · subst hdots
      simp [List.map_dropLast]
    · simp [hdot, hdots]

lemma foldl_climb_encode {ns : List String} (h : ∀ n ∈ ns, n ≠ "") (st : List String) :
    (ns.map encode).foldl climb (st.map encode) =
      ((ns.map Component.ofName).foldl Component.walk st).map encode := by
  induction ns generalizing st with
  | nil => rfl
  | cons n ns ih =>
    obtain ⟨hn, hns⟩ := List.forall_mem_cons.1 h
    rw [List.map_cons, List.foldl_cons, climb_encode hn, ih hns]
    rfl

/-- Where a target leads on a stack of names is told by its octets. -/
lemma map_encode_walk (target : String) (st : List String) :
    (Path.walk target st).map encode =
      (way (encode target)).foldl climb (base (st.map encode) (encode target)) := by
  have hway (stack : List Bytes) : (way (encode target)).foldl climb stack =
      ((Path.names target).map encode).foldl climb stack := by
    rcases way_encode target with h | h
    · rw [h]
    · rw [h, List.foldl_append]
      rfl
  have hnames : ∀ n ∈ Path.names target, n ≠ "" := fun n hn => (Path.isName_of_mem_names hn).1
  rw [hway, base, isRooted_encode, Path.walk, Path.components, List.foldl_append]
  rcases Path.isAbsolute target with _ | _
  · exact (foldl_climb_encode hnames st).symm
  · exact (foldl_climb_encode hnames []).symm

end DiskTree

end DeviceModel
