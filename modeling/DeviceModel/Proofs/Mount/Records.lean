import DeviceModel.Proofs.Mount.Escapes

/-!
Reading a mount table that was written from records.

A written field has no blank but those that are not escaped, so a line is cut between its fields and
at these. What is found is the second stretch of the first record whose third is the type that is
looked for: the directory of the first record of that type, unless a record has such blanks.
-/

namespace DeviceModel.Mount

open Text

/-! ### Blanks -/

/-- A character that ends a field though it is written as it is. -/
def isStray (c : Char) : Bool := isBlank c && !mustEscape c

/-- How a character of a field is written. -/
def written (c : Char) : List Char :=
  if mustEscape c then (String.utf8EncodeChar c).flatMap octal else [c]

variable {c x : Char} {field : String} {table : List Record}

lemma toList_escape (field : String) : (escape field).toList = field.toList.flatMap written := by
  rw [escape, escapeWhere, String.toList_ofList]
  rfl

lemma isBlank_of_mem_octal {b : UInt8} (hx : x ∈ octal b) : isBlank x = false := by
  have hdigit : ∀ n : Fin 8, isBlank (Nat.digitChar n) = false := by decide
  have hdigits (n : Nat) (hn : n < 8) : isBlank (Nat.digitChar n) = false := hdigit ⟨n, hn⟩
  have hb : b.toNat < 256 := b.toNat_lt
  simp only [octal, List.mem_cons, List.not_mem_nil, or_false] at hx
  rcases hx with rfl | rfl | rfl | rfl
  · decide
  all_goals exact hdigits _ (by omega)

lemma written_of_isStray (h : isStray c = true) : isBlank c = true ∧ written c = [c] := by
  rw [isStray, Bool.and_eq_true, Bool.not_eq_true'] at h
  exact ⟨h.1, by rw [written, h.2]; rfl⟩

/-- All other characters are written without blanks. -/
lemma isBlank_of_mem_written (h : isStray c = false) (hx : x ∈ written c) : isBlank x = false := by
  rw [written] at hx
  split at hx
  · obtain ⟨b, -, hb⟩ := List.mem_flatMap.1 hx
    exact isBlank_of_mem_octal hb
  · next hc =>
    rw [List.mem_singleton.1 hx]
    simpa [isStray, hc] using h

lemma written_ne_nil (c : Char) : written c ≠ [] := by
  rw [written]
  split
  · next hc =>
    rw [mustEscape, Bool.or_eq_true, Bool.or_eq_true, Bool.or_eq_true] at hc
    simp only [beq_iff_eq] at hc
    rcases hc with ((rfl | rfl) | rfl) | rfl <;> decide
  · simp

/-- A line break is always escaped. -/
lemma ne_lineBreak_of_mem_written (hx : x ∈ written c) : x ≠ '\n' := by
  rintro rfl
  by_cases hc : isStray c = true
  · rw [(written_of_isStray hc).2, List.mem_singleton] at hx
    rw [← hx] at hc
    revert hc
    decide
  · have := isBlank_of_mem_written (by simpa using hc) hx
    revert this
    decide

/-! ### Stretches of a record -/

/-- The stretches of a field between its stray blanks. -/
def stretches (field : String) : List String := (parts isStray field.toList).map String.ofList

/-- What a line is cut into, before it is read back. -/
def Record.stretches (r : Record) : List String :=
  Mount.stretches r.source ++ Mount.stretches r.directory ++ Mount.stretches r.kind ++
    Mount.stretches r.options ++ ["0", "0"]

/-- The second stretch of a record whose third is `sysfs`. -/
def Record.found (r : Record) : Option String :=
  match r.stretches with
  | _ :: directory :: kind :: _ => if kind = "sysfs" then some directory else none
  | _ => none

/-- What a record is written as, without the line break at its end. -/
def Record.line (r : Record) : List Char :=
  (escape r.source).toList ++ ' ' :: ((escape r.directory).toList ++
    ' ' :: ((escape r.kind).toList ++ ' ' :: ((escape r.options).toList ++ ' ' :: ['0', ' ', '0'])))

lemma toList_write (r : Record) : r.write.toList = r.line ++ ['\n'] := by
  have hend : " 0 0\n".toList = [' ', '0', ' ', '0', '\n'] := rfl
  have hblank : " ".toList = [' '] := rfl
  simp [Record.write, Record.line, hend, hblank]

lemma fields_escape (field : String) :
    parts isBlank (escape field).toList = (stretches field).map fun s => (escape s).toList := by
  have hcut (c : Char) (hc : isStray c = true) : ∃ b, isBlank b = true ∧ written c = [b] :=
    ⟨c, written_of_isStray hc⟩
  have hkeep (c : Char) (hc : isStray c = false) : ∀ x ∈ written c, isBlank x = false :=
    fun _ hx => isBlank_of_mem_written hc hx
  rw [toList_escape, parts_flatMap hcut hkeep written_ne_nil, stretches, List.map_map]
  refine List.map_congr_left fun p _ => ?_
  rw [Function.comp_apply, toList_escape, String.toList_ofList]

/-- A line is cut into the stretches of its record, as they are written. -/
lemma fields_line (r : Record) :
    fields r.line = r.stretches.map fun s => (escape s).toList := by
  have hblank : isBlank ' ' = true := by decide
  have hend : parts isBlank ['0', ' ', '0'] = ["0", "0"].map fun s => (escape s).toList := by
    decide
  rw [fields, Record.line, parts_append hblank, parts_append hblank, parts_append hblank,
    parts_append hblank, fields_escape, fields_escape, fields_escape, fields_escape, hend,
    Record.stretches]
  simp only [List.map_append, List.append_assoc]

/-! ### Reading a record back -/

lemma unescape_escape (field : String) : unescape (escape field) = field := by
  rw [unescape, escape, unescapeBytes_encode_escapeWhere (by decide), decodeLossy_encode]

/-- Only the type itself is written like the type. -/
lemma escape_eq_sysfs_iff : escape field = "sysfs" ↔ field = "sysfs" := by
  have hself : escape "sysfs" = "sysfs" := by decide
  constructor
  · intro h
    rw [← unescape_escape field, h, ← hself, unescape_escape, hself]
  · rintro rfl
    exact hself

lemma directoryField_line (r : Record) :
    directoryField "sysfs" r.line = r.found.map escape := by
  rw [directoryField, fields_line, Record.found]
  rcases r.stretches with _ | ⟨_, _ | ⟨directory, _ | ⟨kind, _⟩⟩⟩
  · rfl
  · rfl
  · rfl
  · simp only [List.map_cons, String.ofList_toList, escape_eq_sysfs_iff]
    split <;> rfl

/-! ### Tables -/

lemma ne_lineBreak_of_mem_line {r : Record} (hx : x ∈ r.line) : x ≠ '\n' := by
  have hfield (field : String) (hx : x ∈ (escape field).toList) : x ≠ '\n' := by
    rw [toList_escape] at hx
    obtain ⟨c, -, hc⟩ := List.mem_flatMap.1 hx
    exact ne_lineBreak_of_mem_written hc
  simp only [Record.line, List.mem_append, List.mem_cons, List.not_mem_nil, or_false] at hx
  rcases hx with hx | rfl | hx | rfl | hx | rfl | hx | rfl | rfl | rfl | rfl
  · exact hfield _ hx
  · decide
  · exact hfield _ hx
  · decide
  · exact hfield _ hx
  · decide
  · exact hfield _ hx
  all_goals decide

/-- A table is cut into the lines of its records, and nothing comes after the last one. -/
lemma split_write (table : List Record) :
    split (· == '\n') (write table).toList = table.map Record.line ++ [[]] := by
  induction table with
  | nil => rfl
  | cons r table ih =>
    have hline : ∀ x ∈ r.line, (x == '\n') = false := by
      intro x hx
      simpa using ne_lineBreak_of_mem_line hx
    rw [write_cons, String.toList_append, toList_write, List.append_assoc, List.singleton_append,
      split_append (by simp), split_of_forall_not hline, ih]
    rfl

/-- What is found in a written table is found in the records. -/
lemma find_write_eq (table : List Record) : find (write table) = table.findSome? Record.found := by
  have hline : unescape <$> (table.map Record.line).findSome? (directoryField "sysfs") =
      table.findSome? Record.found := by
    rw [List.findSome?_map, Option.map_eq_map, List.map_findSome?]
    congr 1
    funext r
    rw [Function.comp_apply, Function.comp_apply, directoryField_line, Option.map_map]
    have hid : unescape ∘ escape = id := funext unescape_escape
    rw [hid, Option.map_id, id]
  have hend : directoryField "sysfs" [] = none := rfl
  rw [find, split_write, List.findSome?_append, List.findSome?_singleton, hend, Option.or_none,
    ← hline, Option.map_eq_map]

/-- A field that shows as one in its line: it holds something, and no stray blank. -/
def IsPlain (field : String) : Prop := field ≠ "" ∧ field.toList.any isStray = false

instance (field : String) : Decidable (IsPlain field) := inferInstanceAs (Decidable (_ ∧ _))

lemma IsPlain.stretches_eq (h : IsPlain field) : stretches field = [field] := by
  have hchars : field.toList ≠ [] := fun he => h.1 (String.toList_inj.1 he)
  have hstray : ∀ c ∈ field.toList, isStray c = false := by simpa using h.2
  rw [stretches, parts_of_forall_not hstray hchars, List.map_singleton, String.ofList_toList]

/-- A record whose directory and type can be told from its line. -/
structure Record.IsPlain (r : Record) : Prop where
  source : Mount.IsPlain r.source
  directory : Mount.IsPlain r.directory
  kind : Mount.IsPlain r.kind

lemma Record.IsPlain.found_eq {r : Record} (h : r.IsPlain) :
    r.found = if r.kind = "sysfs" then some r.directory else none := by
  rw [found, stretches, h.source.stretches_eq, h.directory.stretches_eq, h.kind.stretches_eq]
  rfl

/-- **Written tables**: what is found is the second stretch of the first record whose third is
`sysfs`. So it is the directory of the first record of that type, character for character, if up to
there no record has a stray blank, and nothing if there is none. -/
theorem find_write (table : List Record) :
    find (write table) = table.findSome? Record.found ∧
    ((∀ before r after, table = before ++ r :: after → (∀ x ∈ before, x.kind ≠ "sysfs") →
        r.IsPlain) →
      find (write table) = (table.find? (·.kind = "sysfs")).map (·.directory)) := by
  refine ⟨find_write_eq table, fun hplain => ?_⟩
  rw [find_write_eq]
  induction table with
  | nil => rfl
  | cons r table ih =>
    have hr : r.IsPlain := hplain [] r table rfl (by simp)
    by_cases hkind : r.kind = "sysfs"
    · rw [List.findSome?_cons, hr.found_eq, if_pos hkind,
        List.find?_cons_of_pos (by simpa using hkind)]
      rfl
    · rw [List.findSome?_cons, hr.found_eq, if_neg hkind,
        List.find?_cons_of_neg (by simpa using hkind)]
      refine ih fun before x after hsplit hbefore => hplain (r :: before) x after ?_ ?_
      · rw [hsplit, List.cons_append]
      · exact List.forall_mem_cons.2 ⟨hkind, hbefore⟩

/-- A table with all that is escaped in a directory, and with stray blanks where they do no harm: in
options, and behind the record that is looked for. -/
def chrootTable : List Record :=
  [⟨"proc", "/proc", "proc", "rw"⟩, ⟨"none", "/my\\040 sys\t\n", "sysfs", "rw,\u00A0x"⟩,
    ⟨"a\u00A0b", "/sys", "sysfs", "rw"⟩]

theorem find_write_chroot :
    (∀ before r after, chrootTable = before ++ r :: after → (∀ x ∈ before, x.kind ≠ "sysfs") →
      r.IsPlain) ∧
    find (write chrootTable) = some "/my\\040 sys\t\n" := by
  have hplain : ∀ before r after, chrootTable = before ++ r :: after →
      (∀ x ∈ before, x.kind ≠ "sysfs") → r.IsPlain := by
    intro before r after h hbefore
    rcases before with _ | ⟨a, _ | ⟨b, before⟩⟩
    · obtain ⟨rfl, -⟩ := List.cons.inj h
      exact ⟨by decide, by decide, by decide⟩
    · obtain ⟨-, h⟩ := List.cons.inj h
      obtain ⟨rfl, -⟩ := List.cons.inj h
      exact ⟨by decide, by decide, by decide⟩
    · obtain ⟨-, h⟩ := List.cons.inj h
      obtain ⟨rfl, -⟩ := List.cons.inj h
      exact absurd rfl (hbefore _ (List.mem_cons_of_mem _ List.mem_cons_self))
  exact ⟨hplain, (find_write chrootTable).2 hplain⟩

/-- A directory whose name has a no-break space in it, and one with a carriage return. -/
def strayTable : List Record :=
  [⟨"sysfs", "/mnt/a\u00A0b", "sysfs", "rw"⟩, ⟨"sysfs", "/mnt/c\rsysfs", "sysfs", "rw"⟩]

/-- **Stray blanks**: a directory with a blank that is not escaped is passed over, or cut. -/
theorem find_write_stray :
    (∀ r ∈ strayTable, r.source ≠ "" ∧ r.directory ≠ "" ∧ r.kind ≠ "" ∧ r.options ≠ "") ∧
      (strayTable.find? (·.kind = "sysfs")).map (·.directory) = some "/mnt/a\u00A0b" ∧
      find (write strayTable) = some "/mnt/c" ∧ find (write (strayTable.take 1)) = none := by
  decide +kernel

end DeviceModel.Mount
