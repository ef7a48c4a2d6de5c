import DeviceModel.Proofs.Mount.Escapes

/-!
What the reader of a field takes for an escape.

A field is read from left to right: where an escape begins it stands for its octet and the reading
goes on behind it, and every other octet stands for itself. This is told for any form that escapes
may have. Written escapes are three octal digits; the reader takes them for what they are, and a
plus sign with two octal digits behind it for an escape as well. So a field is read as it should be
just if no backslash in it has such a sign behind it.
-/

namespace DeviceModel.Mount

open Text

/-! ### Forms of escapes -/

/-- Three octal digits whose number fits an octet. -/
def IsOctal (a b c v : UInt8) : Prop :=
  ∃ x y z, x < 8 ∧ y < 8 ∧ z < 8 ∧ a = digitOctet x ∧ b = digitOctet y ∧ c = digitOctet z ∧
    v.toNat = x * 64 + y * 8 + z

/-- A plus sign and two octal digits. -/
def IsSigned (a b c v : UInt8) : Prop :=
  ∃ y z, y < 8 ∧ z < 8 ∧ a = 43 ∧ b = digitOctet y ∧ c = digitOctet z ∧ v.toNat = y * 8 + z

/-- All that is taken for an escape. -/
def IsEscape (a b c v : UInt8) : Prop := IsOctal a b c v ∨ IsSigned a b c v

variable {a b c v : UInt8}

lemma octalDigit_eq_some_iff {n : Nat} : octalDigit b = some n ↔ n < 8 ∧ b = digitOctet n := by
  constructor
  · intro h
    unfold octalDigit at h
    split at h
    · next hb =>
      rw [UInt8.le_iff_toNat_le, UInt8.le_iff_toNat_le] at hb
      have hlow : 48 ≤ b.toNat := hb.1
      have hhigh : b.toNat ≤ 55 := hb.2
      obtain rfl := Option.some.inj h
      refine ⟨by omega, ?_⟩
      rw [digitOctet, Nat.add_sub_cancel' hlow, UInt8.ofNat_toNat]
    · cases h
  · rintro ⟨hn, rfl⟩
    exact octalDigit_digitOctet hn

lemma digitOctet_ne {n : Nat} (hn : n < 8) : digitOctet n ≠ 43 ∧ digitOctet n ≠ 92 := by
  have hvalue := toNat_digitOctet hn
  constructor
  all_goals
    intro he
    rw [he] at hvalue
    simp at hvalue
    omega

lemma escapeValue_eq (a b c : UInt8) :
    escapeValue a b c =
      (if a = 43 then some 0 else octalDigit a).bind fun high =>
        (octalDigit b).bind fun mid => (octalDigit c).bind fun low =>
          if high * 64 + mid * 8 + low < 256 then some (.ofNat (high * 64 + mid * 8 + low))
          else none := by
  unfold escapeValue
  split <;> rfl

/-- What the digits behind the first come to, with the number `high` of the first. -/
lemma bind_octalDigit_eq_some_iff {high : Nat} :
    ((octalDigit b).bind fun mid => (octalDigit c).bind fun low =>
      if high * 64 + mid * 8 + low < 256 then some (UInt8.ofNat (high * 64 + mid * 8 + low))
      else none) = some v ↔
    ∃ y z, y < 8 ∧ z < 8 ∧ b = digitOctet y ∧ c = digitOctet z ∧
      v.toNat = high * 64 + y * 8 + z := by
  constructor
  · intro h
    obtain ⟨y, hb, h⟩ := Option.bind_eq_some_iff.1 h
    obtain ⟨z, hc, h⟩ := Option.bind_eq_some_iff.1 h
    obtain ⟨hy, hb⟩ := octalDigit_eq_some_iff.1 hb
    obtain ⟨hz, hc⟩ := octalDigit_eq_some_iff.1 hc
    split at h
    · next hn =>
      rw [← Option.some.inj h]
      exact ⟨y, z, hy, hz, hb, hc, UInt8.toNat_ofNat_of_lt' hn⟩
    · cases h
  · rintro ⟨y, z, hy, hz, rfl, rfl, hv⟩
    have hn : high * 64 + y * 8 + z < 256 := hv ▸ v.toNat_lt
    rw [octalDigit_digitOctet hy, octalDigit_digitOctet hz, Option.bind_some, Option.bind_some,
      if_pos hn, ← hv, UInt8.ofNat_toNat]

/-- The reader takes three octets for an escape just if they have one of the two forms. -/
theorem escapeValue_eq_some_iff : escapeValue a b c = some v ↔ IsEscape a b c v := by
  rw [escapeValue_eq, Option.bind_eq_some_iff]
  simp only [bind_octalDigit_eq_some_iff]
  constructor
  · rintro ⟨high, hhigh, y, z, hy, hz, hb, hc, hv⟩
    split at hhigh
    · next ha =>
      obtain rfl := Option.some.inj hhigh
      exact .inr ⟨y, z, hy, hz, ha, hb, hc, by omega⟩
    · obtain ⟨hx, ha⟩ := octalDigit_eq_some_iff.1 hhigh
      exact .inl ⟨high, y, z, hx, hy, hz, ha, hb, hc, hv⟩
  · rintro (⟨x, y, z, hx, hy, hz, rfl, hb, hc, hv⟩ | ⟨y, z, hy, hz, ha, hb, hc, hv⟩)
    · refine ⟨x, ?_, y, z, hy, hz, hb, hc, hv⟩
      rw [if_neg (digitOctet_ne hx).1, octalDigit_digitOctet hx]
    · exact ⟨0, if_pos ha, y, z, hy, hz, hb, hc, by omega⟩

/-! ### Readings -/

/-- An escape of the form `E` for the octet `v` begins some octets, and `rest` is behind it. -/
def Begins (E : UInt8 → UInt8 → UInt8 → UInt8 → Prop) (bs : Bytes) (v : UInt8) (rest : Bytes) :
    Prop :=
  ∃ a b c, bs = 92 :: a :: b :: c :: rest ∧ E a b c v

/-- A reading from left to right, with escapes of the form `E`. -/
inductive Reads (E : UInt8 → UInt8 → UInt8 → UInt8 → Prop) : Bytes → Bytes → Prop
  | nil : Reads E [] []
  | escape {bs rest out : Bytes} {v : UInt8} : Begins E bs v rest → Reads E rest out →
      Reads E bs (v :: out)
  | copy {b : UInt8} {rest out : Bytes} : (∀ v r, ¬ Begins E (b :: rest) v r) →
      Reads E rest out → Reads E (b :: rest) (b :: out)

/-- The text of a field, with escapes of the form `E`. -/
def Decodes (E : UInt8 → UInt8 → UInt8 → UInt8 → Prop) (field text : String) : Prop :=
  ∃ out, Reads E (encode field) out ∧ text = decodeLossy out

variable {E F : UInt8 → UInt8 → UInt8 → UInt8 → Prop} {bs out rest : Bytes}

/-- Where no backslash is, octets stand for themselves. -/
lemma Reads.plain_append (as : Bytes) (h : ∀ x ∈ as, x ≠ 92) (hr : Reads E bs out) :
    Reads E (as ++ bs) (as ++ out) := by
  induction as with
  | nil => exact hr
  | cons x as ih =>
    obtain ⟨hx, has⟩ := List.forall_mem_cons.1 h
    refine .copy ?_ (ih has)
    rintro v r ⟨a, b, c, he, -⟩
    exact hx (List.cons.inj he).1

/-- A reading that meets no escapes but those of both forms is one for either. -/
lemma Reads.congr (h : ∀ back v r, back <:+ bs → (Begins E back v r ↔ Begins F back v r))
    (hr : Reads E bs out) : Reads F bs out := by
  induction hr with
  | nil => exact .nil
  | @escape bs rest out v hb _ ih =>
    have hrest : rest <:+ bs := by
      obtain ⟨a, b, c, rfl, -⟩ := hb
      exact ⟨[92, a, b, c], rfl⟩
    exact .escape ((h bs v rest List.suffix_rfl).1 hb)
      (ih fun back v r hback => h back v r (hback.trans hrest))
  | @copy b rest out hb _ ih =>
    refine .copy (fun v r hf => hb v r ((h _ v r List.suffix_rfl).2 hf)) ?_
    exact ih fun back v r hback => h back v r (hback.trans (List.suffix_cons b rest))

lemma unescapeBytes_of_begins (h : Begins IsEscape bs v rest) :
    unescapeBytes bs = v :: unescapeBytes rest := by
  obtain ⟨a, b, c, rfl, he⟩ := h
  have hvalue := escapeValue_eq_some_iff.2 he
  simp [unescapeBytes, hvalue]

lemma unescapeBytes_of_not_begins (h : ∀ v r, ¬ Begins IsEscape (b :: rest) v r) :
    unescapeBytes (b :: rest) = b :: unescapeBytes rest := by
  by_cases hb : b = 92
  · subst hb
    rcases rest with _ | ⟨x, _ | ⟨y, _ | ⟨z, rest⟩⟩⟩
    · rfl
    · rfl
    · rfl
    · have hnone : escapeValue x y z = none := by
        rcases hv : escapeValue x y z with _ | v
        · rfl
        · exact absurd ⟨x, y, z, rfl, escapeValue_eq_some_iff.1 hv⟩ (h v rest)
      simp [unescapeBytes, hnone]
  · exact unescapeBytes_cons hb rest

/-- The reader reads with the escapes of both forms, and every field can be read so. -/
theorem reads_iff : Reads IsEscape bs out ↔ unescapeBytes bs = out := by
  constructor
  · intro h
    induction h with
    | nil => rfl
    | escape hb _ ih => rw [unescapeBytes_of_begins hb, ih]
    | copy hb _ ih => rw [unescapeBytes_of_not_begins hb, ih]
  · rintro rfl
    fun_induction unescapeBytes bs with
    | case1 => exact .nil
    | case2 a b c rest v hv ih =>
      exact .escape ⟨a, b, c, rfl, escapeValue_eq_some_iff.1 hv⟩ ih
    | case3 a b c rest hnone ih =>
      -- three octets follow, but they are no escape
      refine .copy ?_ ih
      rintro v r ⟨a', b', c', he, hescape⟩
      obtain ⟨rfl, rfl, rfl, rfl⟩ : a' = a ∧ b' = b ∧ c' = c ∧ r = rest := by simp_all
      rw [escapeValue_eq_some_iff.2 hescape] at hnone
      cases hnone
    | case4 b rest hshort ih =>
      -- too few octets follow for an escape, or there is no backslash
      refine .copy ?_ ih
      rintro v r ⟨a', b', c', he, -⟩
      exact hshort a' b' c' r (List.cons.inj he).1 (List.cons.inj he).2

/-! ### Signs -/

/-- Somewhere in some octets begins an escape with a sign. -/
def HasSigned (bs : Bytes) : Prop := ∃ back v rest, back <:+ bs ∧ Begins IsSigned back v rest

lemma hasSigned_cons_iff :
    HasSigned (b :: rest) ↔ (∃ v r, Begins IsSigned (b :: rest) v r) ∨ HasSigned rest := by
  simp only [HasSigned, List.suffix_cons_iff]
  constructor
  · rintro ⟨back, v, r, rfl | hback, hb⟩
    · exact .inl ⟨v, r, hb⟩
    · exact .inr ⟨back, v, r, hback, hb⟩
  · rintro (⟨v, r, hb⟩ | ⟨back, v, r, hback, hb⟩)
    · exact ⟨_, v, r, .inl rfl, hb⟩
    · exact ⟨back, v, r, .inr hback, hb⟩

lemma not_begins_of_ne (hb : b ≠ 92) (r : Bytes) : ¬ Begins E (b :: rest) v r := by
  rintro ⟨x, y, z, he, -⟩
  exact hb (List.cons.inj he).1

/-- No sign stands in an escape of octal digits, so what begins with it has its signs behind it. -/
lemma hasSigned_of_begins (h : Begins IsOctal bs v rest) (hs : HasSigned bs) :
    HasSigned rest := by
  obtain ⟨a, b, c, rfl, x, y, z, hx, hy, hz, rfl, rfl, rfl, -⟩ := h
  have hdigit {n : Nat} (hn : n < 8) (l : Bytes) (hl : HasSigned (digitOctet n :: l)) :
      HasSigned l := by
    refine (hasSigned_cons_iff.1 hl).resolve_left ?_
    rintro ⟨v, r, hb⟩
    exact not_begins_of_ne (digitOctet_ne hn).2 r hb
  refine hdigit hz _ (hdigit hy _ (hdigit hx _ ((hasSigned_cons_iff.1 hs).resolve_left ?_)))
  rintro ⟨v, r, x', y', z', he, y, z, hy, hz, rfl, -⟩
  simp only [List.cons.injEq, true_and] at he
  exact (digitOctet_ne hx).1 he.1

/-- Up to the first sign both readings are the same. There one of them has the backslash, and the
other an octet for two digits. -/
lemma exists_diverge (h : Reads IsOctal bs out) (hs : HasSigned bs) :
    ∃ front v o o', v.toNat < 64 ∧ out = front ++ 92 :: o ∧
      unescapeBytes bs = front ++ v :: o' := by
  induction h with
  | nil =>
    obtain ⟨back, v, r, hback, a, b, c, rfl, -⟩ := hs
    cases List.suffix_nil.1 hback
  | @escape bs rest out w hb _ ih =>
    obtain ⟨front, v, o, o', hv, rfl, he⟩ := ih (hasSigned_of_begins hb hs)
    obtain ⟨a, b, c, rfl, hoctal⟩ := hb
    have hboth : Begins IsEscape (92 :: a :: b :: c :: rest) w rest :=
      ⟨a, b, c, rfl, .inl hoctal⟩
    exact ⟨w :: front, v, o, o', hv, rfl, by rw [unescapeBytes_of_begins hboth, he]; rfl⟩
  | @copy b rest out hb _ ih =>
    -- at the first sign the one copies the backslash and the other takes it for an escape
    by_cases hsign : ∃ v r, Begins IsSigned (b :: rest) v r
    · obtain ⟨v, r, x, y, z, he, hsigned⟩ := hsign
      have hboth : Begins IsEscape (b :: rest) v r := ⟨x, y, z, he, .inr hsigned⟩
      obtain ⟨m, n, hm, hn, -, -, -, hv⟩ := hsigned
      obtain ⟨rfl, -⟩ := List.cons.inj he
      exact ⟨[], v, out, unescapeBytes r, by omega, rfl, unescapeBytes_of_begins hboth⟩
    · obtain ⟨front, v, o, o', hv, rfl, he⟩ := ih ((hasSigned_cons_iff.1 hs).resolve_left hsign)
      have hnone : ∀ v r, ¬ Begins IsEscape (b :: rest) v r := by
        rintro v r ⟨x, y, z, heq, hoctal | hsigned⟩
        · exact hb v r ⟨x, y, z, heq, hoctal⟩
        · exact hsign ⟨v, r, x, y, z, heq, hsigned⟩
      exact ⟨b :: front, v, o, o', hv, rfl, by rw [unescapeBytes_of_not_begins hnone, he]; rfl⟩

/-- A sign shows in the text that is read. -/
lemma not_decodes_of_hasSigned {field : String} (hs : HasSigned (encode field)) :
    ¬ Decodes IsOctal field (unescape field) := by
  rintro ⟨out, hr, he⟩
  obtain ⟨front, v, o, o', hv, rfl, hbytes⟩ := exists_diverge hr hs
  have hchars := congrArg String.toList he
  rw [unescape, hbytes, decodeLossy, decodeLossy, String.toList_ofList, String.toList_ofList]
    at hchars
  have hne : v ≠ 92 := by
    rintro rfl
    exact absurd hv (by decide)
  exact decodeFrom_append_cons_ne late_none (by omega) (by decide) hne front o' o hchars

lemma decodes_of_not_hasSigned {field : String} (hs : ¬ HasSigned (encode field)) :
    Decodes IsOctal field (unescape field) := by
  refine ⟨_, (reads_iff.2 rfl).congr fun back v r hback => ?_, rfl⟩
  constructor
  · rintro ⟨a, b, c, he, hoctal | hsigned⟩
    · exact ⟨a, b, c, he, hoctal⟩
    · exact absurd ⟨back, v, r, hback, a, b, c, he, hsigned⟩ hs
  · rintro ⟨a, b, c, he, hoctal⟩
    exact ⟨a, b, c, he, .inl hoctal⟩

/-- **What is decoded**: a field is read from left to right, with three octal digits that fit an
octet for an escape, and a plus sign and two octal digits besides. So what is read is what the
escapes of three digits alone come to just if there is no backslash with such a sign behind it. -/
theorem unescape_decodes (field : String) :
    (∀ text, Decodes IsEscape field text ↔ text = unescape field) ∧
    (Decodes IsOctal field (unescape field) ↔ ¬ HasSigned (encode field)) := by
  refine ⟨fun text => ?_, ?_⟩
  · constructor
    · rintro ⟨out, hr, rfl⟩
      rw [unescape, reads_iff.1 hr]
    · rintro rfl
      exact ⟨_, reads_iff.2 rfl, rfl⟩
  · exact ⟨fun h hs => not_decodes_of_hasSigned hs h, decodes_of_not_hasSigned⟩

/-- **A sign**: a plus sign and two digits behind a backslash are no octal escape, and are read as
one. -/
theorem unescape_signed :
    Decodes IsOctal "/mnt/a\\+12b" "/mnt/a\\+12b" ∧ unescape "/mnt/a\\+12b" = "/mnt/a\nb" ∧
      find "sysfs /mnt/a\\+12b sysfs rw 0 0\n" = some "/mnt/a\nb" := by
  have hplain : Reads IsOctal (encode "+12b") (encode "+12b") := by
    simpa using Reads.nil.plain_append (encode "+12b") (by decide +kernel)
  have hsign : ∀ v r, ¬ Begins IsOctal (92 :: encode "+12b") v r := by
    rintro v r ⟨a, b, c, he, x, y, z, hx, -, -, rfl, -⟩
    exact (digitOctet_ne hx).1 (List.cons.inj (List.cons.inj he).2).1.symm
  have hwhole := (Reads.copy hsign hplain).plain_append (encode "/mnt/a") (by decide +kernel)
  exact ⟨⟨_, hwhole, by decide +kernel⟩, by decide +kernel, by decide +kernel⟩

/-! ### Written fields -/

/-- **Escapes undone**: whatever characters are written as the escapes of their octets, the
backslash among them, a field is read back, character for character. -/
theorem unescape_escapeWhere {p : Char → Bool} (hp : p '\\' = true) (field : String) :
    unescape (escapeWhere p field) = field := by
  rw [unescape, unescapeBytes_encode_escapeWhere hp, decodeLossy_encode]

/-- A character of three octets is escaped between others that are not, and the field looks as if it
had an escape in it. -/
theorem unescape_escapeWhere_mixed :
    (fun c => c == '\\' || c == '本') '\\' = true ∧
      escapeWhere (fun c => c == '\\' || c == '本') "/日本語\\040" =
        "/日\\346\\234\\254語\\134040" ∧
      unescape (escapeWhere (fun c => c == '\\' || c == '本') "/日本語\\040") = "/日本語\\040" :=
  ⟨by decide, by decide +kernel, unescape_escapeWhere (by decide) _⟩

end DeviceModel.Mount
