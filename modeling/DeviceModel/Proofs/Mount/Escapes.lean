import Mathlib.Tactic.Conv
import Mathlib.Tactic.Lemma
import DeviceModel.Mount.Table
import DeviceModel.Proofs.Text.Octets

/-!
Escapes of a field, written and read back octet by octet.

An escape is written with three octal digits and stands for the octet it was written for. All other
characters stand for themselves, if those that begin an escape are written as escapes: a backslash
is an octet of no other character.
-/

namespace DeviceModel.Mount

open Text

variable {c : Char} {n : Nat} {b : UInt8}

/-! ### Digits -/

/-- The octet that writes an octal digit. -/
def digitOctet (n : Nat) : UInt8 := .ofNat (48 + n)

lemma toNat_digitOctet (h : n < 8) : (digitOctet n).toNat = 48 + n := by
  simp [digitOctet]
  omega

lemma octalDigit_digitOctet (h : n < 8) : octalDigit (digitOctet n) = some n := by
  have hn := toNat_digitOctet h
  have hlow : 48 ≤ digitOctet n := by
    rw [UInt8.le_iff_toNat_le, hn]
    exact Nat.le_add_right 48 n
  have hhigh : digitOctet n ≤ 55 := by
    rw [UInt8.le_iff_toNat_le, hn]
    exact Nat.add_le_add_left (Nat.le_of_lt_succ h) 48
  rw [octalDigit, if_pos ⟨hlow, hhigh⟩, hn, Nat.add_sub_cancel_left]

lemma utf8EncodeChar_digitChar (h : n < 8) :
    String.utf8EncodeChar (Nat.digitChar n) = [digitOctet n] := by
  have hall : ∀ n : Fin 8, String.utf8EncodeChar (Nat.digitChar n) = [digitOctet n] := by decide
  exact hall ⟨n, h⟩

/-- Three digits stand for their number. -/
lemma escapeValue_digitOctet {high mid low : Nat} (hh : high < 8) (hm : mid < 8) (hl : low < 8)
    (h : high * 64 + mid * 8 + low < 256) :
    escapeValue (digitOctet high) (digitOctet mid) (digitOctet low) =
      some (.ofNat (high * 64 + mid * 8 + low)) := by
  have hplus : digitOctet high ≠ 43 := by
    intro he
    have := congrArg UInt8.toNat he
    rw [toNat_digitOctet hh] at this
    simp at this
    omega
  simp [escapeValue, hplus, octalDigit_digitOctet hh, octalDigit_digitOctet hm,
    octalDigit_digitOctet hl, h]

/-! ### Octets -/

lemma unescapeBytes_cons (h : b ≠ 92) (bs : Bytes) :
    unescapeBytes (b :: bs) = b :: unescapeBytes bs := by
  conv_lhs => unfold unescapeBytes
  split <;> simp_all

lemma unescapeBytes_append {as : Bytes} (h : ∀ b ∈ as, b ≠ 92) (bs : Bytes) :
    unescapeBytes (as ++ bs) = as ++ unescapeBytes bs := by
  induction as with
  | nil => rfl
  | cons a as ih =>
    obtain ⟨ha, has⟩ := List.forall_mem_cons.1 h
    rw [List.cons_append, unescapeBytes_cons ha, ih has, List.cons_append]

/-- An escape is read as the octet it was written for. -/
lemma unescapeBytes_octal (b : UInt8) (bs : Bytes) :
    unescapeBytes ((octal b).flatMap String.utf8EncodeChar ++ bs) = b :: unescapeBytes bs := by
  have hb : b.toNat < 256 := b.toNat_lt
  have hvalue : escapeValue (digitOctet (b.toNat / 64)) (digitOctet (b.toNat / 8 % 8))
      (digitOctet (b.toNat % 8)) = some b := by
    have hnumber : b.toNat / 64 * 64 + b.toNat / 8 % 8 * 8 + b.toNat % 8 = b.toNat := by omega
    rw [escapeValue_digitOctet (by omega) (by omega) (by omega) (by omega), hnumber,
      UInt8.ofNat_toNat]
  have hoctets : (octal b).flatMap String.utf8EncodeChar = [92, digitOctet (b.toNat / 64),
      digitOctet (b.toNat / 8 % 8), digitOctet (b.toNat % 8)] := by
    have hbackslash : String.utf8EncodeChar '\\' = [92] := rfl
    rw [octal, List.flatMap_cons, List.flatMap_cons, List.flatMap_cons, List.flatMap_cons,
      hbackslash, utf8EncodeChar_digitChar (by omega), utf8EncodeChar_digitChar (by omega),
      utf8EncodeChar_digitChar (by omega)]
    rfl
  rw [hoctets]
  simp [unescapeBytes, hvalue]

lemma unescapeBytes_flatMap_octal (as bs : Bytes) :
    unescapeBytes ((as.flatMap octal).flatMap String.utf8EncodeChar ++ bs) =
      as ++ unescapeBytes bs := by
  induction as with
  | nil => rfl
  | cons a as ih =>
    rw [List.flatMap_cons, List.flatMap_append, List.append_assoc, unescapeBytes_octal, ih,
      List.cons_append]

/-! ### Characters -/

/-- A backslash is an octet of no other character. -/
lemma ne_of_mem_utf8EncodeChar (hc : c ≠ '\\') (hb : b ∈ String.utf8EncodeChar c) : b ≠ 92 := by
  rintro rfl
  exact hc (eq_of_mem_utf8EncodeChar (a := '\\') (by decide) hb)

/-- **Escapes** are read back, if those of the backslash are written. -/
theorem unescapeBytes_encode_escapeWhere {p : Char → Bool} (hp : p '\\' = true) (s : String) :
    unescapeBytes (encode (escapeWhere p s)) = encode s := by
  have hchars (cs : List Char) : unescapeBytes
      ((cs.flatMap fun c => if p c then (String.utf8EncodeChar c).flatMap octal else [c]).flatMap
        String.utf8EncodeChar) = cs.flatMap String.utf8EncodeChar := by
    induction cs with
    | nil => rfl
    | cons c cs ih =>
      rw [List.flatMap_cons, List.flatMap_append, List.flatMap_cons]
      by_cases hc : p c = true
      · rw [if_pos hc, unescapeBytes_flatMap_octal, ih]
      · have hne : c ≠ '\\' := by
          rintro rfl
          exact hc hp
        rw [if_neg hc, List.flatMap_singleton,
          unescapeBytes_append fun b hb => ne_of_mem_utf8EncodeChar hne hb, ih]
  rw [encode, escapeWhere, String.toList_ofList]
  exact hchars s.toList

end DeviceModel.Mount
