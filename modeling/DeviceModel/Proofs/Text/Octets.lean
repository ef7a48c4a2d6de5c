import Mathlib.Tactic.Lemma
import Mathlib.Tactic.SplitIfs
import DeviceModel.Text.Utf8

/-!
Octets of ASCII among those of other characters.

A character of ASCII is written as one octet, and no octet of any other character is one of ASCII.
So a text can be looked through for such a character octet by octet, and where it stands in some
octets it stands in what is read from them, be the rest well formed or not.
-/

namespace DeviceModel.Text

variable {a c : Char} {b : UInt8}

/-! ### Writing -/

lemma utf8EncodeChar_of_lt (h : c.toNat < 128) :
    String.utf8EncodeChar c = [UInt8.ofNat c.toNat] := by
  have hv : c.val.toNat ≤ 127 := Nat.le_of_lt_succ h
  simp only [String.utf8EncodeChar]
  rw [if_pos hv]
  rfl

/-- All octets of a longer character are beyond ASCII. -/
lemma le_of_mem_utf8EncodeChar (h : 128 ≤ c.toNat) (hb : b ∈ String.utf8EncodeChar c) :
    128 ≤ b.toNat := by
  have hv : ¬ c.val.toNat ≤ 127 := Nat.not_le.2 h
  have hoctet : ∃ k, 128 ≤ k ∧ k < 256 ∧ b = UInt8.ofNat k := by
    simp only [String.utf8EncodeChar] at hb
    generalize c.val.toNat = v at hb hv
    rw [if_neg hv] at hb
    split at hb
    · simp only [List.mem_cons, List.not_mem_nil, or_false] at hb
      rcases hb with rfl | rfl
      all_goals exact ⟨_, by omega, by omega, rfl⟩
    · split at hb
      · simp only [List.mem_cons, List.not_mem_nil, or_false] at hb
        rcases hb with rfl | rfl | rfl
        all_goals exact ⟨_, by omega, by omega, rfl⟩
      · simp only [List.mem_cons, List.not_mem_nil, or_false] at hb
        rcases hb with rfl | rfl | rfl | rfl
        all_goals exact ⟨_, by omega, by omega, rfl⟩
  obtain ⟨k, hlow, hhigh, rfl⟩ := hoctet
  rwa [UInt8.toNat_ofNat_of_lt' hhigh]

/-- An octet of ASCII is an octet of its own character alone. -/
lemma eq_of_mem_utf8EncodeChar (ha : a.toNat < 128)
    (hb : UInt8.ofNat a.toNat ∈ String.utf8EncodeChar c) : c = a := by
  have hvalue : (UInt8.ofNat a.toNat).toNat = a.toNat :=
    UInt8.toNat_ofNat_of_lt' (Nat.lt_trans ha (by decide))
  by_cases hc : c.toNat < 128
  · rw [utf8EncodeChar_of_lt hc, List.mem_singleton] at hb
    have hchar := congrArg UInt8.toNat hb
    rw [hvalue, UInt8.toNat_ofNat_of_lt' (Nat.lt_trans hc (by decide))] at hchar
    exact Char.toNat_inj.1 hchar.symm
  · have hlong := le_of_mem_utf8EncodeChar (Nat.not_lt.1 hc) hb
    omega

/-! ### Reading -/

/-- What is pending asks for octets beyond ASCII. -/
def Late (q : Option Pending) : Prop := ∀ p, q = some p → 128 ≤ p.low

lemma late_none : Late none := fun _ h => nomatch h

lemma late_first (v : Nat) : Late (Pending.first v) := by
  intro p hp
  unfold Pending.first at hp
  split_ifs at hp
  all_goals simp only [Option.some.injEq] at hp
  all_goals simp [← hp]

lemma late_start (v : Nat) : Late (start v).2 := by
  unfold start
  split
  · exact late_none
  · have hfirst := late_first v
    rcases hq : Pending.first v with _ | q
    · exact late_none
    · rwa [hq] at hfirst

lemma late_step (q : Option Pending) (v : Nat) : Late (step q v).2 := by
  cases q with
  | none => exact late_start v
  | some q =>
    rw [step]
    split_ifs
    · exact late_none
    · exact fun p hp => Option.some.inj hp ▸ Nat.le_refl 128
    · exact late_start v

/-- An octet of ASCII ends what is pending, and stands for itself. -/
lemma step_of_lt {q : Option Pending} {v : Nat} (hq : Late q) (hv : v < 128) :
    (step q v).1 = (if q.isSome then [replacement] else []) ++ [Char.ofNat v] := by
  have hstart : (start v).1 = [Char.ofNat v] := by rw [start, if_pos hv]
  cases q with
  | none => exact hstart
  | some q =>
    have hlow := hq q rfl
    have hnot : ¬ (q.low ≤ v ∧ v ≤ q.high) := by omega
    rw [step, if_neg hnot, hstart]
    rfl

lemma toNat_ofNat_of_lt {v : Nat} (h : v < 128) : (Char.ofNat v).toNat = v := by
  have hvalid : v.isValidChar := .inl (Nat.lt_trans h (by decide))
  rw [Char.ofNat, dif_pos hvalid]
  rfl

/-- Octets of ASCII that differ are read differently, whatever comes before and after them. -/
lemma decodeFrom_append_cons_ne {q : Option Pending} (hq : Late q) {x y : UInt8}
    (hx : x.toNat < 128) (hy : y.toNat < 128) (hne : x ≠ y) (front rest rest' : Bytes) :
    decodeFrom q (front ++ x :: rest) ≠ decodeFrom q (front ++ y :: rest') := by
  induction front generalizing q with
  | nil =>
    intro he
    rw [List.nil_append, List.nil_append, decodeFrom_cons, decodeFrom_cons, step_of_lt hq hx,
      step_of_lt hq hy, List.append_assoc, List.append_assoc, List.append_cancel_left_eq] at he
    have hchar := congrArg Char.toNat (List.cons.inj he).1
    rw [toNat_ofNat_of_lt hx, toNat_ofNat_of_lt hy] at hchar
    exact hne (UInt8.toNat_inj.1 hchar)
  | cons b front ih =>
    intro he
    rw [List.cons_append, List.cons_append, decodeFrom_cons, decodeFrom_cons,
      List.append_cancel_left_eq] at he
    exact ih (late_step q b.toNat) he

end DeviceModel.Text
