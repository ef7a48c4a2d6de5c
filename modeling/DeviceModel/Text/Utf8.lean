/-!
Text as octets. Reading replaces every longest ill-formed stretch that starts like a
character, or a single octet that starts none, by one replacement character.
-/

namespace DeviceModel.Text

abbrev Bytes := List UInt8

def encode (s : String) : Bytes := s.toList.flatMap String.utf8EncodeChar

/-- What a reader holds inside a character: the bits so far, how many octets are owed, and
the least and the greatest octet that may come next. -/
structure Pending where
  value : Nat
  owed : Nat
  low : Nat
  high : Nat

def replacement : Char := '\uFFFD'

/-- The first octet of a character of two octets or more. -/
def Pending.first (v : Nat) : Option Pending :=
  if 0xC2 ≤ v ∧ v ≤ 0xDF then some ⟨v - 0xC0, 1, 0x80, 0xBF⟩
  else if v = 0xE0 then some ⟨0, 2, 0xA0, 0xBF⟩
  else if v = 0xED then some ⟨0xD, 2, 0x80, 0x9F⟩
  else if 0xE1 ≤ v ∧ v ≤ 0xEF then some ⟨v - 0xE0, 2, 0x80, 0xBF⟩
  else if v = 0xF0 then some ⟨0, 3, 0x90, 0xBF⟩
  else if 0xF1 ≤ v ∧ v ≤ 0xF3 then some ⟨v - 0xF0, 3, 0x80, 0xBF⟩
  else if v = 0xF4 then some ⟨4, 3, 0x80, 0x8F⟩
  else none

/-- Reading an octet between characters: what it yields and what is then pending. -/
def start (v : Nat) : List Char × Option Pending :=
  if v < 0x80 then ([Char.ofNat v], none)
  else
    match Pending.first v with
    | some q => ([], some q)
    | none => ([replacement], none)

def step : Option Pending → Nat → List Char × Option Pending
  | none, v => start v
  | some q, v =>
    if q.low ≤ v ∧ v ≤ q.high then
      let value := q.value * 64 + (v - 0x80)
      if q.owed ≤ 1 then ([Char.ofNat value], none)
      else ([], some ⟨value, q.owed - 1, 0x80, 0xBF⟩)
    else (replacement :: (start v).1, (start v).2)

def decodeFrom : Option Pending → Bytes → List Char
  | none, [] => []
  | some _, [] => [replacement]
  | q, b :: bs => (step q b.toNat).1 ++ decodeFrom (step q b.toNat).2 bs

/-- The text of any octets. -/
def decodeLossy (bs : Bytes) : String := String.ofList (decodeFrom none bs)

/-- The text of octets that are well formed throughout. -/
def decode? (bs : Bytes) : Option String :=
  if encode (decodeLossy bs) = bs then some (decodeLossy bs) else none

theorem encode_of_decode?_eq_some {bs : Bytes} {s : String} (h : decode? bs = some s) :
    encode s = bs := by
  unfold decode? at h
  split at h
  · next he => rw [← Option.some.inj h, he]
  · cases h

@[simp] theorem decodeFrom_none_nil : decodeFrom none [] = [] := rfl
theorem decodeFrom_cons (q : Option Pending) (b : UInt8) (bs : Bytes) :
    decodeFrom q (b :: bs) = (step q b.toNat).1 ++ decodeFrom (step q b.toNat).2 bs := by
  cases q <;> rfl

/-- Order of texts by their octets. -/
def octetsLE (s t : String) : Bool := decide (encode s ≤ encode t)

/-! ### Reading back -/

/-- What an octet that goes on a character leads to. -/
theorem decodeFrom_next {q : Pending} {n : Nat} (hl : q.low ≤ n) (hh : n ≤ q.high) (hn : n < 256)
    (ho : 1 < q.owed) (bs : Bytes) :
    decodeFrom (some q) (UInt8.ofNat n :: bs) =
      decodeFrom (some ⟨q.value * 64 + (n - 0x80), q.owed - 1, 0x80, 0xBF⟩) bs := by
  have h : (UInt8.ofNat n).toNat = n := by simp; omega
  rw [decodeFrom_cons, h]
  simp [step, hl, hh, Nat.not_le.2 ho]

theorem decodeFrom_last {q : Pending} {n : Nat} (hl : q.low ≤ n) (hh : n ≤ q.high) (hn : n < 256)
    (ho : q.owed ≤ 1) (bs : Bytes) :
    decodeFrom (some q) (UInt8.ofNat n :: bs) =
      Char.ofNat (q.value * 64 + (n - 0x80)) :: decodeFrom none bs := by
  have h : (UInt8.ofNat n).toNat = n := by simp; omega
  rw [decodeFrom_cons, h]
  simp [step, hl, hh, ho]

theorem decodeFrom_first {n : Nat} {q : Pending} (hn : n < 256) (h8 : 0x80 ≤ n)
    (hq : Pending.first n = some q) (bs : Bytes) :
    decodeFrom none (UInt8.ofNat n :: bs) = decodeFrom (some q) bs := by
  have h : (UInt8.ofNat n).toNat = n := by simp; omega
  rw [decodeFrom_cons, h]
  simp [step, start, hq, Nat.not_lt.2 h8]

theorem decodeFrom_utf8EncodeChar (c : Char) (bs : Bytes) :
    decodeFrom none (String.utf8EncodeChar c ++ bs) = c :: decodeFrom none bs := by
  have hc : Char.ofNat c.val.toNat = c := Char.ofNat_toNat c
  have hv : c.val.toNat < 0xD800 ∨ 0xDFFF < c.val.toNat ∧ c.val.toNat < 0x110000 := c.valid
  simp only [String.utf8EncodeChar]
  generalize c.val.toNat = v at hc hv
  by_cases h1 : v ≤ 127
  · -- one octet, which is the character itself
    have h : (UInt8.ofNat v).toNat = v := by simp; omega
    rw [if_pos h1, List.cons_append, decodeFrom_cons, h]
    simp [step, start, show v < 128 by omega, hc]
  rw [if_neg h1]
  by_cases h2 : v ≤ 2047
  · -- two octets
    rw [if_pos h2, List.cons_append, List.cons_append, List.nil_append,
      decodeFrom_first (by omega) (by omega)
        (q := ⟨v / 64, 1, 0x80, 0xBF⟩)
        (by simp only [Pending.first]; rw [if_pos (by omega), show v / 64 % 32 + 192 - 0xC0 = v / 64 by omega]),
      decodeFrom_last (by simp) (by simp; omega) (by omega) (by simp),
      show v / 64 * 64 + (v % 64 + 128 - 0x80) = v by omega, hc]
  rw [if_neg h2]
  by_cases h3 : v ≤ 65535
  · -- three octets: after 0xE0 and 0xED the second has narrower bounds than elsewhere
    rw [if_pos h3]
    simp only [List.cons_append, List.nil_append]
    obtain ⟨q, hq, hval, howe, hlow, hhigh⟩ : ∃ q, Pending.first (v / 4096 % 16 + 224) = some q ∧
        q.value = v / 4096 ∧ q.owed = 2 ∧ q.low ≤ v / 64 % 64 + 128 ∧
          v / 64 % 64 + 128 ≤ q.high := by
      unfold Pending.first
      by_cases ha : v / 4096 % 16 + 224 = 0xE0
      · exact ⟨_, by rw [if_neg (by omega), if_pos ha], by simp; omega, rfl, by simp; omega,
          by simp; omega⟩
      · by_cases hb : v / 4096 % 16 + 224 = 0xED
        · exact ⟨_, by rw [if_neg (by omega), if_neg ha, if_pos hb], by simp; omega, rfl,
            by simp, by simp; omega⟩
        · exact ⟨_, by rw [if_neg (by omega), if_neg ha, if_neg hb, if_pos (by omega)],
            by simp; omega, rfl, by simp, by simp; omega⟩
    rw [decodeFrom_first (by omega) (by omega) hq,
      decodeFrom_next hlow hhigh (by omega) (by omega),
      decodeFrom_last (by simp) (by simp; omega) (by omega) (by simp [howe])]
    simp only [hval]
    rw [show (v / 4096 * 64 + (v / 64 % 64 + 128 - 0x80)) * 64 + (v % 64 + 128 - 0x80) = v by omega,
      hc]
  · -- four octets: likewise after 0xF0 and 0xF4
    rw [if_neg h3]
    simp only [List.cons_append, List.nil_append]
    obtain ⟨q, hq, hval, howe, hlow, hhigh⟩ : ∃ q, Pending.first (v / 262144 % 8 + 240) = some q ∧
        q.value = v / 262144 ∧ q.owed = 3 ∧ q.low ≤ v / 4096 % 64 + 128 ∧
          v / 4096 % 64 + 128 ≤ q.high := by
      unfold Pending.first
      by_cases ha : v / 262144 % 8 + 240 = 0xF0
      · exact ⟨_, by rw [if_neg (by omega), if_neg (by omega), if_neg (by omega),
          if_neg (by omega), if_pos ha], by simp; omega, rfl, by simp; omega, by simp; omega⟩
      · by_cases hb : v / 262144 % 8 + 240 = 0xF4
        · exact ⟨_, by rw [if_neg (by omega), if_neg (by omega), if_neg (by omega),
            if_neg (by omega), if_neg ha, if_neg (by omega), if_pos hb], by simp; omega, rfl,
            by simp, by simp; omega⟩
        · exact ⟨_, by rw [if_neg (by omega), if_neg (by omega), if_neg (by omega),
            if_neg (by omega), if_neg ha, if_pos (by omega)], by simp; omega, rfl, by simp,
            by simp; omega⟩
    rw [decodeFrom_first (by omega) (by omega) hq,
      decodeFrom_next hlow hhigh (by omega) (by omega),
      decodeFrom_next (by simp) (by simp; omega) (by omega) (by simp [howe]),
      decodeFrom_last (by simp) (by simp; omega) (by omega) (by simp [howe])]
    simp only [hval]
    rw [show ((v / 262144 * 64 + (v / 4096 % 64 + 128 - 0x80)) * 64 + (v / 64 % 64 + 128 - 0x80)) *
      64 + (v % 64 + 128 - 0x80) = v by omega, hc]

theorem decodeFrom_flatMap (cs : List Char) (bs : Bytes) :
    decodeFrom none (cs.flatMap String.utf8EncodeChar ++ bs) = cs ++ decodeFrom none bs := by
  induction cs with
  | nil => rfl
  | cons c cs ih =>
    rw [List.flatMap_cons, List.append_assoc, decodeFrom_utf8EncodeChar, ih]; rfl

/-- Text that was written is read back. -/
theorem decodeLossy_encode (s : String) : decodeLossy (encode s) = s := by
  have h := decodeFrom_flatMap s.toList []
  simp only [List.append_nil, decodeFrom_none_nil] at h
  simp [decodeLossy, encode, h]

theorem encode_injective {s t : String} (h : encode s = encode t) : s = t := by
  rw [← decodeLossy_encode s, h, decodeLossy_encode]

theorem decode?_eq_some_iff {bs : Bytes} {s : String} : decode? bs = some s ↔ bs = encode s := by
  constructor
  · exact fun h => (encode_of_decode?_eq_some h).symm
  · rintro rfl
    simp [decode?, decodeLossy_encode]

end DeviceModel.Text
