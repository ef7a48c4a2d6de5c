import DeviceModel.Text.Split

/-!
White space as the Unicode property of that name, and the fields of a line between it.
-/

namespace DeviceModel.Text

/-- The characters with the property `White_Space`. -/
def blanks : List (Nat × Nat) :=
  [(0x09, 0x0D), (0x20, 0x20), (0x85, 0x85), (0xA0, 0xA0), (0x1680, 0x1680), (0x2000, 0x200A),
   (0x2028, 0x2029), (0x202F, 0x202F), (0x205F, 0x205F), (0x3000, 0x3000)]

def isBlank (c : Char) : Bool := blanks.any fun r => r.1 ≤ c.toNat && c.toNat ≤ r.2

def fields (line : List Char) : List (List Char) := parts isBlank line

example : (blanks.map fun r => r.2 + 1 - r.1).sum = 25 := by decide

end DeviceModel.Text
