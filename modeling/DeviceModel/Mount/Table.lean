import DeviceModel.Text.Blank
import DeviceModel.Text.Utf8

/-!
The mount table: one record a line, fields between blanks. A field is written with octal
escapes for the characters that would end it, and read back octet by octet.
-/

namespace DeviceModel.Mount

open Text

structure Record where
  source : String
  directory : String
  kind : String
  options : String
  deriving DecidableEq

/-! ### Reading -/

def octalDigit (b : UInt8) : Option Nat :=
  if 48 ≤ b ∧ b ≤ 55 then some (b.toNat - 48) else none

/-- The number that three octets after a backslash stand for: three octal digits, or a plus
sign and two. It must fit an octet. -/
def escapeValue (a b c : UInt8) : Option UInt8 := do
  let high ← if a = 43 then some 0 else octalDigit a
  let n := high * 64 + (← octalDigit b) * 8 + (← octalDigit c)
  if n < 256 then some (.ofNat n) else none

/-- Reads the escapes of a field. A backslash that begins none stands for itself. -/
def unescapeBytes : Bytes → Bytes
  | [] => []
  | 92 :: a :: b :: c :: rest =>
    match escapeValue a b c with
    | some v => v :: unescapeBytes rest
    | none => 92 :: unescapeBytes (a :: b :: c :: rest)
  | b :: rest => b :: unescapeBytes rest

def unescape (field : String) : String := decodeLossy (unescapeBytes (encode field))

/-- The directory field of a line whose third field is `kind`. -/
def directoryField (kind : String) (line : List Char) : Option String :=
  match fields line with
  | _ :: directory :: k :: _ => if String.ofList k = kind then some (.ofList directory) else none
  | _ => none

/-- Where the first file system of type `sysfs` is mounted. -/
def find (table : String) : Option String :=
  ((split (· == '\n') table.toList).findSome? (directoryField "sysfs")).map unescape

/-! ### Writing -/

def octal (b : UInt8) : List Char :=
  ['\\', Nat.digitChar (b.toNat / 64), Nat.digitChar (b.toNat / 8 % 8), Nat.digitChar (b.toNat % 8)]

/-- A field with the escapes of all octets of the characters that `p` names. -/
def escapeWhere (p : Char → Bool) (field : String) : String :=
  String.ofList <| field.toList.flatMap fun c =>
    if p c then (String.utf8EncodeChar c).flatMap octal else [c]

/-- The characters that would end a field, and the one that begins an escape. -/
def mustEscape (c : Char) : Bool := c == ' ' || c == '\t' || c == '\n' || c == '\\'

def escape (field : String) : String := escapeWhere mustEscape field

def Record.write (r : Record) : String :=
  escape r.source ++ " " ++ escape r.directory ++ " " ++ escape r.kind ++ " " ++
    escape r.options ++ " 0 0\n"

def write (table : List Record) : String := table.foldr (fun r text => r.write ++ text) ""

@[simp] theorem write_nil : write [] = "" := rfl
@[simp] theorem write_cons (r : Record) (rs : List Record) :
    write (r :: rs) = r.write ++ write rs := rfl

end DeviceModel.Mount
