namespace SchemaDeploy.Text

def windowsHigh : List Nat := [
  0x20AC, 0x81, 0x201A, 0x192, 0x201E, 0x2026, 0x2020, 0x2021, 0x2C6, 0x2030, 0x160, 0x2039, 0x152,
  0x8D, 0x17D, 0x8F, 0x90, 0x2018, 0x2019, 0x201C, 0x201D, 0x2022, 0x2013, 0x2014, 0x2DC, 0x2122,
  0x161, 0x203A, 0x153, 0x9D, 0x17E, 0x178]

def windowsChar (b : UInt8) : Char :=
  let n := b.toNat
  Char.ofNat (if 0x80 ≤ n && n < 0xA0 then windowsHigh.getD (n - 0x80) n else n)

inductive ByteOrder where
  | little
  | big
  deriving DecidableEq, Repr

def ByteOrder.unit : ByteOrder → UInt8 → UInt8 → Nat
  | .little, a, b => a.toNat + 256 * b.toNat
  | .big, a, b => 256 * a.toNat + b.toNat

def units16? (order : ByteOrder) : List UInt8 → Option (List Nat)
  | [] => some []
  | [_] => none
  | a :: b :: t => (units16? order t).map (order.unit a b :: ·)

/-- The characters of the units; a surrogate without its partner is malformed. -/
def ofUnits16? : List Nat → Option (List Char)
  | [] => some []
  | [u] => if 0xD800 ≤ u ∧ u < 0xE000 then none else some [Char.ofNat u]
  | u :: v :: t =>
    if 0xD800 ≤ u ∧ u < 0xDC00 then
      if 0xDC00 ≤ v ∧ v < 0xE000 then
        (ofUnits16? t).map (Char.ofNat (0x10000 + (u - 0xD800) * 0x400 + (v - 0xDC00)) :: ·)
      else none
    else if 0xDC00 ≤ u ∧ u < 0xE000 then none
    else (ofUnits16? (v :: t)).map (Char.ofNat u :: ·)

/-- Bytes that are no UTF-8 text. A UTF-8 byte order mark before such bytes makes them malformed. -/
def decodeOther? : List UInt8 → Option (List Char)
  | 0xEF :: 0xBB :: 0xBF :: _ => none
  | 0xFF :: 0xFE :: t => (units16? .little t).bind ofUnits16?
  | 0xFE :: 0xFF :: t => (units16? .big t).bind ofUnits16?
  | t => some (t.map windowsChar)

end SchemaDeploy.Text

namespace SchemaDeploy

def decodeScript? (bytes : ByteArray) : Option String :=
  match String.fromUTF8? bytes with
  | some s => some s
  | none => (Text.decodeOther? bytes.data.toList).map String.ofList

end SchemaDeploy
