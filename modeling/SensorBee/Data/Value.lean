import Mathlib

/-!
# Dynamic values of the `data` package

Modelled from the spec (section 1, the tagged dynamic values with map and array containers
and type-coercion casts): `data.Value`, `data.Map` and the strict casts `AsBool`, `AsInt`,
`AsFloat`, `AsString`, `AsMap`, whose Go source is not in this repository's files. Only the
value types the modelled code names are kept. A `float64` is kept as its IEEE-754 bits.
-/
namespace SensorBee.Data

/-- An IEEE-754 binary64 number, by its bits. -/
structure Float64 where
  bits : UInt64
  deriving DecidableEq, Repr

structure Float32 where
  bits : UInt32
  deriving DecidableEq, Repr

namespace Float64

/-- Go's `float32(x)` on amd64: round to nearest even; a NaN is quieted and keeps the top of
its payload. -/
def toFloat32 (x : Float64) : Float32 :=
  let b := x.bits.toNat
  let sign := b / 2 ^ 63 * 2 ^ 31
  let e := b / 2 ^ 52 % 2 ^ 11
  let m := b % 2 ^ 52
  if e = 2047 then
    ⟨UInt32.ofNat (sign + 0x7F800000 + if m = 0 then 0 else 0x400000 + m / 2 ^ 29)⟩
  else
    let M := if e = 0 then m else m + 2 ^ 52
    let E : Int := (if e = 0 then 1 else e : Nat) - 1075
    -- the quantum of the result: 24 significant bits, or the subnormal step 2^-149
    let Q : Int := max (Nat.log2 M + E - 23) (-149)
    let k := (Q - E).toNat
    let q := M / 2 ^ k
    let rem := M % 2 ^ k
    let r := if 2 ^ k < 2 * rem ∨ (2 * rem = 2 ^ k ∧ q % 2 = 1) then q + 1 else q
    let field := if r < 2 ^ 23 then 0 else (Q + 150).toNat + r / 2 ^ 24
    if 255 ≤ field then ⟨UInt32.ofNat (sign + 0x7F800000)⟩
    else ⟨UInt32.ofNat (sign + field * 2 ^ 23 + r / 2 ^ (r / 2 ^ 24) % 2 ^ 23)⟩

/-- Go's `i = int64(f)` followed by the test `f == float64(i)` on amd64: the integer `f`
equals, when `f` is finite, integral and in the `int64` range. -/
def exactInt? (x : Float64) : Option Int :=
  let b := x.bits.toNat
  let e := b / 2 ^ 52 % 2 ^ 11
  let m := b % 2 ^ 52
  let M := if e = 0 then m else m + 2 ^ 52
  let k := if e = 0 then 1 else e
  let mag : Option Nat :=
    if e = 2047 then none
    else if 1075 ≤ k then some (M * 2 ^ (k - 1075))
    else if M % 2 ^ (1075 - k) = 0 then some (M / 2 ^ (1075 - k)) else none
  mag.bind fun a =>
    let v : Int := if 2 ^ 63 ≤ b then -(a : Int) else a
    if -2 ^ 63 ≤ v ∧ v < 2 ^ 63 then some v else none

end Float64

inductive TypeID where
  | null | bool | int | float | string | array | map
  deriving DecidableEq, Repr

def TypeID.name : TypeID → String
  | .null => "null" | .bool => "bool" | .int => "int" | .float => "float"
  | .string => "string" | .array => "array" | .map => "map"

inductive Value where
  | null
  | bool (b : Bool)
  | int (i : BitVec 64)
  | float (f : Float64)
  | string (s : String)
  | array (vs : List Value)
  | map (m : List (String × Value))
  deriving Repr

abbrev Map := List (String × Value)

def Value.type : Value → TypeID
  | .null => .null | .bool _ => .bool | .int _ => .int | .float _ => .float
  | .string _ => .string | .array _ => .array | .map _ => .map

def Map.get? (m : Map) (key : String) : Option Value := m.lookup key

inductive DataError where
  | text (msg : String)
  | cast (want got : TypeID)
  deriving DecidableEq, Repr

def asBool : Value → Except DataError Bool
  | .bool b => .ok b
  | v => .error (.cast .bool v.type)

def asInt : Value → Except DataError (BitVec 64)
  | .int i => .ok i
  | v => .error (.cast .int v.type)

def asFloat : Value → Except DataError Float64
  | .float f => .ok f
  | v => .error (.cast .float v.type)

def asString : Value → Except DataError String
  | .string s => .ok s
  | v => .error (.cast .string v.type)

def asMap : Value → Except DataError Map
  | .map m => .ok m
  | v => .error (.cast .map v.type)

/-- The weak conversions `ToBool`, `ToInt`, `ToFloat`, `ToString`. Their source is not in
this repository's files, so every result below holds for any choice of them. -/
structure WeakCasts where
  toBool : Value → Except DataError Bool
  toInt : Value → Except DataError (BitVec 64)
  toFloat : Value → Except DataError Float64
  toString : Value → Except DataError String

def WeakCasts.strict : WeakCasts := ⟨asBool, asInt, asFloat, asString⟩

end SensorBee.Data
