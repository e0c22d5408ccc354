import SensorBee.Data.Value
import SensorBee.Strings

/-!
# The part of Go's `reflect` the decoder uses

A struct value is its list of fields, each with its name, its parsed tag and its value; the
kind of a field is the constructor of its value. A field is settable when every field on the
path to it is exported. The setters follow `reflect.Value.SetBool` and its siblings: they
panic on a value that is not settable or whose kind they do not handle.
-/
namespace SensorBee.Data

inductive IntKind where
  | int | int8 | int16 | int32 | int64
  deriving DecidableEq, Repr

inductive UintKind where
  | uint | uint8 | uint16 | uint32 | uint64
  deriving DecidableEq, Repr

def IntKind.width : IntKind → Nat
  | .int => 64 | .int8 => 8 | .int16 => 16 | .int32 => 32 | .int64 => 64

def UintKind.width : UintKind → Nat
  | .uint => 64 | .uint8 => 8 | .uint16 => 16 | .uint32 => 32 | .uint64 => 64

inductive OtherKind where
  | uintptr | complex64 | complex128 | array | chan | func | ptr | unsafePointer
  deriving DecidableEq, Repr

def OtherKind.name : OtherKind → String
  | .uintptr => "uintptr" | .complex64 => "complex64" | .complex128 => "complex128"
  | .array => "array" | .chan => "chan" | .func => "func" | .ptr => "ptr"
  | .unsafePointer => "unsafe.Pointer"

abbrev StructTag := List (String × String)

def StructTag.get (t : StructTag) (key : String) : String := (t.lookup key).getD ""

structure StructField where
  name : String
  tag : StructTag
  deriving DecidableEq, Repr

/-- A field is exported when `unicode.IsUpper` holds of the first rune of its name. -/
def StructField.exported (u : Unicode) (f : StructField) : Bool :=
  f.name.toList.head?.any u.isUpper

/-- A Go value together with its type. Maps, slices and interfaces carry no contents: the
decoder never reads or writes them. -/
inductive GoValue where
  | bool (b : Bool)
  | int (k : IntKind) (v : BitVec k.width)
  | uint (k : UintKind) (v : BitVec k.width)
  | float32 (f : Float32)
  | float64 (f : Float64)
  | string (s : String)
  | interface (empty : Bool)
  | map
  | slice
  | other (k : OtherKind)
  | struct (fields : List (StructField × GoValue))
  deriving Repr

def GoValue.kindName : GoValue → String
  | .bool _ => "bool" | .int .int _ => "int" | .int .int8 _ => "int8"
  | .int .int16 _ => "int16" | .int .int32 _ => "int32" | .int .int64 _ => "int64"
  | .uint .uint _ => "uint" | .uint .uint8 _ => "uint8" | .uint .uint16 _ => "uint16"
  | .uint .uint32 _ => "uint32" | .uint .uint64 _ => "uint64"
  | .float32 _ => "float32" | .float64 _ => "float64" | .string _ => "string"
  | .interface _ => "interface" | .map => "map" | .slice => "slice"
  | .other k => k.name | .struct _ => "struct"

/-- How a Go call ends: it returns the destination as it now is with an error (`none` is
`nil`), or it panics. -/
inductive Outcome (α : Type) where
  | ret (a : α) (err : Option DataError)
  | panic (msg : String)
  deriving Repr

def Outcome.map {α β : Type} (f : α → β) : Outcome α → Outcome β
  | .ret a e => .ret (f a) e
  | .panic m => .panic m

/-- `mustBeAssignable`, then the kind check of a setter. -/
def setter (method : String) (canSet : Bool) (dst : GoValue) (v : Option GoValue) :
    Outcome GoValue :=
  if !canSet then .panic ("reflect: reflect.Value." ++ method ++
    " using value obtained using unexported field")
  else match v with
    | some v => .ret v none
    | none => .panic ("reflect: call of reflect.Value." ++ method ++ " on " ++
      dst.kindName ++ " Value")

def GoValue.setBool (canSet : Bool) (b : Bool) (dst : GoValue) : Outcome GoValue :=
  setter "SetBool" canSet dst (match dst with | .bool _ => some (.bool b) | _ => none)

/-- `SetInt` stores `int8(x)`, `int16(x)` and so on: the low bits of `x`. -/
def GoValue.setInt (canSet : Bool) (x : BitVec 64) (dst : GoValue) : Outcome GoValue :=
  setter "SetInt" canSet dst
    (match dst with | .int k _ => some (.int k (BitVec.ofInt k.width x.toInt)) | _ => none)

def GoValue.setFloat (canSet : Bool) (x : Float64) (dst : GoValue) : Outcome GoValue :=
  setter "SetFloat" canSet dst (match dst with
    | .float32 _ => some (.float32 x.toFloat32)
    | .float64 _ => some (.float64 x)
    | _ => none)

def GoValue.setString (canSet : Bool) (s : String) (dst : GoValue) : Outcome GoValue :=
  setter "SetString" canSet dst (match dst with | .string _ => some (.string s) | _ => none)

end SensorBee.Data
