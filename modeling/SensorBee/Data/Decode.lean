import SensorBee.Data.Reflect
import SensorBee.Data.FieldName

/-!
# `data.Decoder`: decoding a `Map` into a struct

`decode.go` as written. Every conversion goes through `decode`, which `decodeStruct` always
calls with `weaklyTyped = false`. The weak conversions and the `unicode` tables are parameters
of the section.
-/
namespace SensorBee.Data

structure DecoderMetadata where
  keys : List String
  unused : List String
  deriving Repr

structure DecoderConfig where
  errorUnused : Bool
  metadata : Option DecoderMetadata
  tagName : String
  deriving Repr

structure Decoder where
  config : DecoderConfig
  deriving Repr

/-- `NewDecoder`: a missing config is the zero config, and the tag name defaults to `bql`. -/
def NewDecoder (c : Option DecoderConfig) : Decoder :=
  let c := c.getD ⟨false, none, ""⟩
  ⟨if c.tagName = "" then { c with tagName := "bql" } else c⟩

/-- The map key of a field: the trimmed first comma-separated part of its tag, or the
snake-cased field name when that part is empty. -/
def Decoder.fieldKey (d : Decoder) (u : Unicode) (f : StructField) : String :=
  let name := trimSpace ⟨(f.tag.get d.config.tagName).toList.takeWhile (· ≠ ',')⟩
  if name = "" then toSnakeCase u f.name else name

section Decoding

variable (w : WeakCasts) (u : Unicode) (d : Decoder)

/-- The strict branch of `decodeInt`: `AsInt`, or a `Float` holding an integral value. -/
def strictInt (src : Value) : Except DataError (BitVec 64) :=
  match asInt src, src with
  | .ok i, _ => .ok i
  | .error _, .float f =>
    match f.exactInt? with
    | some v => .ok (BitVec.ofInt 64 v)
    | none => .error (.cast .int .float)
  | .error e, _ => .error e

def intOf (src : Value) (weaklyTyped : Bool) : Except DataError (BitVec 64) :=
  if weaklyTyped then w.toInt src else strictInt src

def convertThenSet {α : Type} (conv : Except DataError α) (set : α → Outcome GoValue)
    (dst : GoValue) : Outcome GoValue :=
  match conv with
  | .ok a => set a
  | .error e => .ret dst (some e)

def decodeBool (src : Value) (dst : GoValue) (canSet weaklyTyped : Bool) : Outcome GoValue :=
  convertThenSet (if weaklyTyped then w.toBool src else asBool src)
    (fun b => dst.setBool canSet b) dst

def decodeInt (src : Value) (dst : GoValue) (canSet weaklyTyped : Bool) : Outcome GoValue :=
  convertThenSet (intOf w src weaklyTyped) (fun i => dst.setInt canSet i) dst

def decodeFloat (src : Value) (dst : GoValue) (canSet weaklyTyped : Bool) : Outcome GoValue :=
  convertThenSet (if weaklyTyped then w.toFloat src else asFloat src)
    (fun f => dst.setFloat canSet f) dst

def decodeString (src : Value) (dst : GoValue) (canSet weaklyTyped : Bool) : Outcome GoValue :=
  convertThenSet (if weaklyTyped then w.toString src else asString src)
    (fun s => dst.setString canSet s) dst

def notImplemented (dst : GoValue) : Outcome GoValue :=
  .ret dst (some (.text "not implemented yet"))

def structFrom (src : Value) (fs : List (StructField × GoValue))
    (loop : Map → Outcome (List (StructField × GoValue))) : Outcome GoValue :=
  match asMap src with
  | .error _ => .ret (.struct fs) (some (.text "struct can only be decoded from a map"))
  | .ok m => (loop m).map .struct

mutual
/-- `decode`: dispatch on the kind of the destination. -/
def Decoder.decode (src : Value) (canSet weaklyTyped : Bool) : GoValue → Outcome GoValue
  | .bool b => decodeBool w src (.bool b) canSet weaklyTyped
  | .int k v => decodeInt w src (.int k v) canSet weaklyTyped
  | .uint k v => decodeInt w src (.uint k v) canSet weaklyTyped
  | .float32 f => decodeFloat w src (.float32 f) canSet weaklyTyped
  | .float64 f => decodeFloat w src (.float64 f) canSet weaklyTyped
  | .string s => decodeString w src (.string s) canSet weaklyTyped
  | .interface e =>
    if e then notImplemented (.interface e)
    else .ret (.interface e) (some (.text "only empty interface\x7b\x7d is supported"))
  | .map => notImplemented .map
  | .slice =>
    if src.type ≠ .array then
      .ret .slice (some (.text ("cannot decode to an array: " ++ src.type.name)))
    else notImplemented .slice
  | .other k => .ret (.other k) (some (.text ("decoder doesn't support the type: " ++ k.name)))
  | .struct fs => structFrom src fs (Decoder.decodeFields · canSet fs)

/-- The loop of `decodeStruct`: skip fields whose key is absent, stop at the first error. -/
def Decoder.decodeFields (m : Map) (canSet : Bool) :
    List (StructField × GoValue) → Outcome (List (StructField × GoValue))
  | [] => .ret [] none
  | (f, v) :: fs =>
    match m.get? (d.fieldKey u f) with
    | none => (Decoder.decodeFields m canSet fs).map ((f, v) :: ·)
    | some src =>
      match Decoder.decode src (canSet && f.exported u) false v with
      | .ret v' none => (Decoder.decodeFields m canSet fs).map ((f, v') :: ·)
      | .ret v' (some e) => .ret ((f, v') :: fs) (some e)
      | .panic msg => .panic msg
end

def Decoder.decodeStruct (src : Value) (canSet : Bool) (fs : List (StructField × GoValue)) :
    Outcome GoValue :=
  structFrom src fs (d.decodeFields w u · canSet fs)

inductive Target where
  | ptr (v : GoValue)
  | value (v : GoValue)
  deriving Repr

/-- `Decoder.Decode`: the pointee of a pointer to a struct is settable. -/
def Decoder.Decode (m : Map) : Target → Outcome Target
  | .ptr (.struct fs) => (d.decodeStruct w u (.map m) true fs).map .ptr
  | .ptr v => .ret (.ptr v) (some (.text "result must be pointer to a struct"))
  | .value v => .ret (.value v) (some (.text "result must be a pointer to a struct"))

def Decode (m : Map) (v : Target) : Outcome Target := (NewDecoder none).Decode w u m v

end Decoding

end SensorBee.Data
