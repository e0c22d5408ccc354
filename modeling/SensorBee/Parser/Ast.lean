import Mathlib.Data.List.Basic

/-!
# BQL syntax trees and parse-stack payloads

Modelled from the spec (section 4.3): the node set built by the assembler, whose Go source is
not in this repository's files. Leaf payloads are built from the text a rule captured.
-/
namespace SensorBee.Parser

inductive Operator where
  | or | and
  | equal | less | lessOrEqual | greater | greaterOrEqual | notEqual
  | plus | minus
  | multiply | divide | modulo
  deriving DecidableEq, Repr

inductive Emitter where
  | istream | dstream | rstream
  deriving DecidableEq, Repr

inductive RangeUnit where
  | tuples | seconds
  deriving DecidableEq, Repr

inductive Expression where
  | binaryOp (op : Operator) (left right : Expression)
  | funcApp (function : String) (params : List Expression)
  | columnName (name : String)
  | numericLiteral (value : Int)
  | floatLiteral (text : String)
  | stringLiteral (value : String)
  | boolLiteral (value : Bool)
  | wildcard
  deriving Repr

structure RangeAST where
  value : Int
  unit : RangeUnit
  deriving DecidableEq, Repr

structure WindowedFromAST where
  relations : List String
  range : Option RangeAST
  deriving DecidableEq, Repr

structure SelectStmt where
  projections : List Expression
  relations : List String
  filter : Option Expression
  grouping : List Expression
  having : Option Expression
  deriving Repr

inductive Statement where
  | select (s : SelectStmt)
  | createStreamAsSelect (name : String) (emitter : Emitter) (projections : List Expression)
      (windowedFrom : WindowedFromAST) (filter : Option Expression) (grouping : List Expression)
      (having : Option Expression)
  | createSource (name type : String) (params : List (String × String))
  | createSink (name type : String) (params : List (String × String))
  | createStreamFromSource (relation source : String)
  | createStreamFromSourceExt (relation type : String) (params : List (String × String))
  | insertIntoSelect (sink : String) (input : SelectStmt)
  deriving Repr

/-- The payload of a parse-stack fragment: a leaf token or an assembled node. -/
inductive Component where
  | expr (e : Expression)
  | operator (op : Operator)
  | relation (name : String)
  | funcName (name : String)
  | emitter (e : Emitter)
  | rangeUnit (u : RangeUnit)
  | sourceSinkName (name : String)
  | sourceSinkType (name : String)
  | sourceSinkParamKey (key : String)
  | sourceSinkParamVal (value : String)
  | expressionsAST (es : List Expression)
  | projectionsAST (es : List Expression)
  | fromAST (relations : List String)
  | windowedFromAST (w : WindowedFromAST)
  | rangeAST (r : RangeAST)
  | filterAST (e : Option Expression)
  | groupingAST (es : List Expression)
  | havingAST (e : Option Expression)
  | emitProjectionsAST (emitter : Emitter) (projections : List Expression)
  | sourceSinkParamAST (key value : String)
  | sourceSinkSpecsAST (params : List (String × String))
  | statement (s : Statement)
  deriving Repr

def digitsValue (ds : List Char) : Nat :=
  ds.foldl (fun n d => 10 * n + (d.toNat - '0'.toNat)) 0

/-- `NewNumericLiteral`: the text matched `-?[0-9]+`. -/
def numericValue : List Char → Int
  | '-' :: ds => -(digitsValue ds : Int)
  | ds => digitsValue ds

def quote : Char := Char.ofNat 39

def undouble : List Char → List Char
  | a :: b :: rest => if a = quote ∧ b = quote then quote :: undouble rest
      else a :: undouble (b :: rest)
  | l => l

def stringValue (s : List Char) : String := ⟨undouble (s.drop 1).dropLast⟩

inductive Leaf where
  | relation | columnName | numericLiteral | floatLiteral | funcName
  | boolLiteral (b : Bool) | wildcard | stringLiteral
  | emitter (e : Emitter) | rangeUnit (u : RangeUnit) | operator (op : Operator)
  | sourceSinkName | sourceSinkType | sourceSinkParamKey | sourceSinkParamVal
  deriving DecidableEq, Repr

/-- The payload a leaf action pushes for the captured runes `s`. -/
def Leaf.build : Leaf → List Char → Component
  | .relation, s => .relation ⟨s⟩
  | .columnName, s => .expr (.columnName ⟨s⟩)
  | .numericLiteral, s => .expr (.numericLiteral (numericValue s))
  | .floatLiteral, s => .expr (.floatLiteral ⟨s⟩)
  | .funcName, s => .funcName ⟨s⟩
  | .boolLiteral b, _ => .expr (.boolLiteral b)
  | .wildcard, _ => .expr .wildcard
  | .stringLiteral, s => .expr (.stringLiteral (stringValue s))
  | .emitter e, _ => .emitter e
  | .rangeUnit u, _ => .rangeUnit u
  | .operator op, _ => .operator op
  | .sourceSinkName, s => .sourceSinkName ⟨s⟩
  | .sourceSinkType, s => .sourceSinkType ⟨s⟩
  | .sourceSinkParamKey, s => .sourceSinkParamKey ⟨s⟩
  | .sourceSinkParamVal, s => .sourceSinkParamVal ⟨s⟩

end SensorBee.Parser
