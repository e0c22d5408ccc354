import SensorBee.Parser.Grammar

/-!
# Which texts the grammar accepts

The canonical printers below are this development's own; `bql.peg` has none. The grammar rejects
some of their outputs: `BooleanLiteral` is tried before `FuncApp` and `ColumnName` and takes the
prefix `true` of an identifier, and `CreateStreamFromSourceStmt` comes before
`CreateStreamFromSourceExtStmt` and reads a source type named `source` as its keyword.
-/
namespace SensorBee.Parser

def Operator.text : Operator → String
  | .or => "OR" | .and => "AND"
  | .equal => "=" | .less => "<" | .lessOrEqual => "<=" | .greater => ">"
  | .greaterOrEqual => ">=" | .notEqual => "!="
  | .plus => "+" | .minus => "-"
  | .multiply => "*" | .divide => "/" | .modulo => "%"

def Operator.level : Operator → Nat
  | .or => 0 | .and => 1
  | .equal | .less | .lessOrEqual | .greater | .greaterOrEqual | .notEqual => 2
  | .plus | .minus => 3
  | .multiply | .divide | .modulo => 4

def doubleQuotes (s : List Char) : List Char :=
  s.foldr (fun d acc => if d = quote then quote :: quote :: acc else d :: acc) []

mutual
/-- The canonical printer of expression trees; `parent` is the operator of the enclosing
binary node, and a binary child is parenthesised when it binds no tighter than it. -/
def Expression.renderIn (parent : Option Operator) : Expression → String
  | .binaryOp op l r =>
    let s := l.renderIn (some op) ++ " " ++ op.text ++ " " ++ r.renderIn (some op)
    match parent with
    | some p => if op.level ≤ p.level then "(" ++ s ++ ")" else s
    | none => s
  | .funcApp f es => f ++ "(" ++ ", ".intercalate (Expression.renderAll es) ++ ")"
  | .columnName n => n
  | .numericLiteral v => toString v
  | .floatLiteral t => t
  | .stringLiteral s => ⟨quote :: doubleQuotes s.toList ++ [quote]⟩
  | .boolLiteral b => if b then "true" else "false"
  | .wildcard => "*"

def Expression.renderAll : List Expression → List String
  | [] => []
  | e :: es => e.renderIn none :: Expression.renderAll es
end

def Expression.render (e : Expression) : String := e.renderIn none

/-- `first sp (',' sp item)*` with one space for each `sp`. -/
def commaText : List String → String
  | [] => ""
  | s :: ss => s ++ " " ++ String.join (ss.map (", " ++ ·))

def clauseText (kw : String) : Option String → String
  | none => ""
  | some s => kw ++ " " ++ s

def listClause (kw : String) : List String → String
  | [] => ""
  | ss => kw ++ " " ++ commaText ss

def RangeUnit.text : RangeUnit → String
  | .tuples => "TUPLES" | .seconds => "SECONDS"

def Emitter.text : Emitter → String
  | .istream => "ISTREAM" | .dstream => "DSTREAM" | .rstream => "RSTREAM"

def specsText : List (String × String) → String
  | [] => ""
  | (k, v) :: ps =>
    "WITH " ++ k ++ "=" ++ v ++ " " ++ String.join (ps.map fun p => ", " ++ p.1 ++ "=" ++ p.2)

def SelectStmt.render (s : SelectStmt) : String :=
  "SELECT " ++ commaText (Expression.renderAll s.projections) ++ " " ++
    listClause "FROM" s.relations ++ " " ++ clauseText "WHERE" (s.filter.map (·.render)) ++
    " " ++ listClause "GROUP BY" (Expression.renderAll s.grouping) ++ " " ++
    clauseText "HAVING" (s.having.map (·.render)) ++ " "

def WindowedFromAST.render (w : WindowedFromAST) : String :=
  match w.range with
  | none => ""
  | some r => "FROM " ++ commaText w.relations ++ " [ RANGE " ++ toString r.value ++ " " ++
      r.unit.text ++ " ]"

def Statement.render : Statement → String
  | .select s => s.render
  | .createStreamAsSelect n em ps w f g h =>
    "CREATE STREAM " ++ n ++ " AS SELECT " ++ em.text ++ " (" ++
      commaText (Expression.renderAll ps) ++ ") " ++ w.render ++ " " ++
      clauseText "WHERE" (f.map (·.render)) ++ " " ++
      listClause "GROUP BY" (Expression.renderAll g) ++ " " ++
      clauseText "HAVING" (h.map (·.render)) ++ " "
  | .createSource n t ps => "CREATE SOURCE " ++ n ++ " TYPE " ++ t ++ " " ++ specsText ps
  | .createSink n t ps => "CREATE SINK " ++ n ++ " TYPE " ++ t ++ " " ++ specsText ps
  | .createStreamFromSource r s => "CREATE STREAM " ++ r ++ " FROM SOURCE " ++ s
  | .createStreamFromSourceExt r t ps =>
    "CREATE STREAM " ++ r ++ " FROM " ++ t ++ " SOURCE " ++ specsText ps
  | .insertIntoSelect n s => "INSERT INTO " ++ n ++ " " ++ s.render

/-- A column named `trueval` is printed as itself, and the grammar rejects the query. -/
theorem select_trueval_rejected :
    ¬ bqlPeg.Accepts .statement ("SELECT " ++ (Expression.columnName "trueval").render).toList :=
  bqlPeg.not_accepts_of_fail 3000 (by decide)

/-- The external-type stream statement whose type is named `source` is rejected. -/
theorem create_stream_from_source_typed_rejected :
    ¬ bqlPeg.Accepts .statement
      (Statement.createStreamFromSourceExt "s" "source" []).render.toList :=
  bqlPeg.not_accepts_of_fail 3000 (by decide)

/-- Whitespace in three gaps where the rules have no `sp`: around `=` in a parameter, inside
the parentheses of an emitter, and after the last token of a statement without a final `sp`. -/
theorem unspaced_gaps_reject_whitespace :
    bqlPeg.Accepts .statement "CREATE SOURCE s TYPE t WITH k=v".toList ∧
    ¬ bqlPeg.Accepts .statement "CREATE SOURCE s TYPE t WITH k =v".toList ∧
    bqlPeg.Accepts .statement "CREATE STREAM s AS SELECT ISTREAM(1)".toList ∧
    ¬ bqlPeg.Accepts .statement "CREATE STREAM s AS SELECT ISTREAM( 1)".toList ∧
    bqlPeg.Accepts .statement "CREATE STREAM s FROM SOURCE t".toList ∧
    ¬ bqlPeg.Accepts .statement "CREATE STREAM s FROM SOURCE t ".toList :=
  ⟨bqlPeg.accepts_of_matchesAt 3000 (by decide),
    bqlPeg.not_accepts_of_fail 3000 (by decide),
    bqlPeg.accepts_of_matchesAt 3000 (by decide),
    bqlPeg.not_accepts_of_fail 3000 (by decide),
    bqlPeg.accepts_of_matchesAt 3000 (by decide),
    bqlPeg.not_accepts_of_fail 3000 (by decide)⟩

end SensorBee.Parser
