import SensorBee.Parser.Peg
import SensorBee.Parser.Ast

/-!
# The BQL grammar

The rules of `bql.peg` in their order, with the action each `{ ... }` block runs.
-/
namespace SensorBee.Parser

inductive Rule where
  | statement | selectStmt | createStreamAsSelectStmt | createSourceStmt | createSinkStmt
  | createStreamFromSourceStmt | createStreamFromSourceExtStmt | insertIntoSelectStmt
  | emitProjections | projections | projection | windowedFrom | range | «from» | relations
  | filter | grouping | groupList | having | sourceSinkSpecs | sourceSinkParam
  | expression | orExpr | andExpr | comparisonExpr | termExpr | productExpr | baseExpr
  | funcApp | funcParams | literal | comparisonOp | plusMinusOp | multDivOp
  | relation | columnName | numericLiteral | floatLiteral | function | booleanLiteral
  | TRUE | FALSE | wildcard | stringLiteral | emitter | ISTREAM | DSTREAM | RSTREAM
  | rangeUnit | TUPLES | SECONDS | sourceSinkName | sourceSinkType | sourceSinkParamKey
  | sourceSinkParamVal | or | and | equal | less | lessOrEqual | greater | greaterOrEqual
  | notEqual | plus | minus | multiply | divide | modulo | ident | sp
  deriving DecidableEq, Repr

/-- The calls made by the action blocks; `begin` and `end` are read by the span-taking ones. -/
inductive Action where
  | pushComponent (l : Leaf)
  | assembleSelect | assembleCreateStreamAsSelect | assembleCreateSource | assembleCreateSink
  | assembleCreateStreamFromSource | assembleCreateStreamFromSourceExt
  | assembleInsertIntoSelect | assembleEmitProjections | assembleProjections
  | assembleWindowedFrom | assembleRange | assembleFrom | assembleFilter | assembleGrouping
  | assembleHaving | assembleSourceSinkSpecs | assembleSourceSinkParam
  | assembleBinaryOperation | assembleFuncApp | assembleExpressions
  deriving DecidableEq, Repr

namespace Rule

def sp' : Peg Rule := .call .sp

def binary (x op : Rule) : Peg Rule :=
  .capture (.seqs (.call x) [sp', .opt (.seqs (.call op) [sp', .call x])])

def commaList (first item : Rule) : Peg Rule :=
  .seqs (.call first) [sp', .star (.seqs (.char ',') [sp', .call item])]

def identTail : Peg Rule := .alts (.irange 'a' 'z') [.range '0' '9', .char '_']

def body : Rule → Peg Rule
  | statement => .seq (.alts (.call selectStmt) [.call createStreamAsSelectStmt,
      .call createSourceStmt, .call createStreamFromSourceStmt,
      .call createStreamFromSourceExtStmt, .call createSinkStmt, .call insertIntoSelectStmt])
      (.not .any)
  | selectStmt => .seqs (.word "SELECT") [sp', .call projections, sp', .call «from», sp',
      .call filter, sp', .call grouping, sp', .call having, sp']
  | createStreamAsSelectStmt => .seqs (.word "CREATE") [sp', .word "STREAM", sp',
      .call relation, sp', .word "AS", sp', .word "SELECT", sp', .call emitProjections, sp',
      .call windowedFrom, sp', .call filter, sp', .call grouping, sp', .call having, sp']
  | createSourceStmt => .seqs (.word "CREATE") [sp', .word "SOURCE", sp',
      .call sourceSinkName, sp', .word "TYPE", sp', .call sourceSinkType, sp',
      .call sourceSinkSpecs]
  | createSinkStmt => .seqs (.word "CREATE") [sp', .word "SINK", sp',
      .call sourceSinkName, sp', .word "TYPE", sp', .call sourceSinkType, sp',
      .call sourceSinkSpecs]
  | createStreamFromSourceStmt => .seqs (.word "CREATE") [sp', .word "STREAM", sp',
      .call relation, sp', .word "FROM", sp', .word "SOURCE", sp', .call sourceSinkName]
  | createStreamFromSourceExtStmt => .seqs (.word "CREATE") [sp', .word "STREAM", sp',
      .call relation, sp', .word "FROM", sp', .call sourceSinkType, sp', .word "SOURCE", sp',
      .call sourceSinkSpecs]
  | insertIntoSelectStmt => .seqs (.word "INSERT") [sp', .word "INTO", sp',
      .call sourceSinkName, sp', .call selectStmt]
  | emitProjections => .seqs (.call emitter) [sp', .char '(', .call projections, .char ')']
  | projections => .capture (commaList projection projection)
  | projection => .call expression
  | windowedFrom => .capture (.opt (.seqs (.word "FROM") [sp', .call relations, sp',
      .char '[', sp', .word "RANGE", sp', .call range, sp', .char ']']))
  | range => .seqs (.call numericLiteral) [sp', .call rangeUnit]
  | «from» => .capture (.opt (.seqs (.word "FROM") [sp', .call relations]))
  | relations => commaList relation relation
  | filter => .capture (.opt (.seqs (.word "WHERE") [sp', .call expression]))
  | grouping => .capture (.opt (.seqs (.word "GROUP") [sp', .word "BY", sp', .call groupList]))
  | groupList => commaList expression expression
  | having => .capture (.opt (.seqs (.word "HAVING") [sp', .call expression]))
  | sourceSinkSpecs => .capture (.opt (.seqs (.word "WITH") [sp', .call sourceSinkParam, sp',
      .star (.seqs (.char ',') [sp', .call sourceSinkParam])]))
  | sourceSinkParam => .seqs (.call sourceSinkParamKey) [.char '=', .call sourceSinkParamVal]
  | expression => .call orExpr
  | orExpr => binary andExpr or
  | andExpr => binary comparisonExpr and
  | comparisonExpr => binary termExpr comparisonOp
  | termExpr => binary productExpr plusMinusOp
  | productExpr => binary baseExpr multDivOp
  | baseExpr => .alts (.seqs (.char '(') [sp', .call expression, sp', .char ')'])
      [.call booleanLiteral, .call funcApp, .call columnName, .call wildcard, .call literal]
  | funcApp => .seqs (.call function) [sp', .char '(', sp', .call funcParams, sp', .char ')']
  | funcParams => .capture (commaList expression expression)
  | literal => .alts (.call floatLiteral) [.call numericLiteral, .call stringLiteral]
  | comparisonOp => .alts (.call equal) [.call notEqual, .call lessOrEqual, .call less,
      .call greaterOrEqual, .call greater, .call notEqual]
  | plusMinusOp => .alt (.call plus) (.call minus)
  | multDivOp => .alts (.call multiply) [.call divide, .call modulo]
  | relation => .capture (.call ident)
  | columnName => .capture (.call ident)
  | numericLiteral => .capture (.seq (.opt (.char '-')) (.plus (.range '0' '9')))
  | floatLiteral => .capture (.seqs (.opt (.char '-'))
      [.plus (.range '0' '9'), .char '.', .plus (.range '0' '9')])
  | function => .capture (.call ident)
  | booleanLiteral => .alt (.call TRUE) (.call FALSE)
  | TRUE => .capture (.word "true")
  | FALSE => .capture (.word "false")
  | wildcard => .capture (.char '*')
  | stringLiteral => .capture (.seqs (.char quote)
      [.star (.alt (.word ⟨[quote, quote]⟩) (.seq (.not (.word ⟨[quote]⟩)) .any)), .char quote])
  | emitter => .alts (.call ISTREAM) [.call DSTREAM, .call RSTREAM]
  | ISTREAM => .capture (.word "ISTREAM")
  | DSTREAM => .capture (.word "DSTREAM")
  | RSTREAM => .capture (.word "RSTREAM")
  | rangeUnit => .alt (.call TUPLES) (.call SECONDS)
  | TUPLES => .capture (.word "TUPLES")
  | SECONDS => .capture (.word "SECONDS")
  | sourceSinkName => .capture (.call ident)
  | sourceSinkType => .capture (.call ident)
  | sourceSinkParamKey => .capture (.call ident)
  | sourceSinkParamVal => .capture (.plus identTail)
  | or => .capture (.word "OR")
  | and => .capture (.word "AND")
  | equal => .capture (.word "=")
  | less => .capture (.word "<")
  | lessOrEqual => .capture (.word "<=")
  | greater => .capture (.word ">")
  | greaterOrEqual => .capture (.word ">=")
  | notEqual => .capture (.alt (.word "!=") (.word "<>"))
  | plus => .capture (.word "+")
  | minus => .capture (.word "-")
  | multiply => .capture (.word "*")
  | divide => .capture (.word "/")
  | modulo => .capture (.word "%")
  | ident => .seq (.irange 'a' 'z') (.star identTail)
  | sp => .star (.alts (.char ' ') [.char (Char.ofNat 9), .char (Char.ofNat 10)])

def action : Rule → Option Action
  | selectStmt => some .assembleSelect
  | createStreamAsSelectStmt => some .assembleCreateStreamAsSelect
  | createSourceStmt => some .assembleCreateSource
  | createSinkStmt => some .assembleCreateSink
  | createStreamFromSourceStmt => some .assembleCreateStreamFromSource
  | createStreamFromSourceExtStmt => some .assembleCreateStreamFromSourceExt
  | insertIntoSelectStmt => some .assembleInsertIntoSelect
  | emitProjections => some .assembleEmitProjections
  | projections => some .assembleProjections
  | windowedFrom => some .assembleWindowedFrom
  | range => some .assembleRange
  | «from» => some .assembleFrom
  | filter => some .assembleFilter
  | grouping => some .assembleGrouping
  | having => some .assembleHaving
  | sourceSinkSpecs => some .assembleSourceSinkSpecs
  | sourceSinkParam => some .assembleSourceSinkParam
  | orExpr | andExpr | comparisonExpr | termExpr | productExpr => some .assembleBinaryOperation
  | funcApp => some .assembleFuncApp
  | funcParams => some .assembleExpressions
  | relation => some (.pushComponent .relation)
  | columnName => some (.pushComponent .columnName)
  | numericLiteral => some (.pushComponent .numericLiteral)
  | floatLiteral => some (.pushComponent .floatLiteral)
  | function => some (.pushComponent .funcName)
  | TRUE => some (.pushComponent (.boolLiteral true))
  | FALSE => some (.pushComponent (.boolLiteral false))
  | wildcard => some (.pushComponent .wildcard)
  | stringLiteral => some (.pushComponent .stringLiteral)
  | ISTREAM => some (.pushComponent (.emitter .istream))
  | DSTREAM => some (.pushComponent (.emitter .dstream))
  | RSTREAM => some (.pushComponent (.emitter .rstream))
  | TUPLES => some (.pushComponent (.rangeUnit .tuples))
  | SECONDS => some (.pushComponent (.rangeUnit .seconds))
  | sourceSinkName => some (.pushComponent .sourceSinkName)
  | sourceSinkType => some (.pushComponent .sourceSinkType)
  | sourceSinkParamKey => some (.pushComponent .sourceSinkParamKey)
  | sourceSinkParamVal => some (.pushComponent .sourceSinkParamVal)
  | or => some (.pushComponent (.operator .or))
  | and => some (.pushComponent (.operator .and))
  | equal => some (.pushComponent (.operator .equal))
  | less => some (.pushComponent (.operator .less))
  | lessOrEqual => some (.pushComponent (.operator .lessOrEqual))
  | greater => some (.pushComponent (.operator .greater))
  | greaterOrEqual => some (.pushComponent (.operator .greaterOrEqual))
  | notEqual => some (.pushComponent (.operator .notEqual))
  | plus => some (.pushComponent (.operator .plus))
  | minus => some (.pushComponent (.operator .minus))
  | multiply => some (.pushComponent (.operator .multiply))
  | divide => some (.pushComponent (.operator .divide))
  | modulo => some (.pushComponent (.operator .modulo))
  | _ => none

end Rule

/-- `bqlPeg`: the grammar with its actions. -/
def bqlPeg : Grammar Rule Action := ⟨Rule.body, Rule.action⟩

end SensorBee.Parser
