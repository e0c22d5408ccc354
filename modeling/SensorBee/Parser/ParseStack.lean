import SensorBee.Parser.Grammar

/-!
# The parse stack

Modelled from the spec (sections 3 and 4.2): `parseStack` and its `Assemble*` reductions, whose
Go source is not in this repository's files. A span-taking reduction takes the fragments a
`Selection` picks from the top of the stack; a fixed-arity one pops its declared parts. `none`
is the internal invariant violation (a panic in Go).
-/
namespace SensorBee.Parser

/-- A stack fragment: the rune span `[begin, end)` a rule matched and its payload. -/
structure ParsedComponent where
  begin : Nat
  «end» : Nat
  comp : Component
  deriving Repr

/-- Which fragments a reduction over `[begin, end)` takes while it scans down from the top. -/
abbrev Selection := Nat → Nat → ParsedComponent → Bool

/-- The spec's rule: every fragment whose span lies within `[begin, end)`. -/
def withinSpan : Selection := fun b e p => b ≤ p.begin && p.end ≤ e

/-- The same rule restricted to fragments of positive length. -/
def withinSpanNonEmpty : Selection := fun b e p => b ≤ p.begin && p.begin < p.end && p.end ≤ e

/-- The selected top fragments in textual order, and the stack below them. -/
def collectElements (sel : Selection) (b e : Nat) (st : List ParsedComponent) :
    List Component × List ParsedComponent :=
  ((st.takeWhile (sel b e)).reverse.map (·.comp), st.dropWhile (sel b e))

def Component.asExpr : Component → Option Expression
  | .expr e => some e
  | _ => none

def Component.asRelation : Component → Option String
  | .relation r => some r
  | _ => none

def Component.asParam : Component → Option (String × String)
  | .sourceSinkParamAST k v => some (k, v)
  | _ => none

def nonEmptyItems {α : Type} (f : Component → Option α) : List Component → Option (List α)
  | [] => none
  | cs => cs.mapM f

/-- Binary operation: one operand passes through, three build a node. -/
def binaryOperation : List Component → Option Component
  | [c] => some c
  | [.expr l, .operator op, .expr r] => some (.expr (.binaryOp op l r))
  | _ => none

def projections (cs : List Component) : Option Component :=
  (nonEmptyItems Component.asExpr cs).map .projectionsAST

def expressions (cs : List Component) : Option Component :=
  (nonEmptyItems Component.asExpr cs).map .expressionsAST

def fromClause : List Component → Option Component
  | [] => some (.fromAST [])
  | cs => (nonEmptyItems Component.asRelation cs).map .fromAST

def filterClause : List Component → Option Component
  | [] => some (.filterAST none)
  | [.expr e] => some (.filterAST (some e))
  | _ => none

def groupingClause : List Component → Option Component
  | [] => some (.groupingAST [])
  | cs => (nonEmptyItems Component.asExpr cs).map .groupingAST

def havingClause : List Component → Option Component
  | [] => some (.havingAST none)
  | [.expr e] => some (.havingAST (some e))
  | _ => none

def windowedFromClause (cs : List Component) : Option Component :=
  match cs.getLast? with
  | none => some (.windowedFromAST ⟨[], none⟩)
  | some (.rangeAST r) =>
    (nonEmptyItems Component.asRelation cs.dropLast).map (.windowedFromAST ⟨·, some r⟩)
  | some _ => none

def sourceSinkSpecs : List Component → Option Component
  | [] => some (.sourceSinkSpecsAST [])
  | cs => (nonEmptyItems Component.asParam cs).map .sourceSinkSpecsAST

/-- A span-taking reduction: collect, build one node, push it over `[begin, end)`. -/
def assembleSpan (build : List Component → Option Component) (sel : Selection) (b e : Nat)
    (st : List ParsedComponent) : Option (List ParsedComponent) :=
  (build (collectElements sel b e st).1).map (⟨b, e, ·⟩ :: (collectElements sel b e st).2)

-- Two cases of `TestAssembleBinaryOperation`: three items in the span become one node, and a
-- span with no items is a violation.
example : assembleSpan binaryOperation withinSpan 2 5
    [⟨4, 5, .expr (.columnName "b")⟩, ⟨3, 4, .operator .plus⟩, ⟨2, 3, .expr (.columnName "a")⟩,
      ⟨0, 2, .relation "PRE"⟩] =
    some [⟨2, 5, .expr (.binaryOp .plus (.columnName "a") (.columnName "b"))⟩,
      ⟨0, 2, .relation "PRE"⟩] := rfl

example : assembleSpan binaryOperation withinSpan 4 5 [⟨2, 3, .expr (.columnName "a")⟩] = none :=
  rfl

def assembleSelect : List ParsedComponent → Option (List ParsedComponent)
  | ⟨_, e, .havingAST h⟩ :: ⟨_, _, .groupingAST g⟩ :: ⟨_, _, .filterAST f⟩ ::
      ⟨_, _, .fromAST rs⟩ :: ⟨b, _, .projectionsAST ps⟩ :: st =>
    some (⟨b, e, .statement (.select ⟨ps, rs, f, g, h⟩)⟩ :: st)
  | _ => none

def assembleCreateStreamAsSelect : List ParsedComponent → Option (List ParsedComponent)
  | ⟨_, e, .havingAST h⟩ :: ⟨_, _, .groupingAST g⟩ :: ⟨_, _, .filterAST f⟩ ::
      ⟨_, _, .windowedFromAST w⟩ :: ⟨_, _, .emitProjectionsAST em ps⟩ ::
      ⟨b, _, .relation n⟩ :: st =>
    some (⟨b, e, .statement (.createStreamAsSelect n em ps w f g h)⟩ :: st)
  | _ => none

def assembleCreateSource : List ParsedComponent → Option (List ParsedComponent)
  | ⟨_, e, .sourceSinkSpecsAST ps⟩ :: ⟨_, _, .sourceSinkType t⟩ ::
      ⟨b, _, .sourceSinkName n⟩ :: st => some (⟨b, e, .statement (.createSource n t ps)⟩ :: st)
  | _ => none

def assembleCreateSink : List ParsedComponent → Option (List ParsedComponent)
  | ⟨_, e, .sourceSinkSpecsAST ps⟩ :: ⟨_, _, .sourceSinkType t⟩ ::
      ⟨b, _, .sourceSinkName n⟩ :: st => some (⟨b, e, .statement (.createSink n t ps)⟩ :: st)
  | _ => none

def assembleCreateStreamFromSource : List ParsedComponent → Option (List ParsedComponent)
  | ⟨_, e, .sourceSinkName s⟩ :: ⟨b, _, .relation r⟩ :: st =>
    some (⟨b, e, .statement (.createStreamFromSource r s)⟩ :: st)
  | _ => none

def assembleCreateStreamFromSourceExt : List ParsedComponent → Option (List ParsedComponent)
  | ⟨_, e, .sourceSinkSpecsAST ps⟩ :: ⟨_, _, .sourceSinkType t⟩ :: ⟨b, _, .relation r⟩ :: st =>
    some (⟨b, e, .statement (.createStreamFromSourceExt r t ps)⟩ :: st)
  | _ => none

def assembleInsertIntoSelect : List ParsedComponent → Option (List ParsedComponent)
  | ⟨_, e, .statement (.select s)⟩ :: ⟨b, _, .sourceSinkName n⟩ :: st =>
    some (⟨b, e, .statement (.insertIntoSelect n s)⟩ :: st)
  | _ => none

def assembleEmitProjections : List ParsedComponent → Option (List ParsedComponent)
  | ⟨_, e, .projectionsAST ps⟩ :: ⟨b, _, .emitter em⟩ :: st =>
    some (⟨b, e, .emitProjectionsAST em ps⟩ :: st)
  | _ => none

def assembleRange : List ParsedComponent → Option (List ParsedComponent)
  | ⟨_, e, .rangeUnit u⟩ :: ⟨b, _, .expr (.numericLiteral v)⟩ :: st =>
    some (⟨b, e, .rangeAST ⟨v, u⟩⟩ :: st)
  | _ => none

def assembleFuncApp : List ParsedComponent → Option (List ParsedComponent)
  | ⟨_, e, .expressionsAST es⟩ :: ⟨b, _, .funcName f⟩ :: st =>
    some (⟨b, e, .expr (.funcApp f es)⟩ :: st)
  | _ => none

def assembleSourceSinkParam : List ParsedComponent → Option (List ParsedComponent)
  | ⟨_, e, .sourceSinkParamVal v⟩ :: ⟨b, _, .sourceSinkParamKey k⟩ :: st =>
    some (⟨b, e, .sourceSinkParamAST k v⟩ :: st)
  | _ => none

def substr (buffer : List Char) (b e : Nat) : List Char := (buffer.drop b).take (e - b)

/-- One action block on the stack (top first), with `begin`/`end` of the last capture. -/
def runAction (sel : Selection) (buffer : List Char) (b e : Nat) :
    Action → List ParsedComponent → Option (List ParsedComponent)
  | .pushComponent l, st => some (⟨b, e, l.build (substr buffer b e)⟩ :: st)
  | .assembleSelect, st => assembleSelect st
  | .assembleCreateStreamAsSelect, st => assembleCreateStreamAsSelect st
  | .assembleCreateSource, st => assembleCreateSource st
  | .assembleCreateSink, st => assembleCreateSink st
  | .assembleCreateStreamFromSource, st => assembleCreateStreamFromSource st
  | .assembleCreateStreamFromSourceExt, st => assembleCreateStreamFromSourceExt st
  | .assembleInsertIntoSelect, st => assembleInsertIntoSelect st
  | .assembleEmitProjections, st => assembleEmitProjections st
  | .assembleProjections, st => assembleSpan projections sel b e st
  | .assembleWindowedFrom, st => assembleSpan windowedFromClause sel b e st
  | .assembleRange, st => assembleRange st
  | .assembleFrom, st => assembleSpan fromClause sel b e st
  | .assembleFilter, st => assembleSpan filterClause sel b e st
  | .assembleGrouping, st => assembleSpan groupingClause sel b e st
  | .assembleHaving, st => assembleSpan havingClause sel b e st
  | .assembleSourceSinkSpecs, st => assembleSpan sourceSinkSpecs sel b e st
  | .assembleSourceSinkParam, st => assembleSourceSinkParam st
  | .assembleBinaryOperation, st => assembleSpan binaryOperation sel b e st
  | .assembleFuncApp, st => assembleFuncApp st
  | .assembleExpressions, st => assembleSpan expressions sel b e st

structure ParseState where
  begin : Nat
  «end» : Nat
  stack : List ParsedComponent
  deriving Repr

/-- `Execute`: a text token sets `begin`/`end`; an action token runs its block. -/
def execute (sel : Selection) (buffer : List Char) :
    List (Token Action) → ParseState → Option ParseState
  | [], s => some s
  | .text b e :: ts, s => execute sel buffer ts { s with begin := b, «end» := e }
  | .action a :: ts, s =>
    (runAction sel buffer s.begin s.end a s.stack).bind
      (fun st => execute sel buffer ts { s with stack := st })

end SensorBee.Parser
