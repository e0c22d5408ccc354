import SensorBee.Parser.Reductions

/-!
# Executing an accepted statement

`parseStatement` matches `Statement` from the start of the input, with the fuel that the
well-formedness certificate shows enough, and runs `Execute` on the empty stack. With a selection
that skips fragments of length zero it answers every input and never raises an internal invariant
violation; with the spec's selection, `SELECT a` raises one.
-/
namespace SensorBee.Parser

/-- `Parse` and then `Execute` from the empty stack: `none` when the grammar rejects the input,
`some none` when a reduction raises an internal invariant violation. -/
def parseStatement (sel : Selection) (input : List Char) : Option (Option ParseState) :=
  match bqlPeg.eval (2769 * (input.length + 1)) (.call .statement) ⟨0, input⟩ with
  | some (.ok _ t) => some (execute sel input t ⟨0, 0, []⟩)
  | _ => none

/-- The run of an accepted statement's tokens from the empty stack: every prefix runs on an
ordered stack, and the whole run leaves one statement fragment. -/
theorem statement_run {input : List Char} {f : Nat} {c : Cursor} {t : List (Token Action)}
    (h : bqlPeg.eval f (.call .statement) ⟨0, input⟩ = some (.ok c t)) :
    (∀ n, ∃ s, execute withinSpanNonEmpty input (t.take n) ⟨0, 0, []⟩ = some s ∧
      Ordered s.stack) ∧
    ∃ s b e stmt, execute withinSpanNonEmpty input t ⟨0, 0, []⟩ = some s ∧
      s.stack = [⟨b, e, .statement stmt⟩] := by
  have g := @eval_good input _ _ _ _ _ h
  have hbelow : Below 0 [] := List.forall_mem_nil _
  obtain ⟨_, ⟨⟨b, e, _⟩, ⟨⟨stmt, rfl⟩, -⟩, rfl⟩, -, -, s, hs, hst⟩ := g.run ⟨0, 0, []⟩ hbelow .nil
  refine ⟨fun n => ?_, s, b, e, stmt, hs, hst⟩
  obtain ⟨s₁, h₁⟩ := execute_take hs n
  exact ⟨s₁, h₁, g.prefixes _ hbelow .nil n s₁ h₁⟩

/-- Each rule's tokens leave exactly its output on top of the stack they found; an accepted
statement runs through every prefix of its tokens on an ordered stack and leaves one statement
fragment. -/
theorem execute_accepted :
    (∀ (input : List Char) (r : Rule) f (c c' : Cursor) (t' : List (Token Action)),
      bqlPeg.eval f (.call r) c = some (.ok c' t') →
        Good withinSpanNonEmpty input r.output.Holds c c' t') ∧
    ∀ {input : List Char} {f : Nat} {c : Cursor} {t : List (Token Action)},
      bqlPeg.eval f (.call .statement) ⟨0, input⟩ = some (.ok c t) →
      (∀ n, ∃ s, execute withinSpanNonEmpty input (t.take n) ⟨0, 0, []⟩ = some s ∧
        Ordered s.stack) ∧
      ∃ s b e stmt, execute withinSpanNonEmpty input t ⟨0, 0, []⟩ = some s ∧
        s.stack = [⟨b, e, .statement stmt⟩] :=
  ⟨fun _ _ _ _ _ _ h => eval_good h, statement_run⟩

theorem select_a_executes :
    ∃ f c t, bqlPeg.eval f (.call .statement) ⟨0, "SELECT a".toList⟩ = some (.ok c t) ∧
      ∃ s b e stmt, execute withinSpanNonEmpty "SELECT a".toList t ⟨0, 0, []⟩ = some s ∧
        s.stack = [⟨b, e, .statement stmt⟩] := by
  cases h : bqlPeg.eval 3000 (.call .statement) ⟨0, "SELECT a".toList⟩ with
  | none => exact absurd h (by decide)
  | some o =>
    cases o with
    | fail => exact absurd h (by decide)
    | ok c t => exact ⟨3000, c, t, h, (execute_accepted.2 h).2⟩

/-- With the spec's selection, `SELECT a` is accepted and its run raises an internal invariant
violation: `Filter`'s reduction over its empty span takes the empty `From` marker below it. -/
theorem select_a_within_span_violation :
    (parseStatement withinSpan "SELECT a".toList).map Option.isSome = some false ∧
    (parseStatement withinSpanNonEmpty "SELECT a".toList).map Option.isSome = some true := by
  decide

end SensorBee.Parser
