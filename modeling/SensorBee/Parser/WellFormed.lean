import Mathlib.Tactic.Ring
import Mathlib.Logic.Relation
import Mathlib.Data.List.Basic
import SensorBee.Parser.Grammar

/-!
# Well-formed grammars terminate

Ford's well-formedness, checked by a certificate: a table of the rules that must consume input
when they succeed, and a rank for each rule that every call made before the body has surely
consumed input lowers. With it, no rule reaches itself through calls that consume nothing, every
repetition body consumes, and the interpreter needs fuel linear in the input: it never runs out
on `(bound + 1) * size * (n + 1)` units for `n` runes left. Fuel is the nesting depth of the
interpreter's calls, so this also bounds the depth of rule calls.
-/
namespace SensorBee

variable {R A : Type}

namespace Peg

def size : Peg R → Nat
  | seq a b | alt a b => a.size + b.size + 1
  | star a | plus a | opt a | not a | capture a => a.size + 1
  | _ => 1

def cons (consumes : R → Bool) : Peg R → Bool
  | char _ | range _ _ | irange _ _ | any => true
  | word s => decide (0 < s.length)
  | seq a b => a.cons consumes || b.cons consumes
  | alt a b => a.cons consumes && b.cons consumes
  | star _ | opt _ | not _ => false
  | plus a | capture a => a.cons consumes
  | call r => consumes r

def leftCalls (consumes : R → Bool) : Peg R → List R
  | seq a b => a.leftCalls consumes ++ if a.cons consumes then [] else b.leftCalls consumes
  | alt a b => a.leftCalls consumes ++ b.leftCalls consumes
  | star a | plus a | opt a | not a | capture a => a.leftCalls consumes
  | call r => [r]
  | _ => []

def repetitionBodies : Peg R → List (Peg R)
  | seq a b | alt a b => a.repetitionBodies ++ b.repetitionBodies
  | star a | plus a => a :: a.repetitionBodies
  | opt a | not a | capture a => a.repetitionBodies
  | _ => []

theorem size_pos (e : Peg R) : 0 < e.size := by cases e <;> exact Nat.succ_pos _

end Peg

namespace Grammar

variable (g : Grammar R A)

def LeftCall (consumes : R → Bool) (r r' : R) : Prop := r' ∈ (g.body r).leftCalls consumes

/-- The certificate of well-formedness. -/
structure WellFormed where
  consumes : R → Bool
  rank : R → Nat
  bound : Nat
  size : Nat
  consumes_sound : ∀ r, consumes r = true → (g.body r).cons consumes = true
  rank_lt : ∀ r, rank r < bound
  leftCall_rank : ∀ r, ∀ r' ∈ (g.body r).leftCalls consumes, rank r' < rank r
  repetition_cons : ∀ r, ∀ a ∈ (g.body r).repetitionBodies, a.cons consumes = true
  size_le : ∀ r, (g.body r).size ≤ size

variable {g}

theorem cons_sound {consumes : R → Bool}
    (hc : ∀ r, consumes r = true → (g.body r).cons consumes = true) :
    ∀ {f : Nat} {e : Peg R} {c c' : Cursor} {t : List (Token A)}, e.cons consumes = true →
      g.eval f e c = some (.ok c' t) → c'.rest.length < c.rest.length := by
  intro f
  induction f with
  | zero => intro e c c' t _ h; simp [eval] at h
  | succ f ih =>
    intro e c c' t he h
    cases e with
    | seq a b =>
      obtain ⟨c₁, t₁, t₂, h₁, h₂, -⟩ := Outcome.bind_eq_ok h
      have r₁ := (g.eval_reaches h₁).length_le
      have r₂ := (g.eval_reaches h₂).length_le
      rcases Bool.or_eq_true_iff.mp he with ha | hb
      · exact lt_of_le_of_lt r₂ (ih ha h₁)
      · exact lt_of_lt_of_le (ih hb h₂) r₁
    | alt a b =>
      obtain ⟨ha, hb⟩ := Bool.and_eq_true_iff.mp he
      rcases Outcome.orElse_eq_ok h with h | ⟨-, h⟩
      · exact ih ha h
      · exact ih hb h
    | plus a =>
      obtain ⟨c₁, t₁, t₂, h₁, h₂, -⟩ := Outcome.bind_eq_ok h
      have ha : a.cons consumes = true := he
      exact lt_of_le_of_lt (g.eval_reaches h₂).length_le (ih ha h₁)
    | capture a =>
      obtain ⟨c₁, t₁, t₂, h₁, h₂, -⟩ := Outcome.bind_eq_ok h
      cases h₂
      have ha : a.cons consumes = true := he
      exact ih ha h₁
    | call r =>
      obtain ⟨c₁, t₁, t₂, h₁, h₂, -⟩ := Outcome.bind_eq_ok h
      cases h₂
      exact ih (hc r he) h₁
    | word s =>
      simp only [eval] at h
      split at h
      · next ds hm =>
        cases h
        dsimp only
        have := matchWord_length hm
        simp only [Peg.cons, decide_eq_true_eq, String.length] at he
        simp only [String.toList] at this
        omega
      · simp at h
    | char | range | irange | any =>
      simp only [eval] at h
      split at h
      · next d ds hd =>
        split at h
        · cases h; rw [hd]; exact Nat.lt_succ_self _
        · simp at h
      · simp at h
    | star | opt | not => simp [Peg.cons] at he

namespace WellFormed

theorem leftCall_acyclic (W : g.WellFormed) (r : R) :
    ¬ Relation.TransGen (g.LeftCall W.consumes) r r := by
  have hlt : ∀ {a b}, Relation.TransGen (g.LeftCall W.consumes) a b → W.rank b < W.rank a := by
    intro a b h
    induction h with
    | single h => exact W.leftCall_rank _ _ h
    | tail _ h ih => exact lt_trans (W.leftCall_rank _ _ h) ih
  exact fun h => lt_irrefl _ (hlt h)

theorem repetition_consumes (W : g.WellFormed) {r : R} {a : Peg R}
    (ha : a ∈ (g.body r).repetitionBodies)
    {f : Nat} {c c' : Cursor} {t : List (Token A)} (h : g.eval f a c = some (.ok c' t)) :
    c'.rest.length < c.rest.length :=
  cons_sound W.consumes_sound (W.repetition_cons r a ha) h

variable (W : g.WellFormed)

/-- An expression is checked at rank `k` when its repetitions consume and it calls only rules
of rank below `k` before it has surely consumed input. -/
def Checked (k : Nat) (e : Peg R) : Prop :=
  (∀ a ∈ e.repetitionBodies, a.cons W.consumes = true) ∧ ∀ r ∈ e.leftCalls W.consumes, W.rank r < k

/-- The fuel set aside for `n` runes left at rank `k`. -/
def potential (n k : Nat) : Nat := (n * (W.bound + 1) + k) * W.size

theorem potential_rank {n k k' : Nat} (hk : k < k') :
    W.potential n k + W.size ≤ W.potential n k' := by
  unfold potential
  calc (n * (W.bound + 1) + k) * W.size + W.size = (n * (W.bound + 1) + k + 1) * W.size := by ring
    _ ≤ _ := Nat.mul_le_mul_right _ (by omega)

theorem potential_consumed {n n' k : Nat} (hn : n' < n) :
    W.potential n' W.bound + W.size ≤ W.potential n k := by
  unfold potential
  calc (n' * (W.bound + 1) + W.bound) * W.size + W.size = ((n' + 1) * (W.bound + 1)) * W.size := by
        ring
    _ ≤ _ := Nat.mul_le_mul_right _ ((Nat.mul_le_mul_right _ hn).trans (Nat.le_add_right _ _))

variable {W}

theorem Checked.of_subset {k : Nat} {e e' : Peg R} (he : W.Checked k e)
    (hr : e'.repetitionBodies ⊆ e.repetitionBodies)
    (hl : e'.leftCalls W.consumes ⊆ e.leftCalls W.consumes) : W.Checked k e' :=
  ⟨fun x hx => he.1 x (hr hx), fun r hr' => he.2 r (hl hr')⟩

theorem Checked.mono {k k' : Nat} {e : Peg R} (he : W.Checked k e) (hk : k ≤ k') :
    W.Checked k' e :=
  ⟨he.1, fun r hr => lt_of_lt_of_le (he.2 r hr) hk⟩

theorem Checked.bound {k : Nat} {e e' : Peg R} (he : W.Checked k e)
    (hr : e'.repetitionBodies ⊆ e.repetitionBodies) : W.Checked W.bound e' :=
  ⟨fun x hx => he.1 x (hr hx), fun r _ => W.rank_lt r⟩

theorem Checked.operand {k : Nat} {e a : Peg R} (he : W.Checked k e)
    (hr : a.repetitionBodies ⊆ e.repetitionBodies)
    (hl : e.leftCalls W.consumes = a.leftCalls W.consumes) :
    W.Checked k a :=
  he.of_subset hr (hl ▸ List.Subset.refl _)

theorem checked_body (r : R) : W.Checked (W.rank r) (g.body r) :=
  ⟨W.repetition_cons r, W.leftCall_rank r⟩

/-- With its potential as fuel, a checked expression never runs out. -/
theorem eval_ne_none (hS : 0 < W.size) : ∀ {f n k : Nat} {e : Peg R} {c : Cursor},
    c.rest.length ≤ n → k ≤ W.bound → W.Checked k e → W.potential n k + e.size ≤ f →
    g.eval f e c ≠ none := by
  intro f
  induction f with
  | zero => intro n k e c _ _ _ hf; have := e.size_pos; omega
  | succ f ih =>
    intro n k e c hn hk he hf
    /- After a success of `a` that consumed, the rest runs at the top rank. -/
    have after : ∀ {a e' : Peg R} {c₁ : Cursor} {t₁ : List (Token A)},
        a.cons W.consumes = true → g.eval f a c = some (.ok c₁ t₁) → W.Checked W.bound e' →
        W.potential n k + e'.size ≤ f + W.size → g.eval f e' c₁ ≠ none := by
      intro a e' c₁ t₁ ha h₁ he' hf'
      have : W.potential c₁.rest.length W.bound + W.size ≤ W.potential n k :=
        W.potential_consumed (lt_of_lt_of_le (cons_sound W.consumes_sound ha h₁) hn)
      exact ih le_rfl le_rfl he' (by omega)
    have inner : ∀ {a : Peg R}, a.repetitionBodies ⊆ e.repetitionBodies →
        e.leftCalls W.consumes = a.leftCalls W.consumes → a.size < e.size → g.eval f a c ≠ none :=
      fun hr hl hs => ih hn hk (he.operand hr hl) (by omega)
    cases e with
    | seq a b =>
      change _ + (a.size + b.size + 1) ≤ _ at hf
      have ha := ih hn hk (he.of_subset (List.subset_append_left _ _)
        (List.subset_append_left _ _)) (by omega)
      refine Outcome.bind_ne_none ha fun c₁ t₁ h₁ => ?_
      cases hc : a.cons W.consumes
      · refine ih ((g.eval_reaches h₁).length_le.trans hn) hk (he.of_subset
          (List.subset_append_right _ _) ?_) (by omega)
        exact fun x hx => List.mem_append_right _ (by rw [hc]; exact hx)
      · exact after hc h₁ (he.bound (List.subset_append_right _ _)) (by omega)
    | alt a b =>
      change _ + (a.size + b.size + 1) ≤ _ at hf
      exact Outcome.orElse_ne_none
        (ih hn hk (he.of_subset (List.subset_append_left _ _) (List.subset_append_left _ _))
          (by omega))
        (fun _ => ih hn hk (he.of_subset (List.subset_append_right _ _)
          (List.subset_append_right _ _)) (by omega))
    | star a =>
      have ha := @inner a (List.subset_cons_self _ _) rfl (Nat.lt_succ_self _)
      simp only [eval]
      cases hx : g.eval f a c with
      | none => exact absurd hx ha
      | some x =>
        cases x with
        | fail => simp
        | ok c₁ t₁ =>
          simp only [Outcome.bind_ok, ne_eq, Option.map_eq_none']
          exact after (he.1 a (List.mem_cons_self _ _)) hx (he.mono hk) (by omega)
    | plus a =>
      change _ + (a.size + 1) ≤ _ at hf
      refine Outcome.bind_ne_none (inner (List.subset_cons_self _ _) rfl (Nat.lt_succ_self _))
        fun c₁ t₁ h₁ => ?_
      exact after (he.1 a (List.mem_cons_self _ _)) h₁ (he.bound (List.Subset.refl _))
        (by change _ + (a.size + 1) ≤ _; omega)
    | opt a =>
      exact Outcome.orElse_ne_none (inner (List.Subset.refl _) rfl (Nat.lt_succ_self _))
        (fun _ => by simp)
    | not a =>
      have ha := @inner a (List.Subset.refl _) rfl (Nat.lt_succ_self _)
      simp only [eval]
      cases hx : g.eval f a c with
      | none => exact absurd hx ha
      | some x => cases x <;> simp
    | capture a =>
      exact Outcome.bind_ne_none (inner (List.Subset.refl _) rfl (Nat.lt_succ_self _))
        fun _ _ _ => by simp
    | call r =>
      change _ + 1 ≤ _ at hf
      have hr : W.rank r < k := he.2 r (List.mem_singleton_self r)
      have : W.potential n (W.rank r) + W.size ≤ W.potential n k := W.potential_rank hr
      have := W.size_le r
      exact Outcome.bind_ne_none (ih hn (W.rank_lt r).le (checked_body r) (by omega))
        fun _ _ _ => by simp
    | char | word | range | irange | any => simp [eval]

theorem eval_call_ne_none (r : R) (c : Cursor) :
    g.eval ((W.bound + 1) * W.size * (c.rest.length + 1)) (.call r) c ≠ none := by
  have hS : 0 < W.size := lt_of_lt_of_le (g.body r).size_pos (W.size_le r)
  refine W.eval_ne_none hS le_rfl le_rfl ⟨(fun _ h => nomatch h), fun r' hr => ?_⟩ ?_
  · exact List.mem_singleton.mp hr ▸ W.rank_lt r
  · have : (W.bound + 1) * W.size * (c.rest.length + 1) =
        W.potential c.rest.length W.bound + W.size := by
      unfold potential; ring
    change _ + 1 ≤ _
    omega

end WellFormed

end Grammar

namespace Parser

namespace Rule

def mustConsume : Rule → Bool
  | sp | windowedFrom | «from» | filter | grouping | having | sourceSinkSpecs => false
  | _ => true

/-- The rules in an order where every call made before input is surely consumed goes to an
earlier rule; a rule's rank is its place here. -/
def rankOrder : List Rule :=
  [sp, ident, TRUE, FALSE, wildcard, ISTREAM, DSTREAM, RSTREAM, TUPLES, SECONDS, numericLiteral,
    floatLiteral, stringLiteral, sourceSinkParamVal, or, and, equal, less, lessOrEqual, greater,
    greaterOrEqual, notEqual, plus, minus, multiply, divide, modulo, selectStmt,
    createStreamAsSelectStmt, createSourceStmt, createSinkStmt, createStreamFromSourceStmt,
    createStreamFromSourceExtStmt, insertIntoSelectStmt, windowedFrom, «from», filter, grouping,
    having, sourceSinkSpecs, relation, columnName, function, sourceSinkName, sourceSinkType,
    sourceSinkParamKey, booleanLiteral, emitter, rangeUnit, literal, comparisonOp, plusMinusOp,
    multDivOp, sourceSinkParam, range, relations, funcApp, emitProjections, statement, baseExpr,
    productExpr, termExpr, comparisonExpr, andExpr, orExpr, expression, projection, projections,
    funcParams, groupList]

def rank (r : Rule) : Nat := rankOrder.indexOf r

/-- Everything the certificate asks of one rule, decided rule by rule. -/
theorem checked (r : Rule) :
    (r.mustConsume = true → r.body.cons mustConsume = true) ∧
    (∀ r' ∈ r.body.leftCalls mustConsume, r'.rank < r.rank) ∧
    (∀ a ∈ r.body.repetitionBodies, a.cons mustConsume = true) ∧
    r.body.size ≤ 39 ∧ r ∈ rankOrder :=
  of_decide_eq_true (by cases r <;> rfl)

end Rule

/-- The certificate for `bql.peg`: 70 rules, bodies of at most 39 constructors. -/
def bqlWellFormed : bqlPeg.WellFormed where
  consumes := Rule.mustConsume
  rank := Rule.rank
  bound := 70
  size := 39
  consumes_sound r := (Rule.checked r).1
  rank_lt r := List.indexOf_lt_length.mpr (Rule.checked r).2.2.2.2
  leftCall_rank r := (Rule.checked r).2.1
  repetition_cons r := (Rule.checked r).2.2.1
  size_le r := (Rule.checked r).2.2.2.1

/-- `bql.peg` is well formed: no rule reaches itself through calls that consume nothing, every
repetition body consumes, and the interpreter never runs out on `2769 * (n + 1)` units of fuel,
which bounds the nesting of rule calls, for `n` runes of input. -/
theorem bqlPeg_terminates :
    (∀ r, ¬ Relation.TransGen (bqlPeg.LeftCall Rule.mustConsume) r r) ∧
    (∀ r, ∀ a ∈ (Rule.body r).repetitionBodies, ∀ f c c' (t : List (Token Action)),
      bqlPeg.eval f a c = some (.ok c' t) → c'.rest.length < c.rest.length) ∧
    ∀ r c, bqlPeg.eval (2769 * (c.rest.length + 1)) (.call r) c ≠ none :=
  ⟨bqlWellFormed.leftCall_acyclic, fun _ _ ha _ _ _ _ h => bqlWellFormed.repetition_consumes ha h,
    bqlWellFormed.eval_call_ne_none⟩

end Parser

end SensorBee
