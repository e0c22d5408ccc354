import Mathlib.Data.List.Basic
import SensorBee.Parser.StackInvariant
import SensorBee.Parser.WellFormed

/-!
# Every reduction takes exactly what its sub-rules left

`Rule.output` gives the fragments each rule of `bql.peg` leaves on the stack, and `Yields` what an
expression leaves from the outputs of the rules it calls. Rule by rule, the tokens of a successful
match are `Good` for what the matched expression yields, provided the selection of a span-taking
reduction skips fragments of length zero.
-/
namespace SensorBee.Parser

def Frag (P : Component → Prop) (nonEmpty : Bool) (p : ParsedComponent) : Prop :=
  P p.comp ∧ (nonEmpty = true → p.begin < p.end)

/-- What a rule's actions leave on the stack. -/
inductive Output where
  | nothing
  | one (P : Component → Prop) (nonEmpty : Bool)
  | many (P : Component → Prop)

def Output.Holds : Output → List ParsedComponent → Prop
  | .nothing, o => o = []
  | .one P ne, o => ∃ p, Frag P ne p ∧ [p] = o
  | .many P, o => o ≠ [] ∧ ∀ p ∈ o, Frag P true p

namespace Rule

/-- The fragments each rule leaves: the typing the reductions rely on. -/
def output : Rule → Output
  | statement | createStreamAsSelectStmt | createSourceStmt | createSinkStmt
  | createStreamFromSourceStmt | createStreamFromSourceExtStmt | insertIntoSelectStmt =>
    .one (fun c => ∃ s, c = .statement s) false
  | selectStmt => .one (fun c => ∃ s, c = .statement (.select s)) false
  | emitProjections => .one (fun c => ∃ em ps, c = .emitProjectionsAST em ps) false
  | projections => .one (fun c => ∃ ps, c = .projectionsAST ps) false
  | windowedFrom => .one (fun c => ∃ w, c = .windowedFromAST w) false
  | range => .one (fun c => ∃ r, c = .rangeAST r) true
  | «from» => .one (fun c => ∃ rs, c = .fromAST rs) false
  | filter => .one (fun c => ∃ e, c = .filterAST e) false
  | grouping => .one (fun c => ∃ es, c = .groupingAST es) false
  | having => .one (fun c => ∃ e, c = .havingAST e) false
  | sourceSinkSpecs => .one (fun c => ∃ ps, c = .sourceSinkSpecsAST ps) false
  | sourceSinkParam => .one (fun c => ∃ k v, c = .sourceSinkParamAST k v) true
  | funcParams => .one (fun c => ∃ es, c = .expressionsAST es) false
  | relations => .many (fun c => ∃ n, c = .relation n)
  | groupList => .many (fun c => ∃ e, c = .expr e)
  | numericLiteral => .one (fun c => ∃ v, c = .expr (.numericLiteral v)) true
  | projection | expression | orExpr | andExpr | comparisonExpr | termExpr | productExpr
  | baseExpr | funcApp | literal | columnName | floatLiteral | booleanLiteral | TRUE | FALSE
  | wildcard | stringLiteral => .one (fun c => ∃ e, c = .expr e) true
  | comparisonOp | plusMinusOp | multDivOp | or | and | equal | less | lessOrEqual | greater
  | greaterOrEqual | notEqual | plus | minus | multiply | divide | modulo =>
    .one (fun c => ∃ op, c = .operator op) true
  | relation => .one (fun c => ∃ n, c = .relation n) true
  | function => .one (fun c => ∃ n, c = .funcName n) true
  | emitter | ISTREAM | DSTREAM | RSTREAM => .one (fun c => ∃ em, c = .emitter em) true
  | rangeUnit | TUPLES | SECONDS => .one (fun c => ∃ u, c = .rangeUnit u) true
  | sourceSinkName => .one (fun c => ∃ n, c = .sourceSinkName n) true
  | sourceSinkType => .one (fun c => ∃ n, c = .sourceSinkType n) true
  | sourceSinkParamKey => .one (fun c => ∃ k, c = .sourceSinkParamKey k) true
  | sourceSinkParamVal => .one (fun c => ∃ v, c = .sourceSinkParamVal v) true
  | ident | sp => .nothing

end Rule

inductive Star (P : List ParsedComponent → Prop) : List ParsedComponent → Prop
  | nil : Star P []
  | cons {o₁ o₂ : List ParsedComponent} : P o₁ → Star P o₂ → Star P (o₂ ++ o₁)

/-- The fragment lists a successful match of an expression leaves, from the rules' outputs. -/
def Yields : Peg Rule → List ParsedComponent → Prop
  | .seq a b, o => ∃ o₁ o₂, Yields a o₁ ∧ Yields b o₂ ∧ o = o₂ ++ o₁
  | .alt a b, o => Yields a o ∨ Yields b o
  | .star a, o => Star (Yields a) o
  | .plus a, o => ∃ o₁ o₂, Yields a o₁ ∧ Star (Yields a) o₂ ∧ o = o₂ ++ o₁
  | .opt a, o => Yields a o ∨ o = []
  | .capture a, o => Yields a o
  | .call r, o => r.output.Holds o
  | .char _, o | .word _, o | .range _ _, o | .irange _ _, o | .any, o | .not _, o => o = []

theorem Star.mono {P Q : List ParsedComponent → Prop} (hPQ : ∀ o, P o → Q o)
    {o : List ParsedComponent} (h : Star P o) : Star Q o := by
  induction h with
  | nil => exact .nil
  | cons h₁ _ ih => exact .cons (hPQ _ h₁) ih

theorem Star.singletons {P : ParsedComponent → Prop} {o : List ParsedComponent}
    (h : Star (fun o => ∃ p, P p ∧ o = [p]) o) : ∀ p ∈ o, P p := by
  induction h with
  | nil => simp
  | cons h₁ _ ih =>
    obtain ⟨q, hq, rfl⟩ := h₁
    intro p hp
    rcases List.mem_append.mp hp with hp | hp
    · exact ih p hp
    · exact (List.mem_singleton.mp hp) ▸ hq

/-- Expressions that call only rules leaving nothing. -/
def silent : Peg Rule → Bool
  | .seq a b | .alt a b => silent a && silent b
  | .star a | .plus a | .opt a | .capture a => silent a
  | .call r => match r.output with
    | .nothing => true
    | _ => false
  | _ => true

theorem yields_of_silent : ∀ {e : Peg Rule}, silent e = true → ∀ {o}, Yields e o → o = []
  | .seq a b, he, o, h => by
    obtain ⟨ha, hb⟩ := Bool.and_eq_true_iff.mp he
    obtain ⟨o₁, o₂, h₁, h₂, rfl⟩ := h
    rw [yields_of_silent ha h₁, yields_of_silent hb h₂]; rfl
  | .alt a b, he, o, h => by
    obtain ⟨ha, hb⟩ := Bool.and_eq_true_iff.mp he
    exact h.elim (yields_of_silent ha) (yields_of_silent hb)
  | .star a, he, o, h => by
    induction h with
    | nil => rfl
    | cons h₁ _ ih => rw [ih, @yields_of_silent a he _ h₁]; rfl
  | .plus a, he, o, h => by
    obtain ⟨o₁, o₂, h₁, h₂, rfl⟩ := h
    have : o₂ = [] := by
      induction h₂ with
      | nil => rfl
      | cons h₁ _ ih => rw [ih, @yields_of_silent a he _ h₁]; rfl
    rw [this, @yields_of_silent a he _ h₁]; rfl
  | .opt a, he, o, h => h.elim (@yields_of_silent a he _) id
  | .capture a, he, o, h => @yields_of_silent a he _ h
  | .call r, he, o, h => by
    simp only [silent] at he
    split at he
    · next hr => simpa [Yields, hr, Output.Holds] using h
    · contradiction
  | .char _, _, _, h | .word _, _, _, h | .range _ _, _, _, h | .irange _ _, _, _, h
  | .any, _, _, h | .not _, _, _, h => h

theorem yields_nil_of_silent : ∀ {e : Peg Rule}, silent e = true → Yields e []
  | .seq a b, he => by
    obtain ⟨ha, hb⟩ := Bool.and_eq_true_iff.mp he
    exact ⟨[], [], yields_nil_of_silent ha, yields_nil_of_silent hb, rfl⟩
  | .alt a _, he => .inl (yields_nil_of_silent (Bool.and_eq_true_iff.mp he).1)
  | .star _, _ => .nil
  | .plus a, he => ⟨[], [], @yields_nil_of_silent a he, .nil, rfl⟩
  | .opt _, _ => .inr rfl
  | .capture a, he => @yields_nil_of_silent a he
  | .call r, he => by
    simp only [silent] at he
    split at he
    · next hr => simp [Yields, hr, Output.Holds]
    · contradiction
  | .char _, _ | .word _, _ | .range _ _, _ | .irange _ _, _ | .any, _ | .not _, _ => rfl

theorem yields_seq_silent_left {a b : Peg Rule} (ha : silent a = true) {o : List ParsedComponent} :
    Yields (.seq a b) o ↔ Yields b o :=
  ⟨fun ⟨_, _, h₁, h₂, e⟩ => by rwa [e, yields_of_silent ha h₁, List.append_nil],
    fun h => ⟨[], o, yields_nil_of_silent ha, h, (List.append_nil o).symm⟩⟩

theorem yields_seq_silent_right {a b : Peg Rule} (hb : silent b = true)
    {o : List ParsedComponent} : Yields (.seq a b) o ↔ Yields a o :=
  ⟨fun ⟨_, _, h₁, h₂, e⟩ => by rwa [e, yields_of_silent hb h₂, List.nil_append],
    fun h => ⟨o, [], h, yields_nil_of_silent hb, rfl⟩⟩

theorem yields_seq_call {r : Rule} {b : Peg Rule} (_hr : silent (.call r) = false)
    {o : List ParsedComponent} :
    Yields (.seq (.call r) b) o ↔ ∃ o₁ o₂, r.output.Holds o₁ ∧ Yields b o₂ ∧ o = o₂ ++ o₁ :=
  Iff.rfl

theorem yields_call {r : Rule} {o : List ParsedComponent} : Yields (.call r) o ↔ r.output.Holds o :=
  Iff.rfl

theorem Output.Holds.weaken {P Q : Component → Prop} {ne ne' : Bool} {o : List ParsedComponent}
    (h : (Output.one P ne).Holds o) (hPQ : ∀ c, P c → Q c) (hne : ne' = true → ne = true) :
    (Output.one Q ne').Holds o :=
  let ⟨p, ⟨hP, hp⟩, ho⟩ := h
  ⟨p, ⟨hPQ _ hP, fun h => hp (hne h)⟩, ho⟩

theorem Rule.output_sp : Rule.sp.output = .nothing := rfl

theorem yields_commaList {first item : Rule} {o : List ParsedComponent}
    (h : Yields (Rule.commaList first item) o) {P : Component → Prop}
    (h₁ : first.output = .one P true) (h₂ : item.output = .one P true) :
    (Output.many P).Holds o := by
  simp only [Rule.commaList, Peg.seqs, Rule.sp', Yields, h₁, h₂, Output.Holds, Rule.output_sp,
    exists_eq_left, List.append_nil, List.nil_append, exists_and_left, exists_eq_right,
    exists_eq_right', exists_exists_and_eq_and] at h
  obtain ⟨a, ha, x, hx, rfl⟩ := h
  refine ⟨by simp, fun p hp => ?_⟩
  rcases List.mem_append.mp hp with hp | hp
  · exact Star.singletons hx p hp
  · exact List.mem_singleton.mp hp ▸ ha

theorem yields_binary {x op : Rule} {o : List ParsedComponent}
    (h : Yields (.seqs (.call x) [Rule.sp', .opt (.seqs (.call op) [Rule.sp', .call x])]) o)
    (hx : x.output = .one (fun c => ∃ e, c = .expr e) true)
    (hop : op.output = .one (fun c => ∃ o, c = .operator o) true) :
    (∀ p ∈ o, p.begin < p.end) ∧
      ∃ comp, binaryOperation (o.reverse.map (·.comp)) = some comp ∧ ∃ e, comp = .expr e := by
  simp only [Peg.seqs, Rule.sp'] at h
  obtain ⟨_, o₂, hl, hrest, rfl⟩ := h
  rw [yields_call, hx] at hl
  obtain ⟨⟨_, _, _⟩, ⟨⟨l, rfl⟩, hl⟩, rfl⟩ := hl
  rw [yields_seq_silent_left (by rfl)] at hrest
  rcases hrest with ⟨_, _, hm, hr, rfl⟩ | rfl
  · rw [yields_call, hop] at hm
    rw [yields_seq_silent_left (by rfl), yields_call, hx] at hr
    obtain ⟨⟨_, _, _⟩, ⟨⟨m, rfl⟩, hm⟩, rfl⟩ := hm
    obtain ⟨⟨_, _, _⟩, ⟨⟨r, rfl⟩, hr⟩, rfl⟩ := hr
    refine ⟨?_, _, rfl, _, rfl⟩
    simp only [List.cons_append, List.nil_append, List.forall_mem_cons, List.forall_mem_singleton]
    exact ⟨hr rfl, hm rfl, hl rfl, List.forall_mem_nil _⟩
  · exact ⟨by simpa using hl rfl, _, rfl, _, rfl⟩

theorem mapM_some {α : Type} {f : Component → Option α} :
    ∀ {cs : List Component}, (∀ c ∈ cs, ∃ a, f c = some a) → ∃ as, cs.mapM f = some as
  | [], _ => ⟨[], rfl⟩
  | c :: cs, h => by
    obtain ⟨a, ha⟩ := h c (List.mem_cons_self _ _)
    obtain ⟨as, has⟩ := mapM_some fun c hc => h c (List.mem_cons_of_mem _ hc)
    exact ⟨a :: as, by rw [List.mapM_cons, ha, has]; rfl⟩

theorem many_items {α : Type} {P : Component → Prop} {o : List ParsedComponent}
    (h : (Output.many P).Holds o) (f : Component → Option α) (hf : ∀ c, P c → ∃ a, f c = some a) :
    (∀ p ∈ o, p.begin < p.end) ∧ ∃ as, nonEmptyItems f (o.reverse.map (·.comp)) = some as := by
  obtain ⟨hne, hall⟩ := h
  refine ⟨fun p hp => (hall p hp).2 rfl, ?_⟩
  obtain ⟨as, has⟩ := @mapM_some α f (o.reverse.map (·.comp)) fun c hc => by
    obtain ⟨p, hp, rfl⟩ := List.mem_map.mp hc
    exact hf _ (hall p (List.mem_reverse.mp hp)).1
  cases hcs : o.reverse.map (·.comp) with
  | nil => simp [hne] at hcs
  | cons c cs => rw [hcs] at has; exact ⟨as, has⟩

theorem many_builds {α : Type} {P Q : Component → Prop} {build : List Component → Option Component}
    {o : List ParsedComponent} (h : (Output.many P).Holds o) (f : Component → Option α)
    (hf : ∀ c, P c → ∃ a, f c = some a)
    (hb : ∀ c cs as, nonEmptyItems f (c :: cs) = some as →
      ∃ comp, build (c :: cs) = some comp ∧ Q comp) :
    (∀ p ∈ o, p.begin < p.end) ∧ ∃ comp, build (o.reverse.map (·.comp)) = some comp ∧ Q comp := by
  obtain ⟨hpos, as, has⟩ := many_items h f hf
  refine ⟨hpos, ?_⟩
  cases hcs : o.reverse.map (·.comp) with
  | nil => rw [hcs] at has; cases has
  | cons c cs => rw [hcs] at has; exact hb c cs as has

section Rules

variable {buffer : List Char} {f : Nat} {c c' : Cursor} {tb : List (Token Action)}

theorem consumed_pos {e : Peg Rule} (h : bqlPeg.eval f e c = some (.ok c' tb))
    (he : e.cons Rule.mustConsume = true) : c.pos < c'.pos := by
  have h₁ := Grammar.cons_sound bqlWellFormed.consumes_sound he h
  have h₂ := (bqlPeg.eval_reaches h).pos_add
  omega

theorem good_none {T T' : List ParsedComponent → Prop}
    (hg : Good withinSpanNonEmpty buffer T c c' tb) (hT : ∀ o, T o → T' o) :
    Good withinSpanNonEmpty buffer T' c c' (tb ++ []) := by
  rw [List.append_nil]
  exact hg.mono hT

theorem good_push {X : Peg Rule} {l : Leaf} {P : Component → Prop}
    (hb : bqlPeg.eval f (.capture X) c = some (.ok c' tb))
    (hg : Good withinSpanNonEmpty buffer (Yields (.capture X)) c c' tb)
    (hX : ∀ o, Yields X o → o = []) (hP : ∀ s, P (l.build s)) (hne : c.pos < c'.pos) :
    Good withinSpanNonEmpty buffer (Output.one P true).Holds c c'
      (tb ++ [.action (.pushComponent l)]) := by
  obtain ⟨f', tX, -, -, rfl⟩ := bqlPeg.eval_capture_ok hb
  refine hg.action _ fun s s' out _ hs hst hT _ _ => ?_
  obtain ⟨hb', he'⟩ := execute_text_last hs
  obtain rfl := hX out hT
  refine ⟨[⟨c.pos, c'.pos, l.build (substr buffer c.pos c'.pos)⟩], ⟨_, ⟨hP _, fun _ => hne⟩, rfl⟩,
    by simp [Within], ⟨by simp; omega, by simp⟩, ?_⟩
  simp [runAction, hb', he', hst]

theorem good_span {X : Peg Rule} {a : Action} {build : List Component → Option Component}
    {P : Component → Prop} {ne : Bool}
    (hb : bqlPeg.eval f (.capture X) c = some (.ok c' tb))
    (hg : Good withinSpanNonEmpty buffer (Yields (.capture X)) c c' tb)
    (ha : ∀ b e st, runAction withinSpanNonEmpty buffer b e a st =
      assembleSpan build withinSpanNonEmpty b e st)
    (hX : ∀ o, Yields X o → (∀ p ∈ o, p.begin < p.end) ∧
      ∃ comp, build (o.reverse.map (·.comp)) = some comp ∧ P comp)
    (hne : ne = true → c.pos < c'.pos) :
    Good withinSpanNonEmpty buffer (Output.one P ne).Holds c c' (tb ++ [.action a]) := by
  have hle := (bqlPeg.eval_reaches hb).pos_le
  obtain ⟨f', tX, -, -, rfl⟩ := bqlPeg.eval_capture_ok hb
  refine hg.action _ fun s s' out hbl hs hst hT hw _ => ?_
  obtain ⟨hb', he'⟩ := execute_text_last hs
  obtain ⟨hpos, comp, hcomp, hP⟩ := hX out hT
  have hc := collect_exact (fun p hp => ⟨(hw p hp).1, hpos p hp, (hw p hp).2⟩) hbl
  refine ⟨[⟨c.pos, c'.pos, comp⟩], ⟨_, ⟨hP, hne⟩, rfl⟩, by simp [Within], ⟨by simpa, by simp⟩, ?_⟩
  simp only [ha, assembleSpan, hb', he', hst, hc, hcomp, Option.map_some', List.cons_append,
    List.nil_append]

theorem good_fixed {e : Peg Rule} {a : Action}
    {fix : List ParsedComponent → Option (List ParsedComponent)} {P : Component → Prop} {ne : Bool}
    (hg : Good withinSpanNonEmpty buffer (Yields e) c c' tb)
    (ha : ∀ b e st, runAction withinSpanNonEmpty buffer b e a st = fix st)
    (hX : ∀ o st, Yields e o → ∃ top bot x, o.head? = some top ∧ o.getLast? = some bot ∧
      fix (o ++ st) = some (⟨bot.begin, top.end, x⟩ :: st) ∧ P x ∧
        (ne = true → bot.begin < bot.end)) :
    Good withinSpanNonEmpty buffer (Output.one P ne).Holds c c' (tb ++ [.action a]) := by
  refine hg.action _ fun s s' out _ _ hst hT hw ho => ?_
  obtain ⟨top, bot, x, ht, hb, hfix, hP, hne⟩ := hX out s.stack hT
  have := ho.span hw ht hb
  refine ⟨[⟨bot.begin, top.end, x⟩],
    ⟨⟨bot.begin, top.end, x⟩, ⟨hP, fun h => (hne h).trans_le this.2.2.1⟩, rfl⟩, ?_,
    ⟨?_, by simp⟩, by rw [ha, hst, hfix]; rfl⟩
  · simp only [Within, List.mem_singleton, forall_eq]
    omega
  · simp only [List.mem_singleton, forall_eq]
    omega

theorem call_good (r : Rule) (hb : bqlPeg.eval f (Rule.body r) c = some (.ok c' tb))
    (hg : Good withinSpanNonEmpty buffer (Yields (Rule.body r)) c c' tb) :
    Good withinSpanNonEmpty buffer r.output.Holds c c'
      (tb ++ (Rule.action r).toList.map .action) := by
  cases r
  -- rules without an action
  case statement =>
    refine good_none hg fun o h => ?_
    obtain h | h | h | h | h | h | h := (yields_seq_silent_right (by rfl)).mp h
    exacts [h.weaken (fun _ ⟨_, hs⟩ => ⟨_, hs⟩) id, h, h, h, h, h, h]
  case projection | expression => exact good_none hg fun _ h => h
  case relations | groupList => exact good_none hg fun _ h => yields_commaList h rfl rfl
  case baseExpr =>
    refine good_none hg fun o h => ?_
    obtain h | h | h | h | h | h := h
    · simp (disch := decide) only [Peg.seqs, Rule.sp', yields_seq_silent_left,
        yields_seq_silent_right] at h
      exact h
    all_goals exact h
  case literal =>
    refine good_none hg fun o h => ?_
    obtain h | h | h := h
    exacts [h, h.weaken (fun _ ⟨_, hv⟩ => ⟨_, hv⟩) id, h]
  case comparisonOp =>
    exact good_none hg fun _ h => by obtain h | h | h | h | h | h | h := h <;> exact h
  case multDivOp | emitter =>
    exact good_none hg fun _ h => by obtain h | h | h := h <;> exact h
  case plusMinusOp | booleanLiteral | rangeUnit => exact good_none hg fun _ h => h.elim id id
  case ident | sp => exact good_none hg fun _ h => yields_of_silent (by rfl) h
  -- span-taking reductions
  case orExpr | andExpr | comparisonExpr | termExpr | productExpr =>
    exact good_span hb hg (fun _ _ _ => rfl) (fun _ h => yields_binary h rfl rfl)
      (fun _ => consumed_pos hb (by rfl))
  case projections | funcParams =>
    exact good_span hb hg (fun _ _ _ => rfl)
      (fun _ h => many_builds (yields_commaList h rfl rfl) Component.asExpr
        (fun _ ⟨e, he⟩ => ⟨e, by rw [he]; rfl⟩)
        (fun _ _ _ h => ⟨_, congrArg (Option.map _) h, _, rfl⟩)) nofun
  case «from» =>
    refine good_span hb hg (fun _ _ _ => rfl) (fun o h => ?_) nofun
    rcases h with h | rfl
    · simp (disch := decide) only [Peg.seqs, Rule.sp', yields_seq_silent_left] at h
      exact many_builds h Component.asRelation (fun _ ⟨n, hn⟩ => ⟨n, by rw [hn]; rfl⟩)
        (fun _ _ _ h => ⟨_, congrArg (Option.map _) h, _, rfl⟩)
    · exact ⟨List.forall_mem_nil _, _, rfl, _, rfl⟩
  case grouping =>
    refine good_span hb hg (fun _ _ _ => rfl) (fun o h => ?_) nofun
    rcases h with h | rfl
    · simp (disch := decide) only [Peg.seqs, Rule.sp', yields_seq_silent_left] at h
      exact many_builds h Component.asExpr (fun _ ⟨e, he⟩ => ⟨e, by rw [he]; rfl⟩)
        (fun _ _ _ h => ⟨_, congrArg (Option.map _) h, _, rfl⟩)
    · exact ⟨List.forall_mem_nil _, _, rfl, _, rfl⟩
  case sourceSinkSpecs =>
    refine good_span hb hg (fun _ _ _ => rfl) (fun o h => ?_) nofun
    rcases h with h | rfl
    · simp (disch := decide) only [Peg.seqs, Rule.sp', yields_seq_silent_left] at h
      exact many_builds (yields_commaList h rfl rfl) Component.asParam
        (fun _ ⟨k, v, hkv⟩ => ⟨(k, v), by rw [hkv]; rfl⟩)
        (fun _ _ _ h => ⟨_, congrArg (Option.map _) h, _, rfl⟩)
    · exact ⟨List.forall_mem_nil _, _, rfl, _, rfl⟩
  case filter | having =>
    refine good_span hb hg (fun _ _ _ => rfl) (fun o h => ?_) nofun
    rcases h with h | rfl
    · simp (disch := decide) only [Peg.seqs, Rule.sp', yields_seq_silent_left] at h
      obtain ⟨⟨_, _, _⟩, ⟨⟨_, rfl⟩, hp⟩, rfl⟩ := h
      exact ⟨by simpa using hp rfl, _, rfl, _, rfl⟩
    · exact ⟨List.forall_mem_nil _, _, rfl, _, rfl⟩
  case windowedFrom =>
    refine good_span hb hg (fun _ _ _ => rfl) (fun o h => ?_) nofun
    rcases h with h | rfl
    · simp (disch := decide) only [Peg.seqs, Rule.sp', yields_seq_call, yields_seq_silent_left,
        yields_seq_silent_right] at h
      obtain ⟨o₁, _, hr, ⟨⟨_, _, _⟩, ⟨⟨w, rfl⟩, hp⟩, rfl⟩, rfl⟩ := h
      obtain ⟨hpos, as, has⟩ := many_items hr Component.asRelation
        (fun _ ⟨n, hn⟩ => ⟨n, by rw [hn]; rfl⟩)
      refine ⟨fun q hq => ?_, .windowedFromAST ⟨as, some w⟩, ?_, _, rfl⟩
      · rcases List.mem_append.mp hq with hq | hq
        · exact List.mem_singleton.mp hq ▸ hp rfl
        · exact hpos q hq
      · simp only [List.singleton_append, List.reverse_cons, List.map_append, List.map_cons,
          List.map_nil, windowedFromClause, List.getLast?_concat, List.dropLast_concat, has]
        rfl
    · exact ⟨List.forall_mem_nil _, _, rfl, _, rfl⟩
  -- fixed-arity reductions
  case selectStmt =>
    delta Rule.body at hg; dsimp only at hg
    refine good_fixed hg (fun _ _ _ => rfl) fun o st h => ?_
    simp (disch := decide) only [Peg.seqs, Rule.sp', yields_seq_silent_left,
      yields_seq_silent_right, yields_seq_call] at h
    obtain ⟨_, _, ⟨⟨_, _, _⟩, ⟨⟨_, rfl⟩, -⟩, rfl⟩,
      ⟨_, _, ⟨⟨_, _, _⟩, ⟨⟨_, rfl⟩, -⟩, rfl⟩,
      ⟨_, _, ⟨⟨_, _, _⟩, ⟨⟨_, rfl⟩, -⟩, rfl⟩,
      ⟨_, _, ⟨⟨_, _, _⟩, ⟨⟨_, rfl⟩, -⟩, rfl⟩,
      ⟨⟨_, _, _⟩, ⟨⟨_, rfl⟩, -⟩, rfl⟩, rfl⟩, rfl⟩, rfl⟩, rfl⟩ := h
    exact ⟨_, _, _, rfl, rfl, rfl, ⟨_, rfl⟩, nofun⟩
  case createStreamAsSelectStmt =>
    delta Rule.body at hg; dsimp only at hg
    refine good_fixed hg (fun _ _ _ => rfl) fun o st h => ?_
    simp (disch := decide) only [Peg.seqs, Rule.sp', yields_seq_silent_left,
      yields_seq_silent_right, yields_seq_call] at h
    obtain ⟨_, _, ⟨⟨_, _, _⟩, ⟨⟨_, rfl⟩, -⟩, rfl⟩,
      ⟨_, _, ⟨⟨_, _, _⟩, ⟨⟨_, _, rfl⟩, -⟩, rfl⟩,
      ⟨_, _, ⟨⟨_, _, _⟩, ⟨⟨_, rfl⟩, -⟩, rfl⟩,
      ⟨_, _, ⟨⟨_, _, _⟩, ⟨⟨_, rfl⟩, -⟩, rfl⟩,
      ⟨_, _, ⟨⟨_, _, _⟩, ⟨⟨_, rfl⟩, -⟩, rfl⟩,
      ⟨⟨_, _, _⟩, ⟨⟨_, rfl⟩, -⟩, rfl⟩, rfl⟩, rfl⟩, rfl⟩, rfl⟩, rfl⟩ := h
    exact ⟨_, _, _, rfl, rfl, rfl, ⟨_, rfl⟩, nofun⟩
  case createSourceStmt | createSinkStmt | createStreamFromSourceExtStmt =>
    delta Rule.body at hg; dsimp only at hg
    refine good_fixed hg (fun _ _ _ => rfl) fun o st h => ?_
    simp (disch := decide) only [Peg.seqs, Rule.sp', yields_seq_silent_left,
      yields_seq_silent_right, yields_seq_call] at h
    obtain ⟨_, _, ⟨⟨_, _, _⟩, ⟨⟨_, rfl⟩, -⟩, rfl⟩,
      ⟨_, _, ⟨⟨_, _, _⟩, ⟨⟨_, rfl⟩, -⟩, rfl⟩, ⟨⟨_, _, _⟩, ⟨⟨_, rfl⟩, -⟩, rfl⟩, rfl⟩, rfl⟩ := h
    exact ⟨_, _, _, rfl, rfl, rfl, ⟨_, rfl⟩, nofun⟩
  case createStreamFromSourceStmt | insertIntoSelectStmt =>
    delta Rule.body at hg; dsimp only at hg
    refine good_fixed hg (fun _ _ _ => rfl) fun o st h => ?_
    simp (disch := decide) only [Peg.seqs, Rule.sp', yields_seq_silent_left,
      yields_seq_silent_right, yields_seq_call] at h
    obtain ⟨_, _, ⟨⟨_, _, _⟩, ⟨⟨_, rfl⟩, -⟩, rfl⟩, ⟨⟨_, _, _⟩, ⟨⟨_, rfl⟩, -⟩, rfl⟩, rfl⟩ := h
    exact ⟨_, _, _, rfl, rfl, rfl, ⟨_, rfl⟩, nofun⟩
  case emitProjections =>
    delta Rule.body at hg; dsimp only at hg
    refine good_fixed hg (fun _ _ _ => rfl) fun o st h => ?_
    simp (disch := decide) only [Peg.seqs, Rule.sp', yields_seq_silent_left,
      yields_seq_silent_right, yields_seq_call] at h
    obtain ⟨_, _, ⟨⟨_, _, _⟩, ⟨⟨_, rfl⟩, -⟩, rfl⟩, ⟨⟨_, _, _⟩, ⟨⟨_, rfl⟩, -⟩, rfl⟩, rfl⟩ := h
    exact ⟨_, _, _, rfl, rfl, rfl, ⟨_, _, rfl⟩, nofun⟩
  case range | funcApp =>
    delta Rule.body at hg; dsimp only at hg
    refine good_fixed hg (fun _ _ _ => rfl) fun o st h => ?_
    simp (disch := decide) only [Peg.seqs, Rule.sp', yields_seq_silent_left,
      yields_seq_silent_right, yields_seq_call] at h
    obtain ⟨_, _, ⟨⟨_, _, _⟩, ⟨⟨_, rfl⟩, hn⟩, rfl⟩, ⟨⟨_, _, _⟩, ⟨⟨_, rfl⟩, -⟩, rfl⟩, rfl⟩ := h
    exact ⟨_, _, _, rfl, rfl, rfl, ⟨_, rfl⟩, fun _ => hn rfl⟩
  case sourceSinkParam =>
    delta Rule.body at hg; dsimp only at hg
    refine good_fixed hg (fun _ _ _ => rfl) fun o st h => ?_
    simp (disch := decide) only [Peg.seqs, Rule.sp', yields_seq_silent_left,
      yields_seq_silent_right, yields_seq_call] at h
    obtain ⟨_, _, ⟨⟨_, _, _⟩, ⟨⟨_, rfl⟩, hn⟩, rfl⟩, ⟨⟨_, _, _⟩, ⟨⟨_, rfl⟩, -⟩, rfl⟩, rfl⟩ := h
    exact ⟨_, _, _, rfl, rfl, rfl, ⟨_, _, rfl⟩, fun _ => hn rfl⟩
  -- leaf rules: `PushComponent` after a capture
  all_goals
    refine good_push hb hg (fun _ => yields_of_silent (by rfl)) (fun _ => ?_)
      (consumed_pos hb (by rfl))
    exact ⟨_, rfl⟩

end Rules

/-- The tokens of every successful match are good for what the matched expression yields. -/
theorem eval_good {buffer : List Char} : ∀ {f : Nat} {e : Peg Rule} {c c' : Cursor}
    {t : List (Token Action)}, bqlPeg.eval f e c = some (.ok c' t) →
      Good withinSpanNonEmpty buffer (Yields e) c c' t
  | 0, _, _, _, _, h => nomatch h
  | f + 1, e, c, c', t, h => by
    have seq : ∀ {a b : Peg Rule} {c₁ : Cursor} {t₁ t₂ : List (Token Action)},
        bqlPeg.eval f a c = some (.ok c₁ t₁) → bqlPeg.eval f b c₁ = some (.ok c' t₂) →
        Good withinSpanNonEmpty buffer (Yields (.seq a b)) c c' (t₁ ++ t₂) := fun h₁ h₂ =>
      (eval_good h₁).seq (eval_good h₂) (bqlPeg.eval_reaches h₁).pos_le
        (bqlPeg.eval_reaches h₂).pos_le
    cases e with
    | seq a b =>
      obtain ⟨_, _, _, h₁, h₂, rfl⟩ := Outcome.bind_eq_ok h
      exact seq h₁ h₂
    | alt a b =>
      rcases Outcome.orElse_eq_ok h with h | ⟨-, h⟩
      exacts [(eval_good h).mono fun _ => .inl, (eval_good h).mono fun _ => .inr]
    | star a =>
      simp only [Grammar.eval] at h
      split at h
      · cases h; exact .nil .nil
      · obtain ⟨_, _, _, h₁, h₂, rfl⟩ := Outcome.bind_eq_ok h
        exact (seq h₁ h₂).mono fun _ ⟨_, _, ha, hs, e⟩ => e ▸ .cons ha hs
    | plus a =>
      obtain ⟨_, _, _, h₁, h₂, rfl⟩ := Outcome.bind_eq_ok h
      exact seq h₁ h₂
    | opt a =>
      rcases Outcome.orElse_eq_ok h with h | ⟨-, h⟩
      · exact (eval_good h).mono fun _ => .inl
      · cases h; exact .nil (.inr rfl)
    | not a =>
      simp only [Grammar.eval] at h
      split at h <;> first | (cases h; exact .nil rfl) | cases h
    | capture a =>
      obtain ⟨_, _, _, h₁, h₂, rfl⟩ := Outcome.bind_eq_ok h
      cases h₂
      exact (eval_good h₁).text _ _
    | call r =>
      obtain ⟨_, _, _, h₁, h₂, rfl⟩ := Outcome.bind_eq_ok h
      cases h₂
      exact call_good r h₁ (eval_good h₁)
    | char | word | range | irange | any =>
      simp only [Grammar.eval] at h
      split at h <;> (try split at h) <;> first | (cases h; exact .nil rfl) | cases h

end SensorBee.Parser
