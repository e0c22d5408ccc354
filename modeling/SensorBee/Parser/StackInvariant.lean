import Mathlib.Data.List.Basic
import SensorBee.Parser.ParseStack

/-!
# Running tokens on the parse stack

An ordered stack lists fragments from the top down, each ending where the one above begins or
earlier. `Good` says what the tokens of one successful match do to every ordered stack whose
fragments end where the match starts: they run through, leave that stack untouched, and put on
top an ordered list of fragments inside the match's span. Sequencing, a text token and a closing
action keep `Good`; `Reductions` instantiates it rule by rule.
-/
namespace SensorBee.Parser

/-- Fragments from the top down: each lies in order, and ends where the one above begins or
earlier. -/
def Ordered (st : List ParsedComponent) : Prop :=
  (∀ p ∈ st, p.begin ≤ p.end) ∧ st.Pairwise (fun p q => q.end ≤ p.begin)

def Below (b : Nat) (st : List ParsedComponent) : Prop := ∀ q ∈ st, q.end ≤ b

def Within (b e : Nat) (out : List ParsedComponent) : Prop := ∀ p ∈ out, b ≤ p.begin ∧ p.end ≤ e

theorem Ordered.nil : Ordered [] := ⟨by simp, .nil⟩

theorem Ordered.append {out st : List ParsedComponent} {b e : Nat} (ho : Ordered out)
    (hs : Ordered st) (hw : Within b e out) (hb : Below b st) : Ordered (out ++ st) := by
  refine ⟨fun p hp => ?_, List.pairwise_append.mpr ⟨ho.2, hs.2, fun p hp q hq => ?_⟩⟩
  · rcases List.mem_append.mp hp with hp | hp
    exacts [ho.1 p hp, hs.1 p hp]
  · exact (hb q hq).trans (hw p hp).1

theorem Within.mono {b e b' e' : Nat} {out : List ParsedComponent} (hw : Within b e out)
    (hb : b' ≤ b) (he : e ≤ e') : Within b' e' out :=
  fun p hp => ⟨hb.trans (hw p hp).1, (hw p hp).2.trans he⟩

theorem Within.below {b e : Nat} {out : List ParsedComponent} (hw : Within b e out) :
    Below e out :=
  fun p hp => (hw p hp).2

theorem Below.mono {b b' : Nat} {st : List ParsedComponent} (h : Below b st) (hb : b ≤ b') :
    Below b' st :=
  fun q hq => (h q hq).trans hb

theorem Below.append {b : Nat} {out st : List ParsedComponent} (ho : Below b out)
    (hs : Below b st) : Below b (out ++ st) := by
  intro q hq
  rcases List.mem_append.mp hq with hq | hq
  exacts [ho q hq, hs q hq]

theorem Ordered.span {o : List ParsedComponent} {b e : Nat} {top bot : ParsedComponent}
    (ho : Ordered o) (hw : Within b e o) (ht : o.head? = some top) (hb : o.getLast? = some bot) :
    b ≤ bot.begin ∧ bot.begin ≤ bot.end ∧ bot.end ≤ top.end ∧ top.end ≤ e := by
  obtain ⟨rest, rfl⟩ := List.head?_eq_some_iff.mp ht
  have hbot := List.mem_of_getLast?_eq_some hb
  have htop := List.mem_cons_self top rest
  refine ⟨(hw bot hbot).1, ho.1 bot hbot, ?_, (hw top htop).2⟩
  rcases List.mem_cons.mp hbot with rfl | hr
  · exact le_rfl
  · exact (List.rel_of_pairwise_cons ho.2 hr).trans (ho.1 top htop)

section Execute

variable {sel : Selection} {buffer : List Char}

theorem execute_append (t₁ t₂ : List (Token Action)) (s : ParseState) :
    execute sel buffer (t₁ ++ t₂) s = (execute sel buffer t₁ s).bind (execute sel buffer t₂) := by
  induction t₁ generalizing s with
  | nil => rfl
  | cons x t₁ ih =>
    cases x with
    | text b e => exact ih _
    | action a =>
      simp only [List.cons_append, execute]
      cases runAction sel buffer s.begin s.end a s.stack <;> simp [ih]

theorem execute_take {t : List (Token Action)} {s s' : ParseState}
    (h : execute sel buffer t s = some s') (n : Nat) :
    ∃ s₁, execute sel buffer (t.take n) s = some s₁ := by
  rw [← List.take_append_drop n t, execute_append] at h
  cases h₁ : execute sel buffer (t.take n) s with
  | none => simp [h₁] at h
  | some s₁ => exact ⟨s₁, rfl⟩

theorem prefixes_append {t₁ t₂ : List (Token Action)} {s s₁ : ParseState}
    (h₁ : ∀ n s', execute sel buffer (t₁.take n) s = some s' → Ordered s'.stack)
    (hs₁ : execute sel buffer t₁ s = some s₁)
    (h₂ : ∀ n s', execute sel buffer (t₂.take n) s₁ = some s' → Ordered s'.stack) :
    ∀ n s', execute sel buffer ((t₁ ++ t₂).take n) s = some s' → Ordered s'.stack := by
  intro n s' h
  rw [List.take_append_eq_append_take, execute_append] at h
  by_cases hn : t₁.length ≤ n
  · rw [List.take_of_length_le hn, hs₁] at h
    exact h₂ _ _ h
  · rw [Nat.sub_eq_zero_of_le (by omega), List.take_zero] at h
    cases h' : execute sel buffer (t₁.take n) s with
    | none => simp [h'] at h
    | some s₂ =>
      simp only [h', Option.some_bind, execute, Option.some.injEq] at h
      exact h ▸ h₁ n s₂ h'

end Execute

section Good

variable (sel : Selection) (buffer : List Char)

/-- The tokens `t` of a match from `c` to `c'` are good for the fragment lists `T`: on a stack
below `c`, they run through, leave a list of `T` within the match on top of it, and every
prefix of the run leaves an ordered stack. -/
structure Good (T : List ParsedComponent → Prop) (c c' : Cursor) (t : List (Token Action)) :
    Prop where
  run : ∀ s : ParseState, Below c.pos s.stack → Ordered s.stack →
    ∃ out, T out ∧ Within c.pos c'.pos out ∧ Ordered out ∧
      ∃ s', execute sel buffer t s = some s' ∧ s'.stack = out ++ s.stack
  prefixes : ∀ s : ParseState, Below c.pos s.stack → Ordered s.stack →
    ∀ n s', execute sel buffer (t.take n) s = some s' → Ordered s'.stack

variable {sel buffer} {T T' : List ParsedComponent → Prop} {c c₁ c' : Cursor}
  {t t₁ t₂ : List (Token Action)}

theorem Good.mono (h : Good sel buffer T c c' t) (hT : ∀ o, T o → T' o) :
    Good sel buffer T' c c' t :=
  ⟨fun s hb ho => (h.run s hb ho).imp fun _ h => ⟨hT _ h.1, h.2⟩, h.prefixes⟩

theorem Good.nil (hT : T []) : Good sel buffer T c c' [] := by
  refine ⟨fun s _ _ => ⟨[], hT, by simp [Within], Ordered.nil, s, rfl, rfl⟩,
    fun s _ ho n s' h => ?_⟩
  simp only [List.take_nil, execute, Option.some.injEq] at h
  exact h ▸ ho

theorem Good.seq {Ta Tb : List ParsedComponent → Prop} (ga : Good sel buffer Ta c c₁ t₁)
    (gb : Good sel buffer Tb c₁ c' t₂) (h₁ : c.pos ≤ c₁.pos) (h₂ : c₁.pos ≤ c'.pos) :
    Good sel buffer (fun o => ∃ o₁ o₂, Ta o₁ ∧ Tb o₂ ∧ o = o₂ ++ o₁) c c' (t₁ ++ t₂) := by
  have step : ∀ s : ParseState, Below c.pos s.stack → Ordered s.stack →
      ∃ o₁ s₁, Ta o₁ ∧ Within c.pos c₁.pos o₁ ∧ Ordered o₁ ∧
        execute sel buffer t₁ s = some s₁ ∧ s₁.stack = o₁ ++ s.stack ∧
        Below c₁.pos s₁.stack ∧ Ordered s₁.stack := by
    intro s hb ho
    obtain ⟨o₁, hT, hw, hoo, s₁, hs₁, hst⟩ := ga.run s hb ho
    exact ⟨o₁, s₁, hT, hw, hoo, hs₁, hst, hst ▸ hw.below.append (hb.mono h₁),
      hst ▸ hoo.append ho hw hb⟩
  refine ⟨fun s hb ho => ?_, fun s hb ho => ?_⟩
  · obtain ⟨o₁, s₁, hT₁, hw₁, ho₁, hs₁, hst₁, hb₁, hord₁⟩ := step s hb ho
    obtain ⟨o₂, hT₂, hw₂, ho₂, s₂, hs₂, hst₂⟩ := gb.run s₁ hb₁ hord₁
    refine ⟨o₂ ++ o₁, ⟨o₁, o₂, hT₁, hT₂, rfl⟩, ?_, ho₂.append ho₁ hw₂ hw₁.below, s₂, ?_, ?_⟩
    · intro p hp
      rcases List.mem_append.mp hp with hp | hp
      · exact ⟨h₁.trans (hw₂ p hp).1, (hw₂ p hp).2⟩
      · exact ⟨(hw₁ p hp).1, (hw₁ p hp).2.trans h₂⟩
    · rw [execute_append, hs₁, Option.some_bind, hs₂]
    · rw [hst₂, hst₁, List.append_assoc]
  · obtain ⟨o₁, s₁, -, -, -, hs₁, -, hb₁, hord₁⟩ := step s hb ho
    exact prefixes_append (ga.prefixes s hb ho) hs₁ (gb.prefixes s₁ hb₁ hord₁)

theorem Good.text (h : Good sel buffer T c c' t) (b e : Nat) :
    Good sel buffer T c c' (t ++ [.text b e]) := by
  have ht : ∀ s : ParseState, execute sel buffer [.text b e] s =
      some { s with begin := b, «end» := e } := fun _ => rfl
  refine ⟨fun s hb ho => ?_, fun s hb ho => ?_⟩
  · obtain ⟨out, hT, hw, hoo, s', hs', hst⟩ := h.run s hb ho
    exact ⟨out, hT, hw, hoo, { s' with begin := b, «end» := e },
      by rw [execute_append, hs', Option.some_bind, ht], hst⟩
  · obtain ⟨out, -, hw, hoo, s', hs', hst⟩ := h.run s hb ho
    refine prefixes_append (h.prefixes s hb ho) hs' fun n s'' h'' => ?_
    have : s''.stack = s'.stack := by
      cases n <;> simp only [List.take_zero, List.take_succ_cons, List.take_nil, execute,
        Option.some.injEq] at h'' <;> rw [← h'']
    rw [this, hst]
    exact hoo.append ho hw hb

end Good

theorem collect_exact {b e : Nat} {o st : List ParsedComponent}
    (ho : ∀ p ∈ o, b ≤ p.begin ∧ p.begin < p.end ∧ p.end ≤ e) (hst : Below b st) :
    collectElements withinSpanNonEmpty b e (o ++ st) = (o.reverse.map (·.comp), st) := by
  have hsel : ∀ p ∈ o, withinSpanNonEmpty b e p = true := fun p hp => by
    simp [withinSpanNonEmpty, ho p hp]
  have hq : ∀ q ∈ st, withinSpanNonEmpty b e q = false := fun q hq => by
    have := hst q hq
    simp only [withinSpanNonEmpty, Bool.and_eq_false_iff, decide_eq_false_iff_not, not_le,
      not_lt]
    omega
  have hrest : st.takeWhile (withinSpanNonEmpty b e) = [] ∧
      st.dropWhile (withinSpanNonEmpty b e) = st := by
    cases st with
    | nil => simp
    | cons q st => simp [hq q (List.mem_cons_self _ _)]
  simp only [collectElements, List.takeWhile_append_of_pos hsel, List.dropWhile_append_of_pos hsel,
    hrest.1, hrest.2, List.append_nil]

section Actions

variable {sel : Selection} {buffer : List Char} {T T' : List ParsedComponent → Prop}
  {c c' : Cursor} {tb : List (Token Action)}

theorem execute_text_last {t : List (Token Action)} {b e : Nat} {s s' : ParseState}
    (h : execute sel buffer (t ++ [.text b e]) s = some s') : s'.begin = b ∧ s'.end = e := by
  rw [execute_append] at h
  cases h' : execute sel buffer t s with
  | none => simp [h'] at h
  | some s₁ =>
    simp only [h', Option.some_bind, execute, Option.some.injEq] at h
    exact ⟨h ▸ rfl, h ▸ rfl⟩

/-- A rule's action after its body: if, on whatever the body left, the action replaces it by a
list of `T'`, the rule's tokens are good for `T'`. -/
theorem Good.action (hg : Good sel buffer T c c' tb) (a : Action)
    (ha : ∀ (s s' : ParseState) (out : List ParsedComponent), Below c.pos s.stack →
      execute sel buffer tb s = some s' → s'.stack = out ++ s.stack → T out →
      Within c.pos c'.pos out → Ordered out →
      ∃ out', T' out' ∧ Within c.pos c'.pos out' ∧ Ordered out' ∧
        runAction sel buffer s'.begin s'.end a s'.stack = some (out' ++ s.stack)) :
    Good sel buffer T' c c' (tb ++ [.action a]) := by
  have step : ∀ s : ParseState, Below c.pos s.stack → Ordered s.stack →
      ∃ out s' out', execute sel buffer tb s = some s' ∧ s'.stack = out ++ s.stack ∧
        Ordered s'.stack ∧ T' out' ∧ Within c.pos c'.pos out' ∧ Ordered out' ∧
        runAction sel buffer s'.begin s'.end a s'.stack = some (out' ++ s.stack) := by
    intro s hb ho
    obtain ⟨out, hT, hw, hoo, s', hs', hst⟩ := hg.run s hb ho
    obtain ⟨out', hT', hw', ho', hr⟩ := ha s s' out hb hs' hst hT hw hoo
    exact ⟨out, s', out', hs', hst, hst ▸ hoo.append ho hw hb, hT', hw', ho', hr⟩
  have last : ∀ (s' : ParseState) (st : List ParsedComponent),
      runAction sel buffer s'.begin s'.end a s'.stack = some st →
      execute sel buffer [.action a] s' = some { s' with stack := st } := by
    intro s' st h
    simp [execute, h]
  refine ⟨fun s hb ho => ?_, fun s hb ho => ?_⟩
  · obtain ⟨-, s', out', hs', -, -, hT', hw', ho', hr⟩ := step s hb ho
    exact ⟨out', hT', hw', ho', _, by rw [execute_append, hs', Option.some_bind, last _ _ hr], rfl⟩
  · obtain ⟨-, s', out', hs', -, hord, -, hw', ho', hr⟩ := step s hb ho
    refine prefixes_append (hg.prefixes s hb ho) hs' fun n s'' h'' => ?_
    cases n with
    | zero => cases h''; exact hord
    | succ n =>
      rw [List.take_succ_cons, List.take_nil, last _ _ hr, Option.some.injEq] at h''
      exact h'' ▸ ho'.append ho hw' hb

end Actions

end SensorBee.Parser
