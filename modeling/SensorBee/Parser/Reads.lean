import SensorBee.Parser.StackInvariant

/-!
# Reading a text and running its tokens

`Reads buffer e c c' o`: the expression `e` reads the input from `c` to `c'`, and the tokens of
that match put exactly the fragments `o` (top first) on every ordered stack whose fragments end at
`c` or earlier. It joins the fuel-free `Returns` of the interpreter with `Good` of the stack
machine, so a statement's parse and its run are built together, one lemma per operator of the
grammar and one per kind of action that closes a rule.
-/
namespace SensorBee.Parser

/-- `e` reads from `c` to `c'`, and its tokens put exactly `o` on every ordered stack below `c`. -/
def Reads (buffer : List Char) (e : Peg Rule) (c c' : Cursor) (o : List ParsedComponent) : Prop :=
  ∃ t, bqlPeg.Returns e c (.ok c' t) ∧ Good withinSpanNonEmpty buffer (· = o) c c' t

namespace Reads

variable {buffer : List Char} {a b : Peg Rule} {c c₁ c' : Cursor}
  {o o₁ o₂ : List ParsedComponent}

theorem pos_le (h : Reads buffer a c c' o) : c.pos ≤ c'.pos :=
  let ⟨_, ⟨_, hf⟩, _⟩ := h; (bqlPeg.eval_reaches hf).pos_le

theorem on_buffer (h : Reads buffer a c c' o) (hc : buffer.drop c.pos = c.rest) :
    buffer.drop c'.pos = c'.rest := by
  obtain ⟨_, ⟨_, hf⟩, _⟩ := h
  obtain ⟨w, hw, hp⟩ := bqlPeg.eval_reaches hf
  rw [hp, ← List.drop_drop, hc, hw, List.drop_left]

theorem within (h : Reads buffer a c c' o) : Within c.pos c'.pos o ∧ Ordered o := by
  obtain ⟨_, -, g⟩ := h
  obtain ⟨_, rfl, hw, ho, -⟩ := g.run ⟨0, 0, []⟩ (List.forall_mem_nil _) .nil
  exact ⟨hw, ho⟩

theorem nil (h : bqlPeg.Returns a c (.ok c' [])) : Reads buffer a c c' [] :=
  ⟨[], h, Good.nil rfl⟩

theorem seq (ha : Reads buffer a c c₁ o₁) (hb : Reads buffer b c₁ c' o₂) :
    Reads buffer (.seq a b) c c' (o₂ ++ o₁) := by
  have h₁ := ha.pos_le
  have h₂ := hb.pos_le
  obtain ⟨t₁, r₁, g₁⟩ := ha
  obtain ⟨t₂, r₂, g₂⟩ := hb
  exact ⟨t₁ ++ t₂, r₁.seq r₂, (g₁.seq g₂ h₁ h₂).mono fun _ ⟨_, _, e₁, e₂, e⟩ => e₁ ▸ e₂ ▸ e⟩

theorem seq_nil (ha : Reads buffer a c c₁ []) (hb : Reads buffer b c₁ c' o) :
    Reads buffer (.seq a b) c c' o := by
  simpa using ha.seq hb

theorem capture (h : Reads buffer a c c' o) : Reads buffer (.capture a) c c' o :=
  let ⟨_, r, g⟩ := h; ⟨_, r.capture, g.text _ _⟩

theorem alt_ok (h : Reads buffer a c c' o) : Reads buffer (.alt a b) c c' o :=
  let ⟨_, r, g⟩ := h; ⟨_, r.alt_ok, g⟩

theorem alt_fail (ha : bqlPeg.Returns a c .fail) (h : Reads buffer b c c' o) :
    Reads buffer (.alt a b) c c' o :=
  let ⟨_, r, g⟩ := h; ⟨_, ha.alt_fail r, g⟩

theorem opt_some (h : Reads buffer a c c' o) : Reads buffer (.opt a) c c' o :=
  let ⟨_, r, g⟩ := h; ⟨_, r.opt_ok, g⟩

theorem opt_none (ha : bqlPeg.Returns a c .fail) : Reads buffer (.opt a) c c [] :=
  .nil ha.opt_fail

theorem star_stop (ha : bqlPeg.Returns a c .fail) : Reads buffer (.star a) c c [] :=
  .nil ha.star_fail

theorem star_step (ha : Reads buffer a c c₁ o₁) (hs : Reads buffer (.star a) c₁ c' o₂) :
    Reads buffer (.star a) c c' (o₂ ++ o₁) := by
  have h₁ := ha.pos_le
  have h₂ := hs.pos_le
  obtain ⟨t₁, r₁, g₁⟩ := ha
  obtain ⟨t₂, r₂, g₂⟩ := hs
  exact ⟨t₁ ++ t₂, r₁.star_ok r₂, (g₁.seq g₂ h₁ h₂).mono fun _ ⟨_, _, e₁, e₂, e⟩ => e₁ ▸ e₂ ▸ e⟩

theorem plus (ha : Reads buffer a c c₁ o₁) (hs : Reads buffer (.star a) c₁ c' o₂) :
    Reads buffer (.plus a) c c' (o₂ ++ o₁) := by
  have h₁ := ha.pos_le
  have h₂ := hs.pos_le
  obtain ⟨t₁, r₁, g₁⟩ := ha
  obtain ⟨t₂, r₂, g₂⟩ := hs
  exact ⟨t₁ ++ t₂, r₁.plus r₂, (g₁.seq g₂ h₁ h₂).mono fun _ ⟨_, _, e₁, e₂, e⟩ => e₁ ▸ e₂ ▸ e⟩

theorem call {r : Rule} (hr : Rule.action r = none) (h : Reads buffer (Rule.body r) c c' o) :
    Reads buffer (.call r) c c' o := by
  obtain ⟨t, ret, g⟩ := h
  refine ⟨_, ret.call, ?_⟩
  rwa [show bqlPeg.action r = none from hr, Option.toList_none, List.map_nil, List.append_nil]

theorem fixed {r : Rule} {act : Action} {x : ParsedComponent} (ha : Rule.action r = some act)
    (h : Reads buffer (Rule.body r) c c' o)
    (hrun : ∀ b e st, runAction withinSpanNonEmpty buffer b e act (o ++ st) = some (x :: st))
    (hx : c.pos ≤ x.begin ∧ x.begin ≤ x.end ∧ x.end ≤ c'.pos) :
    Reads buffer (.call r) c c' [x] := by
  obtain ⟨t, ret, g⟩ := h
  refine ⟨_, ret.call, ?_⟩
  rw [show bqlPeg.action r = some act from ha]
  refine g.action act fun s s' out _ _ hst hT _ _ => ⟨[x], rfl, ?_, ?_, ?_⟩
  · simpa [Within] using ⟨hx.1, hx.2.2⟩
  · exact ⟨by simpa using hx.2.1, List.pairwise_singleton _ _⟩
  · rw [hst, hT, hrun]; rfl

theorem good_push {t : List (Token Action)} {l : Leaf}
    (g : Good withinSpanNonEmpty buffer (· = []) c c' t) (hle : c.pos ≤ c'.pos) :
    Good withinSpanNonEmpty buffer (· = [⟨c.pos, c'.pos, l.build (substr buffer c.pos c'.pos)⟩])
      c c' (t ++ [.text c.pos c'.pos] ++ [.action (.pushComponent l)]) := by
  refine (g.text c.pos c'.pos).action _ fun s s' out _ hs hst hT _ _ => ?_
  obtain ⟨hb', he'⟩ := execute_text_last hs
  refine ⟨_, rfl, by simp [Within, hle], ⟨by simp [hle], List.pairwise_singleton _ _⟩, ?_⟩
  rw [hT] at hst
  simp [runAction, hb', he', hst]

theorem push {r : Rule} {X : Peg Rule} {l : Leaf} {x : Component} (hb : Rule.body r = .capture X)
    (ha : Rule.action r = some (.pushComponent l)) (h : Reads buffer X c c' [])
    (hx : l.build (substr buffer c.pos c'.pos) = x) :
    Reads buffer (.call r) c c' [⟨c.pos, c'.pos, x⟩] := by
  have hle := h.pos_le
  obtain ⟨t, ret, g⟩ := h
  have ret' : bqlPeg.Returns (Rule.body r) c (.ok c' (t ++ [.text c.pos c'.pos])) :=
    hb ▸ ret.capture
  refine ⟨_, ret'.call, ?_⟩
  rw [show bqlPeg.action r = some (.pushComponent l) from ha, ← hx]
  exact good_push g hle

theorem leaf {l : Leaf}
    (h : bqlPeg.Returns a c (.ok c' [.text c.pos c'.pos, .action (.pushComponent l)]))
    (hle : c.pos ≤ c'.pos) :
    Reads buffer a c c' [⟨c.pos, c'.pos, l.build (substr buffer c.pos c'.pos)⟩] :=
  ⟨_, h, good_push (Good.nil rfl) hle⟩

theorem span {r : Rule} {X : Peg Rule} {act : Action} {build : List Component → Option Component}
    {x : Component} (hb : Rule.body r = .capture X) (ha : Rule.action r = some act)
    (hrun : ∀ b e st, runAction withinSpanNonEmpty buffer b e act st =
      assembleSpan build withinSpanNonEmpty b e st)
    (h : Reads buffer X c c' o) (hne : ∀ p ∈ o, p.begin < p.end)
    (hx : build (o.reverse.map (·.comp)) = some x) :
    Reads buffer (.call r) c c' [⟨c.pos, c'.pos, x⟩] := by
  have hle := h.pos_le
  obtain ⟨t, ret, g⟩ := h
  have ret' : bqlPeg.Returns (Rule.body r) c (.ok c' (t ++ [.text c.pos c'.pos])) :=
    hb ▸ ret.capture
  refine ⟨_, ret'.call, ?_⟩
  rw [show bqlPeg.action r = some act from ha]
  refine (g.text c.pos c'.pos).action _ fun s s' out hbl hs hst hT hw _ => ?_
  obtain ⟨hb', he'⟩ := execute_text_last hs
  subst hT
  have hc := collect_exact (fun p hp => ⟨(hw p hp).1, hne p hp, (hw p hp).2⟩) hbl
  refine ⟨_, rfl, by simp [Within, hle], ⟨by simp [hle], List.pairwise_singleton _ _⟩, ?_⟩
  simp only [hrun, assembleSpan, hb', he', hst, hc, hx, Option.map_some', List.singleton_append]

end Reads

end SensorBee.Parser
