import Mathlib.Data.List.Basic

/-!
# Parsing expressions in the pointlander/peg dialect

The grammar `bql.peg` is compiled by pointlander/peg. Double-quoted literals and double
brackets match letters in either case; `< e >` records the matched span as a text token;
`{ ... }` adds an action token. Tokens of a failed alternative or of a lookahead are dropped,
and `Execute` replays the surviving tokens in the order the rules completed.
-/
namespace SensorBee

/-- Parsing expressions over the rule names `R`. -/
inductive Peg (R : Type) where
  | char (c : Char)
  | word (s : String)
  | range (lo hi : Char)
  | irange (lo hi : Char)
  | any
  | seq (a b : Peg R)
  | alt (a b : Peg R)
  | star (a : Peg R)
  | plus (a : Peg R)
  | opt (a : Peg R)
  | not (a : Peg R)
  | capture (a : Peg R)
  | call (r : R)
  deriving DecidableEq, Repr

/-- A rule body ends with at most one action; in `bql.peg` every action closes its rule. -/
structure Grammar (R A : Type) where
  body : R → Peg R
  action : R → Option A

structure Cursor where
  pos : Nat
  rest : List Char
  deriving DecidableEq, Repr

inductive Token (A : Type) where
  | text (b e : Nat)
  | action (a : A)
  deriving DecidableEq, Repr

inductive Outcome (A : Type) where
  | fail
  | ok (c : Cursor) (toks : List (Token A))
  deriving DecidableEq, Repr

variable {R A : Type}

namespace Peg

def seqs : Peg R → List (Peg R) → Peg R
  | a, [] => a
  | a, b :: bs => .seq a (seqs b bs)

def alts : Peg R → List (Peg R) → Peg R
  | a, [] => a
  | a, b :: bs => .alt a (alts b bs)

end Peg

def foldEq (x d : Char) : Bool := x.toLower == d.toLower

def Peg.accepts : Peg R → Char → Bool
  | .char x, d => d == x
  | .range lo hi, d => lo ≤ d && d ≤ hi
  | .irange lo hi, d => (lo ≤ d && d ≤ hi) || (lo.toUpper ≤ d && d ≤ hi.toUpper)
  | .any, _ => true
  | _, _ => false

def Peg.isRune : Peg R → Bool
  | .char _ | .range _ _ | .irange _ _ | .any => true
  | _ => false

def Peg.isClass : Peg R → Bool
  | .alt a b => a.isClass && b.isClass
  | e => e.isRune

def Peg.classAccepts : Peg R → Char → Bool
  | .alt a b, d => a.classAccepts d || b.classAccepts d
  | e, d => e.accepts d

def matchWord : List Char → List Char → Option (List Char)
  | [], ds => some ds
  | _ :: _, [] => none
  | x :: xs, d :: ds => if foldEq x d then matchWord xs ds else none

def Outcome.prepend (t : List (Token A)) : Outcome A → Outcome A
  | .fail => .fail
  | .ok c u => .ok c (t ++ u)

namespace Outcome

def bind : Option (Outcome A) → (Cursor → Option (Outcome A)) → Option (Outcome A)
  | some (.ok c t), k => (k c).map (prepend t)
  | r, _ => r

def orElse : Option (Outcome A) → Option (Outcome A) → Option (Outcome A)
  | some .fail, k => k
  | r, _ => r

end Outcome

/-- The parser, one unit of fuel per nested expression; `none` means the fuel ran out. -/
def Grammar.eval (g : Grammar R A) : Nat → Peg R → Cursor → Option (Outcome A)
  | 0, _, _ => none
  | f + 1, e, c =>
    match e with
    | .word s =>
      some (match matchWord s.toList c.rest with
        | some ds => .ok ⟨c.pos + s.length, ds⟩ []
        | none => .fail)
    | .seq a b => Outcome.bind (eval g f a c) (eval g f b)
    | .alt a b => Outcome.orElse (eval g f a c) (eval g f b c)
    | .star a =>
      match eval g f a c with
      | some .fail => some (.ok c [])
      | r => Outcome.bind r (eval g f (.star a))
    | .plus a => Outcome.bind (eval g f a c) (eval g f (.star a))
    | .opt a => Outcome.orElse (eval g f a c) (some (.ok c []))
    | .not a =>
      match eval g f a c with
      | some .fail => some (.ok c [])
      | some (.ok _ _) => some .fail
      | none => none
    | .capture a => Outcome.bind (eval g f a c) (fun c' => some (.ok c' [.text c.pos c'.pos]))
    | .call r => Outcome.bind (eval g f (g.body r) c)
        (fun c' => some (.ok c' ((g.action r).toList.map .action)))
    | e =>
      some (match c.rest with
        | d :: ds => if e.accepts d then .ok ⟨c.pos + 1, ds⟩ [] else .fail
        | [] => .fail)

def Cursor.Reaches (c c' : Cursor) : Prop :=
  ∃ w, c.rest = w ++ c'.rest ∧ c'.pos = c.pos + w.length

theorem Cursor.Reaches.refl (c : Cursor) : c.Reaches c := ⟨[], rfl, rfl⟩

theorem Cursor.Reaches.trans {c c' c'' : Cursor} (h : c.Reaches c') (h' : c'.Reaches c'') :
    c.Reaches c'' := by
  obtain ⟨w, hw, hp⟩ := h
  obtain ⟨w', hw', hp'⟩ := h'
  exact ⟨w ++ w', by rw [hw, hw', List.append_assoc],
    by rw [hp', hp, List.length_append, Nat.add_assoc]⟩

theorem Cursor.Reaches.pos_le {c c' : Cursor} (h : c.Reaches c') : c.pos ≤ c'.pos := by
  obtain ⟨w, -, hp⟩ := h
  omega

theorem Cursor.Reaches.length_le {c c' : Cursor} (h : c.Reaches c') :
    c'.rest.length ≤ c.rest.length := by
  obtain ⟨w, hw, -⟩ := h
  rw [hw, List.length_append]
  omega

theorem Cursor.Reaches.pos_add {c c' : Cursor} (h : c.Reaches c') :
    c'.pos + c'.rest.length = c.pos + c.rest.length := by
  obtain ⟨w, hw, hp⟩ := h
  rw [hw, hp, List.length_append]
  omega

theorem matchWord_split {xs ds ds' : List Char} (h : matchWord xs ds = some ds') :
    ∃ w, ds = w ++ ds' ∧ w.length = xs.length := by
  induction xs generalizing ds with
  | nil => simp only [matchWord, Option.some.injEq] at h; exact ⟨[], by simp [h], rfl⟩
  | cons x xs ih =>
    match ds, h with
    | d :: ds, h =>
      simp only [matchWord] at h
      split at h
      · obtain ⟨w, hw, hl⟩ := ih h
        exact ⟨d :: w, by rw [hw]; rfl, by simp [hl]⟩
      · contradiction

theorem matchWord_length {xs ds ds' : List Char} (h : matchWord xs ds = some ds') :
    ds'.length + xs.length = ds.length := by
  obtain ⟨w, rfl, hl⟩ := matchWord_split h
  simp [hl, Nat.add_comm]

namespace Outcome

variable {r r' : Option (Outcome A)} {k k' : Cursor → Option (Outcome A)}
  {o : Outcome A} {c : Cursor} {t : List (Token A)}

@[simp] theorem bind_none : bind none k = none := rfl
@[simp] theorem bind_fail : bind (some .fail) k = some .fail := rfl
@[simp] theorem bind_ok : bind (some (.ok c t)) k = (k c).map (prepend t) := rfl
@[simp] theorem orElse_none {k : Option (Outcome A)} : orElse none k = none := rfl
@[simp] theorem orElse_fail {k : Option (Outcome A)} : orElse (some .fail) k = k := rfl
@[simp] theorem orElse_ok {k : Option (Outcome A)} : orElse (some (.ok c t)) k = some (.ok c t) :=
  rfl

theorem bind_mono (h : bind r k = some o) (hr : ∀ x, r = some x → r' = some x)
    (hk : ∀ c x, k c = some x → k' c = some x) : bind r' k' = some o := by
  match r, h with
  | some .fail, h => rw [hr _ rfl]; exact h
  | some (.ok c t), h =>
    rw [hr _ rfl]
    cases hc : k c with
    | none => simp [hc] at h
    | some x => simpa [hk c x hc, hc] using h

theorem orElse_mono {k k' : Option (Outcome A)} (h : orElse r k = some o)
    (hr : ∀ x, r = some x → r' = some x) (hk : ∀ x, k = some x → k' = some x) :
    orElse r' k' = some o := by
  match r, h with
  | some .fail, h => rw [hr _ rfl]; exact hk _ h
  | some (.ok c t), h => rw [hr _ rfl]; exact h

theorem bind_eq_ok {c'' : Cursor} (h : bind r k = some (.ok c'' t)) :
    ∃ c' t₁ t₂, r = some (.ok c' t₁) ∧ k c' = some (.ok c'' t₂) ∧ t = t₁ ++ t₂ := by
  match r, h with
  | some (.ok c' t₁), h =>
    cases hc : k c' with
    | none => simp [hc] at h
    | some x =>
      cases x with
      | fail => simp [hc, prepend] at h
      | ok c₂ t₂ =>
        simp only [bind_ok, hc, Option.map_some', prepend, Option.some.injEq,
          ok.injEq] at h
        exact ⟨c', t₁, t₂, rfl, h.1 ▸ hc, h.2.symm⟩

theorem bind_ne_none (hr : r ≠ none) (hk : ∀ c t, r = some (.ok c t) → k c ≠ none) :
    bind r k ≠ none := by
  match r, hr with
  | some .fail, _ => simp
  | some (.ok c t), _ => simpa using hk c t rfl

theorem orElse_ne_none {k : Option (Outcome A)} (hr : r ≠ none) (hk : r = some .fail → k ≠ none) :
    orElse r k ≠ none := by
  match r, hr with
  | some .fail, _ => simpa using hk rfl
  | some (.ok c t), _ => simp

theorem orElse_eq_ok {k : Option (Outcome A)} (h : orElse r k = some (.ok c t)) :
    r = some (.ok c t) ∨ (r = some .fail ∧ k = some (.ok c t)) := by
  match r, h with
  | some .fail, h => exact .inr ⟨rfl, h⟩
  | some (.ok _ _), h => exact .inl h

end Outcome

namespace Grammar

variable (g : Grammar R A)

/-- More fuel never changes a result that was reached. -/
theorem eval_mono {f f' : Nat} {e : Peg R} {c : Cursor} {o : Outcome A}
    (h : g.eval f e c = some o) (hf : f ≤ f') : g.eval f' e c = some o := by
  induction f generalizing f' e c o with
  | zero => simp [Grammar.eval] at h
  | succ f ih =>
    obtain ⟨f', rfl⟩ : ∃ k, f' = k + 1 := ⟨f' - 1, by omega⟩
    have ih' : ∀ {e c o}, g.eval f e c = some o → g.eval f' e c = some o :=
      fun h => ih h (by omega)
    have hk : ∀ {e : Peg R} c x, g.eval f e c = some x → g.eval f' e c = some x :=
      fun _ _ h => ih' h
    cases e with
    | seq a b => exact Outcome.bind_mono h (fun _ => ih') hk
    | alt a b => exact Outcome.orElse_mono h (fun _ => ih') (fun _ => ih')
    | star a =>
      simp only [Grammar.eval] at h ⊢
      cases ha : g.eval f a c with
      | none => simp [ha] at h
      | some x =>
        rw [ih' ha]; rw [ha] at h
        cases x with
        | fail => exact h
        | ok c' t => exact Outcome.bind_mono h (fun _ hx => hx) hk
    | plus a => exact Outcome.bind_mono h (fun _ => ih') hk
    | opt a => exact Outcome.orElse_mono h (fun _ => ih') (fun _ hx => hx)
    | not a =>
      simp only [Grammar.eval] at h ⊢
      cases ha : g.eval f a c with
      | none => simp [ha] at h
      | some x => rw [ih' ha]; rwa [ha] at h
    | capture a => exact Outcome.bind_mono h (fun _ => ih') (fun _ _ hx => hx)
    | call r => exact Outcome.bind_mono h (fun _ => ih') (fun _ _ hx => hx)
    | char | word | range | irange | any => exact h

theorem eval_reaches {f : Nat} {e : Peg R} {c c' : Cursor} {t : List (Token A)}
    (h : g.eval f e c = some (.ok c' t)) : c.Reaches c' := by
  induction f generalizing e c c' t with
  | zero => simp [Grammar.eval] at h
  | succ f ih =>
    have bind_reaches : ∀ {r k}, Outcome.bind r k = some (.ok c' t) →
        (∀ {c₁ t₁}, r = some (.ok c₁ t₁) → c.Reaches c₁) →
        (∀ {c₁ c₂ t₂}, c.Reaches c₁ → k c₁ = some (.ok c₂ t₂) → c₁.Reaches c₂) →
        c.Reaches c' := by
      intro r k h hr hk
      obtain ⟨c₁, t₁, t₂, h₁, h₂, -⟩ := Outcome.bind_eq_ok h
      exact (hr h₁).trans (hk (hr h₁) h₂)
    have done : ∀ {c₁ c₂ : Cursor} {u t₂ : List (Token A)},
        (some (Outcome.ok c₁ u) : Option (Outcome A)) = some (.ok c₂ t₂) → c₁.Reaches c₂ := by
      intro c₁ c₂ u t₂ h; cases h; exact .refl _
    cases e with
    | seq a b => exact bind_reaches h ih (fun _ => ih)
    | alt a b =>
      rcases Outcome.orElse_eq_ok h with h | ⟨-, h⟩ <;> exact ih h
    | star a =>
      simp only [Grammar.eval] at h
      split at h
      · cases h; exact .refl _
      · exact bind_reaches h ih (fun _ => ih)
    | plus a => exact bind_reaches h ih (fun _ => ih)
    | opt a =>
      rcases Outcome.orElse_eq_ok h with h | ⟨-, h⟩
      · exact ih h
      · cases h; exact .refl _
    | not a =>
      simp only [Grammar.eval] at h
      split at h <;> first | (cases h; exact .refl _) | simp at h
    | capture a => exact bind_reaches h ih (fun _ => done)
    | call r => exact bind_reaches h ih (fun _ => done)
    | word s =>
      simp only [Grammar.eval] at h
      split at h
      · next ds hm =>
        cases h
        obtain ⟨w, hw, hl⟩ := matchWord_split hm
        exact ⟨w, hw, by rw [hl]; rfl⟩
      · simp at h
    | char | range | irange | any =>
      simp only [Grammar.eval] at h
      split at h
      · next d ds hc =>
        split at h
        · cases h; exact ⟨[d], hc, rfl⟩
        · simp at h
      · simp at h

theorem eval_capture_ok {f : Nat} {a : Peg R} {c c' : Cursor} {t : List (Token A)}
    (h : g.eval f (.capture a) c = some (.ok c' t)) :
    ∃ f' ta, f = f' + 1 ∧ g.eval f' a c = some (.ok c' ta) ∧ t = ta ++ [.text c.pos c'.pos] := by
  match f, h with
  | f' + 1, h =>
    obtain ⟨c₁, t₁, t₂, h₁, h₂, rfl⟩ := Outcome.bind_eq_ok h
    cases h₂
    exact ⟨f', t₁, rfl, h₁, rfl⟩

theorem eval_call_ok {f : Nat} {r : R} {c c' : Cursor} {t : List (Token A)}
    (h : g.eval f (.call r) c = some (.ok c' t)) :
    ∃ f' tb, f = f' + 1 ∧ g.eval f' (g.body r) c = some (.ok c' tb) ∧
      t = tb ++ (g.action r).toList.map .action := by
  match f, h with
  | f' + 1, h =>
    obtain ⟨c₁, t₁, t₂, h₁, h₂, rfl⟩ := Outcome.bind_eq_ok h
    cases h₂
    exact ⟨f', t₁, rfl, h₁, rfl⟩

/-- `e` run at `c` returns `o` once it is given enough fuel. -/
def Returns (e : Peg R) (c : Cursor) (o : Outcome A) : Prop := ∃ f, g.eval f e c = some o

section Returns

variable {g} {a b : Peg R} {c c' : Cursor} {o : Outcome A} {t : List (Token A)}

theorem Returns.both {e e' : Peg R} {c₁ c₂ : Cursor} {o₁ o₂ : Outcome A}
    (h₁ : g.Returns e c₁ o₁) (h₂ : g.Returns e' c₂ o₂) :
    ∃ f, g.eval f e c₁ = some o₁ ∧ g.eval f e' c₂ = some o₂ := by
  obtain ⟨f₁, h₁⟩ := h₁
  obtain ⟨f₂, h₂⟩ := h₂
  exact ⟨max f₁ f₂, g.eval_mono h₁ (le_max_left _ _), g.eval_mono h₂ (le_max_right _ _)⟩

theorem Returns.seq (ha : g.Returns a c (.ok c' t)) (hb : g.Returns b c' o) :
    g.Returns (.seq a b) c (o.prepend t) := by
  obtain ⟨f, h₁, h₂⟩ := ha.both hb
  exact ⟨f + 1, by simp only [Grammar.eval, h₁, h₂, Outcome.bind_ok, Option.map_some']⟩

theorem Returns.seq_fail (ha : g.Returns a c .fail) : g.Returns (.seq a b) c .fail := by
  obtain ⟨f, h⟩ := ha
  exact ⟨f + 1, by simp only [Grammar.eval, h, Outcome.bind_fail]⟩

theorem Returns.alt_ok (ha : g.Returns a c (.ok c' t)) : g.Returns (.alt a b) c (.ok c' t) := by
  obtain ⟨f, h⟩ := ha
  exact ⟨f + 1, by simp only [Grammar.eval, h, Outcome.orElse_ok]⟩

theorem Returns.alt_fail (ha : g.Returns a c .fail) (hb : g.Returns b c o) :
    g.Returns (.alt a b) c o := by
  obtain ⟨f, h₁, h₂⟩ := ha.both hb
  exact ⟨f + 1, by simp only [Grammar.eval, h₁, h₂, Outcome.orElse_fail]⟩

theorem Returns.star_fail (ha : g.Returns a c .fail) : g.Returns (.star a) c (.ok c []) := by
  obtain ⟨f, h⟩ := ha
  exact ⟨f + 1, by simp only [Grammar.eval, h]⟩

theorem Returns.star_ok (ha : g.Returns a c (.ok c' t)) (hs : g.Returns (.star a) c' o) :
    g.Returns (.star a) c (o.prepend t) := by
  obtain ⟨f, h₁, h₂⟩ := ha.both hs
  exact ⟨f + 1, by simp only [Grammar.eval, h₁, h₂, Outcome.bind_ok, Option.map_some']⟩

theorem Returns.not_ok (ha : g.Returns a c (.ok c' t)) : g.Returns (.not a) c .fail := by
  obtain ⟨f, h⟩ := ha
  exact ⟨f + 1, by simp only [Grammar.eval, h]⟩

theorem Returns.not_fail (ha : g.Returns a c .fail) : g.Returns (.not a) c (.ok c []) := by
  obtain ⟨f, h⟩ := ha
  exact ⟨f + 1, by simp only [Grammar.eval, h]⟩

theorem Returns.capture (ha : g.Returns a c (.ok c' t)) :
    g.Returns (.capture a) c (.ok c' (t ++ [.text c.pos c'.pos])) := by
  obtain ⟨f, h⟩ := ha
  exact ⟨f + 1, by simp only [Grammar.eval, h, Outcome.bind_ok, Option.map_some']; rfl⟩

theorem Returns.call {r : R} (hb : g.Returns (g.body r) c (.ok c' t)) :
    g.Returns (.call r) c (.ok c' (t ++ (g.action r).toList.map .action)) := by
  obtain ⟨f, h⟩ := hb
  exact ⟨f + 1, by simp only [Grammar.eval, h, Outcome.bind_ok, Option.map_some']; rfl⟩

theorem Returns.word {s : String} {ds : List Char} (hm : matchWord s.toList c.rest = some ds) :
    g.Returns (.word s) c (.ok ⟨c.pos + s.length, ds⟩ []) :=
  ⟨1, by simp only [Grammar.eval, hm]⟩

theorem Returns.word_fail {s : String} (hm : matchWord s.toList c.rest = none) :
    g.Returns (.word s) c .fail :=
  ⟨1, by simp only [Grammar.eval, hm]⟩

theorem Returns.char {x : Char} {p : Nat} {ds : List Char} :
    g.Returns (.char x) ⟨p, x :: ds⟩ (.ok ⟨p + 1, ds⟩ []) :=
  ⟨1, by simp [Grammar.eval, Peg.accepts]⟩

theorem Returns.any {d : Char} {p : Nat} {ds : List Char} :
    g.Returns .any ⟨p, d :: ds⟩ (.ok ⟨p + 1, ds⟩ []) :=
  ⟨1, by simp [Grammar.eval, Peg.accepts]⟩

theorem Returns.opt_ok (ha : g.Returns a c (.ok c' t)) : g.Returns (.opt a) c (.ok c' t) := by
  obtain ⟨f, h⟩ := ha
  exact ⟨f + 1, by simp only [Grammar.eval, h, Outcome.orElse_ok]⟩

theorem Returns.opt_fail (ha : g.Returns a c .fail) : g.Returns (.opt a) c (.ok c []) := by
  obtain ⟨f, h⟩ := ha
  exact ⟨f + 1, by simp only [Grammar.eval, h, Outcome.orElse_fail]⟩

theorem Returns.plus (ha : g.Returns a c (.ok c' t)) (hs : g.Returns (.star a) c' o) :
    g.Returns (.plus a) c (o.prepend t) := by
  obtain ⟨f, h₁, h₂⟩ := ha.both hs
  exact ⟨f + 1, by simp only [Grammar.eval, h₁, h₂, Outcome.bind_ok, Option.map_some']⟩

theorem Returns.plus_fail (ha : g.Returns a c .fail) : g.Returns (.plus a) c .fail := by
  obtain ⟨f, h⟩ := ha
  exact ⟨f + 1, by simp only [Grammar.eval, h, Outcome.bind_fail]⟩

theorem Returns.capture_fail (ha : g.Returns a c .fail) : g.Returns (.capture a) c .fail := by
  obtain ⟨f, h⟩ := ha
  exact ⟨f + 1, by simp only [Grammar.eval, h, Outcome.bind_fail]⟩

theorem Returns.call_fail {r : R} (hb : g.Returns (g.body r) c .fail) :
    g.Returns (.call r) c .fail := by
  obtain ⟨f, h⟩ := hb
  exact ⟨f + 1, by simp only [Grammar.eval, h, Outcome.bind_fail]⟩

theorem eval_rune {e : Peg R} (he : e.isRune = true) (f : Nat) (c : Cursor) :
    g.eval (f + 1) e c = some (match c.rest with
      | d :: ds => if e.accepts d then .ok ⟨c.pos + 1, ds⟩ [] else .fail
      | [] => .fail) := by
  cases e <;> first | rfl | cases he

theorem Returns.rune {e : Peg R} (he : e.isRune = true) {d : Char} {p : Nat} {ds : List Char}
    (ha : e.accepts d = true) : g.Returns e ⟨p, d :: ds⟩ (.ok ⟨p + 1, ds⟩ []) :=
  ⟨1, by rw [eval_rune he]; simp only [ha, if_true]⟩

theorem Returns.rune_fail {e : Peg R} (he : e.isRune = true) {d : Char} {p : Nat}
    {ds : List Char} (ha : e.accepts d = false) : g.Returns e ⟨p, d :: ds⟩ .fail :=
  ⟨1, by rw [eval_rune he]; simp only [ha, Bool.false_eq_true, if_false]⟩

theorem Returns.rune_nil {e : Peg R} (he : e.isRune = true) {p : Nat} :
    g.Returns e ⟨p, []⟩ .fail :=
  ⟨1, by rw [eval_rune he]⟩

theorem Returns.class_cons {e : Peg R} (he : e.isClass = true) {d : Char} {p : Nat}
    {ds : List Char} :
    g.Returns e ⟨p, d :: ds⟩ (if e.classAccepts d then .ok ⟨p + 1, ds⟩ [] else .fail) := by
  induction e with
  | alt a b iha ihb =>
    simp only [Peg.isClass, Bool.and_eq_true] at he
    obtain ⟨f, h₁, h₂⟩ := (iha he.1).both (ihb he.2)
    refine ⟨f + 1, ?_⟩
    simp only [Grammar.eval, h₁, h₂, Peg.classAccepts]
    by_cases ha : a.classAccepts d <;> simp [ha, Outcome.orElse]
  | _ => exact ⟨1, by rw [eval_rune he]; rfl⟩

theorem Returns.class_nil {e : Peg R} (he : e.isClass = true) {p : Nat} :
    g.Returns e ⟨p, []⟩ .fail := by
  induction e with
  | alt a b iha ihb =>
    simp only [Peg.isClass, Bool.and_eq_true] at he
    exact (iha he.1).alt_fail (ihb he.2)
  | _ => exact .rune_nil he

theorem Returns.star_class {a : Peg R} (ha : a.isClass = true) (p : Nat) (r : List Char) :
    g.Returns (.star a) ⟨p, r⟩ (.ok ⟨p + (r.takeWhile a.classAccepts).length,
      r.drop (r.takeWhile a.classAccepts).length⟩ []) := by
  induction r generalizing p with
  | nil => exact .star_fail (.class_nil ha)
  | cons d r ih =>
    have h : g.Returns a ⟨p, d :: r⟩ _ := .class_cons ha
    cases hd : a.classAccepts d
    · rw [hd] at h
      simpa [hd] using h.star_fail
    · rw [hd, if_pos rfl] at h
      rw [List.takeWhile_cons_of_pos (by rw [hd]), List.length_cons,
        show p + (_ + 1) = p + 1 + (r.takeWhile a.classAccepts).length by omega]
      exact h.star_ok (ih (p + 1))

/-- What a match returns at some fuel it returns at every fuel that does not run out. -/
theorem Returns.eval_eq {e : Peg R} {f : Nat} (h : g.Returns e c o) (hf : g.eval f e c ≠ none) :
    g.eval f e c = some o := by
  obtain ⟨f', h'⟩ := h
  rcases le_total f' f with hle | hle
  · exact g.eval_mono h' hle
  · obtain ⟨o', ho'⟩ := Option.ne_none_iff_exists'.mp hf
    rw [ho', ← h', g.eval_mono ho' hle]

theorem Returns.succ {e : Peg R} (h : g.Returns e c o) : ∃ f, g.eval (f + 1) e c = some o := by
  obtain ⟨_ | f, h⟩ := h
  · cases h
  · exact ⟨f, h⟩

theorem Returns.seq_inv {c'' : Cursor} (h : g.Returns (.seq a b) c (.ok c'' t)) :
    ∃ c' t₁ t₂, g.Returns a c (.ok c' t₁) ∧ g.Returns b c' (.ok c'' t₂) ∧ t = t₁ ++ t₂ := by
  obtain ⟨f, h⟩ := h.succ
  obtain ⟨c', t₁, t₂, h₁, h₂, rfl⟩ := Outcome.bind_eq_ok h
  exact ⟨c', t₁, t₂, ⟨f, h₁⟩, ⟨f, h₂⟩, rfl⟩

theorem Returns.alt_inv (h : g.Returns (.alt a b) c (.ok c' t)) :
    g.Returns a c (.ok c' t) ∨ (g.Returns a c .fail ∧ g.Returns b c (.ok c' t)) := by
  obtain ⟨f, h⟩ := h.succ
  rcases Outcome.orElse_eq_ok h with h | ⟨h₁, h₂⟩
  exacts [.inl ⟨f, h⟩, .inr ⟨⟨f, h₁⟩, ⟨f, h₂⟩⟩]

theorem Returns.not_inv (h : g.Returns (.not a) c (.ok c' t)) : g.Returns a c .fail ∧ c' = c := by
  obtain ⟨f, h⟩ := h.succ
  simp only [Grammar.eval] at h
  split at h
  · next ha => cases h; exact ⟨⟨f, ha⟩, rfl⟩
  all_goals cases h

theorem Returns.capture_inv (h : g.Returns (.capture a) c (.ok c' t)) :
    ∃ ta, g.Returns a c (.ok c' ta) ∧ t = ta ++ [.text c.pos c'.pos] := by
  obtain ⟨f, h⟩ := h
  obtain ⟨f', ta, -, ha, rfl⟩ := g.eval_capture_ok h
  exact ⟨ta, ⟨f', ha⟩, rfl⟩

theorem Returns.call_inv {r : R} (h : g.Returns (.call r) c (.ok c' t)) :
    ∃ tb, g.Returns (g.body r) c (.ok c' tb) ∧ t = tb ++ (g.action r).toList.map .action := by
  obtain ⟨f, h⟩ := h
  obtain ⟨f', tb, -, hb, rfl⟩ := g.eval_call_ok h
  exact ⟨tb, ⟨f', hb⟩, rfl⟩

theorem Returns.word_inv {s : String} (h : g.Returns (.word s) c (.ok c' t)) :
    matchWord s.toList c.rest = some c'.rest := by
  obtain ⟨f, h⟩ := h.succ
  simp only [Grammar.eval] at h
  split at h
  · next hm => cases h; exact hm
  · cases h

theorem Returns.word_fail_inv {s : String} (h : g.Returns (.word s) c .fail) :
    matchWord s.toList c.rest = none := by
  obtain ⟨f, h⟩ := h.succ
  simp only [Grammar.eval] at h
  split at h
  · cases h
  · assumption

theorem Returns.char_inv {x : Char} (h : g.Returns (.char x) c (.ok c' t)) :
    c.rest = x :: c'.rest := by
  obtain ⟨f, h⟩ := h.succ
  simp only [Grammar.eval] at h
  split at h
  · next hc =>
    split at h
    · next hx =>
      cases h
      simp only [Peg.accepts, beq_iff_eq] at hx
      rw [hc, hx]
    · cases h
  · cases h

theorem Returns.any_inv (h : g.Returns .any c (.ok c' t)) : ∃ d, c.rest = d :: c'.rest := by
  obtain ⟨f, h⟩ := h.succ
  simp only [Grammar.eval] at h
  split at h
  · next hc =>
    split at h
    · cases h; exact ⟨_, hc⟩
    · cases h
  · cases h

end Returns

/-- Rule `r` matches a prefix of `input`, for some fuel. -/
def Accepts (r : R) (input : List Char) : Prop :=
  ∃ f c t, g.eval f (.call r) ⟨0, input⟩ = some (.ok c t)

def matchesAt (f : Nat) (r : R) (input : List Char) : Bool :=
  match g.eval f (.call r) ⟨0, input⟩ with
  | some (.ok _ _) => true
  | _ => false

theorem accepts_of_matchesAt (f : Nat) {r : R} {input : List Char}
    (h : g.matchesAt f r input = true) : g.Accepts r input := by
  unfold matchesAt at h
  split at h
  · next c t hr => exact ⟨f, c, t, hr⟩
  · contradiction

theorem not_accepts_of_fail (f : Nat) {r : R} {input : List Char}
    (h : g.eval f (.call r) ⟨0, input⟩ = some .fail) : ¬ g.Accepts r input := by
  rintro ⟨f', c, t, h'⟩
  have h₁ := g.eval_mono h (le_max_left f f')
  rw [g.eval_mono h' (le_max_right f f')] at h₁
  cases h₁

end Grammar

end SensorBee
