import SensorBee.Parser.Acceptance

/-!
# String literals

`StringLiteral <- < ['] ("''" / !"'" .)* ['] >` reads a literal between single quotes in which
a quote of the body is written twice. The loop takes a doubled quote as one rune of the body
and stops at the first quote that is not doubled, so the rule reads exactly `quoted s` for one
body `s`, and `stringValue` gives that body back.
-/
namespace SensorBee.Parser

/-- `quote(s)`: `s` with each quote doubled, between two quotes. -/
def quoted (s : List Char) : List Char := quote :: doubleQuotes s ++ [quote]

def stringChar : Peg Rule := .alt (.word ⟨[quote, quote]⟩) (.seq (.not (.word ⟨[quote]⟩)) .any)

theorem body_stringLiteral :
    bqlPeg.body .stringLiteral =
      .capture (.seq (.char quote) (.seq (.star stringChar) (.char quote))) := rfl

theorem toLower_eq_quote {d : Char} : d.toLower = quote ↔ d = quote := by
  refine ⟨fun h => ?_, by rintro rfl; rfl⟩
  unfold Char.toLower at h
  dsimp only at h
  split at h
  · have hv : (d.toNat + 32).isValidChar := by unfold Nat.isValidChar; omega
    have h' := congrArg Char.toNat h
    rw [Char.ofNat, dif_pos hv] at h'
    change d.toNat + 32 = 39 at h'
    omega
  · exact h

theorem foldEq_quote {d : Char} : foldEq quote d = true ↔ d = quote := by
  rw [foldEq, beq_iff_eq, eq_comm, toLower_eq_quote.mpr rfl, toLower_eq_quote]

theorem matchWord_quote {l l' : List Char} : matchWord [quote] l = some l' ↔ l = quote :: l' := by
  cases l <;> simp [matchWord, foldEq_quote]

theorem matchWord_quotes {l l' : List Char} :
    matchWord [quote, quote] l = some l' ↔ l = quote :: quote :: l' := by
  rcases l with _ | ⟨d, _ | ⟨e, l⟩⟩ <;> simp [matchWord, foldEq_quote]

@[simp] theorem doubleQuotes_nil : doubleQuotes [] = [] := rfl

@[simp] theorem doubleQuotes_cons (d : Char) (s : List Char) :
    doubleQuotes (d :: s) =
      if d = quote then quote :: quote :: doubleQuotes s else d :: doubleQuotes s := rfl

theorem doubleQuotes_cons_eq_append (d : Char) (s : List Char) :
    doubleQuotes (d :: s) = doubleQuotes [d] ++ doubleQuotes s := by
  simp only [doubleQuotes_cons, doubleQuotes_nil]; split <;> rfl

theorem undouble_cons {d : Char} (hd : d ≠ quote) (l : List Char) :
    undouble (d :: l) = d :: undouble l := by
  rcases l with _ | ⟨e, l⟩
  · rfl
  · simp [undouble, hd]

theorem undouble_doubleQuotes (s : List Char) : undouble (doubleQuotes s) = s := by
  induction s with
  | nil => rfl
  | cons d s ih =>
    by_cases hd : d = quote
    · subst hd
      rw [doubleQuotes_cons, if_pos rfl, undouble, if_pos ⟨rfl, rfl⟩, ih]
    · simp [hd, undouble_cons hd, ih]

theorem doubleQuotes_injective : Function.Injective doubleQuotes :=
  Function.LeftInverse.injective undouble_doubleQuotes

theorem quoted_append (s r : List Char) :
    quoted s ++ r = quote :: (doubleQuotes s ++ quote :: r) := by
  simp [quoted]

theorem quoted_injective : Function.Injective quoted := by
  intro s₁ s₂ h
  simp only [quoted, List.cons_append, List.cons.injEq, true_and,
    List.append_cancel_right_eq] at h
  exact doubleQuotes_injective h

theorem stringChar_reads (d : Char) (p : Nat) (rest : List Char) :
    bqlPeg.Returns stringChar ⟨p, doubleQuotes [d] ++ rest⟩
      (.ok ⟨p + (doubleQuotes [d]).length, rest⟩ []) := by
  by_cases hd : d = quote
  · subst hd
    exact .alt_ok (.word (matchWord_quotes.mpr rfl))
  · have hm : ∀ w, matchWord (quote :: w) (d :: rest) = none := by
      simp [matchWord, foldEq_quote, hd]
    simp only [doubleQuotes_cons, if_neg hd, doubleQuotes_nil]
    exact .alt_fail (.word_fail (by exact hm _))
      (.seq (.not_fail (.word_fail (by exact hm _))) .any)

theorem stringChar_close {r : List Char} (hr : r.head? ≠ some quote) (p : Nat) :
    bqlPeg.Returns stringChar ⟨p, quote :: r⟩ .fail := by
  refine .alt_fail (.word_fail ?_) (.seq_fail (.not_ok (.word (matchWord_quote.mpr rfl))))
  rcases r with _ | ⟨e, r⟩
  · rfl
  · simpa [matchWord, foldEq_quote] using hr

theorem star_stringChar (s : List Char) {r : List Char} (hr : r.head? ≠ some quote) (p : Nat) :
    bqlPeg.Returns (.star stringChar) ⟨p, doubleQuotes s ++ quote :: r⟩
      (.ok ⟨p + (doubleQuotes s).length, quote :: r⟩ []) := by
  induction s generalizing p with
  | nil => exact .star_fail (stringChar_close hr p)
  | cons d s ih =>
    rw [doubleQuotes_cons_eq_append, List.append_assoc, List.length_append, ← Nat.add_assoc]
    exact (stringChar_reads d p _).star_ok (ih _)

theorem stringChar_inv {c c' : Cursor} {t : List (Token Action)}
    (h : bqlPeg.Returns stringChar c (.ok c' t)) : ∃ d, c.rest = doubleQuotes [d] ++ c'.rest := by
  rcases h.alt_inv with h | ⟨-, h⟩
  · exact ⟨quote, matchWord_quotes.mp h.word_inv⟩
  · obtain ⟨c₁, t₁, t₂, hn, ha, -⟩ := h.seq_inv
    obtain ⟨hq, rfl⟩ := hn.not_inv
    obtain ⟨d, hd⟩ := ha.any_inv
    have hne : d ≠ quote := by
      rintro rfl; simpa [hd, matchWord, foldEq_quote] using hq.word_fail_inv
    exact ⟨d, by simp [hd, hne]⟩

theorem star_stringChar_inv {f : Nat} {c c' : Cursor} {t : List (Token Action)}
    (h : bqlPeg.eval f (.star stringChar) c = some (.ok c' t)) :
    ∃ s, c.rest = doubleQuotes s ++ c'.rest := by
  induction f generalizing c t with
  | zero => cases h
  | succ f ih =>
    simp only [Grammar.eval] at h
    split at h
    · cases h; exact ⟨[], rfl⟩
    · obtain ⟨c₁, t₁, t₂, h₁, h₂, -⟩ := Outcome.bind_eq_ok h
      obtain ⟨d, hd⟩ := stringChar_inv ⟨f, h₁⟩
      obtain ⟨s, hs⟩ := ih h₂
      exact ⟨d :: s, by rw [hd, hs, ← List.append_assoc, ← doubleQuotes_cons_eq_append]⟩

/-- `StringLiteral` reads exactly the quoted text of a body that is not followed by a quote,
and what it reads is the quoted text of one body. -/
theorem stringLiteral_reads_quoted :
    (∀ (s r : List Char) (p : Nat), r.head? ≠ some quote →
      ∃ f, bqlPeg.eval f (.call .stringLiteral) ⟨p, quoted s ++ r⟩ =
        some (.ok ⟨p + (quoted s).length, r⟩
          [.text p (p + (quoted s).length), .action (.pushComponent .stringLiteral)])) ∧
    (∀ (f p : Nat) (input : List Char) (c : Cursor) (t : List (Token Action)),
      bqlPeg.eval f (.call .stringLiteral) ⟨p, input⟩ = some (.ok c t) →
        ∃! s, input = quoted s ++ c.rest) := by
  refine ⟨fun s r p hr => ?_, fun f p input c t h => ?_⟩
  · have e : p + (quoted s).length = p + 1 + (doubleQuotes s).length + 1 := by
      simp [quoted]; omega
    rw [e, quoted_append]
    have hb : bqlPeg.Returns (bqlPeg.body .stringLiteral) _ _ :=
      .capture (.seq .char (.seq (star_stringChar s hr (p + 1)) .char))
    exact hb.call
  · obtain ⟨tb, hb, -⟩ := Grammar.Returns.call_inv ⟨f, h⟩
    obtain ⟨ta, hc, -⟩ := (body_stringLiteral ▸ hb).capture_inv
    obtain ⟨c₁, _, _, h₁, h₂, -⟩ := hc.seq_inv
    obtain ⟨c₂, _, _, ⟨f', h₃⟩, h₄, -⟩ := h₂.seq_inv
    obtain ⟨s, hs⟩ := star_stringChar_inv h₃
    have hin : input = quoted s ++ c.rest := by
      rw [quoted_append, ← h₄.char_inv, ← hs]; exact h₁.char_inv
    exact ⟨s, hin, fun s' hs' => quoted_injective (List.append_cancel_right (hs'.symm.trans hin))⟩

/-- The literal of the body `it's` is read whole, its doubled quote included. -/
theorem stringLiteral_reads_it_s :
    ∃ f, bqlPeg.eval f (.call .stringLiteral) ⟨0, [quote, 'i', 't', quote, quote, 's', quote]⟩ =
      some (.ok ⟨7, []⟩ [.text 0 7, .action (.pushComponent .stringLiteral)]) :=
  stringLiteral_reads_quoted.1 ['i', 't', quote, 's'] [] 0 (by decide)

theorem stringValue_quoted (s : List Char) : stringValue (quoted s) = ⟨s⟩ := by
  simp [stringValue, quoted, undouble_doubleQuotes]

end SensorBee.Parser
