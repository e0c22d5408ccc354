import SensorBee.Parser.Ladder
import SensorBee.Parser.Execution
import SensorBee.Strings

/-!
# Printing an expression and parsing it back

`Expression.render` writes text that `Parse` and `Execute` turn back into the same tree, for every
tree of `Expression.printable`. The proof reads the text rung by rung: each tree at the rung of its
operator (`SelfReads`), then at every looser rung, and inside parentheses when it binds no tighter
than its parent.
-/
namespace SensorBee.Parser

/-- A name that `Ident` reads whole and that `BooleanLiteral`, tried before `FuncApp` and
`ColumnName`, does not take. -/
def isName (n : List Char) : Bool :=
  isIdent n && (matchWord "true".toList n).isNone && (matchWord "false".toList n).isNone

/-- The values of `NumericLiteral`, a 64-bit integer. -/
def fitsInt64 (v : Int) : Bool := -2 ^ 63 ≤ v && v < 2 ^ 63

mutual
/-- The trees whose printed text the grammar reads back. -/
def Expression.printable : Expression → Bool
  | .binaryOp _ l r => l.printable && r.printable
  | .funcApp f es => isName f.toList && !es.isEmpty && Expression.printableAll es
  | .columnName n => isName n.toList
  | .floatLiteral t => isFloatText t.toList
  | .numericLiteral v => fitsInt64 v
  | .stringLiteral _ | .boolLiteral _ | .wildcard => true

def Expression.printableAll : List Expression → Bool
  | [] => true
  | e :: es => e.printable && Expression.printableAll es
end

def Expression.rung : Expression → Nat
  | .binaryOp op _ _ => op.level
  | _ => 5

theorem Expression.rung_cases (e : Expression) :
    (∃ op l r, e = .binaryOp op l r) ∨ e.rung = 5 := by
  cases e with
  | binaryOp op l r => exact .inl ⟨op, l, r, rfl⟩
  | _ => exact .inr rfl

theorem Expression.rung_le (e : Expression) : e.rung ≤ 5 := by
  cases e with
  | binaryOp op => exact op.level_lt.le
  | _ => exact le_rfl

theorem renderIn_binaryOp (op : Operator) (l r : Expression) :
    ((Expression.binaryOp op l r).renderIn none).toList =
      (l.renderIn (some op)).toList ++
        ' ' :: (op.text.toList ++ ' ' :: (r.renderIn (some op)).toList) := by
  simp [Expression.renderIn]

theorem renderIn_some_paren {p op : Operator} (l r : Expression) (h : op.level ≤ p.level) :
    ((Expression.binaryOp op l r).renderIn (some p)).toList =
      '(' :: (((Expression.binaryOp op l r).renderIn none).toList ++ [')']) := by
  simp [Expression.renderIn, h]

theorem renderIn_some_plain {p op : Operator} (l r : Expression) (h : p.level < op.level) :
    (Expression.binaryOp op l r).renderIn (some p) =
      (Expression.binaryOp op l r).renderIn none := by
  simp [Expression.renderIn, Nat.not_le.mpr h]

theorem renderIn_some_atom {e : Expression} (he : e.rung = 5) (p : Operator) :
    e.renderIn (some p) = e.renderIn none := by
  cases e with
  | binaryOp op => exact absurd he (Nat.ne_of_lt op.level_lt)
  | _ => rfl

theorem isIdent_head {n : List Char} (h : isIdent n = true) :
    ∃ d ds, n = d :: ds ∧ 65 ≤ d.toNat ∧ Rule.identTail.classAccepts d = true := by
  obtain _ | ⟨d, ds⟩ := n
  · cases h
  · simp only [isIdent, Bool.and_eq_true] at h
    refine ⟨d, ds, rfl, ?_, by simp [Rule.identTail, Peg.alts, Peg.classAccepts, h.1]⟩
    have h₁ := h.1
    simp only [Peg.accepts, Bool.or_eq_true, Bool.and_eq_true, decide_eq_true_eq] at h₁
    rcases h₁ with ⟨h₂, -⟩ | ⟨h₂, -⟩
    · have : 97 ≤ d.toNat := h₂
      omega
    · have : 65 ≤ d.toNat := h₂
      omega

theorem isName_isIdent {n : List Char} (h : isName n = true) : isIdent n = true := by
  simp only [isName, Bool.and_eq_true] at h
  exact h.1.1

theorem matchWord_append_none {w n r : List Char} (h : matchWord w n = none)
    (hr : ∀ d ∈ r.head?, ∀ x ∈ w, foldEq x d = false) : matchWord w (n ++ r) = none := by
  induction w generalizing n with
  | nil => cases h
  | cons x w ih =>
    rcases n with _ | ⟨d, n⟩
    · exact matchWord_cons_none fun d hd => hr d hd x (List.mem_cons_self _ _)
    · by_cases hx : foldEq x d = true
      · simp only [matchWord, hx, if_true, List.cons_append] at h ⊢
        exact ih h fun d hd y hy => hr d hd y (List.mem_cons_of_mem _ hy)
      · simp [matchWord, hx]

theorem name_not_boolean {n r : List Char} (hn : isName n = true)
    (hr : ∀ d ∈ r.head?, d.toNat < 65) :
    matchWord "true".toList (n ++ r) = none ∧ matchWord "false".toList (n ++ r) = none := by
  simp only [isName, Bool.and_eq_true, Option.isNone_iff_eq_none] at hn
  have hlow : ∀ w : List Char, (∀ x ∈ w, 65 ≤ x.toLower.toNat) →
      ∀ d ∈ r.head?, ∀ x ∈ w, foldEq x d = false :=
    fun w hw d hd x hx => foldEq_of_lt (hr d hd) (hw x hx)
  exact ⟨matchWord_append_none hn.1.2 (hlow _ (by decide)),
    matchWord_append_none hn.2 (hlow _ (by decide))⟩

theorem renderIn_head : ∀ (e : Expression), e.printable = true → ∀ parent,
    ∃ d ds, (e.renderIn parent).toList = d :: ds ∧ 32 < d.toNat
  | .binaryOp op l r, h, parent => by
    obtain ⟨d, ds, hl, hd⟩ := renderIn_head l ((Bool.and_eq_true _ _).mp h).1 (some op)
    have hs : ∃ ds', ((Expression.binaryOp op l r).renderIn none).toList = d :: ds' :=
      ⟨_, by rw [renderIn_binaryOp, hl]; rfl⟩
    rcases parent with _ | p
    · exact ⟨d, hs.choose, hs.choose_spec, hd⟩
    · by_cases hp : op.level ≤ p.level
      · exact ⟨'(', _, renderIn_some_paren l r hp, by decide⟩
      · rw [renderIn_some_plain l r (Nat.lt_of_not_le hp)]
        exact ⟨d, hs.choose, hs.choose_spec, hd⟩
  | .funcApp f es, h, _ => by
    simp only [Expression.printable, Bool.and_eq_true] at h
    obtain ⟨d, ds, hf, hd, -⟩ := isIdent_head (isName_isIdent h.1.1)
    exact ⟨d, _, show f.toList ++ _ ++ _ ++ _ = _ by rw [hf]; rfl, by omega⟩
  | .columnName n, h, _ => by
    obtain ⟨d, ds, hn, hd, -⟩ := isIdent_head (isName_isIdent h)
    exact ⟨d, ds, hn, by omega⟩
  | .numericLiteral v, _, _ => by
    obtain ⟨s, l, hv, hs, hl, -⟩ := toString_int v
    obtain ⟨d, ds, rfl, hd⟩ := isDigits_head hl
    have := (digit_toNat hd).1
    rcases hs with rfl | rfl
    · exact ⟨d, ds, hv, by omega⟩
    · exact ⟨'-', _, hv, by decide⟩
  | .floatLiteral t, h, _ => by
    obtain ⟨s, a, b, ht, hs, ha, -⟩ := isFloatText_split h
    obtain ⟨d, ds, rfl, hd⟩ := isDigits_head ha
    have := (digit_toNat hd).1
    rcases hs with rfl | rfl
    · exact ⟨d, _, show t.toList = _ by rw [ht]; rfl, by omega⟩
    · exact ⟨'-', _, show t.toList = _ by rw [ht]; rfl, by decide⟩
  | .stringLiteral _, _, _ => ⟨quote, _, rfl, by decide⟩
  | .boolLiteral b, _, _ => by cases b <;> exact ⟨_, _, rfl, by decide⟩
  | .wildcard, _, _ => ⟨'*', [], rfl, by decide⟩

def commaTail (xs : List (List Char × Component)) : List Char :=
  (xs.map fun x => ',' :: ' ' :: x.1).flatten

def exprItems (es : List Expression) : List (List Char × Component) :=
  es.map fun e => ((e.renderIn none).toList, .expr e)

def argsTail (es : List Expression) : List Char := commaTail (exprItems es)

@[simp] theorem commaTail_nil : commaTail [] = [] := rfl

theorem commaTail_cons (x : List Char × Component) (xs : List (List Char × Component)) :
    commaTail (x :: xs) = ',' :: ' ' :: (x.1 ++ commaTail xs) := rfl

@[simp] theorem length_commaTail_cons (x : List Char × Component)
    (xs : List (List Char × Component)) :
    (commaTail (x :: xs)).length = (commaTail xs).length + x.1.length + 2 := by
  simp [commaTail_cons]; omega

@[simp] theorem exprItems_nil : exprItems [] = [] := rfl

@[simp] theorem exprItems_cons (e : Expression) (es : List Expression) :
    exprItems (e :: es) = ((e.renderIn none).toList, .expr e) :: exprItems es := rfl

@[simp] theorem exprItems_snd (es : List Expression) :
    (exprItems es).map Prod.snd = es.map .expr := by
  simp [exprItems]

theorem renderAll_eq_map : ∀ es : List Expression,
    Expression.renderAll es = es.map (·.renderIn none)
  | [] => rfl
  | _ :: es => congrArg _ (renderAll_eq_map es)

theorem renderIn_funcApp (f : String) (e : Expression) (es : List Expression) :
    ((Expression.funcApp f (e :: es)).renderIn none).toList =
      f.toList ++ '(' :: ((e.renderIn none).toList ++ (argsTail es ++ [')'])) := by
  simp [Expression.renderIn, Expression.renderAll, renderAll_eq_map, String.intercalate,
    intercalate_go_data, argsTail, commaTail, exprItems, Function.comp_def]

section Base

variable {buffer : List Char} {p : Nat} {c' : Cursor} {o : List ParsedComponent}

theorem char_fail_head {x : Char} {r : List Char} (h : ∀ d ∈ r.head?, d ≠ x) (q : Nat) :
    bqlPeg.Returns (.char x) ⟨q, r⟩ .fail := by
  rcases r with _ | ⟨d, r⟩
  · exact .rune_nil (by rfl)
  · exact .rune_fail (by rfl) (by simpa [Peg.accepts] using h d rfl)

theorem booleanLiteral_fail {c : Cursor} (h₁ : matchWord "true".toList c.rest = none)
    (h₂ : matchWord "false".toList c.rest = none) :
    bqlPeg.Returns (.call .booleanLiteral) c .fail :=
  .call_fail (.alt_fail (.call_fail (.capture_fail (.word_fail h₁)))
    (.call_fail (.capture_fail (.word_fail h₂))))

theorem ident_fail {d : Char} {ds : List Char}
    (hd : (Peg.irange 'a' 'z' : Peg Rule).accepts d = false) (q : Nat) :
    bqlPeg.Returns (.call .ident) ⟨q, d :: ds⟩ .fail :=
  .call_fail (.seq_fail (.rune_fail (by rfl) hd))

theorem baseExpr_low {d : Char} {ds : List Char} (hd : d.toNat < 65) (hp : d ≠ '(')
    (h : Reads buffer (.alt (.call .wildcard) (.call .literal)) ⟨p, d :: ds⟩ c' o) :
    Reads buffer (.call .baseExpr) ⟨p, d :: ds⟩ c' o := by
  have hw : ∀ w : List Char, (∀ x ∈ w.head?, 65 ≤ x.toLower.toNat) → w ≠ [] →
      matchWord w (d :: ds) = none := by
    rintro (_ | ⟨x, w⟩) hx hne
    · exact absurd rfl hne
    · exact matchWord_cons_none fun d' hd' => by
        cases hd'; exact foldEq_of_lt hd (hx x rfl)
  have hi : bqlPeg.Returns (.call .ident) ⟨p, d :: ds⟩ .fail := ident_fail (irange_of_lt hd) p
  exact .call rfl (.alt_fail (.seq_fail (char_fail_head (by simpa using hp) p))
    (.alt_fail (booleanLiteral_fail (hw _ (by decide) (by decide)) (hw _ (by decide) (by decide)))
      (.alt_fail (.call_fail (.seq_fail (.call_fail (.capture_fail hi))))
        (.alt_fail (.call_fail (.capture_fail hi)) h))))

theorem baseExpr_columnName {n r : List Char} (hn : isName n = true) (hr : Ends 6 r = true)
    (hbuf : buffer.drop p = n ++ r) :
    Reads buffer (.call .baseExpr) ⟨p, n ++ r⟩ ⟨p + n.length, r⟩
      [⟨p, p + n.length, .expr (.columnName ⟨n⟩)⟩] := by
  obtain ⟨d, ds, rfl, hd, -⟩ := isIdent_head (isName_isIdent hn)
  have hdel : ∀ d ∈ r.head?, Rule.identTail.classAccepts d = false ∧ d.toNat < 65 :=
    fun d hd => ⟨(delim_stops (Ends.delim hr d hd)).1, (delim_stops (Ends.delim hr d hd)).2.2.2.2⟩
  have hid := ident_reads (isName_isIdent hn) (fun d hd => (hdel d hd).1) p
  have hb := name_not_boolean hn fun d hd => (hdel d hd).2
  have hfun : bqlPeg.Returns (.call .funcApp) ⟨p, d :: ds ++ r⟩ .fail :=
    .call_fail ((Grammar.Returns.call (Grammar.Returns.capture hid)).seq
      ((sp_returns _ r).seq (Grammar.Returns.seq_fail
        (char_fail_head (fun d hd => (Ends.stop hr d hd).1) _))))
  refine .call rfl (.alt_fail (.seq_fail (char_fail_head ?_ p))
    (.alt_fail (booleanLiteral_fail hb.1 hb.2) (.alt_fail hfun (.alt_ok
      (.push rfl rfl (.nil hid) ?_)))))
  · rintro d' hd' rfl
    cases hd'
    exact absurd hd (by decide)
  · rw [substr_of_drop hbuf]; rfl


theorem literal_readsExpr {w r : List Char} {x : Expression}
    (hw : ∃ d ds, w ++ r = d :: ds ∧ d.toNat < 65 ∧ d ≠ '(' ∧ d ≠ '*') (hpos : 0 < w.length)
    (h : Reads buffer (.call .literal) ⟨p, w ++ r⟩ ⟨p + w.length, r⟩ [⟨p, p + w.length, .expr x⟩]) :
    ReadsExpr buffer (ladder 5) p w r x := by
  obtain ⟨d, ds, hwr, hd, hp, hs⟩ := hw
  refine ⟨0, Nat.zero_le _, p, p + w.length, by omega, ?_⟩
  rw [hwr] at h ⊢
  exact baseExpr_low hd hp
    (.alt_fail (.call_fail (.capture_fail (char_fail_head (by simpa using hs) p))) h)

theorem signed_head {s l : List Char} (hs : s = [] ∨ s = ['-']) (hl : isDigits l = true)
    (r : List Char) : ∃ d ds, s ++ l ++ r = d :: ds ∧ d.toNat < 65 ∧ d ≠ '(' ∧ d ≠ '*' := by
  obtain ⟨d, ds, rfl, hd⟩ := isDigits_head hl
  have h := digit_toNat hd
  have hne : ∀ x : Char, x.toNat < 48 → d ≠ x := fun x hx h' => by subst h'; omega
  rcases hs with rfl | rfl
  · exact ⟨d, _, rfl, by omega, hne _ (by decide), hne _ (by decide)⟩
  · exact ⟨'-', _, rfl, by decide, by decide, by decide⟩

theorem ends_close (r : List Char) : Ends 0 (')' :: r) = true := rfl

theorem ends_comma (r : List Char) : Ends 0 (',' :: r) = true := rfl

theorem ends_before_op (op : Operator) (y : List Char) :
    Ends (op.level + 1) (' ' :: (op.text.toList ++ y)) = true := by
  cases op <;> rfl

theorem paren_readsExpr {w r : List Char} {e : Expression}
    (hw : ∀ d ∈ (w ++ ')' :: r).head?, spChar.classAccepts d = false)
    (h : ReadsExpr buffer (ladder 0) (p + 1) w (')' :: r) e) :
    ReadsExpr buffer (ladder 5) p ('(' :: (w ++ [')'])) r e := by
  obtain ⟨n, hn, b, e', hbe, hx⟩ := h
  have h₀ : spaces (')' :: r) = 0 := (spaces_of_head fun d hd => by cases hd; rfl).1
  obtain rfl : n = 0 := by omega
  have hX : Reads buffer (.seqs (.char '(') [Rule.sp', .call .expression, Rule.sp', .char ')'])
      ⟨p, '(' :: (w ++ ')' :: r)⟩ ⟨p + 1 + w.length + 0 + 1, r⟩ _ :=
    (Reads.nil Grammar.Returns.char).seq ((sp_none hw _).seq ((Reads.call (by rfl) hx).seq
      ((sp_none (fun d hd => by cases hd; rfl) _).seq (Reads.nil Grammar.Returns.char))))
  refine ⟨0, Nat.zero_le _, b, e', hbe, ?_⟩
  rw [show ('(' :: (w ++ [')'])) ++ r = '(' :: (w ++ ')' :: r) by simp,
    show p + ('(' :: (w ++ [')'])).length + 0 = p + 1 + w.length + 0 + 1 by simp; omega]
  exact .call rfl (.alt_ok hX)

end Base

/-- What the item rule of a comma-separated list does with the text `w` of one item: the text
starts with a rune that is no space, and the rule reads it before any remainder that ends rung
0, with some of the spaces after it, leaving one fragment of positive length. -/
structure ItemReads (buffer : List Char) (item : Rule) (w : List Char) (x : Component) : Prop where
  head : ∃ d ds, w = d :: ds ∧ spChar.classAccepts d = false
  reads : ∀ p r, Ends 0 r = true → buffer.drop p = w ++ r →
    ∃ n ≤ spaces r, ∃ b e, b < e ∧
      Reads buffer (.call item) ⟨p, w ++ r⟩ ⟨p + w.length + n, r.drop n⟩ [⟨b, e, x⟩]

section Lists

variable {buffer : List Char} {item : Rule} {p : Nat}

theorem noComma_drop {r : List Char} {n : Nat} (hn : n ≤ spaces r)
    (hc : ∀ d ∈ (dropSpaces r).head?, d ≠ ',') : ∀ d ∈ (r.drop n).head?, d ≠ ',' := by
  intro d hd
  rcases head_drop_of_le_spaces hn d hd with h | h
  · rintro rfl
    exact absurd h (by decide)
  · exact hc d h

theorem spaces_commaTail_cons (i : List Char × Component) (is : List (List Char × Component))
    (r : List Char) : spaces (commaTail (i :: is) ++ r) = 0 ∧
      dropSpaces (commaTail (i :: is) ++ r) = commaTail (i :: is) ++ r :=
  spaces_of_head fun d hd => by cases hd; rfl

theorem ends_commaTail {xs : List (List Char × Component)} {r : List Char}
    (hr : Ends 0 r = true) : Ends 0 (commaTail xs ++ r) = true := by
  cases xs with
  | nil => exact hr
  | cons x xs => exact ends_comma _

theorem commaItem_reads {w R : List Char} {x : Component} (hi : ItemReads buffer item w x)
    (hR : Ends 0 R = true) (hbuf : buffer.drop p = ',' :: ' ' :: (w ++ R)) :
    ∃ n ≤ spaces R, ∃ b e, b < e ∧ Reads buffer (.seqs (.char ',') [Rule.sp', .call item])
      ⟨p, ',' :: ' ' :: (w ++ R)⟩ ⟨p + 2 + w.length + n, R.drop n⟩ [⟨b, e, x⟩] := by
  obtain ⟨⟨d, ds, rfl, hd⟩, hread⟩ := hi
  obtain ⟨n, hn, b, e, hbe, h⟩ := hread (p + 2) R hR
    (drop_of_drop (show buffer.drop p = [',', ' '] ++ (d :: ds ++ R) from hbuf))
  exact ⟨n, hn, b, e, hbe, (Reads.nil Grammar.Returns.char).seq
    ((sp_one (fun d' h => by cases h; exact hd) (p + 1)).seq h)⟩

theorem commaTail_reads : ∀ (xs : List (List Char × Component)),
    (∀ i ∈ xs, ItemReads buffer item i.1 i.2) → ∀ (p : Nat) (r : List Char), Ends 0 r = true →
    (∀ d ∈ (dropSpaces r).head?, d ≠ ',') → buffer.drop p = commaTail xs ++ r →
    ∃ n ≤ spaces r, ∃ o, Reads buffer (.star (.seqs (.char ',') [Rule.sp', .call item]))
        ⟨p, commaTail xs ++ r⟩ ⟨p + (commaTail xs).length + n, r.drop n⟩ o ∧
      o.reverse.map (·.comp) = xs.map Prod.snd ∧ ∀ y ∈ o, y.begin < y.end
  | [], _, p, r, _, hc, _ =>
    ⟨0, Nat.zero_le _, [],
      .star_stop (.seq_fail (char_fail_head (noComma_drop (Nat.zero_le _) hc) p)),
      rfl, fun _ h => absurd h (List.not_mem_nil _)⟩
  | [(w, x)], hxs, p, r, hr, hc, hbuf => by
    obtain ⟨n, hn, b, e, hbe, h⟩ := commaItem_reads (hxs _ (List.mem_singleton_self _)) hr
      (by simpa [commaTail_cons] using hbuf)
    refine ⟨n, hn, [⟨b, e, x⟩], ?_, rfl, by simpa using hbe⟩
    have hs := h.star_step (.star_stop (.seq_fail (char_fail_head (noComma_drop hn hc) _)))
    rw [show p + 2 + w.length + n = p + (commaTail [(w, x)]).length + n by simp; omega] at hs
    simpa [commaTail_cons] using hs
  | (w, x) :: v :: vs, hxs, p, r, hr, hc, hbuf => by
    have hbuf' : buffer.drop p = ',' :: ' ' :: (w ++ (commaTail (v :: vs) ++ r)) := by
      simpa [commaTail_cons (w, x)] using hbuf
    obtain ⟨n₁, hn₁, b, e, hbe, h⟩ := commaItem_reads (hxs _ (List.mem_cons_self _ _))
      (ends_commaTail hr) hbuf'
    obtain rfl : n₁ = 0 := Nat.le_zero.mp ((spaces_commaTail_cons v vs r).1 ▸ hn₁)
    have hrest := drop_of_drop (show buffer.drop p = (',' :: ' ' :: w) ++ (commaTail (v :: vs) ++ r)
      by simpa using hbuf')
    rw [show p + (',' :: ' ' :: w).length = p + 2 + w.length by simp; omega] at hrest
    obtain ⟨n, hn, o, ho, hmap, hne⟩ := commaTail_reads (v :: vs)
      (fun i hi => hxs i (List.mem_cons_of_mem _ hi)) (p + 2 + w.length) r hr hc hrest
    refine ⟨n, hn, o ++ [⟨b, e, x⟩], ?_, by simp [hmap], ?_⟩
    · have hs := h.star_step ho
      rw [show p + 2 + w.length + (commaTail (v :: vs)).length + n =
        p + (commaTail ((w, x) :: v :: vs)).length + n by simp; omega] at hs
      rwa [commaTail_cons (w, x), List.cons_append, List.cons_append, List.append_assoc]
    · intro y hy
      rcases List.mem_append.mp hy with hy | hy
      exacts [hne y hy, by rw [List.mem_singleton.mp hy]; exact hbe]

/-- `first sp (',' sp item)*` reads a list printed as its first item, at most one space, and
`, item` for each other one, and leaves one fragment for each item, in order. -/
theorem commaList_reads {w g r : List Char} {x : Component} {xs : List (List Char × Component)}
    (hi : ItemReads buffer item w x) (hxs : ∀ i ∈ xs, ItemReads buffer item i.1 i.2)
    (hg : g = [] ∨ g = [' ']) (hr : Ends 0 r = true) (hc : ∀ d ∈ (dropSpaces r).head?, d ≠ ',')
    (hbuf : buffer.drop p = w ++ (g ++ (commaTail xs ++ r))) :
    ∃ n ≤ spaces r, ∃ o, Reads buffer (Rule.commaList item item)
        ⟨p, w ++ (g ++ (commaTail xs ++ r))⟩
        ⟨p + w.length + g.length + (commaTail xs).length + n, r.drop n⟩ o ∧
      o.reverse.map (·.comp) = x :: xs.map Prod.snd ∧ ∀ y ∈ o, y.begin < y.end := by
  have hsp : spaces (g ++ (commaTail xs ++ r)) = g.length + spaces (commaTail xs ++ r) ∧
      dropSpaces (g ++ (commaTail xs ++ r)) = dropSpaces (commaTail xs ++ r) := by
    rcases hg with rfl | rfl
    · simp
    · simpa [Nat.add_comm] using spaces_cons_space (commaTail xs ++ r)
  have hR : Ends 0 (g ++ (commaTail xs ++ r)) = true := by
    rcases hg with rfl | rfl
    exacts [ends_commaTail hr, Ends.cons_space (ends_commaTail hr)]
  obtain ⟨n₁, hn₁, b, e, hbe, h⟩ := hi.reads p _ hR hbuf
  have hsp₁ :
      Reads buffer (.call .sp) ⟨p + w.length + n₁, (g ++ (commaTail xs ++ r)).drop n₁⟩ _ _ :=
    sp_reads_after hn₁ (p + w.length)
  rw [hsp.1, hsp.2, ← Nat.add_assoc] at hsp₁
  have hbuf₂ : buffer.drop (p + w.length + g.length) = commaTail xs ++ r := by
    have h₂ :=
      drop_of_drop (show buffer.drop p = (w ++ g) ++ (commaTail xs ++ r) by simpa using hbuf)
    rwa [List.length_append, ← Nat.add_assoc] at h₂
  rcases xs with _ | ⟨i, is⟩
  · -- one item: the list stops where the spaces after it end
    have hs : Reads buffer (Rule.commaList item item) ⟨p, w ++ (g ++ (commaTail [] ++ r))⟩
        ⟨p + w.length + g.length + spaces r, dropSpaces r⟩ ([] ++ [] ++ [⟨b, e, x⟩]) :=
      h.seq (hsp₁.seq (.star_stop (.seq_fail (char_fail_head hc _))))
    exact ⟨spaces r, le_rfl, _, hs, rfl, by simpa using hbe⟩
  · rw [(spaces_commaTail_cons i is r).1, (spaces_commaTail_cons i is r).2, Nat.add_zero] at hsp₁
    obtain ⟨n, hn, o, ho, hmap, hne⟩ := commaTail_reads (i :: is) hxs _ r hr hc hbuf₂
    refine ⟨n, hn, _, h.seq (hsp₁.seq ho), by simp [hmap], fun y hy => ?_⟩
    simp only [List.append_nil, List.mem_append, List.mem_singleton] at hy
    rcases hy with hy | rfl
    exacts [hne y hy, hbe]

end Lists

section Trees

variable (buffer : List Char)

/-- At its own rung, the printed text of `e` is read before any remainder that ends the rung
above it. -/
def SelfReads (e : Expression) : Prop :=
  ∀ p r, Ends (e.rung + 1) r = true → buffer.drop p = (e.renderIn none).toList ++ r →
    ReadsExpr buffer (ladder e.rung) p (e.renderIn none).toList r e

def TopReads (e : Expression) : Prop :=
  ∀ p r, Ends 0 r = true → buffer.drop p = (e.renderIn none).toList ++ r →
    ReadsExpr buffer (ladder 0) p (e.renderIn none).toList r e

def OperandReads (e : Expression) : Prop :=
  ∀ (op : Operator) p r, Ends (op.level + 1) r = true →
    buffer.drop p = (e.renderIn (some op)).toList ++ r →
      ReadsExpr buffer (ladder (op.level + 1)) p (e.renderIn (some op)).toList r e

variable {buffer}

theorem columnName_selfReads {n : String} (hn : isName n.toList = true) :
    SelfReads buffer (.columnName n) := fun p r hr hbuf => by
  obtain ⟨d, ds, hd, -⟩ := isIdent_head (isName_isIdent hn)
  exact ⟨0, Nat.zero_le _, p, p + n.toList.length, by rw [hd, List.length_cons]; omega,
    baseExpr_columnName hn hr hbuf⟩

theorem numericLiteral_selfReads (v : Int) : SelfReads buffer (.numericLiteral v) :=
  fun p r hr hbuf => by
  obtain ⟨s, l, hv, hs, hl, hval⟩ := toString_int v
  change ReadsExpr buffer (ladder 5) p (toString v).toList r _
  change buffer.drop p = (toString v).toList ++ r at hbuf
  rw [hv] at hbuf ⊢
  have hlit := numericLiteral_reads hs hl (fun d hd =>
    ⟨(delim_stops (Ends.delim hr d hd)).2.1, (delim_stops (Ends.delim hr d hd)).2.2.1⟩) hbuf
  rw [hval] at hlit
  obtain ⟨d, ds, hl', -⟩ := isDigits_head hl
  exact literal_readsExpr (signed_head hs hl r) (by simp [hl']) hlit


theorem floatLiteral_selfReads {t : String} (ht : isFloatText t.toList = true) :
    SelfReads buffer (.floatLiteral t) := fun p r hr hbuf => by
  obtain ⟨s, a, b, hst, hs, ha, hb⟩ := isFloatText_split ht
  change buffer.drop p = t.toList ++ r at hbuf
  have hlit := floatLiteral_reads hs ha hb (fun d hd => (delim_stops (Ends.delim hr d hd)).2.1)
    (hst ▸ hbuf)
  rw [← hst] at hlit
  have hhead : ∃ d ds, t.toList ++ r = d :: ds ∧ d.toNat < 65 ∧ d ≠ '(' ∧ d ≠ '*' := by
    obtain ⟨d, ds, h, hd⟩ := signed_head hs ha ('.' :: b ++ r)
    exact ⟨d, ds, by rw [hst, ← h]; simp, hd⟩
  obtain ⟨d, ds, ha', -⟩ := isDigits_head ha
  exact literal_readsExpr hhead (show 0 < t.toList.length by rw [hst, ha']; simp) hlit

theorem stringLiteral_selfReads (v : String) : SelfReads buffer (.stringLiteral v) :=
  fun p r hr hbuf => by
  have hq : r.head? ≠ some quote := fun h =>
    (delim_stops (Ends.delim hr quote (by rw [h]; rfl))).2.2.2.1 rfl
  exact literal_readsExpr ⟨quote, _, rfl, by decide, by decide, by decide⟩
    (show 0 < (quoted v.toList).length by simp [quoted])
    (stringLiteral_literal hq hbuf)

theorem boolLiteral_selfReads (b : Bool) : SelfReads buffer (.boolLiteral b) := fun p r _ _ => by
  cases b
  · exact ⟨0, Nat.zero_le _, p, p + 5, by omega, .call rfl
      (.alt_fail (.seq_fail (.rune_fail (by rfl) rfl)) (.alt_ok (booleanLiteral_reads false r p)))⟩
  · exact ⟨0, Nat.zero_le _, p, p + 4, by omega, .call rfl
      (.alt_fail (.seq_fail (.rune_fail (by rfl) rfl)) (.alt_ok (booleanLiteral_reads true r p)))⟩

theorem wildcard_selfReads : SelfReads buffer .wildcard := fun p r _ _ =>
  ⟨0, Nat.zero_le _, p, p + 1, by omega,
    baseExpr_low (by decide) (by decide) (.alt_ok (wildcard_reads r p))⟩


theorem SelfReads.top {e : Expression} (hs : SelfReads buffer e) (he : e.printable = true) :
    TopReads buffer e := fun p r hr hbuf => by
  obtain ⟨d, ds, hd, -⟩ := renderIn_head e he none
  exact (hs p r (Ends.mono hr (Nat.zero_le _)) hbuf).descend (Nat.zero_le _) e.rung_le
    (by rw [hd]; exact List.cons_ne_nil _ _) fun d hd => (Ends.stop hr d hd).2

theorem SelfReads.operand {e : Expression} (hs : SelfReads buffer e) (he : e.printable = true) :
    OperandReads buffer e := fun op p r hr hbuf => by
  have hstop : ∀ d ∈ (dropSpaces r).head?, leadsOp (op.level + 1) d = false :=
    fun d hd => (Ends.stop hr d hd).2
  obtain ⟨d, ds, hd, hd32⟩ := renderIn_head e he none
  have hne : (e.renderIn none).toList ≠ [] := by rw [hd]; exact List.cons_ne_nil _ _
  rcases e.rung_cases with ⟨op', l, x, rfl⟩ | h5
  · by_cases hp : op'.level ≤ op.level
    · rw [renderIn_some_paren l x hp] at hbuf ⊢
      have h₁ : buffer.drop p = ['('] ++ (((Expression.binaryOp op' l x).renderIn none).toList ++
          ')' :: r) := by simpa using hbuf
      have hbuf' : buffer.drop (p + 1) = ((Expression.binaryOp op' l x).renderIn none).toList ++
          ')' :: r := drop_of_drop h₁
      exact (paren_readsExpr (head_not_sp hd hd32 _)
        (hs.top he (p + 1) (')' :: r) (ends_close r) hbuf')).descend
          (by have := op.level_lt; omega) le_rfl (List.cons_ne_nil _ _) hstop
    · rw [renderIn_some_plain l x (Nat.lt_of_not_le hp)] at hbuf ⊢
      exact (hs p r (Ends.mono hr (by show op.level + 1 ≤ op'.level + 1; omega)) hbuf).descend
        (by show op.level + 1 ≤ op'.level; omega) op'.level_lt.le hne hstop
  · rw [renderIn_some_atom h5 op] at hbuf ⊢
    have := op.level_lt
    exact (hs p r (Ends.mono hr (by rw [h5]; omega)) hbuf).descend (by rw [h5]; omega)
      e.rung_le hne hstop

theorem binaryOp_selfReads {op : Operator} {l x : Expression} (hl : OperandReads buffer l)
    (hx : OperandReads buffer x) (hxp : x.printable = true) :
    SelfReads buffer (.binaryOp op l x) := fun p r hr hbuf => by
  obtain ⟨d, ds, hd, hd32⟩ := renderIn_head x hxp (some op)
  change ReadsExpr buffer (ladder op.level) p
    ((Expression.binaryOp op l x).renderIn none).toList r _
  rw [renderIn_binaryOp] at hbuf ⊢
  have hbufL : buffer.drop p = (l.renderIn (some op)).toList ++
      ' ' :: (op.text.toList ++ ' ' :: ((x.renderIn (some op)).toList ++ r)) := by
    rw [hbuf]; simp
  have hbufX : buffer.drop (p + (l.renderIn (some op)).toList.length + 1 +
      op.text.toList.length + 1) = (x.renderIn (some op)).toList ++ r := drop_past (drop_past hbufL)
  exact ReadsExpr.binary (hl op p _ (ends_before_op op _) hbufL) (hx op _ r hr hbufX)
    (head_not_sp hd hd32 _)


theorem mapM_asExpr (es : List Expression) :
    (es.map Component.expr).mapM Component.asExpr = some es := by
  induction es with
  | nil => rfl
  | cons e es ih => rw [List.map_cons, List.mapM_cons, ih]; rfl

theorem TopReads.itemReads {e : Expression} (h : TopReads buffer e) (he : e.printable = true) :
    ItemReads buffer .expression (e.renderIn none).toList (.expr e) := by
  obtain ⟨d, ds, hd, hd32⟩ := renderIn_head e he none
  refine ⟨⟨d, ds, hd, spChar_of_gt hd32⟩, fun p r hr hbuf => ?_⟩
  obtain ⟨n, hn, b, e', hbe, hx⟩ := h p r hr hbuf
  exact ⟨n, hn, b, e', hbe, .call (by rfl) hx⟩

theorem exprItems_itemReads {es : List Expression}
    (hes : ∀ x ∈ es, TopReads buffer x ∧ x.printable = true) :
    ∀ i ∈ exprItems es, ItemReads buffer .expression i.1 i.2 := by
  intro i hi
  obtain ⟨x, hx, rfl⟩ := List.mem_map.mp hi
  exact (hes x hx).1.itemReads (hes x hx).2

theorem nonEmptyItems_exprs (e : Expression) (es : List Expression) :
    nonEmptyItems Component.asExpr ((e :: es).map .expr) = some (e :: es) :=
  mapM_asExpr (e :: es)

theorem expressions_exprs (e : Expression) (es : List Expression) :
    expressions ((e :: es).map .expr) = some (.expressionsAST (e :: es)) := by
  rw [expressions, nonEmptyItems_exprs]
  rfl

theorem funcParams_reads {e : Expression} {es : List Expression} {r : List Char}
    (hes : ∀ x ∈ e :: es, TopReads buffer x ∧ x.printable = true)
    (hbuf : buffer.drop p = (e.renderIn none).toList ++ (argsTail es ++ ')' :: r)) :
    Reads buffer (.call .funcParams) ⟨p, (e.renderIn none).toList ++ (argsTail es ++ ')' :: r)⟩
      ⟨p + (e.renderIn none).toList.length + (argsTail es).length, ')' :: r⟩
      [⟨p, p + (e.renderIn none).toList.length + (argsTail es).length,
        .expressionsAST (e :: es)⟩] := by
  obtain ⟨n, hn, o, ho, hmap, hne⟩ := commaList_reads
    ((hes e (List.mem_cons_self _ _)).1.itemReads (hes e (List.mem_cons_self _ _)).2)
    (exprItems_itemReads fun x hx => hes x (List.mem_cons_of_mem _ hx)) (.inl rfl)
    (ends_close r) (fun d hd => by cases hd; decide) hbuf
  obtain rfl : n = 0 := Nat.le_zero.mp hn
  refine .span rfl rfl (fun _ _ _ => rfl) ho hne ?_
  rw [hmap, exprItems_snd]
  exact expressions_exprs e es

theorem funcApp_selfReads {f : String} {e : Expression} {es : List Expression}
    (hf : isName f.toList = true) (hes : ∀ x ∈ e :: es, TopReads buffer x ∧ x.printable = true) :
    SelfReads buffer (.funcApp f (e :: es)) := fun p r hr hbuf => by
  change ReadsExpr buffer (ladder 5) p ((Expression.funcApp f (e :: es)).renderIn none).toList r _
  rw [renderIn_funcApp] at hbuf ⊢
  obtain ⟨d, ds, hd, hd32⟩ := renderIn_head e (hes e (List.mem_cons_self _ _)).2 none
  obtain ⟨c, cs, hc, hc65, -⟩ := isIdent_head (isName_isIdent hf)
  have hw := head_not_sp hd hd32 (argsTail es ++ ')' :: r)
  have hbufF : buffer.drop p = f.toList ++ '(' :: ((e.renderIn none).toList ++
      (argsTail es ++ ')' :: r)) := by rw [hbuf]; simp
  have hbufP : buffer.drop (p + f.toList.length + 1) =
      (e.renderIn none).toList ++ (argsTail es ++ ')' :: r) := drop_past hbufF
  have hid : bqlPeg.Returns (.call .ident) ⟨p, f.toList ++ '(' :: ((e.renderIn none).toList ++
      (argsTail es ++ ')' :: r))⟩ _ :=
    ident_reads (isName_isIdent hf) (fun d hd => by cases hd; rfl) p
  have hF : Reads buffer (.call .function) ⟨p, f.toList ++ '(' :: ((e.renderIn none).toList ++
      (argsTail es ++ ')' :: r))⟩ ⟨p + f.toList.length, '(' :: ((e.renderIn none).toList ++
      (argsTail es ++ ')' :: r))⟩ [⟨p, p + f.toList.length, .funcName f⟩] :=
    .push rfl rfl (.nil hid) (by rw [substr_of_drop hbufF]; rfl)
  have hX := hF.seq ((sp_none (fun d hd => by cases hd; rfl) _).seq
    ((Reads.nil Grammar.Returns.char).seq
    ((sp_none hw _).seq ((funcParams_reads hes hbufP).seq
      ((sp_none (fun d hd => by cases hd; rfl) _).seq (Reads.nil Grammar.Returns.char))))))
  have hb : matchWord "true".toList (f.toList ++ '(' :: ((e.renderIn none).toList ++
      (argsTail es ++ ')' :: r))) = none ∧ matchWord "false".toList (f.toList ++
      '(' :: ((e.renderIn none).toList ++ (argsTail es ++ ')' :: r))) = none :=
    name_not_boolean hf (fun d hd => by cases hd; decide)
  have hpos : 0 < f.toList.length := by rw [hc]; exact Nat.succ_pos _
  refine ⟨0, Nat.zero_le _, p, p + f.toList.length + 1 + (e.renderIn none).toList.length +
    (argsTail es).length, by omega, ?_⟩
  rw [show (f.toList ++ '(' :: ((e.renderIn none).toList ++ (argsTail es ++ [')']))) ++ r =
      f.toList ++ '(' :: ((e.renderIn none).toList ++ (argsTail es ++ ')' :: r)) by simp,
    show p + (f.toList ++ '(' :: ((e.renderIn none).toList ++ (argsTail es ++ [')']))).length + 0 =
      p + f.toList.length + 1 + (e.renderIn none).toList.length + (argsTail es).length + 1 by
      simp; omega]
  refine .call rfl (.alt_fail (.seq_fail (char_fail_head ?_ p))
    (.alt_fail (booleanLiteral_fail hb.1 hb.2) (.alt_ok (.fixed rfl hX (fun _ _ _ => rfl)
      ⟨le_rfl, by dsimp only; omega, by dsimp only; omega⟩))))
  rw [hc]
  rintro d' hd' rfl
  cases hd'
  exact absurd hc65 (by decide)


mutual
/-- Every printable tree is read back at its own rung. -/
theorem selfReads : ∀ e : Expression, e.printable = true → SelfReads buffer e
  | .binaryOp _ l x, h => by
    obtain ⟨hl, hx⟩ := (Bool.and_eq_true _ _).mp h
    exact binaryOp_selfReads ((selfReads l hl).operand hl) ((selfReads x hx).operand hx) hx
  | .funcApp f es, h => by
    have hall := selfReadsAll es
    simp only [Expression.printable, Bool.and_eq_true, Bool.not_eq_true',
      List.isEmpty_eq_false] at h
    obtain ⟨⟨hf, hne⟩, hes⟩ := h
    obtain _ | ⟨e, es⟩ := es
    · exact absurd rfl hne
    · exact funcApp_selfReads hf fun x hx =>
        ⟨((hall hes x hx).1).top (hall hes x hx).2, (hall hes x hx).2⟩
  | .columnName _, h => columnName_selfReads h
  | .numericLiteral v, _ => numericLiteral_selfReads v
  | .floatLiteral _, h => floatLiteral_selfReads h
  | .stringLiteral v, _ => stringLiteral_selfReads v
  | .boolLiteral b, _ => boolLiteral_selfReads b
  | .wildcard, _ => wildcard_selfReads

theorem selfReadsAll : ∀ es : List Expression, Expression.printableAll es = true →
    ∀ e ∈ es, SelfReads buffer e ∧ e.printable = true
  | [], _ => fun e he => absurd he (List.not_mem_nil e)
  | e :: es, h => by
    obtain ⟨he, hes⟩ := (Bool.and_eq_true _ _).mp h
    have h₁ := selfReads e he
    have h₂ := selfReadsAll es hes
    intro x hx
    rcases List.mem_cons.mp hx with rfl | hx
    · exact ⟨h₁, he⟩
    · exact h₂ x hx
end

end Trees

end SensorBee.Parser
