import SensorBee.Parser.Reads
import SensorBee.Parser.StringLiteral

/-!
# The lexical rules

`sp`, `Ident` and the digit runs of the literals each read the longest prefix of a class of
runes. The lemmas below read one printed token followed by a remainder that stops it, and give the
fragment its rule pushes: the leaf rules of the expression grammar, one lemma each.
-/
namespace SensorBee.Parser

/-- The runes `sp` skips: a space, a tab or a newline. -/
def spChar : Peg Rule := .alts (.char ' ') [.char (Char.ofNat 9), .char (Char.ofNat 10)]

def digit : Peg Rule := .range '0' '9'

def spaces (r : List Char) : Nat := (r.takeWhile spChar.classAccepts).length

def dropSpaces (r : List Char) : List Char := r.drop (spaces r)

def isIdent : List Char → Bool
  | d :: ds => (Peg.irange 'a' 'z' : Peg Rule).accepts d && ds.all Rule.identTail.classAccepts
  | [] => false

def isDigits (l : List Char) : Bool := !l.isEmpty && l.all digit.classAccepts

def isFloatText (t : List Char) : Bool :=
  let u := if t.head? = some '-' then t.tail else t
  match u.dropWhile digit.classAccepts with
  | '.' :: b => !(u.takeWhile digit.classAccepts).isEmpty && isDigits b
  | _ => false

section Reading

variable {buffer : List Char}

theorem sp_returns (p : Nat) (r : List Char) :
    bqlPeg.Returns (.call .sp) ⟨p, r⟩ (.ok ⟨p + spaces r, dropSpaces r⟩ []) :=
  Grammar.Returns.call (Grammar.Returns.star_class (by rfl) p r)

theorem sp_reads (p : Nat) (r : List Char) :
    Reads buffer (.call .sp) ⟨p, r⟩ ⟨p + spaces r, dropSpaces r⟩ [] :=
  .nil (sp_returns p r)

theorem spaces_cons_sp {d : Char} (hd : spChar.classAccepts d = true) (r : List Char) :
    spaces (d :: r) = spaces r + 1 ∧ dropSpaces (d :: r) = dropSpaces r := by
  have hs : spaces (d :: r) = spaces r + 1 := by simp [spaces, hd]
  exact ⟨hs, by rw [dropSpaces, hs]; rfl⟩

theorem spaces_cons_space (r : List Char) :
    spaces (' ' :: r) = spaces r + 1 ∧ dropSpaces (' ' :: r) = dropSpaces r :=
  spaces_cons_sp (by rfl) r

theorem spaces_drop {r : List Char} {n : Nat} (hn : n ≤ spaces r) :
    spaces (r.drop n) = spaces r - n ∧ dropSpaces (r.drop n) = dropSpaces r := by
  induction n generalizing r with
  | zero => simp
  | succ n ih =>
    rcases r with _ | ⟨d, r⟩
    · simp [spaces] at hn
    · by_cases hd : spChar.classAccepts d = true
      · obtain ⟨hs, hds⟩ := spaces_cons_sp hd r
        rw [hs] at hn
        obtain ⟨ih₁, ih₂⟩ := ih (show n ≤ spaces r by omega)
        rw [hs, hds, List.drop_succ_cons, ih₁, ih₂]
        exact ⟨by omega, rfl⟩
      · simp [spaces, hd] at hn

theorem sp_reads_after {r : List Char} {n : Nat} (hn : n ≤ spaces r) (q : Nat) :
    Reads buffer (.call .sp) ⟨q + n, r.drop n⟩ ⟨q + spaces r, dropSpaces r⟩ [] := by
  have h : Reads buffer (.call .sp) ⟨q + n, r.drop n⟩ _ _ := sp_reads (q + n) (r.drop n)
  obtain ⟨h₁, h₂⟩ := spaces_drop hn
  rwa [h₁, h₂, Nat.add_assoc, Nat.add_sub_cancel' hn] at h

theorem spaces_of_head {r : List Char} (h : ∀ d ∈ r.head?, spChar.classAccepts d = false) :
    spaces r = 0 ∧ dropSpaces r = r := by
  rcases r with _ | ⟨d, r⟩
  · exact ⟨rfl, rfl⟩
  · simp [spaces, dropSpaces, h d rfl]

theorem head_drop_of_le_spaces {r : List Char} {n : Nat} (hn : n ≤ spaces r) :
    ∀ d ∈ (r.drop n).head?, spChar.classAccepts d = true ∨ d ∈ (dropSpaces r).head? := by
  induction r generalizing n with
  | nil => intro d hd; simp at hd
  | cons c r ih =>
    by_cases hc : spChar.classAccepts c = true
    · obtain ⟨hs, hds⟩ := spaces_cons_sp hc r
      rcases n with _ | n
      · intro d hd; cases hd; exact .inl hc
      · rw [hds]; exact ih (by omega)
    · have h := spaces_of_head (show ∀ d ∈ (c :: r).head?, spChar.classAccepts d = false from
        fun d hd => by cases hd; simpa using hc)
      obtain rfl : n = 0 := by omega
      intro d hd
      exact .inr (by rw [h.2]; exact hd)

theorem dropSpaces_head (r : List Char) :
    ∀ d ∈ (dropSpaces r).head?, spChar.classAccepts d = false := by
  induction r with
  | nil => intro d hd; cases hd
  | cons c r ih =>
    by_cases hc : spChar.classAccepts c = true
    · rw [(spaces_cons_sp hc r).2]; exact ih
    · rw [(spaces_of_head (show ∀ d ∈ (c :: r).head?, spChar.classAccepts d = false from
        fun d hd => by cases hd; simpa using hc)).2]
      intro d hd; cases hd; simpa using hc

theorem sp_none {r : List Char} (h : ∀ d ∈ r.head?, spChar.classAccepts d = false) (q : Nat) :
    Reads buffer (.call .sp) ⟨q, r⟩ ⟨q, r⟩ [] := by
  have h' : Reads buffer (.call .sp) ⟨q, r⟩ _ _ := sp_reads q r
  rwa [(spaces_of_head h).1, (spaces_of_head h).2] at h'

theorem sp_one {r : List Char} (h : ∀ d ∈ r.head?, spChar.classAccepts d = false) (q : Nat) :
    Reads buffer (.call .sp) ⟨q, ' ' :: r⟩ ⟨q + 1, r⟩ [] := by
  have h' : Reads buffer (.call .sp) ⟨q, ' ' :: r⟩ _ _ := sp_reads q (' ' :: r)
  have hs : spaces (' ' :: r) = 1 := by
    have h₀ := (spaces_of_head h).1
    unfold spaces at h₀ ⊢
    rw [List.takeWhile_cons_of_pos (show spChar.classAccepts ' ' = true from rfl), List.length_cons,
      h₀]
  rwa [show dropSpaces (' ' :: r) = dropSpaces r by simp [dropSpaces, hs, (spaces_of_head h).1],
    (spaces_of_head h).2, hs] at h'

theorem star_class_stop {a : Peg Rule} (ha : a.isClass = true) {w r : List Char}
    (hw : ∀ x ∈ w, a.classAccepts x = true) (hr : ∀ d ∈ r.head?, a.classAccepts d = false)
    (p : Nat) : bqlPeg.Returns (.star a) ⟨p, w ++ r⟩ (.ok ⟨p + w.length, r⟩ []) := by
  have ht : (w ++ r).takeWhile a.classAccepts = w := by
    rw [List.takeWhile_append_of_pos hw]
    cases r with
    | nil => simp
    | cons d r => simp [hr d rfl]
  simpa [ht] using Grammar.Returns.star_class ha p (w ++ r)

theorem ident_reads {n r : List Char} (hn : isIdent n = true)
    (hr : ∀ d ∈ r.head?, Rule.identTail.classAccepts d = false) (p : Nat) :
    bqlPeg.Returns (.call .ident) ⟨p, n ++ r⟩ (.ok ⟨p + n.length, r⟩ []) := by
  obtain _ | ⟨d, ds⟩ := n
  · cases hn
  · simp only [isIdent, Bool.and_eq_true, List.all_eq_true] at hn
    have h := (Grammar.Returns.rune (by rfl) hn.1).seq (star_class_stop (by rfl) hn.2 hr (p + 1))
    rw [List.length_cons, ← Nat.add_assoc, Nat.add_right_comm]
    exact (show bqlPeg.Returns (bqlPeg.body .ident) _ _ from h).call

theorem substr_of_drop {w r : List Char} {p : Nat} (h : buffer.drop p = w ++ r) :
    substr buffer p (p + w.length) = w := by
  simp [substr, h]

theorem drop_of_drop {w r : List Char} {p : Nat} (h : buffer.drop p = w ++ r) :
    buffer.drop (p + w.length) = r := by
  rw [← List.drop_drop, h, List.drop_left]

theorem drop_past {w T : List Char} {d : Char} {p : Nat} (h : buffer.drop p = w ++ d :: T) :
    buffer.drop (p + w.length + 1) = T := by
  rw [← List.drop_drop, drop_of_drop h]
  rfl

end Reading

theorem isDigits_cons {d : Char} {l : List Char} :
    isDigits (d :: l) = true ↔
      digit.classAccepts d = true ∧ ∀ x ∈ l, digit.classAccepts x = true := by
  simp [isDigits]

theorem digitChar_digit : ∀ k < 10,
    digit.classAccepts (Nat.digitChar k) = true ∧ (Nat.digitChar k).toNat - '0'.toNat = k := by
  decide

theorem digitsValue_append (l : List Char) (x : Char) :
    digitsValue (l ++ [x]) = 10 * digitsValue l + (x.toNat - '0'.toNat) := by
  simp [digitsValue]

theorem toDigitsCore_succ (fuel n : Nat) (ds : List Char) :
    Nat.toDigitsCore 10 (fuel + 1) n ds = if n / 10 = 0 then Nat.digitChar (n % 10) :: ds
      else Nat.toDigitsCore 10 fuel (n / 10) (Nat.digitChar (n % 10) :: ds) := rfl

theorem toDigitsCore_digits {fuel n : Nat} (ds : List Char) (h : n < fuel) :
    ∃ l, Nat.toDigitsCore 10 fuel n ds = l ++ ds ∧ isDigits l = true ∧ digitsValue l = n := by
  induction fuel generalizing n ds with
  | zero => omega
  | succ fuel ih =>
    obtain ⟨hd, hv⟩ := digitChar_digit (n % 10) (Nat.mod_lt _ (by decide))
    by_cases hn : n / 10 = 0
    · refine ⟨[Nat.digitChar (n % 10)], by simp [toDigitsCore_succ, hn], by simp [isDigits, hd], ?_⟩
      simp only [digitsValue, List.foldl_cons, List.foldl_nil, hv]
      omega
    · obtain ⟨l, hl, hdl, hvl⟩ := ih (Nat.digitChar (n % 10) :: ds) (show n / 10 < fuel by omega)
      refine ⟨l ++ [Nat.digitChar (n % 10)], by simp [toDigitsCore_succ, hn, hl], ?_, ?_⟩
      · simp only [isDigits, Bool.and_eq_true, List.all_eq_true] at hdl
        simpa [isDigits, hd] using fun x hx => hdl.2 x hx
      · rw [digitsValue_append, hvl, hv]
        omega

theorem numericValue_digits {l : List Char} (hl : isDigits l = true) :
    numericValue l = digitsValue l := by
  obtain _ | ⟨d, l⟩ := l
  · cases hl
  · have hd : d ≠ '-' := by
      rintro rfl
      exact absurd (isDigits_cons.mp hl).1 (by decide)
    simp [numericValue, hd]

theorem toString_int (v : Int) : ∃ s l, (toString v).toList = s ++ l ∧ (s = [] ∨ s = ['-']) ∧
    isDigits l = true ∧ numericValue (s ++ l) = v := by
  cases v with
  | ofNat m =>
    obtain ⟨l, hl, hd, hv⟩ := toDigitsCore_digits [] (Nat.lt_succ_self m)
    refine ⟨[], l, ?_, .inl rfl, hd, ?_⟩
    · show Nat.toDigitsCore 10 (m + 1) m [] = [] ++ l
      rw [hl, List.append_nil, List.nil_append]
    · rw [List.nil_append, numericValue_digits hd, hv]; rfl
  | negSucc m =>
    obtain ⟨l, hl, hd, hv⟩ := toDigitsCore_digits [] (Nat.lt_succ_self (m + 1))
    refine ⟨['-'], l, ?_, .inr rfl, hd, ?_⟩
    · show '-' :: Nat.toDigitsCore 10 (m + 1 + 1) (m + 1) [] = ['-'] ++ l
      rw [hl, List.append_nil]; rfl
    · show -(digitsValue l : Int) = _
      rw [hv, Int.negSucc_eq]; rfl

theorem isDigits_head {l : List Char} (hl : isDigits l = true) :
    ∃ d ds, l = d :: ds ∧ digit.classAccepts d = true := by
  obtain _ | ⟨d, ds⟩ := l
  · cases hl
  · exact ⟨d, ds, rfl, (isDigits_cons.mp hl).1⟩

theorem digit_toNat {d : Char} (h : digit.classAccepts d = true) : 48 ≤ d.toNat ∧ d.toNat ≤ 57 := by
  simpa [digit, Peg.classAccepts, Peg.accepts] using h

theorem isFloatText_split {t : List Char} (h : isFloatText t = true) :
    ∃ s a b, t = s ++ a ++ '.' :: b ∧ (s = [] ∨ s = ['-']) ∧ isDigits a = true ∧
      isDigits b = true := by
  obtain ⟨s, u, ht, hs, hu⟩ : ∃ s u, t = s ++ u ∧ (s = [] ∨ s = ['-']) ∧
      u = if t.head? = some '-' then t.tail else t := by
    rcases t with _ | ⟨d, t⟩
    · exact ⟨[], [], rfl, .inl rfl, rfl⟩
    · by_cases hd : d = '-'
      · exact ⟨['-'], t, by rw [hd]; rfl, .inr rfl, by simp [hd]⟩
      · exact ⟨[], d :: t, rfl, .inl rfl, by simp [hd]⟩
  unfold isFloatText at h
  rw [← hu] at h
  dsimp only at h
  split at h
  · next b hb =>
    simp only [Bool.and_eq_true, Bool.not_eq_true', List.isEmpty_eq_false] at h
    refine ⟨s, u.takeWhile digit.classAccepts, b, ?_, hs, ?_, h.2⟩
    · rw [ht, List.append_assoc, ← hb, List.takeWhile_append_dropWhile]
    · simp only [isDigits, List.all_takeWhile, Bool.and_true, Bool.not_eq_true',
        List.isEmpty_eq_false]
      exact h.1
  · cases h

section Reading

variable {buffer : List Char}

theorem opt_minus {s l : List Char} (hs : s = [] ∨ s = ['-']) (hl : isDigits l = true)
    (r : List Char) (p : Nat) :
    bqlPeg.Returns (.opt (.char '-')) ⟨p, s ++ (l ++ r)⟩ (.ok ⟨p + s.length, l ++ r⟩ []) := by
  rcases hs with rfl | rfl
  · obtain ⟨d, ds, rfl, hd⟩ := isDigits_head hl
    have : d ≠ '-' := by rintro rfl; exact absurd hd (by decide)
    exact .opt_fail (.rune_fail (by rfl) (by simpa [Peg.accepts] using this))
  · exact .opt_ok .char

theorem plus_digit_reads {l r : List Char} (hl : isDigits l = true)
    (hr : ∀ d ∈ r.head?, digit.classAccepts d = false) (p : Nat) :
    bqlPeg.Returns (.plus digit) ⟨p, l ++ r⟩ (.ok ⟨p + l.length, r⟩ []) := by
  obtain ⟨d, ds, rfl, hd⟩ := isDigits_head hl
  have h : bqlPeg.Returns (.plus digit) ⟨p, d :: (ds ++ r)⟩ _ :=
    (Grammar.Returns.rune (by rfl) hd).plus
      (star_class_stop (by rfl) (isDigits_cons.mp hl).2 hr (p + 1))
  rwa [List.length_cons, ← Nat.add_assoc, Nat.add_right_comm]

theorem plus_digit_fail {r : List Char} (hr : ∀ d ∈ r.head?, digit.classAccepts d = false)
    (p : Nat) : bqlPeg.Returns (.plus digit) ⟨p, r⟩ .fail := by
  rcases r with _ | ⟨d, r⟩
  · exact .plus_fail (.rune_nil (by rfl))
  · exact .plus_fail (.rune_fail (by rfl) (hr d rfl))

theorem numeric_push {s l r : List Char} {p : Nat} (hs : s = [] ∨ s = ['-'])
    (hl : isDigits l = true) (hr : ∀ d ∈ r.head?, digit.classAccepts d = false)
    (hbuf : buffer.drop p = s ++ l ++ r) :
    Reads buffer (.call .numericLiteral) ⟨p, s ++ l ++ r⟩ ⟨p + (s ++ l).length, r⟩
      [⟨p, p + (s ++ l).length, .expr (.numericLiteral (numericValue (s ++ l)))⟩] := by
  have hnum : bqlPeg.Returns (.seq (.opt (.char '-')) (.plus digit)) ⟨p, s ++ l ++ r⟩
      (.ok ⟨p + (s ++ l).length, r⟩ []) := by
    rw [List.append_assoc, List.length_append, ← Nat.add_assoc]
    exact (opt_minus hs hl r p).seq (plus_digit_reads hl hr (p + s.length))
  refine .push rfl rfl (.nil hnum) ?_
  rw [substr_of_drop hbuf]; rfl

theorem numericLiteral_reads {s l r : List Char} {p : Nat} (hs : s = [] ∨ s = ['-'])
    (hl : isDigits l = true) (hr : ∀ d ∈ r.head?, digit.classAccepts d = false ∧ d ≠ '.')
    (hbuf : buffer.drop p = s ++ l ++ r) :
    Reads buffer (.call .literal) ⟨p, s ++ l ++ r⟩ ⟨p + (s ++ l).length, r⟩
      [⟨p, p + (s ++ l).length, .expr (.numericLiteral (numericValue (s ++ l)))⟩] := by
  have hsl := opt_minus hs hl r p
  have hd := plus_digit_reads hl (fun d hd => (hr d hd).1) (p + s.length)
  have hdot : bqlPeg.Returns (.char '.') ⟨p + s.length + l.length, r⟩ .fail := by
    rcases r with _ | ⟨d, r⟩
    · exact .rune_nil (by rfl)
    · exact .rune_fail (by rfl) (by simpa [Peg.accepts] using (hr d rfl).2)
  have hfloat : bqlPeg.Returns (.call .floatLiteral) ⟨p, s ++ l ++ r⟩ .fail :=
    .call_fail (.capture_fail (by rw [List.append_assoc]; exact hsl.seq (hd.seq hdot.seq_fail)))
  exact .call rfl (.alt_fail hfloat (.alt_ok (numeric_push hs hl (fun d hd => (hr d hd).1) hbuf)))


theorem floatLiteral_reads {s a b r : List Char} {p : Nat} (hs : s = [] ∨ s = ['-'])
    (ha : isDigits a = true) (hb : isDigits b = true)
    (hr : ∀ d ∈ r.head?, digit.classAccepts d = false)
    (hbuf : buffer.drop p = s ++ a ++ '.' :: b ++ r) :
    Reads buffer (.call .literal) ⟨p, s ++ a ++ '.' :: b ++ r⟩ ⟨p + (s ++ a ++ '.' :: b).length, r⟩
      [⟨p, p + (s ++ a ++ '.' :: b).length, .expr (.floatLiteral ⟨s ++ a ++ '.' :: b⟩)⟩] := by
  have h : bqlPeg.Returns (.seqs (.opt (.char '-')) [.plus digit, .char '.', .plus digit])
      ⟨p, s ++ a ++ '.' :: b ++ r⟩ (.ok ⟨p + (s ++ a ++ '.' :: b).length, r⟩ []) := by
    have hpt : bqlPeg.Returns (.plus digit) ⟨p + s.length, a ++ '.' :: (b ++ r)⟩
        (.ok ⟨p + s.length + a.length, '.' :: (b ++ r)⟩ []) :=
      plus_digit_reads ha (fun d hd => by cases hd; rfl) _
    rw [show s ++ a ++ '.' :: b ++ r = s ++ (a ++ '.' :: (b ++ r)) by simp,
      show p + (s ++ a ++ '.' :: b).length = p + s.length + a.length + 1 + b.length by simp; omega]
    exact (opt_minus hs ha _ p).seq (hpt.seq (Grammar.Returns.char.seq (plus_digit_reads hb hr _)))
  refine .call rfl (.alt_ok (.push rfl rfl (.nil h) ?_))
  rw [substr_of_drop hbuf]; rfl

theorem stringLiteral_literal {s r : List Char} {p : Nat} (hr : r.head? ≠ some quote)
    (hbuf : buffer.drop p = quoted s ++ r) :
    Reads buffer (.call .literal) ⟨p, quoted s ++ r⟩ ⟨p + (quoted s).length, r⟩
      [⟨p, p + (quoted s).length, .expr (.stringLiteral ⟨s⟩)⟩] := by
  have hq : ∀ d ∈ (quoted s ++ r).head?, digit.classAccepts d = false := fun d hd => by
    cases hd; rfl
  have hopt : bqlPeg.Returns (.opt (.char '-')) ⟨p, quoted s ++ r⟩ (.ok ⟨p, quoted s ++ r⟩ []) :=
    .opt_fail (.rune_fail (by rfl) rfl)
  have hfail : bqlPeg.Returns (.seq (.plus digit) (.seq (.char '.') (.plus digit)))
      ⟨p, quoted s ++ r⟩ .fail := .seq_fail (plus_digit_fail hq p)
  have h : bqlPeg.Returns (.seq (.char quote) (.seq (.star stringChar) (.char quote)))
      ⟨p, quoted s ++ r⟩ (.ok ⟨p + (quoted s).length, r⟩ []) := by
    rw [show p + (quoted s).length = p + 1 + (doubleQuotes s).length + 1 by simp [quoted]; omega,
      quoted_append]
    exact .seq .char (.seq (star_stringChar s hr (p + 1)) .char)
  refine .call rfl (.alt_fail (.call_fail (.capture_fail (hopt.seq hfail)))
    (.alt_fail (.call_fail (.capture_fail (hopt.seq (plus_digit_fail hq p))))
      (.push rfl rfl (.nil h) ?_)))
  rw [substr_of_drop hbuf, Leaf.build, stringValue_quoted]

theorem matchWord_append_self (w r : List Char) : matchWord w (w ++ r) = some r := by
  induction w with
  | nil => rfl
  | cons x w ih => simp [matchWord, foldEq, ih]

theorem booleanLiteral_reads (b : Bool) (r : List Char) (p : Nat) :
    Reads buffer (.call .booleanLiteral) ⟨p, (if b then "true" else "false").toList ++ r⟩
      ⟨p + (if b then "true" else "false").length, r⟩
      [⟨p, p + (if b then "true" else "false").length, .expr (.boolLiteral b)⟩] := by
  cases b
  · exact .call rfl (.alt_fail (.call_fail (.capture_fail (.word_fail rfl)))
      (.push rfl rfl (.nil (.word (matchWord_append_self _ _))) rfl))
  · exact .call rfl (.alt_ok (.push rfl rfl (.nil (.word (matchWord_append_self _ _))) rfl))

theorem wildcard_reads (r : List Char) (p : Nat) :
    Reads buffer (.call .wildcard) ⟨p, '*' :: r⟩ ⟨p + 1, r⟩ [⟨p, p + 1, .expr .wildcard⟩] :=
  .push rfl rfl (.nil .char) rfl

end Reading

theorem spChar_of_gt {d : Char} (hd : 32 < d.toNat) : spChar.classAccepts d = false := by
  have h : ∀ x : Char, x.toNat ≤ 32 → d ≠ x := fun x hx h => by subst h; omega
  simp [spChar, Peg.alts, Peg.classAccepts, Peg.accepts, h ' ' (by decide),
    h (Char.ofNat 9) (by decide), h (Char.ofNat 10) (by decide)]

theorem head_not_sp {l : List Char} {d : Char} {ds : List Char} (hl : l = d :: ds)
    (hd : 32 < d.toNat) (t : List Char) : ∀ x ∈ (l ++ t).head?, spChar.classAccepts x = false := by
  rw [hl]; intro x h; cases h; exact spChar_of_gt hd

theorem toLower_of_lt {d : Char} (hd : d.toNat < 65) : d.toLower = d := by
  simp only [Char.toLower]
  rw [if_neg (by omega)]

theorem foldEq_of_lt {x d : Char} (hd : d.toNat < 65) (hx : 65 ≤ x.toLower.toNat) :
    foldEq x d = false := by
  rw [foldEq, toLower_of_lt hd, beq_eq_false_iff_ne]
  rintro rfl
  omega

theorem irange_of_lt {d : Char} (hd : d.toNat < 65) :
    (Peg.irange 'a' 'z' : Peg Rule).accepts d = false := by
  have h1 : ¬ ('a' ≤ d) := fun h => by have : 97 ≤ d.toNat := h; omega
  have h2 : ¬ ('A' ≤ d) := fun h => by have : 65 ≤ d.toNat := h; omega
  simp [Peg.accepts, h1, h2]

end SensorBee.Parser
