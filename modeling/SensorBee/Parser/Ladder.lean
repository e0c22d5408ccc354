import SensorBee.Parser.Lexical

/-!
# The precedence ladder

`OrExpr`, `AndExpr`, `ComparisonExpr`, `TermExpr` and `ProductExpr` share the shape
`x sp (op sp x)?`, each over the next, with `BaseExpr` at the bottom. `ReadsExpr` is what a rung
does with the printed text of a tree. A rung passes the fragment of its operand up when no
operator of its own follows (`ReadsExpr.lift`), so a tree read at one rung is read at every
looser one (`ReadsExpr.descend`). With an operator it builds one binary node
(`ReadsExpr.binary`).
-/
namespace SensorBee.Parser

/-- The rungs of the ladder, loosest first, and `BaseExpr` below them. -/
def ladder : Nat → Rule
  | 0 => .orExpr | 1 => .andExpr | 2 => .comparisonExpr | 3 => .termExpr | 4 => .productExpr
  | _ => .baseExpr

def opRule : Nat → Rule
  | 0 => .or | 1 => .and | 2 => .comparisonOp | 3 => .plusMinusOp | _ => .multDivOp

def opLead : Nat → Char → Bool
  | 0, d => foldEq 'O' d
  | 1, d => foldEq 'A' d
  | 2, d => foldEq '=' d || foldEq '!' d || foldEq '<' d || foldEq '>' d
  | 3, d => foldEq '+' d || foldEq '-' d
  | _, d => foldEq '*' d || foldEq '/' d || foldEq '%' d

def leadsOp (k : Nat) (d : Char) : Bool := (List.range 5).any fun j => k ≤ j && opLead j d

/-- A remainder that ends a tree read at rung `k`: it is empty or starts with a space, `)` or
`,`, and after the spaces it starts with no `(` and no operator of rung `k` or tighter. -/
def Ends (k : Nat) (r : List Char) : Bool :=
  r.head?.all (fun d => spChar.classAccepts d || d == ')' || d == ',') &&
    (dropSpaces r).head?.all fun d => d != '(' && !leadsOp k d

theorem body_ladder {k : Nat} (hk : k < 5) :
    Rule.body (ladder k) = Rule.binary (ladder (k + 1)) (opRule k) := by
  obtain _ | _ | _ | _ | _ | k := k <;> first | rfl | omega

theorem action_ladder {k : Nat} (hk : k < 5) :
    Rule.action (ladder k) = some .assembleBinaryOperation := by
  obtain _ | _ | _ | _ | _ | k := k <;> first | rfl | omega

theorem Operator.level_lt (op : Operator) : op.level < 5 := by cases op <;> decide

theorem opRule_reads (op : Operator) (p : Nat) (r : List Char) :
    bqlPeg.Returns (.call (opRule op.level)) ⟨p, op.text.toList ++ ' ' :: r⟩
      (.ok ⟨p + op.text.toList.length, ' ' :: r⟩
        [.text p (p + op.text.toList.length), .action (.pushComponent (.operator op))]) := by
  cases op <;> exact ⟨12, rfl⟩

theorem spaces_before_op (op : Operator) (x : List Char) :
    spaces (' ' :: (op.text.toList ++ x)) = 1 ∧
      dropSpaces (' ' :: (op.text.toList ++ x)) = op.text.toList ++ x := by
  cases op <;> exact ⟨rfl, rfl⟩

theorem Operator.text_pos (op : Operator) : 0 < op.text.toList.length := by
  cases op <;> decide

theorem matchWord_cons_none {x : Char} {xs r : List Char} (h : ∀ d ∈ r.head?, foldEq x d = false) :
    matchWord (x :: xs) r = none := by
  rcases r with _ | ⟨d, r⟩
  · rfl
  · simp [matchWord, h d rfl]

theorem word_rule_fail {r : Rule} {s : String} {x : Char} {xs : List Char} {c : Cursor}
    (hb : Rule.body r = .capture (.word s)) (hs : s.toList = x :: xs)
    (h : ∀ d ∈ c.rest.head?, foldEq x d = false) : bqlPeg.Returns (.call r) c .fail :=
  .call_fail ((show bqlPeg.body r = _ from hb) ▸
    .capture_fail (.word_fail (hs ▸ matchWord_cons_none h)))

theorem opRule_fail {j : Nat} {c : Cursor} (h : ∀ d ∈ c.rest.head?, opLead j d = false) :
    bqlPeg.Returns (.call (opRule j)) c .fail := by
  match j with
  | 0 => exact word_rule_fail rfl rfl h
  | 1 => exact word_rule_fail rfl rfl h
  | 2 =>
    have h' : ∀ d ∈ c.rest.head?, foldEq '=' d = false ∧ foldEq '!' d = false ∧
        foldEq '<' d = false ∧ foldEq '>' d = false := fun d hd => by
      simpa [opLead, and_assoc] using h d hd
    have ne : bqlPeg.Returns (.call .notEqual) c .fail :=
      .call_fail (.capture_fail
        (.alt_fail (.word_fail (matchWord_cons_none fun d hd => (h' d hd).2.1))
          (.word_fail (matchWord_cons_none fun d hd => (h' d hd).2.2.1))))
    exact .call_fail (.alt_fail (word_rule_fail rfl rfl fun d hd => (h' d hd).1)
      (.alt_fail ne (.alt_fail (word_rule_fail rfl rfl fun d hd => (h' d hd).2.2.1)
        (.alt_fail (word_rule_fail rfl rfl fun d hd => (h' d hd).2.2.1)
          (.alt_fail (word_rule_fail rfl rfl fun d hd => (h' d hd).2.2.2)
            (.alt_fail (word_rule_fail rfl rfl fun d hd => (h' d hd).2.2.2) ne))))))
  | 3 =>
    have h' : ∀ d ∈ c.rest.head?, foldEq '+' d = false ∧ foldEq '-' d = false := fun d hd => by
      simpa [opLead] using h d hd
    exact .call_fail (.alt_fail (word_rule_fail rfl rfl fun d hd => (h' d hd).1)
      (word_rule_fail rfl rfl fun d hd => (h' d hd).2))
  | j + 4 =>
    have h' : ∀ d ∈ c.rest.head?, foldEq '*' d = false ∧ foldEq '/' d = false ∧
        foldEq '%' d = false := fun d hd => by
      simpa [opLead, and_assoc] using h d hd
    exact .call_fail (.alt_fail (word_rule_fail rfl rfl fun d hd => (h' d hd).1)
      (.alt_fail (word_rule_fail rfl rfl fun d hd => (h' d hd).2.1)
        (word_rule_fail rfl rfl fun d hd => (h' d hd).2.2)))

theorem opLead_of_leadsOp {k j : Nat} (hkj : k ≤ j) (hj : j < 5) {d : Char}
    (h : leadsOp k d = false) : opLead j d = false := by
  simp only [leadsOp, List.any_eq_false] at h
  simpa [hkj] using h j (List.mem_range.mpr hj)

theorem leadsOp_mono {k k' : Nat} (hk : k ≤ k') {d : Char} (h : leadsOp k d = false) :
    leadsOp k' d = false := by
  simp only [leadsOp, List.any_eq_false, Bool.and_eq_true, decide_eq_true_eq] at h ⊢
  exact fun j hj hc => h j hj ⟨by omega, hc.2⟩

theorem all_head_iff {o : Option Char} {f : Char → Bool} :
    o.all f = true ↔ ∀ d ∈ o, f d = true := by
  cases o <;> simp [Option.all]

theorem Ends.delim {k : Nat} {r : List Char} (h : Ends k r = true) :
    ∀ d ∈ r.head?, (spChar.classAccepts d || d == ')' || d == ',') = true := by
  simp only [Ends, Bool.and_eq_true, all_head_iff] at h
  exact h.1

theorem Ends.stop {k : Nat} {r : List Char} (h : Ends k r = true) :
    ∀ d ∈ (dropSpaces r).head?, d ≠ '(' ∧ leadsOp k d = false := by
  simp only [Ends, Bool.and_eq_true, all_head_iff] at h
  intro d hd
  simpa using h.2 d hd

theorem Ends.mono {k k' : Nat} {r : List Char} (h : Ends k r = true) (hk : k ≤ k') :
    Ends k' r = true := by
  simp only [Ends, Bool.and_eq_true, all_head_iff] at h ⊢
  refine ⟨h.1, fun d hd => ?_⟩
  have := h.2 d hd
  simp only [Bool.and_eq_true, bne_iff_ne, ne_eq, Bool.not_eq_true'] at this ⊢
  exact ⟨this.1, leadsOp_mono hk this.2⟩

theorem Ends.cons_space {k : Nat} {r : List Char} (h : Ends k r = true) :
    Ends k (' ' :: r) = true := by
  simp only [Ends, Bool.and_eq_true] at h ⊢
  rw [(spaces_cons_space r).2]
  exact ⟨rfl, h.2⟩

theorem delim_stops {d : Char} (h : (spChar.classAccepts d || d == ')' || d == ',') = true) :
    Rule.identTail.classAccepts d = false ∧ digit.classAccepts d = false ∧ d ≠ '.' ∧
      d ≠ quote ∧ d.toNat < 65 := by
  have : d = ' ' ∨ d = Char.ofNat 9 ∨ d = Char.ofNat 10 ∨ d = ')' ∨ d = ',' := by
    simpa [spChar, Peg.alts, Peg.classAccepts, Peg.accepts, or_assoc] using h
  rcases this with rfl | rfl | rfl | rfl | rfl <;> decide

section Rungs

variable {buffer : List Char} {p : Nat} {w r : List Char} {e : Expression}

/-- The rule `x` reads the printed text `w` of `e` from `p`, with some of the spaces after it,
and leaves one fragment of positive length for `e`. -/
def ReadsExpr (buffer : List Char) (x : Rule) (p : Nat) (w r : List Char) (e : Expression) :
    Prop :=
  ∃ n ≤ spaces r, ∃ b e', b < e' ∧
    Reads buffer (.call x) ⟨p, w ++ r⟩ ⟨p + w.length + n, r.drop n⟩ [⟨b, e', .expr e⟩]

theorem ReadsExpr.lift {k : Nat} (hk : k < 5) (h : ReadsExpr buffer (ladder (k + 1)) p w r e)
    (hw : w ≠ []) (hop : ∀ d ∈ (dropSpaces r).head?, opLead k d = false) :
    ReadsExpr buffer (ladder k) p w r e := by
  obtain ⟨n, hn, b, e', hbe, hx⟩ := h
  have hX : Reads buffer (.seqs (.call (ladder (k + 1))) [Rule.sp',
      .opt (.seqs (.call (opRule k)) [Rule.sp', .call (ladder (k + 1))])])
      ⟨p, w ++ r⟩ ⟨p + w.length + spaces r, dropSpaces r⟩ ([] ++ [] ++ [⟨b, e', .expr e⟩]) :=
    hx.seq ((sp_reads_after hn _).seq (.opt_none (opRule_fail hop).seq_fail))
  have hw' := List.length_pos.mpr hw
  exact ⟨spaces r, le_rfl, p, p + w.length + spaces r, by omega,
    .span (body_ladder hk) (action_ladder hk) (fun _ _ _ => rfl) hX (by simpa using hbe) rfl⟩

/-- A tree read at rung `j` is read at every looser rung `k`, when no operator of rung `k` or
tighter follows it. -/
theorem ReadsExpr.descend {j k : Nat} (hkj : k ≤ j) (hj : j ≤ 5)
    (h : ReadsExpr buffer (ladder j) p w r e) (hw : w ≠ [])
    (hop : ∀ d ∈ (dropSpaces r).head?, leadsOp k d = false) :
    ReadsExpr buffer (ladder k) p w r e := by
  induction j, hkj using Nat.le_induction with
  | base => exact h
  | succ n hkn ih =>
    exact ih (by omega)
      (h.lift (by omega) hw fun d hd => opLead_of_leadsOp hkn (by omega) (hop d hd))

theorem ReadsExpr.binary {op : Operator} {l x : Expression} {wl wr : List Char}
    (hl : ReadsExpr buffer (ladder (op.level + 1)) p wl
      (' ' :: (op.text.toList ++ ' ' :: (wr ++ r))) l)
    (hr : ReadsExpr buffer (ladder (op.level + 1)) (p + wl.length + 1 + op.text.toList.length + 1)
      wr r x)
    (hwr : ∀ d ∈ (wr ++ r).head?, spChar.classAccepts d = false) :
    ReadsExpr buffer (ladder op.level) p (wl ++ ' ' :: (op.text.toList ++ ' ' :: wr)) r
      (.binaryOp op l x) := by
  obtain ⟨n₁, hn₁, b₁, e₁, hbe₁, hL⟩ := hl
  obtain ⟨n₂, hn₂, b₂, e₂, hbe₂, hR⟩ := hr
  have hk := op.level_lt
  have hO := op.text_pos
  have hS₁ : Reads buffer (.call .sp) _ _ [] := sp_reads_after hn₁ (p + wl.length)
  rw [(spaces_before_op op _).1, (spaces_before_op op _).2] at hS₁
  have hOp : Reads buffer _ _ _ _ :=
    Reads.leaf (opRule_reads op (p + wl.length + 1) (wr ++ r)) (Nat.le_add_right _ _)
  have hX := hL.seq (hS₁.seq (Reads.opt_some (hOp.seq ((sp_one hwr _).seq hR))))
  refine ⟨n₂, hn₂, p, p + wl.length + 1 + op.text.toList.length + 1 + wr.length + n₂, by omega, ?_⟩
  rw [show (wl ++ ' ' :: (op.text.toList ++ ' ' :: wr)) ++ r =
      wl ++ ' ' :: (op.text.toList ++ ' ' :: (wr ++ r)) by simp,
    show p + (wl ++ ' ' :: (op.text.toList ++ ' ' :: wr)).length + n₂ =
      p + wl.length + 1 + op.text.toList.length + 1 + wr.length + n₂ by simp; omega]
  refine .span (body_ladder hk) (action_ladder hk) (fun _ _ _ => rfl) hX ?_ rfl
  intro y hy
  simp only [List.mem_append, List.mem_singleton, List.not_mem_nil, or_false] at hy
  rcases hy with (rfl | rfl) | rfl <;> dsimp only <;> omega

end Rungs

end SensorBee.Parser
