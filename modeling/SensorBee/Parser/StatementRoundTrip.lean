import SensorBee.Parser.SelectRoundTrip

/-!
# Printing any statement and parsing it back

`Statement.render` lays each of the seven statements out as its rule in `bql.peg` does, one space
for each `sp`. For every printable statement `Parse` accepts the text and `Execute` leaves that
statement alone on the stack (`statement_render_parses`). A statement is read piece by piece in the
order of its rule's body; the alternatives of `Statement` before its own fail at the first word
where the two rules differ.
-/
namespace SensorBee.Parser

def isParamVal (v : List Char) : Bool := !v.isEmpty && v.all Rule.identTail.classAccepts

def paramsPrintable (ps : List (String × String)) : Bool :=
  ps.all fun p => isIdent p.1.toList && isParamVal p.2.toList

/-- A window names no relation and has no range, or has a range over one or more relations. -/
def WindowedFromAST.printable (w : WindowedFromAST) : Bool :=
  match w.range with
  | none => w.relations.isEmpty
  | some r => !w.relations.isEmpty && (w.relations.all fun r => isIdent r.toList) &&
    fitsInt64 r.value

/-- The statements whose printed text the grammar reads back. -/
def Statement.printable : Statement → Bool
  | .select s => s.printable
  | .createStreamAsSelect n _ ps w f g h =>
    isIdent n.toList && SelectStmt.printable ⟨ps, w.relations, f, g, h⟩ && w.printable
  | .createSource n t ps | .createSink n t ps =>
    isIdent n.toList && isIdent t.toList && paramsPrintable ps
  | .createStreamFromSource r s => isIdent r.toList && isIdent s.toList
  | .createStreamFromSourceExt r t ps =>
    isIdent r.toList && isIdent t.toList && (matchWord "SOURCE".toList t.toList).isNone &&
      paramsPrintable ps
  | .insertIntoSelect n s => isIdent n.toList && s.printable

def paramItems (ps : List (String × String)) : List (List Char × Component) :=
  ps.map fun p => (p.1.toList ++ '=' :: p.2.toList, .sourceSinkParamAST p.1 p.2)

@[simp] theorem paramItems_snd (ps : List (String × String)) :
    (paramItems ps).map Prod.snd = ps.map fun p => .sourceSinkParamAST p.1 p.2 := by
  simp [paramItems]

theorem specsText_cons (k v : String) (ps : List (String × String)) :
    (specsText ((k, v) :: ps)).toList =
      "WITH".toList ++
        ' ' :: ((k.toList ++ '=' :: v.toList) ++ ' ' :: commaTail (paramItems ps)) := by
  simp [specsText, String.join, foldl_append_data, commaTail, paramItems, Function.comp_def]

theorem windowedFrom_render_some (r : String) (rs : List String) (v : Int) (u : RangeUnit) :
    (WindowedFromAST.render ⟨r :: rs, some ⟨v, u⟩⟩).toList = "FROM".toList ++ ' ' ::
      (r.toList ++ ' ' :: (commaTail (relItems rs) ++ ' ' :: '[' :: ' ' :: ("RANGE".toList ++
        ' ' :: ((toString v).toList ++ ' ' :: (u.text.toList ++ [' ', ']']))))) := by
  simp [WindowedFromAST.render, show (commaText (r :: rs)).data = _ from commaText_rels r rs]

theorem render_createStreamAsSelect (n : String) (em : Emitter) (ps : List Expression)
    (w : WindowedFromAST) (f : Option Expression) (g : List Expression) (h : Option Expression) :
    (Statement.createStreamAsSelect n em ps w f g h).render.toList =
      "CREATE".toList ++ ' ' :: ("STREAM".toList ++ ' ' :: (n.toList ++ ' ' :: ("AS".toList ++
      ' ' :: ("SELECT".toList ++ ' ' :: ((em.text.toList ++ ' ' :: '(' ::
      ((commaText (Expression.renderAll ps)).toList ++ [')'])) ++ ' ' :: (w.render.toList ++
      ' ' :: ((clauseText "WHERE" (f.map (·.render))).toList ++
      ' ' :: ((listClause "GROUP BY" (Expression.renderAll g)).toList ++
      ' ' :: ((clauseText "HAVING" (h.map (·.render))).toList ++ [' ']))))))))) := by
  simp [Statement.render]

theorem render_createSource (n t : String) (ps : List (String × String)) :
    (Statement.createSource n t ps).render.toList = "CREATE".toList ++ ' ' :: ("SOURCE".toList ++
      ' ' :: (n.toList ++ ' ' :: ("TYPE".toList ++ ' ' ::
        (t.toList ++ ' ' :: (specsText ps).toList)))) := by
  simp [Statement.render]

theorem render_createSink (n t : String) (ps : List (String × String)) :
    (Statement.createSink n t ps).render.toList = "CREATE".toList ++ ' ' :: ("SINK".toList ++
      ' ' :: (n.toList ++ ' ' :: ("TYPE".toList ++ ' ' ::
        (t.toList ++ ' ' :: (specsText ps).toList)))) := by
  simp [Statement.render]

theorem render_createStreamFromSource (r s : String) :
    (Statement.createStreamFromSource r s).render.toList = "CREATE".toList ++ ' ' ::
      ("STREAM".toList ++ ' ' :: (r.toList ++ ' ' :: ("FROM".toList ++ ' ' :: ("SOURCE".toList ++
        ' ' :: (s.toList ++ []))))) := by
  simp [Statement.render]

theorem render_createStreamFromSourceExt (r t : String) (ps : List (String × String)) :
    (Statement.createStreamFromSourceExt r t ps).render.toList = "CREATE".toList ++ ' ' ::
      ("STREAM".toList ++ ' ' :: (r.toList ++ ' ' :: ("FROM".toList ++ ' ' :: (t.toList ++ ' ' ::
        ("SOURCE".toList ++ ' ' :: (specsText ps).toList))))) := by
  simp [Statement.render]

theorem render_insertIntoSelect (n : String) (s : SelectStmt) :
    (Statement.insertIntoSelect n s).render.toList =
      "INSERT".toList ++ ' ' :: ("INTO".toList ++ ' ' :: (n.toList ++ ' ' :: s.render.toList)) := by
  simp [Statement.render]

section Pieces

variable {buffer : List Char}

theorem Reads.seq_fail {a b : Peg Rule} {c c₁ : Cursor} {o : List ParsedComponent}
    (ha : Reads buffer a c c₁ o) (hb : bqlPeg.Returns b c₁ .fail) :
    bqlPeg.Returns (.seq a b) c .fail :=
  let ⟨_, r, _⟩ := ha; r.seq hb

theorem ident_head {n : List Char} (hn : isIdent n = true) (t : List Char) :
    ∀ d ∈ (n ++ t).head?, spChar.classAccepts d = false := by
  obtain ⟨d, ds, hd, h65, -⟩ := isIdent_head hn
  exact head_not_sp hd (by omega) t

theorem name_leaf (X : Rule) {l : Leaf} {n r : List Char} {q : Nat}
    (hb : Rule.body X = .capture (.call .ident)) (ha : Rule.action X = some (.pushComponent l))
    (hn : isIdent n = true) (hr : ∀ d ∈ r.head?, Rule.identTail.classAccepts d = false)
    (hq : buffer.drop q = n ++ r) :
    Reads buffer (.call X) ⟨q, n ++ r⟩ ⟨q + n.length, r⟩ [⟨q, q + n.length, l.build n⟩] :=
  .push hb ha (.nil (ident_reads hn hr q)) (by rw [substr_of_drop hq])

theorem name_reads (X : Rule) {l : Leaf} {n T : List Char} {Y : Peg Rule} {q : Nat}
    {c' : Cursor} {o : List ParsedComponent} (hb : Rule.body X = .capture (.call .ident))
    (ha : Rule.action X = some (.pushComponent l)) (hn : isIdent n = true)
    (hq : buffer.drop q = n ++ ' ' :: T) (hT : ∀ d ∈ T.head?, spChar.classAccepts d = false)
    (h : Reads buffer Y ⟨q + n.length + 1, T⟩ c' o) :
    Reads buffer (.seq (.call X) (.seq Rule.sp' Y)) ⟨q, n ++ ' ' :: T⟩ c'
      (o ++ [⟨q, q + n.length, l.build n⟩]) :=
  (name_leaf X hb ha hn (fun _ h => by cases h; rfl) hq).seq ((sp_one hT _).seq_nil h)

theorem wordLeaf_reads {X : Rule} {s : String} {l : Leaf} {x : Component} {q : Nat}
    {r : List Char} (hb : Rule.body X = .capture (.word s))
    (ha : Rule.action X = some (.pushComponent l)) (hx : ∀ t, l.build t = x) :
    Reads buffer (.call X) ⟨q, s.toList ++ r⟩ ⟨q + s.length, r⟩ [⟨q, q + s.length, x⟩] :=
  .push hb ha (.nil (Grammar.Returns.word (matchWord_append_self _ _))) (hx _)

theorem keyword_fail {X : Rule} {kw : String} {Y : Peg Rule} {k : Char} {ks : List Char}
    {c : Cursor} (hb : Rule.body X = .seq (.word kw) Y) (hkw : kw.toList = k :: ks)
    (h : ∀ d ∈ c.rest.head?, foldEq k d = false) : bqlPeg.Returns (.call X) c .fail :=
  .call_fail ((show bqlPeg.body X = _ from hb) ▸
    .seq_fail (.word_fail (hkw ▸ matchWord_cons_none h)))

theorem keyword_fail_after {kw : String} {Y : Peg Rule} {q : Nat} {T : List Char}
    (hT : ∀ d ∈ T.head?, spChar.classAccepts d = false)
    (h : bqlPeg.Returns Y ⟨q + kw.length + 1, T⟩ .fail) :
    bqlPeg.Returns (.seq (.word kw) (.seq Rule.sp' Y)) ⟨q, kw.toList ++ ' ' :: T⟩ .fail := by
  have hw : Reads [] (.word kw) ⟨q, kw.toList ++ ' ' :: T⟩ ⟨q + kw.length, ' ' :: T⟩ [] :=
    .nil (Grammar.Returns.word (matchWord_append_self _ _))
  have hs : Reads [] (.call .sp) ⟨q + kw.length, ' ' :: T⟩ ⟨q + kw.length + 1, T⟩ [] := sp_one hT _
  exact hw.seq_fail (hs.seq_fail h)

theorem name_fail_after (X : Rule) {l : Leaf} {n T : List Char} {Y : Peg Rule} {q : Nat}
    (hb : Rule.body X = .capture (.call .ident)) (ha : Rule.action X = some (.pushComponent l))
    (hn : isIdent n = true) (hT : ∀ d ∈ T.head?, spChar.classAccepts d = false)
    (h : bqlPeg.Returns Y ⟨q + n.length + 1, T⟩ .fail) :
    bqlPeg.Returns (.seq (.call X) (.seq Rule.sp' Y)) ⟨q, n ++ ' ' :: T⟩ .fail := by
  have hx : Reads (List.replicate q ' ' ++ n ++ ' ' :: T) (.call X) ⟨q, n ++ ' ' :: T⟩
      ⟨q + n.length, ' ' :: T⟩ _ :=
    name_leaf X hb ha hn (fun _ h => by cases h; rfl) (by simp)
  have hs : Reads (List.replicate q ' ' ++ n ++ ' ' :: T) (.call .sp) ⟨q + n.length, ' ' :: T⟩
      ⟨q + n.length + 1, T⟩ [] := sp_one hT _
  exact hx.seq_fail (hs.seq_fail h)

end Pieces

section Params

variable {buffer : List Char}

theorem paramVal_reads {v r : List Char} (hv : isParamVal v = true)
    (hr : ∀ d ∈ r.head?, Rule.identTail.classAccepts d = false) (p : Nat) :
    bqlPeg.Returns (.plus Rule.identTail) ⟨p, v ++ r⟩ (.ok ⟨p + v.length, r⟩ []) := by
  obtain _ | ⟨d, ds⟩ := v
  · cases hv
  · simp only [isParamVal, List.isEmpty_cons, Bool.not_false, Bool.true_and, List.all_cons,
      Bool.and_eq_true, List.all_eq_true] at hv
    have h : bqlPeg.Returns Rule.identTail ⟨p, d :: (ds ++ r)⟩ _ := .class_cons (by rfl)
    rw [hv.1, if_pos rfl] at h
    have h' := h.plus (star_class_stop (by rfl) hv.2 hr (p + 1))
    rwa [List.cons_append, List.length_cons, ← Nat.add_assoc, Nat.add_right_comm]

theorem param_itemReads {k v : String} (hk : isIdent k.toList = true)
    (hv : isParamVal v.toList = true) :
    ItemReads buffer .sourceSinkParam (k.toList ++ '=' :: v.toList) (.sourceSinkParamAST k v) := by
  obtain ⟨d, ds, hd, h65, -⟩ := isIdent_head hk
  refine ⟨⟨d, ds ++ '=' :: v.toList, by rw [hd]; rfl, spChar_of_gt (by omega)⟩,
    fun p r hr hbuf => ?_⟩
  rw [List.append_assoc, List.cons_append] at hbuf ⊢
  have hkey : Reads buffer (.call .sourceSinkParamKey) ⟨p, k.toList ++ '=' :: (v.toList ++ r)⟩
      ⟨p + k.toList.length, '=' :: (v.toList ++ r)⟩
      [⟨p, p + k.toList.length, .sourceSinkParamKey k⟩] :=
    name_leaf .sourceSinkParamKey rfl rfl hk (fun _ h => by cases h; rfl) hbuf
  have heq : Reads buffer (.char '=') ⟨p + k.toList.length, '=' :: (v.toList ++ r)⟩
      ⟨p + k.toList.length + 1, v.toList ++ r⟩ [] := .nil .char
  have hval : Reads buffer (.call .sourceSinkParamVal) ⟨p + k.toList.length + 1, v.toList ++ r⟩
      ⟨p + k.toList.length + 1 + v.toList.length, r⟩
      [⟨p + k.toList.length + 1, p + k.toList.length + 1 + v.toList.length,
        .sourceSinkParamVal v⟩] :=
    .push rfl rfl (.nil (paramVal_reads hv (fun d hd => (delim_stops (Ends.delim hr d hd)).1) _))
      (by rw [substr_of_drop ((hkey.seq heq).on_buffer hbuf)]; rfl)
  refine ⟨0, Nat.zero_le _, p, p + k.toList.length + 1 + v.toList.length, by omega, ?_⟩
  rw [show p + (k.toList ++ '=' :: v.toList).length + 0 =
    p + k.toList.length + 1 + v.toList.length by simp; omega]
  exact .fixed rfl (hkey.seq (heq.seq_nil hval)) (fun _ _ _ => rfl)
    ⟨le_rfl, by dsimp only; omega, le_rfl⟩

theorem mapM_asParam (ps : List (String × String)) :
    (ps.map fun p => Component.sourceSinkParamAST p.1 p.2).mapM Component.asParam = some ps := by
  induction ps with
  | nil => rfl
  | cons p ps ih => rw [List.map_cons, List.mapM_cons, ih]; rfl

theorem specs_reads {ps : List (String × String)} (hps : paramsPrintable ps = true) {q : Nat}
    (hq : buffer.drop q = (specsText ps).toList) :
    ∃ e, Reads buffer (.call .sourceSinkSpecs) ⟨q, (specsText ps).toList⟩ ⟨e, []⟩
      [⟨q, e, .sourceSinkSpecsAST ps⟩] := by
  cases ps with
  | nil => exact ⟨q, clause_absent (by rfl) (by rfl) (fun _ _ _ => by rfl)
      (.seq_fail (.word_fail (by rfl))) (by rfl)⟩
  | cons p ps =>
    obtain ⟨k, v⟩ := p
    simp only [paramsPrintable, List.all_cons, Bool.and_eq_true, List.all_eq_true] at hps
    obtain ⟨⟨hk, hv⟩, hps⟩ := hps
    rw [specsText_cons] at hq ⊢
    have hxs : ∀ i ∈ paramItems ps, ItemReads buffer .sourceSinkParam i.1 i.2 := fun i hi => by
      obtain ⟨p, hp, rfl⟩ := List.mem_map.mp hi
      exact param_itemReads (hps p hp).1 (hps p hp).2
    have hbuf : buffer.drop (q + "WITH".length + 1) =
        (k.toList ++ '=' :: v.toList) ++ ([' '] ++ (commaTail (paramItems ps) ++ [])) := by
      rw [keyword_drop hq]; simp
    obtain ⟨n, -, o, hl, hmap, hne⟩ :=
      commaList_reads (param_itemReads hk hv) hxs (.inr rfl) (by rfl) (fun _ h => by cases h) hbuf
    obtain ⟨d, ds, hd, hd'⟩ := (param_itemReads hk hv : ItemReads buffer _ _ _).head
    simp only [List.append_nil, List.drop_nil] at hl
    refine ⟨_, .span (by rfl) (by rfl) (fun _ _ _ => by rfl)
      (.opt_some (keyword_reads (by rw [hd]; intro d' h'; cases h'; exact hd') hl)) hne ?_⟩
    rw [hmap, paramItems_snd]
    show ((((k, v) :: ps).map fun p => Component.sourceSinkParamAST p.1 p.2).mapM
      Component.asParam).map _ = _
    rw [mapM_asParam]; rfl

end Params

section Windows

variable {buffer : List Char}

theorem emitter_head (em : Emitter) (r : List Char) :
    ∀ d ∈ (em.text.toList ++ r).head?, spChar.classAccepts d = false := by
  cases em <;> intro d h <;> cases h <;> rfl

theorem rangeUnit_head (u : RangeUnit) (r : List Char) :
    ∀ d ∈ (u.text.toList ++ r).head?, spChar.classAccepts d = false := by
  cases u <;> intro d h <;> cases h <;> rfl

theorem emitter_reads (em : Emitter) {q : Nat} {r : List Char} :
    Reads buffer (.call .emitter) ⟨q, em.text.toList ++ r⟩ ⟨q + em.text.length, r⟩
      [⟨q, q + em.text.length, .emitter em⟩] := by
  cases em with
  | istream => exact .call rfl (.alt_ok (wordLeaf_reads rfl rfl fun _ => rfl))
  | dstream => exact .call rfl (.alt_fail (word_rule_fail rfl rfl fun _ h => by cases h; rfl)
      (.alt_ok (wordLeaf_reads rfl rfl fun _ => rfl)))
  | rstream => exact .call rfl (.alt_fail (word_rule_fail rfl rfl fun _ h => by cases h; rfl)
      (.alt_fail (word_rule_fail rfl rfl fun _ h => by cases h; rfl)
        (wordLeaf_reads rfl rfl fun _ => rfl)))

theorem rangeUnit_reads (u : RangeUnit) {q : Nat} {r : List Char} :
    Reads buffer (.call .rangeUnit) ⟨q, u.text.toList ++ r⟩ ⟨q + u.text.length, r⟩
      [⟨q, q + u.text.length, .rangeUnit u⟩] := by
  cases u with
  | tuples => exact .call rfl (.alt_ok (wordLeaf_reads rfl rfl fun _ => rfl))
  | seconds => exact .call rfl (.alt_fail (word_rule_fail rfl rfl fun _ h => by cases h; rfl)
      (wordLeaf_reads rfl rfl fun _ => rfl))

theorem range_reads (v : Int) (u : RangeUnit) {q : Nat} {r : List Char}
    (hq : buffer.drop q = (toString v).toList ++ ' ' :: (u.text.toList ++ r)) :
    ∃ e, q < e ∧ Reads buffer (.call .range)
      ⟨q, (toString v).toList ++ ' ' :: (u.text.toList ++ r)⟩ ⟨e, r⟩
      [⟨q, e, .rangeAST ⟨v, u⟩⟩] := by
  obtain ⟨s, l, hv, hs, hl, hval⟩ := toString_int v
  rw [hv] at hq ⊢
  have hu := (numeric_push hs hl (fun _ h => by cases h; rfl) hq).seq
    ((sp_one (rangeUnit_head u r) _).seq_nil (rangeUnit_reads u))
  rw [hval] at hu
  exact ⟨_, by omega, span_fixed (show Rule.action .range = some .assembleRange from rfl) hu rfl rfl
    fun _ _ _ => rfl⟩

theorem windowedFromClause_range (cs : List Component) (r : RangeAST) :
    windowedFromClause (cs ++ [.rangeAST r]) =
      (nonEmptyItems Component.asRelation cs).map (.windowedFromAST ⟨·, some r⟩) := by
  rw [windowedFromClause, List.getLast?_concat, List.dropLast_concat]

theorem toString_head (v : Int) (r : List Char) :
    ∀ d ∈ ((toString v).toList ++ r).head?, spChar.classAccepts d = false := by
  obtain ⟨s, l, hv, hs, hl, -⟩ := toString_int v
  obtain ⟨d, ds, rfl, hd⟩ := isDigits_head hl
  rw [hv]
  rcases hs with rfl | rfl <;> intro x h <;> cases h
  · exact spChar_of_gt (by have := digit_toNat hd; omega)
  · rfl

theorem rangeClause_reads (v : Int) (u : RangeUnit) {p : Nat} {R : List Char}
    (hp : buffer.drop p = '[' :: ' ' :: ("RANGE".toList ++ ' ' :: ((toString v).toList ++ ' ' ::
      (u.text.toList ++ ' ' :: ']' :: R)))) :
    ∃ b e, b < e ∧ Reads buffer (.seq (.char '[') (.seq Rule.sp' (.seq (.word "RANGE")
      (.seq Rule.sp' (.seq (.call .range) (.seq Rule.sp' (.char ']')))))))
      ⟨p, '[' :: ' ' :: ("RANGE".toList ++ ' ' :: ((toString v).toList ++ ' ' ::
        (u.text.toList ++ ' ' :: ']' :: R)))⟩ ⟨e + 1 + 1, R⟩ [⟨b, e, .rangeAST ⟨v, u⟩⟩] := by
  obtain ⟨e, he, hrg⟩ := range_reads v u (keyword_drop (drop_succ (drop_succ hp)))
  exact ⟨_, e, he, (Reads.nil .char).seq_nil ((sp_one (fun _ h => by cases h; rfl) _).seq_nil
    (keyword_reads (toString_head v _)
      (hrg.seq ((sp_one (fun _ h => by cases h; rfl) _).seq_nil (.nil .char)))))⟩

theorem windowedFrom_pair {w : WindowedFromAST} {R : List Char} (hw : w.printable = true)
    (hF : ∀ d ∈ (dropSpaces R).head?, foldEq 'F' d = false) :
    PairReads buffer .windowedFrom w.render.toList R (.windowedFromAST w) := by
  obtain ⟨rels, _ | ⟨v, u⟩⟩ := w
  · obtain rfl : rels = [] := by simpa [WindowedFromAST.printable] using hw
    exact pair_absent (by rfl) (by rfl) (fun _ _ _ => by rfl) (by rfl) (by rfl) hF
  obtain _ | ⟨r, rs⟩ := rels
  · simp [WindowedFromAST.printable] at hw
  simp only [WindowedFromAST.printable, List.isEmpty_cons, Bool.not_false, Bool.true_and,
    Bool.and_eq_true, List.all_eq_true] at hw
  replace hw := hw.1
  rw [windowedFrom_render_some]
  intro q hq
  simp only [List.append_assoc, List.cons_append, List.nil_append] at hq ⊢
  rw [dropSpaces_keyword (show "FROM".toList = 'F' :: "ROM".toList from rfl) rfl] at hq ⊢
  obtain ⟨n, hn, o, hl, hmap, hne⟩ :=
    commaList_reads (relation_itemReads (hw r (List.mem_cons_self _ _)))
      (relItems_itemReads fun x hx => hw x (List.mem_cons_of_mem _ hx)) (.inr rfl) (by rfl)
      (fun _ h => by cases h; decide) (keyword_drop hq)
  have hs : Reads buffer _ _ _ _ := sp_reads_after hn
    (q + "FROM".length + 1 + r.toList.length + [' '].length + (commaTail (relItems rs)).length)
  obtain ⟨b, e, hbe, hrg⟩ := rangeClause_reads v u ((hl.seq hs).on_buffer (keyword_drop hq))
  have hY := keyword_reads (ident_head (hw r (List.mem_cons_self _ _)) _)
    ((Reads.call (show Rule.action .relations = none from rfl) hl).seq (hs.seq_nil hrg))
  have hX : Reads buffer (.call .windowedFrom) _ _ _ :=
    .span (by rfl) (by rfl) (fun _ _ _ => by rfl) (.opt_some hY)
    (fun p hp => by
      rcases List.mem_append.mp hp with hp | hp
      · cases List.mem_singleton.mp hp; exact hbe
      · exact hne p hp)
    (by
      rw [List.reverse_append, List.map_append, hmap, relItems_snd, ← List.map_cons,
        List.reverse_singleton, List.map_singleton, windowedFromClause_range]
      show (((r :: rs).map Component.relation).mapM Component.asRelation).map _ = _
      rw [mapM_asRelation]; rfl)
  have hS : Reads buffer (.call .sp) ⟨e + 1 + 1, R⟩ _ _ := sp_reads _ R
  exact ⟨0, Nat.zero_le _, _, _, _, _, (hX.seq hS).on_buffer hq, hX, hS⟩

theorem emitProjections_pair (em : Emitter) {e : Expression} {es : List Expression}
    {R : List Char} (hes : Expression.printableAll (e :: es) = true) :
    PairReads buffer .emitProjections (em.text.toList ++ ' ' :: '(' ::
      ((commaText (Expression.renderAll (e :: es))).toList ++ [')'])) R
      (.emitProjectionsAST em (e :: es)) := by
  obtain ⟨d, ds, hd, hd32⟩ := renderIn_head e (Bool.and_eq_true _ _ |>.mp hes).1 none
  have hP : ∀ t u, ∀ d' ∈ ((e.renderIn none).toList ++ t ++ u).head?,
      spChar.classAccepts d' = false := by
    intro t u; rw [List.append_assoc]; exact head_not_sp hd hd32 _
  intro q hq
  rw [commaText_exprs] at hq ⊢
  simp only [List.append_assoc, List.cons_append, List.singleton_append, List.nil_append] at hq ⊢
  rw [(spaces_of_head (emitter_head em _)).2] at hq ⊢
  have hq₁ : buffer.drop (q + em.text.toList.length + 1 + 1) =
      dropSpaces ((e.renderIn none).toList ++ ([' '] ++ argsTail es) ++ ')' :: R) := by
    rw [(spaces_of_head (hP _ _)).2, List.append_assoc]
    exact drop_succ (drop_succ (drop_of_drop hq))
  obtain ⟨n, hn, b, -, i, j, -, hX, -⟩ := projections_pair hes (.inr rfl) (ends_close R)
    (fun _ h => by cases h; decide) _ hq₁
  obtain rfl : n = 0 := Nat.le_zero.mp hn
  rw [(spaces_of_head (hP _ _)).2, List.append_assoc] at hX
  have hB : Reads buffer (.call .emitProjections) _ ⟨b + 1, R⟩ _ :=
    span_fixed rfl ((emitter_reads em).seq ((sp_one (fun _ h => by cases h; rfl) _).seq_nil
      ((Reads.nil .char).seq_nil (hX.seq (.nil .char))))) rfl rfl fun _ _ _ => rfl
  have hS : Reads buffer (.call .sp) ⟨b + 1, R⟩ _ _ := sp_reads _ R
  exact ⟨0, Nat.zero_le _, _, _, _, _, (hB.seq hS).on_buffer hq, hB, hS⟩

end Windows

section Statements

variable {buffer : List Char}

theorem specs_head (ps : List (String × String)) :
    ∀ d ∈ (specsText ps).toList.head?, spChar.classAccepts d = false := by
  cases ps with
  | nil => intro d h; cases h
  | cons p ps => rw [specsText_cons]; intro d h; cases h; rfl

theorem createStreamAsSelect_reads {n : String} {em : Emitter} {ps : List Expression}
    {w : WindowedFromAST} {f : Option Expression} {gs : List Expression} {h : Option Expression}
    (hs : (Statement.createStreamAsSelect n em ps w f gs h).printable = true) {p : Nat}
    (hp : buffer.drop p = (Statement.createStreamAsSelect n em ps w f gs h).render.toList) :
    ∃ q x, Reads buffer (.call .createStreamAsSelectStmt)
      ⟨p, (Statement.createStreamAsSelect n em ps w f gs h).render.toList⟩ ⟨q, []⟩ [x] ∧
      x.comp = .statement (.createStreamAsSelect n em ps w f gs h) := by
  simp only [Statement.printable, SelectStmt.printable, Bool.and_eq_true, Bool.not_eq_true',
    List.isEmpty_eq_false, List.all_eq_true] at hs
  obtain ⟨⟨hn, ⟨⟨⟨⟨hne, hps⟩, -⟩, hf⟩, hgs⟩, hh⟩, hw⟩ := hs
  rcases ps with _ | ⟨e, es⟩
  · exact absurd rfl hne
  have L₃ := Leads.clause (clauseText_lead "HAVING" rfl (h.map (·.render))) rfl leads_last
  have L₂ := Leads.clause (listClause_lead "GROUP BY" rfl (Expression.renderAll gs)) rfl L₃
  have L₁ := Leads.clause (clauseText_lead "WHERE" rfl (f.map (·.render))) rfl L₂
  have hch : ClausesRead buffer _ _ _ _ := .cons (emitProjections_pair em hps)
    (spaces_cons_space _).2 <| .cons
    (windowedFrom_pair hw (L₁.forall (by decide)))
    (spaces_cons_space _).2 <| .cons
    (filter_pair hf (L₂.ends (by decide)) (L₂.forall (by decide)))
    (spaces_cons_space _).2 <| .cons
    (grouping_pair hgs (L₃.ends (by decide)) (L₃.forall (by decide)) (L₃.forall (by decide)))
    (spaces_cons_space _).2 <| .last
    (having_pair hh (show Ends 0 [' '] = true from rfl) fun _ h => by cases h) rfl
  rw [render_createStreamAsSelect] at hp ⊢
  simp only [List.append_assoc, List.cons_append, List.nil_append] at hch hp ⊢
  rw [(spaces_of_head (emitter_head em _)).2] at hch
  have d₂ := keyword_drop (keyword_drop hp)
  obtain ⟨q, o, hr, hmap⟩ := hch.reads (keyword_drop (keyword_drop (drop_past d₂)))
  obtain ⟨b₀, e₀, b₁, e₁, b₂, e₂, b₃, e₃, b₄, e₄, rfl⟩ := comps_eq_five hmap
  exact ⟨q, _, span_fixed rfl (keyword_reads (fun _ h => by cases h; rfl)
    (keyword_reads (ident_head hn _) (name_reads .relation rfl rfl hn d₂
      (fun _ h => by cases h; rfl) (keyword_reads (fun _ h => by cases h; rfl)
        (keyword_reads (emitter_head em _) hr)))))
    rfl rfl fun _ _ _ => rfl, rfl⟩

theorem sourceSinkStmt_reads (X : Rule) {act : Action} {kw : String}
    {mk : String → String → List (String × String) → Statement}
    (hb : Rule.body X = .seq (.word "CREATE") (.seq Rule.sp' (.seq (.word kw) (.seq Rule.sp'
      (.seq (.call .sourceSinkName) (.seq Rule.sp' (.seq (.word "TYPE") (.seq Rule.sp'
        (.seq (.call .sourceSinkType) (.seq Rule.sp' (.call .sourceSinkSpecs)))))))))))
    (ha : Rule.action X = some act)
    (hrun : ∀ b e i₁ j₁ i₂ j₂ i₃ j₃ n t ps st, runAction withinSpanNonEmpty buffer b e act
      (⟨i₃, j₃, .sourceSinkSpecsAST ps⟩ :: ⟨i₂, j₂, .sourceSinkType t⟩ ::
        ⟨i₁, j₁, .sourceSinkName n⟩ :: st) = some (⟨i₁, j₃, .statement (mk n t ps)⟩ :: st))
    (hkw : ∀ T, ∀ d ∈ (kw.toList ++ T).head?, spChar.classAccepts d = false)
    {n t : String} {ps : List (String × String)} (hn : isIdent n.toList = true)
    (ht : isIdent t.toList = true) (hps : paramsPrintable ps = true) {p : Nat}
    (hp : buffer.drop p = "CREATE".toList ++ ' ' :: (kw.toList ++ ' ' :: (n.toList ++ ' ' ::
      ("TYPE".toList ++ ' ' :: (t.toList ++ ' ' :: (specsText ps).toList))))) :
    ∃ q x, Reads buffer (.call X) ⟨p, "CREATE".toList ++ ' ' :: (kw.toList ++ ' ' ::
      (n.toList ++ ' ' :: ("TYPE".toList ++ ' ' :: (t.toList ++ ' ' :: (specsText ps).toList))))⟩
      ⟨q, []⟩ [x] ∧ x.comp = .statement (mk n t ps) := by
  have d₂ := keyword_drop (keyword_drop hp)
  have d₄ := keyword_drop (drop_past d₂)
  obtain ⟨e, hs⟩ := specs_reads hps (drop_past d₄)
  have hr : Reads buffer (Rule.body X) _ _ _ := hb ▸ keyword_reads (hkw _)
    (keyword_reads (ident_head hn _) (name_reads .sourceSinkName rfl rfl hn d₂
      (fun _ h => by cases h; rfl) (keyword_reads (ident_head ht _)
        (name_reads .sourceSinkType rfl rfl ht d₄ (specs_head ps) hs))))
  exact ⟨e, _, span_fixed ha hr rfl rfl fun b e st => hrun b e _ _ _ _ _ _ _ _ _ st, rfl⟩

theorem createStreamFromSource_reads {r n : String}
    (hs : (Statement.createStreamFromSource r n).printable = true) {p : Nat}
    (hp : buffer.drop p = (Statement.createStreamFromSource r n).render.toList) :
    ∃ q x, Reads buffer (.call .createStreamFromSourceStmt)
      ⟨p, (Statement.createStreamFromSource r n).render.toList⟩ ⟨q, []⟩ [x] ∧
      x.comp = .statement (.createStreamFromSource r n) := by
  simp only [Statement.printable, Bool.and_eq_true] at hs
  rw [render_createStreamFromSource] at hp ⊢
  have d₂ := keyword_drop (keyword_drop hp)
  exact ⟨_, _, span_fixed rfl (keyword_reads (fun _ h => by cases h; rfl)
    (keyword_reads (ident_head hs.1 _) (name_reads .relation rfl rfl hs.1 d₂
      (fun _ h => by cases h; rfl) (keyword_reads (fun _ h => by cases h; rfl)
        (keyword_reads (ident_head hs.2 _) (name_leaf .sourceSinkName rfl rfl hs.2
          (fun _ h => by cases h) (keyword_drop (keyword_drop (drop_past d₂)))))))))
    rfl rfl fun _ _ _ => rfl, rfl⟩

theorem createStreamFromSourceExt_reads {r t : String} {ps : List (String × String)}
    (hs : (Statement.createStreamFromSourceExt r t ps).printable = true) {p : Nat}
    (hp : buffer.drop p = (Statement.createStreamFromSourceExt r t ps).render.toList) :
    ∃ q x, Reads buffer (.call .createStreamFromSourceExtStmt)
      ⟨p, (Statement.createStreamFromSourceExt r t ps).render.toList⟩ ⟨q, []⟩ [x] ∧
      x.comp = .statement (.createStreamFromSourceExt r t ps) := by
  simp only [Statement.printable, Bool.and_eq_true] at hs
  obtain ⟨⟨⟨hr, ht⟩, -⟩, hps⟩ := hs
  rw [render_createStreamFromSourceExt] at hp ⊢
  have d₂ := keyword_drop (keyword_drop hp)
  have d₄ := keyword_drop (drop_past d₂)
  obtain ⟨e, hsp⟩ := specs_reads hps (keyword_drop (drop_past d₄))
  exact ⟨e, _, span_fixed rfl (keyword_reads (fun _ h => by cases h; rfl)
    (keyword_reads (ident_head hr _) (name_reads .relation rfl rfl hr d₂
      (fun _ h => by cases h; rfl) (keyword_reads (ident_head ht _)
        (name_reads .sourceSinkType rfl rfl ht d₄ (fun _ h => by cases h; rfl)
          (keyword_reads (specs_head ps) hsp))))))
    rfl rfl fun _ _ _ => rfl, rfl⟩

theorem insertIntoSelect_reads {n : String} {s : SelectStmt}
    (hs : (Statement.insertIntoSelect n s).printable = true) {p : Nat}
    (hp : buffer.drop p = (Statement.insertIntoSelect n s).render.toList) :
    ∃ q x, Reads buffer (.call .insertIntoSelectStmt)
      ⟨p, (Statement.insertIntoSelect n s).render.toList⟩ ⟨q, []⟩ [x] ∧
      x.comp = .statement (.insertIntoSelect n s) := by
  simp only [Statement.printable, Bool.and_eq_true] at hs
  rw [render_insertIntoSelect] at hp ⊢
  have d₂ := keyword_drop (keyword_drop hp)
  obtain ⟨q, ⟨b, e, c⟩, hsel, hx⟩ := selectStmt_reads hs.2 (drop_past d₂)
  obtain rfl : c = _ := hx
  have hT : ∀ d ∈ s.render.toList.head?, spChar.classAccepts d = false := by
    rw [selectStmt_render_toList]; intro d h; cases h; rfl
  exact ⟨q, _, span_fixed rfl (keyword_reads (fun _ h => by cases h; rfl)
    (keyword_reads (ident_head hs.1 _) (name_reads .sourceSinkName rfl rfl hs.1 d₂ hT hsel)))
    rfl rfl fun _ _ _ => rfl, rfl⟩

end Statements

section Render

theorem select_fail {c : Cursor} (h : ∀ d ∈ c.rest.head?, foldEq 'S' d = false) :
    bqlPeg.Returns (.call .selectStmt) c .fail :=
  keyword_fail rfl rfl h

theorem create_fail {X : Rule} {kw w : String} {Y : Peg Rule} {T : List Char} {q : Nat}
    (hb : Rule.body X = .seq (.word "CREATE") (.seq Rule.sp' (.seq (.word kw) Y)))
    (hT : ∀ d ∈ (w.toList ++ T).head?, spChar.classAccepts d = false)
    (hm : matchWord kw.toList (w.toList ++ T) = none) :
    bqlPeg.Returns (.call X) ⟨q, "CREATE".toList ++ ' ' :: (w.toList ++ T)⟩ .fail :=
  .call_fail ((show bqlPeg.body X = _ from hb) ▸
    keyword_fail_after hT (.seq_fail (.word_fail hm)))

theorem stream_fail {X : Rule} {Y : Peg Rule} {r T : List Char} {q : Nat}
    (hb : Rule.body X = .seq (.word "CREATE") (.seq Rule.sp' (.seq (.word "STREAM")
      (.seq Rule.sp' (.seq (.call .relation) (.seq Rule.sp' Y))))))
    (hr : isIdent r = true) (hT : ∀ d ∈ T.head?, spChar.classAccepts d = false)
    (h : bqlPeg.Returns Y ⟨q + "CREATE".length + 1 + "STREAM".length + 1 + r.length + 1, T⟩
      .fail) :
    bqlPeg.Returns (.call X)
      ⟨q, "CREATE".toList ++ ' ' :: ("STREAM".toList ++ ' ' :: (r ++ ' ' :: T))⟩ .fail :=
  .call_fail ((show bqlPeg.body X = _ from hb) ▸ keyword_fail_after (fun _ h => by cases h; rfl)
    (keyword_fail_after (ident_head hr _) (name_fail_after .relation rfl rfl hr hT h)))

/-- `Statement` reads the text of every printable statement whole and leaves that statement:
each earlier alternative fails on it, at its first keyword, at its second, or after the
stream's name. -/
theorem statement_reads_render (s : Statement) (hs : s.printable = true) :
    ∃ q x, Reads s.render.toList (.call .statement) ⟨0, s.render.toList⟩ ⟨q, []⟩ [x] ∧
      x.comp = .statement s := by
  cases s with
  | select s =>
    obtain ⟨q, x, h, hx⟩ := selectStmt_reads hs (List.drop_zero _)
    exact ⟨q, x, statement_reads (.alt_ok h), hx⟩
  | createStreamAsSelect n em ps w f g h =>
    obtain ⟨q, x, hr, hx⟩ := createStreamAsSelect_reads hs (List.drop_zero _)
    refine ⟨q, x, statement_reads (.alt_fail ?_ (.alt_ok hr)), hx⟩
    rw [render_createStreamAsSelect]
    exact select_fail fun _ h => by cases h; rfl
  | createSource n t ps =>
    simp only [Statement.printable, Bool.and_eq_true] at hs
    rw [render_createSource]
    obtain ⟨q, x, hr, hx⟩ := sourceSinkStmt_reads .createSourceStmt rfl rfl
      (fun _ _ _ _ _ _ _ _ _ _ _ _ => rfl) (fun _ _ h => by cases h; rfl) hs.1.1 hs.1.2 hs.2
      (List.drop_zero _)
    refine ⟨q, x, statement_reads (.alt_fail ?_ (.alt_fail ?_ (.alt_ok hr))), hx⟩
    · exact select_fail fun _ h => by cases h; rfl
    · exact create_fail rfl (fun _ h => by cases h; rfl) rfl
  | createStreamFromSource r n =>
    obtain ⟨q, x, hr, hx⟩ := createStreamFromSource_reads hs (List.drop_zero _)
    simp only [Statement.printable, Bool.and_eq_true] at hs
    rw [render_createStreamFromSource] at hr ⊢
    refine ⟨q, x, statement_reads (.alt_fail ?_ (.alt_fail ?_ (.alt_fail ?_ (.alt_ok hr)))), hx⟩
    · exact select_fail fun _ h => by cases h; rfl
    · exact stream_fail rfl hs.1 (fun _ h => by cases h; rfl) (.seq_fail (.word_fail rfl))
    · exact create_fail rfl (fun _ h => by cases h; rfl) rfl
  | createStreamFromSourceExt r t ps =>
    obtain ⟨q, x, hr, hx⟩ := createStreamFromSourceExt_reads hs (List.drop_zero _)
    simp only [Statement.printable, Bool.and_eq_true] at hs
    obtain ⟨⟨⟨hr', ht⟩, hsrc⟩, -⟩ := hs
    rw [render_createStreamFromSourceExt] at hr ⊢
    refine ⟨q, x, statement_reads (.alt_fail ?_ (.alt_fail ?_ (.alt_fail ?_ (.alt_fail ?_
      (.alt_ok hr))))), hx⟩
    · exact select_fail fun _ h => by cases h; rfl
    · exact stream_fail rfl hr' (fun _ h => by cases h; rfl) (.seq_fail (.word_fail rfl))
    · exact create_fail rfl (fun _ h => by cases h; rfl) rfl
    · exact stream_fail rfl hr' (fun _ h => by cases h; rfl) (keyword_fail_after (ident_head ht _)
        (.seq_fail (.word_fail (matchWord_append_none (Option.isNone_iff_eq_none.mp hsrc)
          fun _ h => by cases h; decide))))
  | createSink n t ps =>
    simp only [Statement.printable, Bool.and_eq_true] at hs
    rw [render_createSink]
    obtain ⟨q, x, hr, hx⟩ := sourceSinkStmt_reads .createSinkStmt rfl rfl
      (fun _ _ _ _ _ _ _ _ _ _ _ _ => rfl) (fun _ _ h => by cases h; rfl) hs.1.1 hs.1.2 hs.2
      (List.drop_zero _)
    refine ⟨q, x, statement_reads (.alt_fail ?_ (.alt_fail ?_ (.alt_fail ?_ (.alt_fail ?_
      (.alt_fail ?_ (.alt_ok hr)))))), hx⟩
    · exact select_fail fun _ h => by cases h; rfl
    all_goals exact create_fail rfl (fun _ h => by cases h; rfl) rfl
  | insertIntoSelect n s =>
    obtain ⟨q, x, hr, hx⟩ := insertIntoSelect_reads hs (List.drop_zero _)
    rw [render_insertIntoSelect] at hr ⊢
    refine ⟨q, x, statement_reads (.alt_fail ?_ (.alt_fail ?_ (.alt_fail ?_ (.alt_fail ?_
      (.alt_fail ?_ (.alt_fail ?_ hr)))))), hx⟩
    · exact select_fail fun _ h => by cases h; rfl
    all_goals exact keyword_fail rfl rfl fun _ h => by cases h; rfl

/-- Parsing the text of a printable statement gives back that statement, alone on the stack:
what `Statement.render` prints, the grammar and its reductions read back. -/
theorem statement_render_parses (s : Statement) (hs : s.printable = true) :
    ∃ st b e, parseStatement withinSpanNonEmpty s.render.toList = some (some st) ∧
      st.stack = [⟨b, e, .statement s⟩] := by
  obtain ⟨q, x, h, hx⟩ := statement_reads_render s hs
  obtain ⟨st, h₁, h₂⟩ := parseStatement_of_reads h
  exact ⟨st, x.begin, x.end, h₁, by rw [h₂, ← hx]⟩

/-- `CREATE STREAM s AS SELECT ISTREAM (a) FROM t [RANGE 2 SECONDS]`, printed and parsed back. -/
theorem statement_render_parses_window :
    (Statement.createStreamAsSelect "s" .istream [.columnName "a"] ⟨["t"], some ⟨2, .seconds⟩⟩
      none [] none).printable = true ∧
    ∃ st b e, parseStatement withinSpanNonEmpty (Statement.createStreamAsSelect "s" .istream
        [.columnName "a"] ⟨["t"], some ⟨2, .seconds⟩⟩ none [] none).render.toList = some (some st) ∧
      st.stack = [⟨b, e, .statement (.createStreamAsSelect "s" .istream [.columnName "a"]
        ⟨["t"], some ⟨2, .seconds⟩⟩ none [] none)⟩] :=
  ⟨by decide, statement_render_parses _ (by decide)⟩

end Render

end SensorBee.Parser
