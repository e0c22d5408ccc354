import SensorBee.Parser.RoundTrip

/-!
# Printing a query and parsing it back

`SelectStmt.render` lays a `SELECT` statement out as `SelectStmt` does, one space for each `sp`.
The text is read clause by clause: each clause and the `sp` after it take the text up to where the
spaces before the next clause end (`PairReads`).
-/
namespace SensorBee.Parser

/-- The queries whose printed text the grammar reads back. -/
def SelectStmt.printable (s : SelectStmt) : Bool :=
  !s.projections.isEmpty && Expression.printableAll s.projections &&
    s.relations.all (fun r => isIdent r.toList) && s.filter.all Expression.printable &&
    Expression.printableAll s.grouping && s.having.all Expression.printable

def relItems (rs : List String) : List (List Char × Component) :=
  rs.map fun r => (r.toList, .relation r)

@[simp] theorem relItems_snd (rs : List String) :
    (relItems rs).map Prod.snd = rs.map .relation := by
  simp [relItems]

theorem foldl_append_data (acc : String) (l : List String) :
    (l.foldl (· ++ ·) acc).data = acc.data ++ (l.map String.data).flatten := by
  induction l generalizing acc with
  | nil => simp
  | cons s l ih => rw [List.foldl_cons, ih]; simp

theorem commaText_cons (s : String) (ss : List String) :
    (commaText (s :: ss)).toList =
      s.toList ++ ' ' :: (ss.map fun t => ',' :: ' ' :: t.toList).flatten := by
  simp [commaText, String.join, foldl_append_data, Function.comp_def]

theorem commaText_exprs (e : Expression) (es : List Expression) :
    (commaText (Expression.renderAll (e :: es))).toList =
      (e.renderIn none).toList ++ ' ' :: argsTail es := by
  rw [Expression.renderAll, commaText_cons]
  simp [renderAll_eq_map, argsTail, commaTail, exprItems, Function.comp_def]

theorem commaText_rels (r : String) (rs : List String) :
    (commaText (r :: rs)).toList = r.toList ++ ' ' :: commaTail (relItems rs) := by
  rw [commaText_cons]
  simp [commaTail, relItems, Function.comp_def]

theorem listClause_cons (kw s : String) (ss : List String) :
    (listClause kw (s :: ss)).toList = kw.toList ++ ' ' :: (commaText (s :: ss)).toList := by
  simp [listClause]

theorem clauseText_some (kw t : String) :
    (clauseText kw (some t)).toList = kw.toList ++ ' ' :: t.toList := by
  simp [clauseText]

theorem selectStmt_render_toList (s : SelectStmt) :
    s.render.toList = "SELECT".toList ++
      ' ' :: ((commaText (Expression.renderAll s.projections)).toList ++
      ' ' :: ((listClause "FROM" s.relations).toList ++
      ' ' :: ((clauseText "WHERE" (s.filter.map (·.render))).toList ++
      ' ' :: ((listClause "GROUP BY" (Expression.renderAll s.grouping)).toList ++
      ' ' :: ((clauseText "HAVING" (s.having.map (·.render))).toList ++ [' ']))))) := by
  simp [SelectStmt.render]

def Leads (ks r : List Char) : Prop := ∀ d ∈ (dropSpaces r).head?, d ∈ ks

theorem leads_last : Leads [] [' '] := fun _ hd => by cases hd

theorem Leads.clause {k : Char} {ks C r : List Char} (hC : C = [] ∨ ∃ cs, C = k :: cs)
    (hk : spChar.classAccepts k = false) (h : Leads ks r) : Leads (k :: ks) (' ' :: (C ++ r)) := by
  intro d hd
  rw [(spaces_cons_space _).2] at hd
  rcases hC with rfl | ⟨cs, rfl⟩
  · exact List.mem_cons_of_mem _ (h d hd)
  · rw [(spaces_of_head (show ∀ d ∈ (k :: cs ++ r).head?, spChar.classAccepts d = false from
      fun d hd => by cases hd; exact hk)).2] at hd
    cases hd
    exact List.mem_cons_self _ _

theorem Leads.forall {ks r : List Char} (h : Leads ks r) {P : Char → Prop} (hks : ∀ d ∈ ks, P d) :
    ∀ d ∈ (dropSpaces r).head?, P d :=
  fun d hd => hks d (h d hd)

theorem Leads.ends {ks r : List Char} (h : Leads ks (' ' :: r))
    (hks : ∀ d ∈ ks, (d != '(' && !leadsOp 0 d) = true) : Ends 0 (' ' :: r) = true := by
  simp only [Ends, Bool.and_eq_true, all_head_iff]
  exact ⟨fun d hd => by cases hd; rfl, fun d hd => (Bool.and_eq_true _ _).mp (hks d (h d hd))⟩

theorem listClause_lead (kw : String) {k : Char} {ks : List Char} (hkw : kw.toList = k :: ks)
    (ss : List String) :
    (listClause kw ss).toList = [] ∨ ∃ cs, (listClause kw ss).toList = k :: cs := by
  cases ss with
  | nil => exact .inl rfl
  | cons s ss => exact .inr ⟨_, by rw [listClause_cons, hkw]; rfl⟩

theorem clauseText_lead (kw : String) {k : Char} {ks : List Char} (hkw : kw.toList = k :: ks)
    (t : Option String) :
    (clauseText kw t).toList = [] ∨ ∃ cs, (clauseText kw t).toList = k :: cs := by
  cases t with
  | none => exact .inl rfl
  | some t => exact .inr ⟨_, by rw [clauseText_some, hkw]; rfl⟩

/-- A clause and the `sp` after it, read from where the spaces before the clause end to where the
spaces after it end; the clause leaves one fragment. -/
def PairReads (buffer : List Char) (X : Rule) (C R : List Char) (x : Component) : Prop :=
  ∀ q, buffer.drop q = dropSpaces (C ++ R) →
    ∃ n ≤ spaces R, ∃ b q' i j, buffer.drop q' = dropSpaces R ∧
      Reads buffer (.call X) ⟨q, dropSpaces (C ++ R)⟩ ⟨b, R.drop n⟩ [⟨i, j, x⟩] ∧
      Reads buffer (.call .sp) ⟨b, R.drop n⟩ ⟨q', dropSpaces R⟩ []

section Clauses

variable {buffer : List Char}

theorem clause_absent {r : Rule} {X : Peg Rule} {act : Action}
    {build : List Component → Option Component} {x : Component} {q : Nat} {rest : List Char}
    (hb : Rule.body r = .capture (.opt X)) (ha : Rule.action r = some act)
    (hrun : ∀ b e st, runAction withinSpanNonEmpty buffer b e act st =
      assembleSpan build withinSpanNonEmpty b e st)
    (hX : bqlPeg.Returns X ⟨q, rest⟩ .fail) (hx : build [] = some x) :
    Reads buffer (.call r) ⟨q, rest⟩ ⟨q, rest⟩ [⟨q, q, x⟩] :=
  .span hb ha hrun (.opt_none hX) (fun _ h => absurd h (List.not_mem_nil _)) hx

theorem pair_absent {X : Rule} {Y : Peg Rule} {act : Action}
    {build : List Component → Option Component} {x : Component} {kw : String} {k : Char}
    {ks R : List Char} (hb : Rule.body X = .capture (.opt (.seq (.word kw) Y)))
    (ha : Rule.action X = some act)
    (hrun : ∀ b e st, runAction withinSpanNonEmpty buffer b e act st =
      assembleSpan build withinSpanNonEmpty b e st)
    (hx : build [] = some x) (hkw : kw.toList = k :: ks)
    (hR : ∀ d ∈ (dropSpaces R).head?, foldEq k d = false) : PairReads buffer X [] R x :=
  fun q hq => ⟨spaces R, le_rfl, q, q, q, q, hq,
    clause_absent hb ha hrun (.seq_fail (.word_fail (hkw ▸ matchWord_cons_none hR))) hx,
    sp_none (dropSpaces_head R) q⟩

theorem dropSpaces_keyword {kw : String} {k : Char} {ks : List Char}
    (hkw : kw.toList = k :: ks) (hk : spChar.classAccepts k = false) (t : List Char) :
    dropSpaces (kw.toList ++ t) = kw.toList ++ t :=
  (spaces_of_head fun d hd => by rw [hkw] at hd; cases hd; exact hk).2

theorem drop_dropSpaces {p : Nat} {w r : List Char} (h : buffer.drop p = w ++ r) :
    buffer.drop (p + w.length + spaces r) = dropSpaces r := by
  rw [← List.drop_drop, drop_of_drop h]
  rfl

theorem drop_succ {d : Char} {T : List Char} {q : Nat} (hq : buffer.drop q = d :: T) :
    buffer.drop (q + 1) = T :=
  drop_of_drop (show buffer.drop q = [d] ++ T from hq)

theorem keyword_drop {kw : String} {T : List Char} {q : Nat}
    (hq : buffer.drop q = kw.toList ++ ' ' :: T) : buffer.drop (q + kw.length + 1) = T :=
  drop_past hq

theorem exprClause_present {X : Rule} {act : Action} {build : List Component → Option Component}
    {x : Component} {kw : String} {k : Char} {ks : List Char} {e : Expression} {R : List Char}
    (hb : Rule.body X = .capture (.opt (.seqs (.word kw) [Rule.sp', .call .expression])))
    (ha : Rule.action X = some act)
    (hrun : ∀ b e st, runAction withinSpanNonEmpty buffer b e act st =
      assembleSpan build withinSpanNonEmpty b e st)
    (hx : build [.expr e] = some x) (hkw : kw.toList = k :: ks)
    (hk : spChar.classAccepts k = false) (he : e.printable = true) (hR : Ends 0 R = true) :
    PairReads buffer X (kw.toList ++ ' ' :: (e.renderIn none).toList) R x := by
  intro q hq
  obtain ⟨d, ds, hd, hd32⟩ := renderIn_head e he none
  have hC : kw.toList ++ ' ' :: (e.renderIn none).toList ++ R =
      kw.toList ++ ' ' :: ((e.renderIn none).toList ++ R) := by simp
  rw [hC, dropSpaces_keyword hkw hk] at hq ⊢
  have hq₁ : buffer.drop (q + kw.length + 1) = (e.renderIn none).toList ++ R := keyword_drop hq
  obtain ⟨n, hn, b', e', hbe, hexpr⟩ := (selfReads e he).top he _ R hR hq₁
  have hw : Reads buffer (.word kw) ⟨q, kw.toList ++ ' ' :: ((e.renderIn none).toList ++ R)⟩
      ⟨q + kw.length, ' ' :: ((e.renderIn none).toList ++ R)⟩ [] :=
    .nil (Grammar.Returns.word (matchWord_append_self _ _))
  have hsp : Reads buffer (.call .sp) ⟨q + kw.length, ' ' :: ((e.renderIn none).toList ++ R)⟩
      ⟨q + kw.length + 1, (e.renderIn none).toList ++ R⟩ [] :=
    sp_one (head_not_sp hd hd32 _) _
  have hX : Reads buffer (.call X) ⟨q, kw.toList ++ ' ' :: ((e.renderIn none).toList ++ R)⟩
      ⟨q + kw.length + 1 + (e.renderIn none).toList.length + n, R.drop n⟩
      [⟨q, q + kw.length + 1 + (e.renderIn none).toList.length + n, x⟩] :=
    .span hb ha hrun (.opt_some (hw.seq (hsp.seq (Reads.call (by rfl) hexpr))))
      (by simpa using hbe) hx
  have hend : buffer.drop (q + kw.length + 1 + (e.renderIn none).toList.length + spaces R) =
      dropSpaces R := by
    have h := drop_dropSpaces (show buffer.drop q =
      (kw.toList ++ ' ' :: (e.renderIn none).toList) ++ R by simpa using hq)
    rwa [show q + (kw.toList ++ ' ' :: (e.renderIn none).toList).length =
      q + kw.length + 1 + (e.renderIn none).toList.length by
        simp [show kw.data.length = kw.length from rfl]; omega] at h
  exact ⟨n, hn, _, _, _, _, hend, hX, sp_reads_after hn _⟩

theorem listClause_present (X : Rule) (K : List Char) {item : Rule} {Y : Peg Rule}
    {act : Action} {build : List Component → Option Component} {x y : Component}
    {w R : List Char} {xs : List (List Char × Component)}
    (hb : Rule.body X = .capture (.opt Y)) (ha : Rule.action X = some act)
    (hrun : ∀ b e st, runAction withinSpanNonEmpty buffer b e act st =
      assembleSpan build withinSpanNonEmpty b e st)
    (hK : ∃ k ks, K = k :: ks ∧ spChar.classAccepts k = false)
    (hY : ∀ q T, (∀ d ∈ T.head?, spChar.classAccepts d = false) → ∀ c' o,
      Reads buffer (Rule.commaList item item) ⟨q + K.length + 1, T⟩ c' o →
        Reads buffer Y ⟨q, K ++ ' ' :: T⟩ c' o)
    (hi : ItemReads buffer item w y) (hxs : ∀ i ∈ xs, ItemReads buffer item i.1 i.2)
    (hx : build (y :: xs.map Prod.snd) = some x) (hR : Ends 0 R = true)
    (hc : ∀ d ∈ (dropSpaces R).head?, d ≠ ',') :
    PairReads buffer X (K ++ ' ' :: (w ++ ' ' :: commaTail xs)) R x := by
  intro q hq
  have hC : K ++ ' ' :: (w ++ ' ' :: commaTail xs) ++ R =
      K ++ ' ' :: (w ++ ([' '] ++ (commaTail xs ++ R))) := by
    simp
  have hdrop : dropSpaces (K ++ ' ' :: (w ++ ([' '] ++ (commaTail xs ++ R)))) =
      K ++ ' ' :: (w ++ ([' '] ++ (commaTail xs ++ R))) := by
    obtain ⟨k, ks, rfl, hk⟩ := hK
    exact (spaces_of_head fun d hd => by cases hd; exact hk).2
  rw [hC, hdrop] at hq ⊢
  obtain ⟨d, ds, hw, hd⟩ := hi.head
  have hq₁ : buffer.drop (q + K.length + 1) = w ++ ([' '] ++ (commaTail xs ++ R)) := drop_past hq
  obtain ⟨n, hn, o, hl, hmap, hne⟩ := commaList_reads hi hxs (.inr rfl) hR hc hq₁
  have hX : Reads buffer (.call X) ⟨q, K ++ ' ' :: (w ++ ([' '] ++ (commaTail xs ++ R)))⟩
      ⟨q + K.length + 1 + w.length + 1 + (commaTail xs).length + n, R.drop n⟩
      [⟨q, q + K.length + 1 + w.length + 1 + (commaTail xs).length + n, x⟩] :=
    .span hb ha hrun (.opt_some (hY q _ (by rw [hw]; intro d' h'; cases h'; exact hd) _ _ hl)) hne
      (by rw [hmap]; exact hx)
  have hend : buffer.drop (q + K.length + 1 + w.length + 1 + (commaTail xs).length + spaces R) =
      dropSpaces R := by
    have h := drop_dropSpaces (show buffer.drop q = (K ++ ' ' :: (w ++ ' ' :: commaTail xs)) ++ R by
      simpa using hq)
    rwa [show q + (K ++ ' ' :: (w ++ ' ' :: commaTail xs)).length =
      q + K.length + 1 + w.length + 1 + (commaTail xs).length by simp; omega] at h
  exact ⟨n, hn, _, _, _, _, hend, hX, sp_reads_after hn _⟩

theorem keyword_reads {kw : String} {Y : Peg Rule} {q : Nat} {T : List Char} {c' : Cursor}
    {o : List ParsedComponent} (hT : ∀ d ∈ T.head?, spChar.classAccepts d = false)
    (h : Reads buffer Y ⟨q + kw.length + 1, T⟩ c' o) :
    Reads buffer (.seq (.word kw) (.seq Rule.sp' Y)) ⟨q, kw.toList ++ ' ' :: T⟩ c' o :=
  (Reads.nil (Grammar.Returns.word (matchWord_append_self _ _))).seq_nil ((sp_one hT _).seq_nil h)

theorem from_prefix {q : Nat} {T : List Char} {c' : Cursor} {o : List ParsedComponent}
    (hT : ∀ d ∈ T.head?, spChar.classAccepts d = false)
    (h : Reads buffer (Rule.commaList .relation .relation) ⟨q + 4 + 1, T⟩ c' o) :
    Reads buffer (.seqs (.word "FROM") [Rule.sp', .call .relations])
      ⟨q, "FROM".toList ++ ' ' :: T⟩ c' o :=
  keyword_reads hT (.call (by rfl) h)

theorem groupBy_prefix {q : Nat} {T : List Char} {c' : Cursor} {o : List ParsedComponent}
    (hT : ∀ d ∈ T.head?, spChar.classAccepts d = false)
    (h : Reads buffer (Rule.commaList .expression .expression) ⟨q + 8 + 1, T⟩ c' o) :
    Reads buffer (.seqs (.word "GROUP") [Rule.sp', .word "BY", Rule.sp', .call .groupList])
      ⟨q, "GROUP BY".toList ++ ' ' :: T⟩ c' o :=
  have hBY : Reads buffer (.seq (.word "BY") (.seq Rule.sp' (.call .groupList)))
      ⟨q + 5 + 1, "BY".toList ++ ' ' :: T⟩ c' o := keyword_reads hT (.call (by rfl) h)
  keyword_reads (fun _ h => by cases h; rfl) hBY

theorem ItemReads.call {r item : Rule} {w : List Char} {x : Component}
    (h : ItemReads buffer item w x) (hr : Rule.action r = none)
    (hb : Rule.body r = .call item) : ItemReads buffer r w x :=
  ⟨h.head, fun p r' hr' hbuf => by
    obtain ⟨n, hn, b, e, hbe, hx⟩ := h.reads p r' hr' hbuf
    exact ⟨n, hn, b, e, hbe, .call hr (hb ▸ hx)⟩⟩

theorem relation_itemReads {r : String} (hr : isIdent r.toList = true) :
    ItemReads buffer .relation r.toList (.relation r) := by
  obtain ⟨d, ds, hd, h65, -⟩ := isIdent_head hr
  refine ⟨⟨d, ds, hd, spChar_of_gt (by omega)⟩, fun p R hR hbuf =>
    ⟨0, Nat.zero_le _, p, p + r.toList.length, by rw [hd]; simp, ?_⟩⟩
  exact .push (by rfl) (by rfl)
    (.nil (ident_reads hr (fun d hd => (delim_stops (Ends.delim hR d hd)).1) p))
    (by dsimp only; rw [Nat.add_zero, substr_of_drop hbuf]; rfl)

theorem mapM_asRelation (rs : List String) :
    (rs.map Component.relation).mapM Component.asRelation = some rs := by
  induction rs with
  | nil => rfl
  | cons r rs ih => rw [List.map_cons, List.mapM_cons, ih]; rfl

theorem relItems_itemReads {rs : List String} (hrs : ∀ r ∈ rs, isIdent r.toList = true) :
    ∀ i ∈ relItems rs, ItemReads buffer .relation i.1 i.2 := by
  intro i hi
  obtain ⟨r, hr, rfl⟩ := List.mem_map.mp hi
  exact relation_itemReads (hrs r hr)

theorem exprs_itemReads {es : List Expression} (hes : Expression.printableAll es = true) :
    ∀ x ∈ es, ItemReads buffer .expression (x.renderIn none).toList (.expr x) := fun x hx => by
  obtain ⟨hs, hp⟩ : SelfReads buffer x ∧ x.printable = true := selfReadsAll es hes x hx
  exact (hs.top hp).itemReads hp

theorem projections_pair {e : Expression} {es : List Expression} {g R : List Char}
    (hes : Expression.printableAll (e :: es) = true) (hg : g = [] ∨ g = [' '])
    (hR : Ends 0 R = true) (hc : ∀ d ∈ (dropSpaces R).head?, d ≠ ',') :
    PairReads buffer .projections ((e.renderIn none).toList ++ (g ++ argsTail es)) R
      (.projectionsAST (e :: es)) := by
  intro q hq
  have hi : ∀ x ∈ e :: es, ItemReads buffer .projection (x.renderIn none).toList (.expr x) :=
    fun x hx => (exprs_itemReads hes x hx).call (by rfl) (by rfl)
  have hxs : ∀ i ∈ exprItems es, ItemReads buffer .projection i.1 i.2 := fun i hi' => by
    obtain ⟨x, hx, rfl⟩ := List.mem_map.mp hi'
    exact hi x (List.mem_cons_of_mem _ hx)
  obtain ⟨d, ds, hw, hd⟩ := (hi e (List.mem_cons_self _ _)).head
  have hC : (e.renderIn none).toList ++ (g ++ argsTail es) ++ R =
      (e.renderIn none).toList ++ (g ++ (commaTail (exprItems es) ++ R)) := by
    simp [argsTail]
  have hdrop : dropSpaces ((e.renderIn none).toList ++ (g ++ (commaTail (exprItems es) ++ R))) =
      (e.renderIn none).toList ++ (g ++ (commaTail (exprItems es) ++ R)) :=
    (spaces_of_head (by rw [hw]; intro d' h'; cases h'; exact hd)).2
  rw [hC, hdrop] at hq ⊢
  obtain ⟨n, hn, o, hl, hmap, hne⟩ :=
    commaList_reads (hi e (List.mem_cons_self _ _)) hxs hg hR hc hq
  have hX : Reads buffer (.call .projections)
      ⟨q, (e.renderIn none).toList ++ (g ++ (commaTail (exprItems es) ++ R))⟩
      ⟨q + (e.renderIn none).toList.length + g.length + (commaTail (exprItems es)).length + n,
        R.drop n⟩
      [⟨q, q + (e.renderIn none).toList.length + g.length + (commaTail (exprItems es)).length + n,
        .projectionsAST (e :: es)⟩] :=
    .span (by rfl) (by rfl) (fun _ _ _ => by rfl) hl hne
      (by rw [hmap, exprItems_snd, projections, ← List.map_cons, nonEmptyItems_exprs]; rfl)
  have hend : buffer.drop (q + (e.renderIn none).toList.length + g.length +
      (commaTail (exprItems es)).length + spaces R) = dropSpaces R := by
    have h := drop_dropSpaces (show buffer.drop q =
      ((e.renderIn none).toList ++ (g ++ commaTail (exprItems es))) ++ R by simpa using hq)
    rwa [show q + ((e.renderIn none).toList ++ (g ++ commaTail (exprItems es))).length =
      q + (e.renderIn none).toList.length + g.length + (commaTail (exprItems es)).length by
        simp; omega] at h
  exact ⟨n, hn, _, _, _, _, hend, hX, sp_reads_after hn _⟩

theorem from_pair {rs : List String} {R : List Char} (hrs : ∀ r ∈ rs, isIdent r.toList = true)
    (hR : Ends 0 R = true) (hc : ∀ d ∈ (dropSpaces R).head?, d ≠ ',')
    (hF : ∀ d ∈ (dropSpaces R).head?, foldEq 'F' d = false) :
    PairReads buffer .«from» (listClause "FROM" rs).toList R (.fromAST rs) := by
  cases rs with
  | nil => exact pair_absent (by rfl) (by rfl) (fun _ _ _ => by rfl) (by rfl) (by rfl) hF
  | cons r rs =>
    rw [listClause_cons, commaText_rels]
    exact listClause_present .«from» "FROM".toList (by rfl) (by rfl) (fun _ _ _ => by rfl)
      ⟨_, _, rfl, rfl⟩ (fun _ _ hT _ _ h => from_prefix hT h)
      (relation_itemReads (hrs r (List.mem_cons_self _ _)))
      (relItems_itemReads fun r' hr' => hrs r' (List.mem_cons_of_mem _ hr'))
      (by
        rw [relItems_snd]
        show (((r :: rs).map Component.relation).mapM Component.asRelation).map _ = _
        rw [mapM_asRelation]; rfl) hR hc

theorem filter_pair {f : Option Expression} {R : List Char} (hf : f.all Expression.printable = true)
    (hR : Ends 0 R = true) (hW : ∀ d ∈ (dropSpaces R).head?, foldEq 'W' d = false) :
    PairReads buffer .filter (clauseText "WHERE" (f.map (·.render))).toList R (.filterAST f) := by
  cases f with
  | none => exact pair_absent (by rfl) (by rfl) (fun _ _ _ => by rfl) (by rfl) (by rfl) hW
  | some e =>
    rw [Option.map_some', clauseText_some]
    exact exprClause_present (by rfl) (by rfl) (fun _ _ _ => by rfl) (by rfl) (by rfl) (by rfl)
      hf hR

theorem having_pair {h : Option Expression} {R : List Char} (hh : h.all Expression.printable = true)
    (hR : Ends 0 R = true) (hH : ∀ d ∈ (dropSpaces R).head?, foldEq 'H' d = false) :
    PairReads buffer .having (clauseText "HAVING" (h.map (·.render))).toList R (.havingAST h) := by
  cases h with
  | none => exact pair_absent (by rfl) (by rfl) (fun _ _ _ => by rfl) (by rfl) (by rfl) hH
  | some e =>
    rw [Option.map_some', clauseText_some]
    exact exprClause_present (by rfl) (by rfl) (fun _ _ _ => by rfl) (by rfl) (by rfl) (by rfl)
      hh hR

theorem grouping_pair {gs : List Expression} {R : List Char}
    (hgs : Expression.printableAll gs = true) (hR : Ends 0 R = true)
    (hc : ∀ d ∈ (dropSpaces R).head?, d ≠ ',')
    (hG : ∀ d ∈ (dropSpaces R).head?, foldEq 'G' d = false) :
    PairReads buffer .grouping (listClause "GROUP BY" (Expression.renderAll gs)).toList R
      (.groupingAST gs) := by
  cases gs with
  | nil => exact pair_absent (by rfl) (by rfl) (fun _ _ _ => by rfl) (by rfl) (by rfl) hG
  | cons e es =>
    have hi : ∀ x ∈ e :: es, ItemReads buffer .expression (x.renderIn none).toList (.expr x) :=
      exprs_itemReads hgs
    rw [renderAll_eq_map, List.map_cons, listClause_cons, ← List.map_cons, ← renderAll_eq_map,
      commaText_exprs]
    exact listClause_present .grouping "GROUP BY".toList (by rfl) (by rfl) (fun _ _ _ => by rfl)
      ⟨_, _, rfl, rfl⟩ (fun _ _ hT _ _ h => groupBy_prefix hT h)
      (hi e (List.mem_cons_self _ _))
      (fun i hi' => by
        obtain ⟨x, hx, rfl⟩ := List.mem_map.mp hi'
        exact hi x (List.mem_cons_of_mem _ hx))
      (by
        rw [exprItems_snd]
        show (nonEmptyItems Component.asExpr ((e :: es).map .expr)).map _ = _
        rw [nonEmptyItems_exprs]; rfl) hR hc

end Clauses


def clauseSeq : Rule → List Rule → Peg Rule
  | X, [] => .seq (.call X) Rule.sp'
  | X, Y :: Ys => .seq (.call X) (.seq Rule.sp' (clauseSeq Y Ys))

/-- Clauses read one after another, each with the `sp` after it (`PairReads`), from `S`, the text
from the first clause on, to the end of the input. -/
inductive ClausesRead (buffer : List Char) : Rule → List Rule → List Char → List Component → Prop
  | last {X : Rule} {C R : List Char} {x : Component} :
      PairReads buffer X C R x → dropSpaces R = [] →
        ClausesRead buffer X [] (dropSpaces (C ++ R)) [x]
  | cons {X Y : Rule} {Ys : List Rule} {C R S : List Char} {x : Component} {xs : List Component} :
      PairReads buffer X C R x → dropSpaces R = S → ClausesRead buffer Y Ys S xs →
        ClausesRead buffer X (Y :: Ys) (dropSpaces (C ++ R)) (x :: xs)

section Statement

variable {buffer : List Char}

/-- A run of clauses reads its text to the end of the input and leaves one fragment for each
clause, the last clause's on top. -/
theorem ClausesRead.reads {X : Rule} {Ys : List Rule} {S : List Char} {xs : List Component}
    (h : ClausesRead buffer X Ys S xs) {q : Nat} (hq : buffer.drop q = S) :
    ∃ q' o, Reads buffer (clauseSeq X Ys) ⟨q, S⟩ ⟨q', []⟩ o ∧ o.map (·.comp) = xs.reverse := by
  induction h generalizing q with
  | last hX hR =>
    obtain ⟨_, -, b, q', i, j, -, hr, hs⟩ := hX q hq
    rw [hR] at hs
    exact ⟨q', _, hr.seq hs, rfl⟩
  | cons hX hl _ ih =>
    obtain ⟨_, -, b, q', i, j, hd, hr, hs⟩ := hX q hq
    rw [hl] at hd hs
    obtain ⟨q'', o, hrest, hmap⟩ := ih hd
    exact ⟨q'', _, hr.seq (hs.seq hrest), by simp [hmap]⟩

theorem comps_eq_cons {o : List ParsedComponent} {x : Component} {xs : List Component}
    (h : o.map (·.comp) = x :: xs) : ∃ b e o', o = ⟨b, e, x⟩ :: o' ∧ o'.map (·.comp) = xs := by
  obtain ⟨⟨b, e, c⟩, o', rfl, hc, h'⟩ := List.map_eq_cons_iff.mp h
  subst hc
  exact ⟨b, e, o', rfl, h'⟩

theorem comps_eq_five {o : List ParsedComponent} {x₀ x₁ x₂ x₃ x₄ : Component}
    (h : o.map (·.comp) = [x₄, x₃, x₂, x₁, x₀]) : ∃ b₀ e₀ b₁ e₁ b₂ e₂ b₃ e₃ b₄ e₄,
      o = [⟨b₄, e₄, x₄⟩, ⟨b₃, e₃, x₃⟩, ⟨b₂, e₂, x₂⟩, ⟨b₁, e₁, x₁⟩, ⟨b₀, e₀, x₀⟩] := by
  obtain ⟨b₄, e₄, o, rfl, h₄⟩ := comps_eq_cons h
  obtain ⟨b₃, e₃, o, rfl, h₃⟩ := comps_eq_cons h₄
  obtain ⟨b₂, e₂, o, rfl, h₂⟩ := comps_eq_cons h₃
  obtain ⟨b₁, e₁, o, rfl, h₁⟩ := comps_eq_cons h₂
  obtain ⟨b₀, e₀, o, rfl, h₀⟩ := comps_eq_cons h₁
  obtain rfl := List.map_eq_nil_iff.mp h₀
  exact ⟨b₀, e₀, b₁, e₁, b₂, e₂, b₃, e₃, b₄, e₄, rfl⟩

theorem span_fixed {r : Rule} {act : Action} {c c' : Cursor} {o : List ParsedComponent}
    {top bot : ParsedComponent} {x : Component} (ha : Rule.action r = some act)
    (h : Reads buffer (Rule.body r) c c' o) (ht : o.head? = some top)
    (hb : o.getLast? = some bot)
    (hrun : ∀ b e st, runAction withinSpanNonEmpty buffer b e act (o ++ st) =
      some (⟨bot.begin, top.end, x⟩ :: st)) :
    Reads buffer (.call r) c c' [⟨bot.begin, top.end, x⟩] := by
  obtain ⟨hw, ho⟩ := h.within
  obtain ⟨h₁, h₂, h₃, h₄⟩ := ho.span hw ht hb
  exact .fixed ha h hrun ⟨h₁, by dsimp only; omega, h₄⟩

/-- `SelectStmt` reads a printable query wherever it stands, up to the end of the input, and
builds the query from its five clauses. -/
theorem selectStmt_reads {s : SelectStmt} (hs : s.printable = true) {p : Nat}
    (hp : buffer.drop p = s.render.toList) :
    ∃ q x, Reads buffer (.call .selectStmt) ⟨p, s.render.toList⟩ ⟨q, []⟩ [x] ∧
      x.comp = .statement (.select s) := by
  obtain ⟨ps, rs, f, gs, h⟩ := s
  simp only [SelectStmt.printable, Bool.and_eq_true, Bool.not_eq_true', List.isEmpty_eq_false,
    List.all_eq_true] at hs
  obtain ⟨⟨⟨⟨⟨hne, hps⟩, hrs⟩, hf⟩, hgs⟩, hh⟩ := hs
  obtain _ | ⟨e, es⟩ := ps
  · exact absurd rfl hne
  obtain ⟨d, ds, hd, hd32⟩ := renderIn_head e (Bool.and_eq_true _ _ |>.mp hps).1 none
  have L₃ := Leads.clause (clauseText_lead "HAVING" rfl (h.map (·.render))) rfl leads_last
  have L₂ := Leads.clause (listClause_lead "GROUP BY" rfl (Expression.renderAll gs)) rfl L₃
  have L₁ := Leads.clause (clauseText_lead "WHERE" rfl (f.map (·.render))) rfl L₂
  have L₀ := Leads.clause (listClause_lead "FROM" rfl rs) rfl L₁
  have hch : ClausesRead buffer _ _ _ _ := .cons
    (projections_pair hps (.inr rfl) (L₀.ends (by decide)) (L₀.forall (by decide)))
    (spaces_cons_space _).2 <| .cons
    (from_pair hrs (L₁.ends (by decide)) (L₁.forall (by decide)) (L₁.forall (by decide)))
    (spaces_cons_space _).2 <| .cons
    (filter_pair hf (L₂.ends (by decide)) (L₂.forall (by decide)))
    (spaces_cons_space _).2 <| .cons
    (grouping_pair hgs (L₃.ends (by decide)) (L₃.forall (by decide)) (L₃.forall (by decide)))
    (spaces_cons_space _).2 <| .last
    (having_pair hh (show Ends 0 [' '] = true from rfl) fun _ h => by cases h) rfl
  have hT : ∀ r t, ∀ d' ∈ ((e.renderIn none).toList ++ r ++ t).head?,
      spChar.classAccepts d' = false := by
    intro r t; rw [List.append_assoc]; exact head_not_sp hd hd32 _
  rw [(spaces_of_head (hT _ _)).2] at hch
  rw [selectStmt_render_toList, commaText_exprs] at hp ⊢
  obtain ⟨q, o, hr, hmap⟩ := hch.reads (keyword_drop hp)
  obtain ⟨b₀, e₀, b₁, e₁, b₂, e₂, b₃, e₃, b₄, e₄, rfl⟩ := comps_eq_five hmap
  exact ⟨q, _, span_fixed rfl (keyword_reads (hT _ _) hr) rfl rfl fun _ _ _ => rfl, rfl⟩

theorem select_reads (e : Expression) (he : e.printable = true) :
    ∃ q x, Reads ("SELECT " ++ e.render).toList (.call .selectStmt)
      ⟨0, ("SELECT " ++ e.render).toList⟩ ⟨q, []⟩ [x] ∧
      x.comp = .statement (.select ⟨[e], [], none, [], none⟩) := by
  obtain ⟨d, ds, hd, hd32⟩ := renderIn_head e he none
  have hend : Ends 0 [] = true := rfl
  have hch : ClausesRead ("SELECT " ++ e.render).toList _ _ _ _ := .cons
    (projections_pair (show Expression.printableAll [e] = true by simpa [Expression.printableAll])
      (.inl rfl) hend
      fun _ h => by cases h) rfl <| .cons
    (from_pair (List.forall_mem_nil _) hend (fun _ h => by cases h) fun _ h => by cases h)
    rfl <| .cons
    (filter_pair Option.all_none hend fun _ h => by cases h) rfl <| .cons
    (grouping_pair (show Expression.printableAll [] = true from rfl) hend (fun _ h => by cases h)
      fun _ h => by cases h) rfl <| .last
    (having_pair Option.all_none hend fun _ h => by cases h) rfl
  have hT : ∀ d' ∈ (e.renderIn none).toList.head?, spChar.classAccepts d' = false := by
    simpa using head_not_sp hd hd32 []
  have htext :
      ("SELECT " ++ e.render).toList = "SELECT".toList ++ ' ' :: (e.renderIn none).toList := by
    simp [Expression.render]
  have h0 : ("SELECT " ++ e.render).toList.drop 0 =
      "SELECT".toList ++ ' ' :: (e.renderIn none).toList := htext
  simp only [argsTail, exprItems_nil, commaTail_nil, List.append_nil, (spaces_of_head hT).2] at hch
  obtain ⟨q, o, hr, hmap⟩ := hch.reads (keyword_drop h0)
  obtain ⟨b₀, e₀, b₁, e₁, b₂, e₂, b₃, e₃, b₄, e₄, rfl⟩ := comps_eq_five hmap
  rw [htext]
  exact ⟨q, _, span_fixed rfl (keyword_reads hT hr) rfl rfl fun _ _ _ => rfl, rfl⟩

theorem statement_reads {q : Nat} {x : ParsedComponent}
    (h : Reads buffer (.alts (.call .selectStmt) [.call .createStreamAsSelectStmt,
      .call .createSourceStmt, .call .createStreamFromSourceStmt,
      .call .createStreamFromSourceExtStmt, .call .createSinkStmt, .call .insertIntoSelectStmt])
      ⟨0, buffer⟩ ⟨q, []⟩ [x]) :
    Reads buffer (.call .statement) ⟨0, buffer⟩ ⟨q, []⟩ [x] :=
  .call (by rfl) (h.seq (.nil (.not_fail (.rune_nil (by rfl)))))

end Statement

theorem parseStatement_of_reads {input : List Char} {q : Nat} {x : ParsedComponent}
    (h : Reads input (.call .statement) ⟨0, input⟩ ⟨q, []⟩ [x]) :
    ∃ s, parseStatement withinSpanNonEmpty input = some (some s) ∧ s.stack = [x] := by
  obtain ⟨t, ret, g⟩ := h
  obtain ⟨_, rfl, -, -, s, hs, hst⟩ := g.run ⟨0, 0, []⟩ (List.forall_mem_nil _) .nil
  have hF : bqlPeg.eval (2769 * (input.length + 1)) (.call .statement) ⟨0, input⟩ ≠ none :=
    bqlWellFormed.eval_call_ne_none .statement ⟨0, input⟩
  refine ⟨s, ?_, hst⟩
  unfold parseStatement
  rw [ret.eval_eq hF]
  exact congrArg some hs

/-- Printed after `SELECT`, every printable tree is parsed and executed back to the query that
projects it: the entry point accepts the text, raises no internal invariant violation, and
leaves one statement fragment holding the same tree. -/
theorem select_render_parses (e : Expression) (he : e.printable = true) :
    ∃ s b e', parseStatement withinSpanNonEmpty ("SELECT " ++ e.render).toList = some (some s) ∧
      s.stack = [⟨b, e', .statement (.select ⟨[e], [], none, [], none⟩)⟩] := by
  obtain ⟨q, x, h, hx⟩ := select_reads e he
  obtain ⟨s, h₁, h₂⟩ := parseStatement_of_reads (statement_reads (.alt_ok h))
  exact ⟨s, x.begin, x.end, h₁, by rw [h₂, ← hx]⟩

/-- `SELECT a + 1`, printed and parsed back. -/
theorem select_render_parses_sum :
    (Expression.binaryOp .plus (.columnName "a") (.numericLiteral 1)).printable = true ∧
      ∃ s b e', parseStatement withinSpanNonEmpty
        ("SELECT " ++ (Expression.binaryOp .plus (.columnName "a") (.numericLiteral 1)).render).toList =
          some (some s) ∧
        s.stack = [⟨b, e', .statement (.select
          ⟨[.binaryOp .plus (.columnName "a") (.numericLiteral 1)], [], none, [], none⟩)⟩] :=
  ⟨by decide, select_render_parses _ (by decide)⟩

end SensorBee.Parser
