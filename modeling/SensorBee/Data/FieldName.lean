import SensorBee.Strings

/-!
# The key of an untagged field: `toSnakeCase`

`camelcase.Split` cuts a name into maximal runs of one rune class (lower-case letter, upper-case
letter, digit, other) and then moves the last rune of an upper-case run to the front of a
lower-case run after it; `toSnakeCase` lower-cases the words and joins them with `_`. Both are
shown equal to a description one rune at a time (`snakeCase`): every rune lower-cased, and `_`
between two runes exactly where the class changes, except from an upper-case to a lower-case
letter, and between two upper-case letters that a lower-case letter follows.
-/
namespace SensorBee.Data

variable (u : Unicode)

/-- The class `camelcase.Split` sorts a rune into: lower, upper, digit, other. -/
def charClass (c : Char) : Nat :=
  if u.isLower c then 1 else if u.isUpper c then 2 else if u.isDigit c then 3 else 4

def classRuns : List Char → List (List Char)
  | [] => []
  | c :: cs =>
    match classRuns cs with
    | (d :: ds) :: rest =>
      if charClass u c = charClass u d then (c :: d :: ds) :: rest else [c] :: (d :: ds) :: rest
    | rest => [c] :: rest

/-- The pass of `camelcase.Split` that moves the last upper-case rune of a run to the
lower-case run after it (`PDFL`, `oader` becomes `PDF`, `Loader`). -/
def moveUpper (cur : List Char) : List (List Char) → List (List Char)
  | [] => [cur]
  | s :: rest =>
    if (cur.head?.any u.isUpper) && (s.head?.any u.isLower) then
      cur.dropLast :: moveUpper (cur.getLast?.toList ++ s) rest
    else cur :: moveUpper s rest

/-- `camelcase.Split`. A Lean string is always valid UTF-8, so its first test never fires. -/
def camelcaseSplit (s : String) : List (List Char) :=
  let runs := match classRuns u s.toList with
    | [] => []
    | r :: rs => moveUpper u r rs
  runs.filter (· ≠ [])

/-- `toSnakeCase`: the words of `camelcase.Split`, each put through `strings.ToLower`, joined
by `_`. -/
def toSnakeCase (name : String) : String :=
  "_".intercalate ((camelcaseSplit u name).map fun w => ⟨w.map u.toLower⟩)

/-- Where the split cuts between the adjacent runes `a` and `b`, `n` being the rune after `b`. -/
def cutsBetween (a b : Char) (n : Option Char) : Bool :=
  (charClass u a != charClass u b && !(u.isUpper a && u.isLower b)) ||
    (u.isUpper a && u.isUpper b && n.any u.isLower)

/-- `toSnakeCase` one rune at a time. -/
def snakeCase : List Char → List Char
  | a :: b :: rest =>
    u.toLower a :: ((if cutsBetween u a b rest.head? then ['_'] else []) ++ snakeCase (b :: rest))
  | l => l.map u.toLower

theorem charClass_eq_one {c : Char} : charClass u c = 1 ↔ u.isLower c = true := by
  unfold charClass; split_ifs <;> simp_all

theorem charClass_eq_two {c : Char} : charClass u c = 2 ↔ u.isUpper c = true := by
  by_cases h₁ : u.isLower c
  · simp [charClass, h₁, u.lower_not_upper c h₁]
  · unfold charClass; split_ifs <;> simp_all

theorem isUpper_eq_of_charClass {a b : Char} (h : charClass u a = charClass u b) :
    u.isUpper a = u.isUpper b :=
  Bool.eq_iff_iff.mpr (by rw [← charClass_eq_two, ← charClass_eq_two, h])

theorem classRuns_cons_of {a b : Char} {l r : List Char} {rs : List (List Char)}
    (h : classRuns u l = (b :: r) :: rs) :
    classRuns u (a :: l) =
      if charClass u a = charClass u b then (a :: b :: r) :: rs else [a] :: (b :: r) :: rs := by
  rw [classRuns.eq_2, h]

/-- The first run of `b :: s` starts with `b`. It is `b` alone, in front of the runs of `s`,
when `s` starts with a rune of another class; otherwise `b` joins the first run of `s`. -/
theorem classRuns_cons (b : Char) : ∀ s : List Char, ∃ r rs,
    classRuns u (b :: s) = (b :: r) :: rs ∧
      ((r = [] ∧ rs = classRuns u s ∧ ∀ n ∈ s.head?, charClass u b ≠ charClass u n) ∨
        ∃ n, s.head? = some n ∧ r.head? = some n ∧ charClass u b = charClass u n ∧
          classRuns u s = r :: rs)
  | [] => ⟨[], [], rfl, .inl ⟨rfl, rfl, nofun⟩⟩
  | n :: s => by
    obtain ⟨r, rs, hn, -⟩ := classRuns_cons n s
    rw [classRuns_cons_of u hn]
    by_cases hc : charClass u b = charClass u n
    · exact ⟨n :: r, rs, if_pos hc, .inr ⟨n, rfl, rfl, hc, hn⟩⟩
    · exact ⟨[], (n :: r) :: rs, if_neg hc, .inl ⟨rfl, hn.symm, by simpa using hc⟩⟩

theorem classRuns_next_class : ∀ (b : Char) (s r s₂ : List Char) (rs : List (List Char)),
    classRuns u (b :: s) = (b :: r) :: s₂ :: rs → ∀ x ∈ s₂.head?, charClass u b ≠ charClass u x
  | _, [], _, _, _, h => by simp [classRuns] at h
  | b, n :: s, r, s₂, rs, h => by
    obtain ⟨r', rs', hn, -⟩ := classRuns_cons u n s
    rw [classRuns_cons_of u hn] at h
    split_ifs at h with hc
    · obtain ⟨-, rfl⟩ := List.cons.inj h
      rw [hc]
      exact classRuns_next_class n s r' s₂ rs hn
    · obtain ⟨-, h'⟩ := List.cons.inj h
      obtain ⟨rfl, -⟩ := List.cons.inj h'
      simpa using hc

theorem classRuns_flatten : ∀ cs : List Char, (classRuns u cs).flatten = cs
  | [] => rfl
  | c :: cs => by
    have ih := classRuns_flatten cs
    unfold classRuns
    split
    · next d ds rest h =>
      rw [h] at ih
      split <;> simp [← ih]
    · simp [ih]

theorem moveUpper_keep {cur s : List Char} (rest : List (List Char))
    (h : (cur.head?.any u.isUpper && s.head?.any u.isLower) = false) :
    moveUpper u cur (s :: rest) = cur :: moveUpper u s rest := by
  rw [moveUpper, h]; rfl

theorem moveUpper_move {cur s : List Char} (rest : List (List Char))
    (h : (cur.head?.any u.isUpper && s.head?.any u.isLower) = true) :
    moveUpper u cur (s :: rest) = cur.dropLast :: moveUpper u (cur.getLast?.toList ++ s) rest := by
  rw [moveUpper, h]; rfl

theorem moveUpper_flatten : ∀ (cur : List Char) (rs : List (List Char)),
    (moveUpper u cur rs).flatten = cur ++ rs.flatten
  | cur, [] => by simp [moveUpper]
  | cur, s :: rest => by
    unfold moveUpper
    split
    · next h =>
      have hc : cur ≠ [] := by rintro rfl; simp at h
      rw [List.flatten_cons, moveUpper_flatten, ← List.append_assoc, ← List.append_assoc,
        List.getLast?_eq_getLast _ hc, Option.toList_some, List.dropLast_concat_getLast hc]
      simp
    · simp [moveUpper_flatten]

theorem moveUpper_cons_same {a b : Char} {r : List Char} (rs : List (List Char))
    (h : u.isUpper a = u.isUpper b) :
    ∃ w X, moveUpper u (b :: r) rs = w :: X ∧ moveUpper u (a :: b :: r) rs = (a :: w) :: X ∧
      (w = [] ↔ r = [] ∧ (u.isUpper b && (rs.head?.bind List.head?).any u.isLower) = true) := by
  cases rs with
  | nil => exact ⟨_, _, rfl, rfl, by simp⟩
  | cons s rest =>
    cases hm : (u.isUpper b && s.head?.any u.isLower)
    · have ha : ((a :: b :: r).head?.any u.isUpper && s.head?.any u.isLower) = false := by
        simpa [h] using hm
      exact ⟨_, _, moveUpper_keep u rest (by simpa using hm), moveUpper_keep u rest ha,
        by simp [hm]⟩
    · have ha : ((a :: b :: r).head?.any u.isUpper && s.head?.any u.isLower) = true := by
        simpa [h] using hm
      refine ⟨_, _, moveUpper_move u rest (by simpa using hm), ?_, ?_⟩
      · rw [moveUpper_move u rest ha, List.getLast?_cons_cons]
        cases r <;> rfl
      · cases r <;> simp [hm]

theorem camelcaseSplit_of_classRuns {l r : List Char} {rs : List (List Char)}
    (h : classRuns u l = r :: rs) : camelcaseSplit u ⟨l⟩ = (moveUpper u r rs).filter (· ≠ []) := by
  show (match classRuns u l with | [] => [] | r :: rs => moveUpper u r rs).filter _ = _
  rw [h]

theorem camelcaseSplit_flatten (s : String) : (camelcaseSplit u s).flatten = s.toList := by
  unfold camelcaseSplit
  rw [List.flatten_filter_ne_nil]
  have h := classRuns_flatten u s.toList
  split
  · next h' => rw [h'] at h; exact h
  · next r rs h' => rw [h'] at h; rw [moveUpper_flatten]; exact h

theorem camelcaseSplit_cons_ne_nil (b : Char) (s : List Char) :
    ∃ w ws, camelcaseSplit u ⟨b :: s⟩ = w :: ws := by
  cases h : camelcaseSplit u ⟨b :: s⟩ with
  | nil => simpa [h] using camelcaseSplit_flatten u ⟨b :: s⟩
  | cons w ws => exact ⟨w, ws, rfl⟩

theorem camelcaseSplit_cons_same {a b : Char} (s : List Char) (h : charClass u a = charClass u b) :
    ∃ w ws, camelcaseSplit u ⟨b :: s⟩ = w :: ws ∧ camelcaseSplit u ⟨a :: b :: s⟩ =
      if (u.isUpper b && s.head?.any u.isLower) then [a] :: w :: ws else (a :: w) :: ws := by
  obtain ⟨r, rs, hb, hs⟩ := classRuns_cons u b s
  obtain ⟨w, X, hw, haw, hnil⟩ := moveUpper_cons_same u rs (isUpper_eq_of_charClass u h)
  have hab : camelcaseSplit u ⟨a :: b :: s⟩ = (a :: w) :: X.filter (· ≠ []) := by
    rw [@camelcaseSplit_of_classRuns u (a :: b :: s) _ _ (by rw [classRuns_cons_of u hb, if_pos h]),
      haw, List.filter_cons_of_pos (by simp)]
  have hbs : camelcaseSplit u ⟨b :: s⟩ = (w :: X).filter (· ≠ []) := by
    rw [camelcaseSplit_of_classRuns u hb, hw]
  have hiff : w = [] ↔ (u.isUpper b && s.head?.any u.isLower) = true := by
    rw [hnil]
    rcases hs with ⟨rfl, rfl, -⟩ | ⟨n, hn, hr, hc, -⟩
    · cases s with
      | nil => simp [classRuns]
      | cons n s =>
        obtain ⟨r', rs', hn, -⟩ := classRuns_cons u n s
        simp [hn]
    · have hr0 : r ≠ [] := by rintro rfl; simp at hr
      simp only [hr0, false_and, hn, Option.any_some, false_iff, Bool.and_eq_true, not_and]
      intro hu hl
      have h2 := hc ▸ (charClass_eq_two u).mpr hu
      rw [(charClass_eq_one u).mpr hl] at h2
      exact absurd h2 (by decide)
  by_cases hw0 : w = []
  · obtain ⟨w', ws', h'⟩ := camelcaseSplit_cons_ne_nil u b s
    refine ⟨w', ws', h', ?_⟩
    rw [if_pos (hiff.mp hw0), hab, ← h', hbs, hw0, List.filter_cons_of_neg (by simp)]
  · refine ⟨w, X.filter (· ≠ []), by rw [hbs, List.filter_cons_of_pos (by simpa using hw0)], ?_⟩
    rw [if_neg (mt hiff.mpr hw0), hab]

theorem camelcaseSplit_cons_diff {a b : Char} (s : List Char) (h : charClass u a ≠ charClass u b) :
    ∃ w ws, camelcaseSplit u ⟨b :: s⟩ = w :: ws ∧ camelcaseSplit u ⟨a :: b :: s⟩ =
      if (u.isUpper a && u.isLower b) then (a :: w) :: ws else [a] :: w :: ws := by
  obtain ⟨r, rs, hb, -⟩ := classRuns_cons u b s
  have ha := @camelcaseSplit_of_classRuns u (a :: b :: s) _ _
    (by rw [classRuns_cons_of u hb, if_neg h])
  have hbs := camelcaseSplit_of_classRuns u hb
  cases hm : (u.isUpper a && u.isLower b)
  · obtain ⟨w, ws, h'⟩ := camelcaseSplit_cons_ne_nil u b s
    refine ⟨w, ws, h', ?_⟩
    rw [ha, moveUpper_keep u rs (by simpa using hm), List.filter_cons_of_pos (by simp), ← hbs, h']
    rfl
  · -- `a` moves onto the lower-case run of `b`, and nothing moves out of that run
    have hl : u.isLower b = true := by simp_all
    rw [ha, moveUpper_move u _ (by simpa using hm)]
    cases rs with
    | nil => exact ⟨b :: r, [], by rw [hbs]; rfl, rfl⟩
    | cons s₂ rest =>
      have hs₂ : s₂.head?.any u.isLower = false := by
        cases s₂ with
        | nil => rfl
        | cons x xs =>
          have hx := classRuns_next_class u b s r (x :: xs) rest hb x rfl
          rw [(charClass_eq_one u).mpr hl] at hx
          exact Bool.eq_false_iff.mpr fun h' => hx ((charClass_eq_one u).mpr h').symm
      refine ⟨b :: r, (moveUpper u s₂ rest).filter (· ≠ []), ?_, ?_⟩
      · rw [hbs, moveUpper_keep u rest (by simp [u.lower_not_upper b hl]),
          List.filter_cons_of_pos (by simp)]
      · rw [if_pos rfl, List.getLast?_singleton, Option.toList_some, List.singleton_append,
          List.filter_cons_of_neg (by simp), moveUpper_keep u rest (by simp [hs₂]),
          List.filter_cons_of_pos (by simp)]

/-- The split of `a :: b :: s` is the split of `b :: s` with `a` in front: a word of its own
where the split cuts between `a` and `b`, the start of the first word otherwise. -/
theorem camelcaseSplit_cons_cons (a b : Char) (s : List Char) :
    ∃ w ws, camelcaseSplit u ⟨b :: s⟩ = w :: ws ∧ camelcaseSplit u ⟨a :: b :: s⟩ =
      if cutsBetween u a b s.head? then [a] :: w :: ws else (a :: w) :: ws := by
  by_cases h : charClass u a = charClass u b
  · obtain ⟨w, ws, h₁, h₂⟩ := camelcaseSplit_cons_same u s h
    refine ⟨w, ws, h₁, h₂.trans ?_⟩
    simp [cutsBetween, h, isUpper_eq_of_charClass u h]
  · obtain ⟨w, ws, h₁, h₂⟩ := camelcaseSplit_cons_diff u s h
    refine ⟨w, ws, h₁, h₂.trans ?_⟩
    by_cases hm : (u.isUpper a && u.isLower b) = true
    · have hu : u.isUpper b = false := u.lower_not_upper b (by simp_all)
      simp [cutsBetween, hm, hu]
    · simp [cutsBetween, h, hm]

theorem snakeCase_of_camelcaseSplit : ∀ (b : Char) (s w : List Char) (ws : List (List Char)),
    camelcaseSplit u ⟨b :: s⟩ = w :: ws →
      snakeCase u (b :: s) = w.map u.toLower ++ (ws.map fun t => '_' :: t.map u.toLower).flatten
  | b, [], w, ws, h => by
    obtain ⟨rfl, rfl⟩ := List.cons.inj (h.symm.trans (rfl : camelcaseSplit u ⟨[b]⟩ = [[b]]))
    rfl
  | a, b :: s, w, ws, h => by
    obtain ⟨w', ws', h', hab⟩ := camelcaseSplit_cons_cons u a b s
    rw [snakeCase, snakeCase_of_camelcaseSplit b s w' ws' h']
    rw [hab] at h
    split_ifs at h ⊢ <;> obtain ⟨rfl, rfl⟩ := List.cons.inj h <;> simp

theorem toSnakeCase_of_camelcaseSplit {b : Char} {s w : List Char} {ws : List (List Char)}
    (h : camelcaseSplit u ⟨b :: s⟩ = w :: ws) :
    (toSnakeCase u ⟨b :: s⟩).toList =
      w.map u.toLower ++ (ws.map fun t => '_' :: t.map u.toLower).flatten := by
  simp [toSnakeCase, h, String.intercalate, intercalate_go_data, Function.comp_def]

/-- `toSnakeCase` lower-cases every rune of the name and puts one `_` between two adjacent runes
exactly where `camelcase.Split` cuts. -/
theorem toSnakeCase_eq_snakeCase (name : String) :
    (toSnakeCase u name).toList = snakeCase u name.toList := by
  obtain ⟨_ | ⟨b, s⟩⟩ := name
  · rfl
  · obtain ⟨w, ws, h⟩ := camelcaseSplit_cons_ne_nil u b s
    rw [toSnakeCase_of_camelcaseSplit u h]
    exact (snakeCase_of_camelcaseSplit u b s w ws h).symm

section Latin1

variable {u}

theorem charClass_of_latin1 {c : Char} (h : c.toNat < 256) :
    charClass u c = charClass Unicode.latin1 c := by
  simp only [charClass, u.isLower_of_latin1 h, u.isUpper_of_latin1 h, u.isDigit_of_latin1 h,
    Unicode.latin1.isLower_of_latin1 h, Unicode.latin1.isUpper_of_latin1 h,
    Unicode.latin1.isDigit_of_latin1 h]

theorem cutsBetween_of_latin1 {a b : Char} {n : Option Char} (ha : a.toNat < 256)
    (hb : b.toNat < 256) (hn : ∀ c ∈ n, c.toNat < 256) :
    cutsBetween u a b n = cutsBetween Unicode.latin1 a b n := by
  have hn' : n.any u.isLower = n.any Unicode.latin1.isLower := by
    cases n with
    | none => rfl
    | some c => simp only [Option.any_some, u.isLower_of_latin1 (hn c rfl),
        Unicode.latin1.isLower_of_latin1 (hn c rfl)]
  simp only [cutsBetween, charClass_of_latin1 ha, charClass_of_latin1 hb, hn',
    u.isUpper_of_latin1 ha, u.isUpper_of_latin1 hb, u.isLower_of_latin1 hb,
    Unicode.latin1.isUpper_of_latin1 ha, Unicode.latin1.isUpper_of_latin1 hb,
    Unicode.latin1.isLower_of_latin1 hb]

theorem snakeCase_of_latin1 : ∀ l : List Char, (∀ c ∈ l, c.toNat < 256) →
    snakeCase u l = snakeCase Unicode.latin1 l
  | [], _ => rfl
  | [a], h => by
    have ha := h a (List.mem_singleton_self a)
    simp only [snakeCase, List.map_cons, List.map_nil, u.toLower_of_latin1 ha,
      Unicode.latin1.toLower_of_latin1 ha]
  | a :: b :: rest, h => by
    have ha := h a (List.mem_cons_self a _)
    have hr : ∀ c ∈ b :: rest, c.toNat < 256 := fun c hc => h c (List.mem_cons_of_mem a hc)
    rw [snakeCase, snakeCase, snakeCase_of_latin1 (b :: rest) hr, u.toLower_of_latin1 ha,
      Unicode.latin1.toLower_of_latin1 ha, cutsBetween_of_latin1 ha (hr b (List.mem_cons_self b _))
        fun c hc => hr c (List.mem_cons_of_mem b (List.mem_of_mem_head? hc))]

theorem toSnakeCase_of_latin1 {name : String} (h : ∀ c ∈ name.toList, c.toNat < 256) :
    toSnakeCase u name = toSnakeCase Unicode.latin1 name := by
  obtain ⟨_ | ⟨b, s⟩⟩ := name
  · rfl
  · obtain ⟨w, ws, hw⟩ := camelcaseSplit_cons_ne_nil u b s
    obtain ⟨w', ws', hw'⟩ := camelcaseSplit_cons_ne_nil Unicode.latin1 b s
    refine String.ext ?_
    show (toSnakeCase u ⟨b :: s⟩).toList = (toSnakeCase Unicode.latin1 ⟨b :: s⟩).toList
    rw [toSnakeCase_of_camelcaseSplit u hw, toSnakeCase_of_camelcaseSplit _ hw',
      ← snakeCase_of_camelcaseSplit u b s w ws hw, ← snakeCase_of_camelcaseSplit _ b s w' ws' hw']
    exact snakeCase_of_latin1 _ h

-- The cases of `TestToSnakeCase`, and a name beyond ASCII under every table.
example : toSnakeCase Unicode.latin1 "Test" = "test" := by decide
example : toSnakeCase Unicode.latin1 "ParseBQL" = "parse_bql" := by decide
example : toSnakeCase Unicode.latin1 "B2B" = "b_2_b" := by decide
example (u : Unicode) : toSnakeCase u "FooÜber" = "foo_über" := by
  rw [toSnakeCase_of_latin1 (by decide)]
  decide

end Latin1

end SensorBee.Data
