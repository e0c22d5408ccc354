import SensorBee.Data.Decode

/-!
# What `Decode` does with a map

For structs of exported bool, int, int64, float64, string and struct fields, `Decode` is exactly
the strict conversion of every field whose key the map holds. Outside that class it panics on
unsigned and unexported fields, and a narrow signed field keeps the low bits of the integer. The
tag options and the config fields `ErrorUnused` and `Metadata` are never read.
-/
namespace SensorBee.Data

section Expected

variable (u : Unicode) (d : Decoder)

mutual
/-- Kinds the strict path handles: bool, int, int64, float64, string, and structs of
exported fields of these kinds. -/
def GoValue.plain : GoValue → Bool
  | .bool _ | .int .int _ | .int .int64 _ | .float64 _ | .string _ => true
  | .struct fs => plainFields fs
  | _ => false

def plainFields : List (StructField × GoValue) → Bool
  | [] => true
  | (f, v) :: fs => f.exported u && GoValue.plain v && plainFields fs
end

mutual
/-- The value a field holds after the strict conversion of `src` succeeds; `none` when it
fails. A struct field takes a map, decoded field by field. -/
def Decoder.expectField (src : Value) : GoValue → Option GoValue
  | .bool _ => (asBool src).toOption.map .bool
  | .int .int _ => (strictInt src).toOption.map (.int .int)
  | .int .int64 _ => (strictInt src).toOption.map (.int .int64)
  | .float64 _ => (asFloat src).toOption.map .float64
  | .string _ => (asString src).toOption.map .string
  | .struct fs => (asMap src).toOption.bind fun m => (Decoder.expectFields m fs).map .struct
  | _ => none

def Decoder.expectFields (m : Map) :
    List (StructField × GoValue) → Option (List (StructField × GoValue))
  | [] => some []
  | (f, v) :: fs =>
    match m.get? (d.fieldKey u f) with
    | none => (Decoder.expectFields m fs).map ((f, v) :: ·)
    | some src =>
      (Decoder.expectField src v).bind fun v' => (Decoder.expectFields m fs).map ((f, v') :: ·)
end

end Expected

theorem Outcome.map_ret_none {α β : Type} {f : α → β} (hf : Function.Injective f)
    {o : Outcome α} {b : α} : o.map f = .ret (f b) none ↔ o = .ret b none := by
  cases o with
  | ret a e => simp [Outcome.map, hf.eq_iff]
  | panic => simp [Outcome.map]

theorem Outcome.map_ne_panic {α β : Type} {f : α → β} {o : Outcome α}
    (h : ∀ msg, o ≠ .panic msg) (msg : String) : o.map f ≠ .panic msg := by
  cases o with
  | ret => simp [Outcome.map]
  | panic m => exact absurd rfl (h m)

theorem Outcome.map_ret_iff {α β : Type} {f : α → β} {o : Outcome α} {b : β}
    {e : Option DataError} : o.map f = .ret b e ↔ ∃ a, o = .ret a e ∧ f a = b := by
  cases o with
  | ret a e' =>
    simp only [Outcome.map, Outcome.ret.injEq]
    exact ⟨fun ⟨h₁, h₂⟩ => ⟨a, ⟨rfl, h₂⟩, h₁⟩, fun ⟨_, ⟨h₁, h₂⟩, h₃⟩ => ⟨h₁ ▸ h₃, h₂⟩⟩
  | panic => simp [Outcome.map]

theorem Outcome.map_ret_none_iff {α β : Type} {f : α → β} {o : Outcome α} {b : β} :
    o.map f = .ret b none ↔ ∃ a, o = .ret a none ∧ f a = b :=
  Outcome.map_ret_iff

theorem ofInt_toInt_self {n : Nat} (x : BitVec n) : BitVec.ofInt n x.toInt = x :=
  BitVec.eq_of_toInt_eq (by rw [BitVec.toInt_ofInt, BitVec.toInt_eq_toNat_bmod, Int.bmod_bmod])

theorem lookup_cons_ne {m : Map} {k key : String} {x : Value} (h : key ≠ k) :
    Map.get? ((k, x) :: m) key = m.get? key := by
  simp [Map.get?, List.lookup, beq_false_of_ne h]

section Plain

variable (w : WeakCasts) (u : Unicode) (d : Decoder)

mutual
/-- On a settable plain field, `decode` returns nil exactly with the expected value, and
never panics. -/
theorem decode_plain (src : Value) : ∀ v : GoValue, v.plain u = true →
    (∀ v', d.decode w u src true false v = .ret v' none ↔ d.expectField u src v = some v') ∧
    ∀ msg, d.decode w u src true false v ≠ .panic msg
  | .bool _, _ => by
    cases h : asBool src <;> simp [Decoder.decode, decodeBool, convertThenSet, h,
      GoValue.setBool, setter, Decoder.expectField, Except.toOption]
  | .int .int _, _ => by
    cases h : strictInt src <;> simp [Decoder.decode, decodeInt, intOf, convertThenSet, h,
      GoValue.setInt, setter, Decoder.expectField, Except.toOption, ofInt_toInt_self]
  | .int .int64 _, _ => by
    cases h : strictInt src <;> simp [Decoder.decode, decodeInt, intOf, convertThenSet, h,
      GoValue.setInt, setter, Decoder.expectField, Except.toOption, ofInt_toInt_self]
  | .float64 _, _ => by
    cases h : asFloat src <;> simp [Decoder.decode, decodeFloat, convertThenSet, h,
      GoValue.setFloat, setter, Decoder.expectField, Except.toOption]
  | .string _, _ => by
    cases h : asString src <;> simp [Decoder.decode, decodeString, convertThenSet, h,
      GoValue.setString, setter, Decoder.expectField, Except.toOption]
  | .struct fs, hp => by
    cases hm : asMap src with
    | error e => simp [Decoder.decode, structFrom, hm, Decoder.expectField, Except.toOption]
    | ok m =>
      obtain ⟨h₁, h₂⟩ := decodeFields_plain m fs (by simpa [GoValue.plain] using hp)
      simp only [Decoder.decode, structFrom, hm, Decoder.expectField, Except.toOption,
        Option.some_bind, Outcome.map_ret_none_iff, Option.map_eq_some']
      exact ⟨fun v' => exists_congr fun fs' => and_congr_left' (h₁ fs'),
        Outcome.map_ne_panic h₂⟩

theorem decodeFields_plain (m : Map) : ∀ fs : List (StructField × GoValue),
    plainFields u fs = true →
    (∀ fs', d.decodeFields w u m true fs = .ret fs' none ↔ d.expectFields u m fs = some fs') ∧
    ∀ msg, d.decodeFields w u m true fs ≠ .panic msg
  | [], _ => by simp [Decoder.decodeFields, Decoder.expectFields]
  | (f, v) :: fs, hp => by
    simp only [plainFields, Bool.and_eq_true] at hp
    obtain ⟨⟨hf, hv⟩, hfs⟩ := hp
    obtain ⟨ih₁, ih₂⟩ := decodeFields_plain m fs hfs
    cases hk : m.get? (d.fieldKey u f) with
    | none =>
      simp only [Decoder.decodeFields, Decoder.expectFields, hk, Outcome.map_ret_none_iff,
        Option.map_eq_some']
      exact ⟨fun fs' => exists_congr fun fs₁ => and_congr_left' (ih₁ fs₁),
        Outcome.map_ne_panic ih₂⟩
    | some src =>
      obtain ⟨hd₁, hd₂⟩ := decode_plain src v hv
      simp only [Decoder.decodeFields, Decoder.expectFields, hk, hf, Bool.true_and]
      cases hdv : d.decode w u src true false v with
      | ret v' e =>
        cases e with
        | none =>
          simp only [(hd₁ v').1 hdv, Option.some_bind, Outcome.map_ret_none_iff,
            Option.map_eq_some']
          exact ⟨fun fs' => exists_congr fun fs₁ => and_congr_left' (ih₁ fs₁),
            Outcome.map_ne_panic ih₂⟩
        | some e =>
          have he : d.expectField u src v = none := by
            cases hx : d.expectField u src v with
            | none => rfl
            | some x => rw [(hd₁ x).2 hx] at hdv; cases hdv
          simp [he]
      | panic msg => exact absurd hdv (hd₂ msg)
end

end Plain

section Loop

variable (w : WeakCasts) (u : Unicode) (d : Decoder)

theorem decodeFields_unknown_key (m : Map) (canSet : Bool) (k : String) (x : Value) :
    ∀ fs : List (StructField × GoValue), (∀ p ∈ fs, d.fieldKey u p.1 ≠ k) →
      d.decodeFields w u ((k, x) :: m) canSet fs = d.decodeFields w u m canSet fs
  | [], _ => rfl
  | (f, v) :: fs, h => by
    have ih := decodeFields_unknown_key m canSet k x fs
      (fun p hp => h p (List.mem_cons_of_mem _ hp))
    simp only [Decoder.decodeFields, lookup_cons_ne (h (f, v) (List.mem_cons_self _ _)), ih]

/-- When the loop returns nil, each field is unchanged if its key is absent and holds what
`decode` returned for it otherwise. -/
theorem decodeFields_ret_none {m : Map} {canSet : Bool} :
    ∀ {fs fs' : List (StructField × GoValue)}, d.decodeFields w u m canSet fs = .ret fs' none →
      List.Forall₂ (fun p p' => p'.1 = p.1 ∧
        match m.get? (d.fieldKey u p.1) with
        | none => p'.2 = p.2
        | some src => d.decode w u src (canSet && p.1.exported u) false p.2 = .ret p'.2 none)
        fs fs'
  | [], fs', h => by
    simp only [Decoder.decodeFields, Outcome.ret.injEq] at h
    rw [← h.1]; exact .nil
  | (f, v) :: fs, fs', h => by
    simp only [Decoder.decodeFields] at h
    cases hk : m.get? (d.fieldKey u f) with
    | none =>
      rw [hk, Outcome.map_ret_none_iff] at h
      obtain ⟨fs₁, h₁, rfl⟩ := h
      exact .cons ⟨rfl, by simp [hk]⟩ (decodeFields_ret_none h₁)
    | some src =>
      cases hv : d.decode w u src (canSet && f.exported u) false v with
      | ret v' e =>
        cases e with
        | none =>
          simp only [hk, hv, Outcome.map_ret_none_iff] at h
          obtain ⟨fs₁, h₁, rfl⟩ := h
          exact .cons ⟨rfl, by simpa [hk] using hv⟩ (decodeFields_ret_none h₁)
        | some e => simp [hk, hv] at h
      | panic => simp [hk, hv] at h

/-- When the loop returns an error, it stopped at the first field whose decoding failed: the
fields before it were decoded as on success, that field holds what `decode` left in it, and the
fields after it were not touched. -/
theorem decodeFields_ret_some {m : Map} {canSet : Bool} {e : DataError} :
    ∀ {fs fs' : List (StructField × GoValue)},
      d.decodeFields w u m canSet fs = .ret fs' (some e) →
      ∃ pre pre' f v v' post src, fs = pre ++ (f, v) :: post ∧ fs' = pre' ++ (f, v') :: post ∧
        d.decodeFields w u m canSet pre = .ret pre' none ∧ m.get? (d.fieldKey u f) = some src ∧
        d.decode w u src (canSet && f.exported u) false v = .ret v' (some e)
  | [], fs', h => by simp [Decoder.decodeFields] at h
  | (f, v) :: fs, fs', h => by
    simp only [Decoder.decodeFields] at h
    cases hk : m.get? (d.fieldKey u f) with
    | none =>
      rw [hk, Outcome.map_ret_iff] at h
      obtain ⟨fs₁, h₁, rfl⟩ := h
      obtain ⟨pre, pre', g, x, x', post, src, rfl, rfl, hpre, hg, hx⟩ := decodeFields_ret_some h₁
      exact ⟨(f, v) :: pre, (f, v) :: pre', g, x, x', post, src, rfl, rfl,
        by simp [Decoder.decodeFields, hk, hpre, Outcome.map], hg, hx⟩
    | some src =>
      cases hv : d.decode w u src (canSet && f.exported u) false v with
      | ret v' e' =>
        cases e' with
        | none =>
          simp only [hk, hv, Outcome.map_ret_iff] at h
          obtain ⟨fs₁, h₁, rfl⟩ := h
          obtain ⟨pre, pre', g, x, x', post, src', rfl, rfl, hpre, hg, hx⟩ :=
            decodeFields_ret_some h₁
          exact ⟨(f, v) :: pre, (f, v') :: pre', g, x, x', post, src', rfl, rfl,
            by simp [Decoder.decodeFields, hk, hv, hpre, Outcome.map], hg, hx⟩
        | some e' =>
          simp only [hk, hv, Outcome.ret.injEq, Option.some.injEq] at h
          obtain ⟨rfl, rfl⟩ := h
          exact ⟨[], [], f, v, v', fs, src, rfl, rfl, rfl, hk, hv⟩
      | panic => simp [hk, hv] at h

theorem decodeFields_empty (canSet : Bool) :
    ∀ fs : List (StructField × GoValue), d.decodeFields w u [] canSet fs = .ret fs none
  | [] => rfl
  | (f, v) :: fs => by
    simp only [Decoder.decodeFields, Map.get?, List.lookup, decodeFields_empty canSet fs,
      Outcome.map]

theorem Decode_one_field (f : StructField) (v : GoValue) (src : Value) :
    Decode w u [((NewDecoder none).fieldKey u f, src)] (.ptr (.struct [(f, v)])) =
      ((NewDecoder none).decode w u src (f.exported u) false v).map
        fun v' => .ptr (.struct [(f, v')]) := by
  simp only [Decode, Decoder.Decode, Decoder.decodeStruct, structFrom, asMap, Decoder.decodeFields,
    Map.get?, List.lookup, beq_self_eq_true, Bool.true_and]
  cases (NewDecoder none).decode w u src (f.exported u) false v with
  | ret v' e => cases e <;> rfl
  | panic => rfl

end Loop

section Latin1

variable (u : Unicode)

theorem exported_of_latin1 (f : StructField) (h : ∀ c ∈ f.name.toList.head?, c.toNat < 256) :
    f.exported u = f.exported Unicode.latin1 := by
  unfold StructField.exported
  cases hn : f.name.toList.head? with
  | none => rfl
  | some c => simp only [Option.any_some, u.isUpper_of_latin1 (h c hn),
      Unicode.latin1.isUpper_of_latin1 (h c hn)]

theorem fieldKey_of_latin1 (d : Decoder) (f : StructField)
    (h : ∀ c ∈ f.name.toList, c.toNat < 256) : d.fieldKey u f = d.fieldKey Unicode.latin1 f := by
  simp only [Decoder.fieldKey, toSnakeCase_of_latin1 h]

theorem Decode_one_field_of_latin1 (w : WeakCasts) (f : StructField) (v : GoValue) (src : Value)
    (h : ∀ c ∈ f.name.toList, c.toNat < 256) :
    Decode w u [((NewDecoder none).fieldKey Unicode.latin1 f, src)] (.ptr (.struct [(f, v)])) =
      ((NewDecoder none).decode w u src (f.exported Unicode.latin1) false v).map
        fun v' => .ptr (.struct [(f, v')]) := by
  rw [← fieldKey_of_latin1 u _ f h,
    ← exported_of_latin1 u f fun c hc => h c (List.mem_of_mem_head? hc)]
  exact Decode_one_field w u f v src

-- A field name beyond ASCII: `FooÜber` is keyed `foo_über` and set, under every table.
example (w : WeakCasts) :
    Decode w u [("foo_über", .bool true)] (.ptr (.struct [(⟨"FooÜber", []⟩, .bool false)])) =
      .ret (.ptr (.struct [(⟨"FooÜber", []⟩, .bool true)])) none :=
  (Decode_one_field_of_latin1 u w ⟨"FooÜber", []⟩ _ _ (by decide)).trans rfl

end Latin1

section Congr

variable (w w' : WeakCasts) (u : Unicode) {d d' : Decoder}

mutual
/-- On the strict path neither the weak conversions nor any config field but the tag name is
read. -/
theorem decode_strict_congr (ht : d.config.tagName = d'.config.tagName) (src : Value)
    (canSet : Bool) :
    ∀ v : GoValue, d.decode w u src canSet false v = d'.decode w' u src canSet false v
  | .struct fs => by
    simp only [Decoder.decode]
    congr 1
    funext m
    exact decodeFields_strict_congr ht m canSet fs
  | .bool _ | .int _ _ | .uint _ _ | .float32 _ | .float64 _ | .string _ | .interface _ | .map
  | .slice | .other _ => rfl

theorem decodeFields_strict_congr (ht : d.config.tagName = d'.config.tagName) (m : Map)
    (canSet : Bool) :
    ∀ fs : List (StructField × GoValue),
      d.decodeFields w u m canSet fs = d'.decodeFields w' u m canSet fs
  | [] => rfl
  | (f, v) :: fs => by
    have hk : d.fieldKey u f = d'.fieldKey u f := by simp only [Decoder.fieldKey, ht]
    simp only [Decoder.decodeFields, hk, decode_strict_congr ht,
      decodeFields_strict_congr ht m canSet fs]
end

theorem Decode_congr (ht : d.config.tagName = d'.config.tagName) (m : Map) (v : Target) :
    d.Decode w u m v = d'.Decode w' u m v := by
  cases v with
  | ptr v =>
    cases v <;> simp only [Decoder.Decode, Decoder.decodeStruct,
      decodeFields_strict_congr w w' u ht]
  | value => rfl

end Congr

/-- Decoding a map into a pointer to a plain struct: nil exactly when the strict conversion of
every field whose key is present succeeds, and then those fields hold the converted values and
the others keep theirs; never a panic; a key naming no field changes nothing. -/
theorem decode_plain_struct (w : WeakCasts) (u : Unicode) (m : Map)
    (fs : List (StructField × GoValue)) (h : plainFields u fs = true) :
    (∀ fs', Decode w u m (.ptr (.struct fs)) = .ret (.ptr (.struct fs')) none ↔
      (NewDecoder none).expectFields u m fs = some fs') ∧
    (∀ msg, Decode w u m (.ptr (.struct fs)) ≠ .panic msg) ∧
    ∀ k x, (∀ p ∈ fs, (NewDecoder none).fieldKey u p.1 ≠ k) →
      Decode w u ((k, x) :: m) (.ptr (.struct fs)) = Decode w u m (.ptr (.struct fs)) := by
  obtain ⟨h₁, h₂⟩ := decodeFields_plain w u (NewDecoder none) m fs h
  refine ⟨fun fs' => ?_, fun msg => ?_, fun k x hk => ?_⟩
  · simp only [Decode, Decoder.Decode, Decoder.decodeStruct, structFrom, asMap]
    rw [Outcome.map_ret_none (fun _ _ => Target.ptr.inj),
      Outcome.map_ret_none (fun _ _ => GoValue.struct.inj), h₁]
  · exact Outcome.map_ne_panic (Outcome.map_ne_panic h₂) msg
  · simp only [Decode, Decoder.Decode, Decoder.decodeStruct, structFrom, asMap,
      decodeFields_unknown_key w u _ m true k x fs hk]

theorem decode_plain_struct_flag :
    plainFields Unicode.latin1 [(⟨"B", []⟩, .bool false)] = true ∧
    ((∀ fs', Decode WeakCasts.strict Unicode.latin1 [("b", .bool true)]
        (.ptr (.struct [(⟨"B", []⟩, .bool false)])) = .ret (.ptr (.struct fs')) none ↔
      (NewDecoder none).expectFields Unicode.latin1 [("b", .bool true)]
        [(⟨"B", []⟩, .bool false)] = some fs') ∧
    (∀ msg, Decode WeakCasts.strict Unicode.latin1 [("b", .bool true)]
        (.ptr (.struct [(⟨"B", []⟩, .bool false)])) ≠ .panic msg) ∧
    ∀ k x, (∀ p ∈ [(⟨"B", []⟩, GoValue.bool false)],
        (NewDecoder none).fieldKey Unicode.latin1 p.1 ≠ k) →
      Decode WeakCasts.strict Unicode.latin1 ((k, x) :: [("b", .bool true)])
        (.ptr (.struct [(⟨"B", []⟩, .bool false)])) =
      Decode WeakCasts.strict Unicode.latin1 [("b", .bool true)]
        (.ptr (.struct [(⟨"B", []⟩, .bool false)]))) :=
  ⟨rfl, decode_plain_struct WeakCasts.strict Unicode.latin1 [("b", .bool true)] _ rfl⟩

/-- A field of unsigned kind panics in `SetInt` whatever integer the map holds for it, and an
unexported field panics in its setter. -/
theorem decode_panics_on_uint_and_unexported (w : WeakCasts) (u : Unicode) :
    (∀ (k : UintKind) (v : BitVec k.width) (x : BitVec 64),
      Decode w u [("x", .int x)] (.ptr (.struct [(⟨"X", []⟩, .uint k v)])) =
        .panic ("reflect: call of reflect.Value.SetInt on " ++ (GoValue.uint k v).kindName ++
          " Value")) ∧
    ∀ b b' : Bool, Decode w u [("b", .bool b)] (.ptr (.struct [(⟨"b", []⟩, .bool b')])) =
      .panic "reflect: reflect.Value.SetBool using value obtained using unexported field" :=
  ⟨fun _ _ _ => (Decode_one_field_of_latin1 u w ⟨"X", []⟩ _ _ (by decide)).trans rfl,
    fun _ _ => (Decode_one_field_of_latin1 u w ⟨"b", []⟩ _ _ (by decide)).trans rfl⟩

theorem bmod_two_pow_eq_self_iff (n : Nat) (i : Int) :
    i.bmod (2 ^ (n + 1)) = i ↔ -2 ^ n ≤ i ∧ i < 2 ^ n := by
  have hm : ((2 ^ (n + 1) : Nat) : Int) = 2 ^ n * 2 := by push_cast; rw [Int.pow_succ]
  have hp : (0 : Int) < 2 ^ n := by exact_mod_cast Nat.two_pow_pos n
  constructor
  · intro h
    have h₁ := @Int.le_bmod i (2 ^ (n + 1)) (Nat.two_pow_pos _)
    have h₂ := @Int.bmod_lt i (2 ^ (n + 1)) (Nat.two_pow_pos _)
    rw [h] at h₁ h₂
    push_cast at h₁ h₂
    rw [Int.pow_succ] at h₁ h₂
    omega
  · rintro ⟨h₁, h₂⟩
    by_cases hi : i < 0
    · have he : i % ((2 ^ (n + 1) : Nat) : Int) = i + 2 ^ n * 2 := by
        rw [hm, ← Int.add_emod_self, Int.emod_eq_of_lt (by omega) (by omega)]
      rw [Int.bmod_neg _ _ (by rw [he]; push_cast; rw [Int.pow_succ]; omega), he, hm]
      omega
    · have he : i % ((2 ^ (n + 1) : Nat) : Int) = i := Int.emod_eq_of_lt (by omega) (by omega)
      rw [Int.bmod_pos _ _ (by rw [he]; push_cast; rw [Int.pow_succ]; omega), he]

theorem IntKind.width_pos (k : IntKind) : 0 < k.width := by cases k <;> decide

/-- `Int(i)` decoded into an exported signed field returns nil and leaves in the field `i`
wrapped to the field's width: `i` itself exactly when it lies in the field's range. -/
theorem decode_int_wraps (w : WeakCasts) (u : Unicode) (k : IntKind) (v : BitVec k.width)
    (i : BitVec 64) :
    Decode w u [("x", .int i)] (.ptr (.struct [(⟨"X", []⟩, .int k v)])) =
      .ret (.ptr (.struct [(⟨"X", []⟩, .int k (BitVec.ofInt k.width i.toInt))])) none ∧
    (BitVec.ofInt k.width i.toInt).toInt = i.toInt.bmod (2 ^ k.width) ∧
    ((BitVec.ofInt k.width i.toInt).toInt = i.toInt ↔
      -2 ^ (k.width - 1) ≤ i.toInt ∧ i.toInt < 2 ^ (k.width - 1)) := by
  refine ⟨(Decode_one_field_of_latin1 u w ⟨"X", []⟩ _ _ (by decide)).trans rfl,
    BitVec.toInt_ofInt _, ?_⟩
  obtain ⟨n, hn⟩ : ∃ n, k.width = n + 1 := ⟨k.width - 1, by have := k.width_pos; omega⟩
  rw [BitVec.toInt_ofInt, hn, Nat.add_sub_cancel]
  exact bmod_two_pow_eq_self_iff n i.toInt

/-- The options `required` and `weaklytyped` and the config fields `ErrorUnused` and `Metadata`
change nothing: against the empty map every struct decodes to nil unchanged, a
`weaklytyped` float field fails on a string whatever the weak conversions are, and a decoder
built from any config behaves as the default one. -/
theorem decode_ignores_declared_options (w : WeakCasts) (u : Unicode) :
    (∀ fs, Decode w u [] (.ptr (.struct fs)) = .ret (.ptr (.struct fs)) none) ∧
    (∀ (w' : WeakCasts) m v, Decode w' u m v = Decode w u m v) ∧
    Decode w u [("f", .string "3.14")]
        (.ptr (.struct [(⟨"F", [("bql", "f,weaklytyped")]⟩, .float64 ⟨0⟩)])) =
      .ret (.ptr (.struct [(⟨"F", [("bql", "f,weaklytyped")]⟩, .float64 ⟨0⟩)]))
        (some (.cast .float .string)) ∧
    (∀ (errorUnused : Bool) (md : Option DecoderMetadata) m v,
      (NewDecoder (some ⟨errorUnused, md, ""⟩)).Decode w u m v = Decode w u m v) ∧
    Decode w u [("zzz", .int 1)] (.ptr (.struct [])) = .ret (.ptr (.struct [])) none :=
  ⟨fun fs => by simp only [Decode, Decoder.Decode, Decoder.decodeStruct, structFrom, asMap,
      decodeFields_empty, Outcome.map],
    fun w' _ _ => Decode_congr w' w u rfl _ _, rfl,
    fun eu md _ _ => @Decode_congr w w u (NewDecoder (some ⟨eu, md, ""⟩)) (NewDecoder none) rfl _ _,
    rfl⟩

end SensorBee.Data
