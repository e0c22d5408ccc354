import SensorBee.Data.Value

/-!
# Storage configuration

`config.NewStorage`: validate a `data.Map` against `storageSchemaString`, then read `uds.type` and
`uds.params` with defaults and the must-casts of `newStorage`. The JSON-Schema validator,
`getWithDefault`, `mustAsString` and `mustAsMap` are not in this repository's files; they are
modelled with their standard meaning, for maps given as lists that may repeat a key.
-/
namespace SensorBee.Config

open SensorBee.Data

/-- A JSON schema, keyword by keyword; `allOf` is one schema object with several keywords.
`enum` lists strings, as every `enum` of the storage schema does. -/
inductive Schema where
  | type (t : TypeID)
  | enum (vs : List String)
  | properties (ps : List (String × Schema)) (additionalProperties : Bool)
  | required (ks : List String)
  | maxProperties (n : Nat)
  | anyOf (ss : List Schema)
  | allOf (ss : List Schema)
  deriving Repr

mutual
/-- Whether a value is valid against a schema. The object keywords hold of every value that is
not an object. -/
def Schema.validate : Schema → Value → Bool
  | .type t, v => v.type == t
  | .enum vs, .string s => vs.contains s
  | .enum _, _ => false
  | .properties ps additional, .map m =>
    m.all fun e => (Schema.validateProperty ps e.1 e.2).getD additional
  | .properties _ _, _ => true
  | .required ks, .map m => ks.all fun k => (Map.get? m k).isSome
  | .required _, _ => true
  | .maxProperties n, .map m => decide (m.length ≤ n)
  | .maxProperties _, _ => true
  | .anyOf ss, v => Schema.validateAny ss v
  | .allOf ss, v => Schema.validateAll ss v

def Schema.validateProperty : List (String × Schema) → String → Value → Option Bool
  | [], _, _ => none
  | (k', s) :: ps, k, v => if k' = k then some (s.validate v) else Schema.validateProperty ps k v

def Schema.validateAny : List Schema → Value → Bool
  | [], _ => false
  | s :: ss, v => s.validate v || Schema.validateAny ss v

def Schema.validateAll : List Schema → Value → Bool
  | [], _ => true
  | s :: ss, v => s.validate v && Schema.validateAll ss v
end

def udsSchema (type : String) (params : Schema) : Schema :=
  .allOf [.type .map, .properties [
      ("type", .enum [type]),
      ("params", .anyOf [params, .type .null])] false,
    .required ["type"]]

def inMemoryParamsSchema : Schema := .allOf [.type .map, .maxProperties 0]

def fsParamsSchema : Schema :=
  .allOf [.type .map,
    .properties [("dir", .type .string), ("temp_dir", .type .string)] false,
    .required ["dir"]]

def storageSchema : Schema :=
  .allOf [.type .map, .properties [("uds", .anyOf [
    udsSchema "in_memory" inMemoryParamsSchema,
    udsSchema "fs" fsParamsSchema])] false]

/-- `data.Map.Get` on a compiled path of keys: every step but the last must be a map. -/
def getPath : Value → List String → Option Value
  | v, [] => some v
  | .map m, k :: ks => (Map.get? m k).bind (getPath · ks)
  | _, _ :: _ => none

def getWithDefault (m : Map) (path : List String) (d : Value) : Value :=
  (getPath (.map m) path).getD d

structure UDSStorage where
  type : String
  params : Map
  deriving Repr

structure Storage where
  uds : UDSStorage
  deriving Repr

def mustAsString (v : Value) : Except DataError String := asString v

def mustAsMap (v : Value) : Except DataError Map := asMap v

/-- `newStorage`; an error is the panic of a must-cast, in the order Go evaluates the fields of
the literal. -/
def newStorage (m : Map) : Except DataError Storage := do
  let udsParams := getWithDefault m ["uds", "params"] (.map [])
  let udsParams := if udsParams.type = .null then Value.map [] else udsParams
  let type ← mustAsString (getWithDefault m ["uds", "type"] (.string "in_memory"))
  let params ← mustAsMap udsParams
  return ⟨⟨type, params⟩⟩

/-- How `NewStorage` ends: a storage, the error of `validate` (whose text is not modelled), or a
panic with the error a must-cast raised. -/
inductive NewStorageResult where
  | storage (s : Storage)
  | invalid
  | panic (e : DataError)
  deriving Repr

def NewStorage (m : Map) : NewStorageResult :=
  if storageSchema.validate (.map m) then
    match newStorage m with
    | .ok s => .storage s
    | .error e => .panic e
  else .invalid

/-- What a storage configuration is for: an in-memory store takes no parameters, and a
file-system store takes only the string parameters `dir` and `temp_dir`. -/
def UDSStorage.WellFormed (u : UDSStorage) : Prop :=
  (u.type = "in_memory" ∧ u.params = []) ∨
  (u.type = "fs" ∧ ∀ e ∈ u.params, (e.1 = "dir" ∨ e.1 = "temp_dir") ∧ e.2.type = .string)

section Validation

variable {m : Map} {k : String} {v : Value}

theorem Schema.validateAll_iff : ∀ {ss : List Schema},
    Schema.validateAll ss v = true ↔ ∀ s ∈ ss, s.validate v = true
  | [] => by simp [Schema.validateAll]
  | s :: ss => by simp [Schema.validateAll, Schema.validateAll_iff]

theorem Schema.validateAny_iff : ∀ {ss : List Schema},
    Schema.validateAny ss v = true ↔ ∃ s ∈ ss, s.validate v = true
  | [] => by simp [Schema.validateAny]
  | s :: ss => by simp [Schema.validateAny, Schema.validateAny_iff]

@[simp] theorem Schema.validate_allOf {ss : List Schema} :
    (Schema.allOf ss).validate v = true ↔ ∀ s ∈ ss, s.validate v = true :=
  Schema.validateAll_iff

@[simp] theorem Schema.validate_anyOf {ss : List Schema} :
    (Schema.anyOf ss).validate v = true ↔ ∃ s ∈ ss, s.validate v = true :=
  Schema.validateAny_iff

@[simp] theorem Schema.validate_type {t : TypeID} :
    (Schema.type t).validate v = true ↔ v.type = t := by
  simp [Schema.validate]

theorem Map.mem_of_get? : ∀ {m : Map}, Map.get? m k = some v → (k, v) ∈ m
  | [], h => by simp [Map.get?] at h
  | (k', v') :: m, h => by
    by_cases hk : k = k'
    · subst hk
      simp only [Map.get?, List.lookup, beq_self_eq_true, Option.some.injEq] at h
      simp [h]
    · simp only [Map.get?, List.lookup, beq_false_of_ne hk] at h
      exact List.mem_cons_of_mem _ (Map.mem_of_get? h)

theorem validate_properties_mem {ps : List (String × Schema)} {additional : Bool}
    (h : (Schema.properties ps additional).validate (.map m) = true) {e : String × Value}
    (he : e ∈ m) : (Schema.validateProperty ps e.1 e.2).getD additional = true := by
  simp only [Schema.validate, List.all_eq_true] at h
  exact h e he

theorem validate_properties_get {ps : List (String × Schema)} {additional : Bool}
    (h : (Schema.properties ps additional).validate (.map m) = true) (hk : Map.get? m k = some v) :
    (Schema.validateProperty ps k v).getD additional = true :=
  validate_properties_mem h (Map.mem_of_get? hk)

theorem validate_enum_singleton {t : String} (h : (Schema.enum [t]).validate v = true) :
    v = .string t := by
  cases v <;> simp_all [Schema.validate]

theorem udsSchema_valid {type : String} {params : Schema}
    (h : (udsSchema type params).validate v = true) :
    ∃ u, v = .map u ∧ Map.get? u "type" = some (.string type) ∧
      ∀ p, Map.get? u "params" = some p → p.type = .null ∨ params.validate p = true := by
  simp only [udsSchema, Schema.validate_allOf, List.mem_cons, List.mem_singleton, forall_eq_or_imp,
    forall_eq, List.not_mem_nil, false_implies, implies_true, and_true, Schema.validate_type] at h
  obtain ⟨hm, hprops, hr⟩ := h
  cases v with
  | map u =>
    obtain ⟨t, ht⟩ := Option.isSome_iff_exists.mp (by simpa [Schema.validate] using hr)
    refine ⟨u, rfl, ?_, fun p hp => ?_⟩
    · have := validate_properties_get hprops ht
      simp only [Schema.validateProperty, if_pos, Option.getD_some] at this
      rw [ht, validate_enum_singleton this]
    · have := validate_properties_get hprops hp
      simp [Schema.validateProperty] at this
      tauto
  | _ => simp [Value.type] at hm

theorem inMemoryParams_valid (h : inMemoryParamsSchema.validate v = true) : v = .map [] := by
  simp only [inMemoryParamsSchema, Schema.validate_allOf, List.mem_cons, List.mem_singleton,
    forall_eq_or_imp, forall_eq, List.not_mem_nil, false_implies, implies_true, and_true,
    Schema.validate_type] at h
  obtain ⟨hm, hmax⟩ := h
  cases v with
  | map u => simpa [Schema.validate] using hmax
  | _ => simp [Value.type] at hm

theorem fsParams_valid (h : fsParamsSchema.validate v = true) :
    ∃ ps, v = .map ps ∧ ∀ e ∈ ps, (e.1 = "dir" ∨ e.1 = "temp_dir") ∧ e.2.type = .string := by
  simp only [fsParamsSchema, Schema.validate_allOf, List.mem_cons, List.mem_singleton,
    forall_eq_or_imp, forall_eq, List.not_mem_nil, false_implies, implies_true, and_true,
    Schema.validate_type] at h
  obtain ⟨hm, hprops, -⟩ := h
  cases v with
  | map ps =>
    refine ⟨ps, rfl, fun e he => ?_⟩
    have := validate_properties_mem hprops he
    simp only [Schema.validateProperty] at this
    split_ifs at this with h₁ h₂
    · exact ⟨.inl h₁.symm, by simpa using this⟩
    · exact ⟨.inr h₂.symm, by simpa using this⟩
    · simp at this
  | _ => simp [Value.type] at hm

theorem storageSchema_uds {u : Value} (h : storageSchema.validate (.map m) = true)
    (hu : Map.get? m "uds" = some u) :
    (udsSchema "in_memory" inMemoryParamsSchema).validate u = true ∨
      (udsSchema "fs" fsParamsSchema).validate u = true := by
  simp only [storageSchema, Schema.validate_allOf, List.mem_cons, List.mem_singleton,
    forall_eq_or_imp, forall_eq, List.not_mem_nil, false_implies, implies_true, and_true] at h
  have := validate_properties_get h.2 hu
  simpa [Schema.validateProperty] using this

end Validation

section Reading

variable {m : Map}

theorem newStorage_eq_ok {type : String} {params : Map}
    (ht : getWithDefault m ["uds", "type"] (.string "in_memory") = .string type)
    (hp : getWithDefault m ["uds", "params"] (.map []) = .map params ∨
      (getWithDefault m ["uds", "params"] (.map [])).type = .null ∧ params = []) :
    newStorage m = .ok ⟨⟨type, params⟩⟩ := by
  rcases hp with hp | ⟨hn, rfl⟩
  · simp [newStorage, ht, hp, mustAsString, mustAsMap, asString, asMap, Value.type]; rfl
  · simp [newStorage, ht, hn, mustAsString, mustAsMap, asString, asMap]; rfl

/-- Every map the schema accepts is read without a panic into a well-formed storage: with no
`uds` the type is `in_memory`, and with no or a null `uds.params` there are no parameters. -/
theorem newStorage_of_valid (h : storageSchema.validate (.map m) = true) :
    ∃ s, newStorage m = .ok s ∧ s.uds.WellFormed ∧
      (Map.get? m "uds" = none → s.uds.type = "in_memory") ∧
      (getPath (.map m) ["uds", "params"] = none ∨
        getPath (.map m) ["uds", "params"] = some .null → s.uds.params = []) := by
  cases hu : Map.get? m "uds" with
  | none =>
    have hd : ∀ ks d, getWithDefault m ("uds" :: ks) d = d := fun _ _ => by
      simp [getWithDefault, getPath, hu]
    exact ⟨_, newStorage_eq_ok (hd _ _) (.inl (hd _ _)), .inl ⟨rfl, rfl⟩, fun _ => rfl,
      fun _ => rfl⟩
  | some u =>
    have hwd : ∀ ks d, getWithDefault m ("uds" :: ks) d = (getPath u ks).getD d := fun _ _ => by
      simp [getWithDefault, getPath, hu]
    have hpath : ∀ ks, getPath (.map m) ("uds" :: ks) = getPath u ks := fun _ => by
      simp [getPath, hu]
    rcases storageSchema_uds h hu with h' | h'
    · obtain ⟨um, rfl, ht, hp⟩ := udsSchema_valid h'
      have hty : getWithDefault m ["uds", "type"] (.string "in_memory") = .string "in_memory" := by
        simp [hwd, getPath, ht]
      have hpar : getWithDefault m ["uds", "params"] (.map []) = .map [] ∨
          (getWithDefault m ["uds", "params"] (.map [])).type = .null ∧ ([] : Map) = [] := by
        cases hq : Map.get? um "params" with
        | none => exact .inl (by simp [hwd, getPath, hq])
        | some p =>
          rcases (hp p hq).imp_right inMemoryParams_valid with hn | rfl
          · exact .inr ⟨by simp [hwd, getPath, hq, hn], rfl⟩
          · exact .inl (by simp [hwd, getPath, hq])
      exact ⟨_, newStorage_eq_ok hty hpar, .inl ⟨rfl, rfl⟩, (fun h => nomatch h), fun _ => rfl⟩
    · obtain ⟨um, rfl, ht, hp⟩ := udsSchema_valid h'
      have hty : getWithDefault m ["uds", "type"] (.string "in_memory") = .string "fs" := by
        simp [hwd, getPath, ht]
      cases hq : Map.get? um "params" with
      | none =>
        exact ⟨_, newStorage_eq_ok hty (.inl (by simp [hwd, getPath, hq])),
          .inr ⟨rfl, by simp⟩, (fun h => nomatch h), fun _ => rfl⟩
      | some p =>
        rcases (hp p hq).imp_right fsParams_valid with hn | ⟨ps, rfl, hps⟩
        · exact ⟨_, newStorage_eq_ok hty (.inr ⟨by simp [hwd, getPath, hq, hn], rfl⟩),
            .inr ⟨rfl, by simp⟩, (fun h => nomatch h), fun _ => rfl⟩
        · refine ⟨_, newStorage_eq_ok hty (.inl (by simp [hwd, getPath, hq])),
            .inr ⟨rfl, hps⟩, (fun h => nomatch h), fun hn => ?_⟩
          simp only [hpath] at hn
          simp [getPath, hq] at hn

end Reading

/-- `NewStorage` never panics: it returns a storage exactly when the schema accepts the map,
and that storage is well formed, `in_memory` when `uds` is absent, and without parameters when
`uds.params` is absent or null. -/
theorem NewStorage_never_panics (m : Map) :
    (∀ e, NewStorage m ≠ .panic e) ∧
    (storageSchema.validate (.map m) = true ↔ ∃ s, NewStorage m = .storage s) ∧
    ∀ s, NewStorage m = .storage s →
      s.uds.WellFormed ∧
      (Map.get? m "uds" = none → s.uds.type = "in_memory") ∧
      (getPath (.map m) ["uds", "params"] = none ∨
        getPath (.map m) ["uds", "params"] = some .null → s.uds.params = []) := by
  by_cases h : storageSchema.validate (.map m) = true
  · obtain ⟨s, hs, hw⟩ := newStorage_of_valid h
    have he : NewStorage m = .storage s := by simp [NewStorage, h, hs]
    refine ⟨fun e => by simp [he], ⟨fun _ => ⟨s, he⟩, fun _ => h⟩, fun s' hs' => ?_⟩
    rw [he, NewStorageResult.storage.injEq] at hs'
    exact hs' ▸ hw
  · have he : NewStorage m = .invalid := by simp [NewStorage, h]
    simp [he, h]

end SensorBee.Config
