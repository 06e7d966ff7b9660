import Agentive.ArgumentGates
import Mathlib.Data.Finset.Dedup
import Mathlib.Data.Fintype.EquivFin

/-! Unknown fields in the decoder of a tool. Its walk goes on below a subschema only where the
value and the type of the subschema are both objects or both arrays; all else it lets through. -/

namespace Agentive

/-- A subschema for what is at a path, whatever the value is: through properties, items, the
branches of combinators and references to local definitions. -/
inductive Positioned (root : Value) : Value → List ValueStep → Value → Prop
  | here (schema : Value) : Positioned root schema [] schema
  | ref {schema target t : Value} {path : List ValueStep} {reference name : String}
      (hr : schema.reference = some reference)
      (hname : stripPrefix "#/$defs/" reference = some name)
      (htarget : root.definition name = some target) (rest : Positioned root target path t) :
      Positioned root schema path t
  | branch {schema child t : Value} {path : List ValueStep} {key : String} {children : List Value}
      (hkey : key ∈ ["anyOf", "oneOf", "allOf"]) (h : schema.get key = some (.array children))
      (mem : child ∈ children) (rest : Positioned root child path t) :
      Positioned root schema path t
  | property {schema child t : Value} {path : List ValueStep} {name : String}
      {properties : List (String × Value)}
      (h : schema.get "properties" = some (.object properties)) (mem : (name, child) ∈ properties)
      (rest : Positioned root child path t) : Positioned root schema (.member name :: path) t
  | item {schema child t : Value} {path : List ValueStep} {i : Nat}
      (h : schema.get "items" = some child) (rest : Positioned root child path t) :
      Positioned root schema (.index i :: path) t

/-- A subschema without references and combinators. -/
structure Bare (schema : Value) : Prop where
  reference : schema.reference = none
  branches : ∀ key ∈ ["anyOf", "oneOf", "allOf"], schema.get key = none

theorem Bare.eq_of_positioned {root schema t : Value} (hbare : Bare schema)
    (h : Positioned root schema [] t) : t = schema := by
  cases h with
  | here => rfl
  | ref hr => cases hbare.reference.symm.trans hr
  | branch hkey hget => cases (hbare.branches _ hkey).symm.trans hget

theorem Bare.property_of_positioned {root schema t : Value} {path : List ValueStep} {name : String}
    (hbare : Bare schema) (h : Positioned root schema (.member name :: path) t) :
    ∃ properties child, schema.get "properties" = some (.object properties) ∧
      (name, child) ∈ properties ∧ Positioned root child path t := by
  cases h with
  | ref hr => cases hbare.reference.symm.trans hr
  | branch hkey hget => cases (hbare.branches _ hkey).symm.trans hget
  | property hget hmem hrest => exact ⟨_, _, hget, hmem, hrest⟩

def DeclaredAt (root : Value) (path : List ValueStep) (name : String) : Prop :=
  ∃ t, Positioned root root path t ∧ name ∈ t.propertyNames

/-- Every object that the schema reaches has only members that a subschema for it lists. -/
def FieldsDeclared (root v : Value) : Prop :=
  ∀ path members, v.at? path = some (.object members) → (∃ t, Positioned root root path t) →
    ∀ name ∈ members.map (·.1), DeclaredAt root path name

/-- The subschema that the walk compares with what is at a path. -/
def comparedAt (root : Value) : Value → List ValueStep → Option Value
  | schema, [] => some (root.opened schema)
  | schema, .member name :: path =>
    if (root.opened schema).isObjectSchema then
      match ((root.opened schema).get "properties").bind Value.asObject with
      | none => none
      | some properties =>
        match properties.lookup name with
        | none => none
        | some child => comparedAt root child path
    else none
  | schema, .index _ :: path =>
    if (root.opened schema).isArraySchema then
      match (root.opened schema).get "items" with
      | none => none
      | some child => comparedAt root child path
    else none

theorem met_of_comparedAt {root schema v t u : Value} {path : List ValueStep}
    (h : comparedAt root schema path = some t) (hat : v.at? path = some u) :
    Met root schema v t u := by
  induction path generalizing schema v with
  | nil =>
    obtain rfl := Option.some.inj h
    obtain rfl := Option.some.inj hat
    exact .here schema v
  | cons step path ih =>
    cases step with
    | member name =>
      cases v with
      | object members =>
        simp only [Value.at?] at hat
        cases hw : members.lookup name with
        | none => simp [hw] at hat
        | some w =>
          rw [hw] at hat
          rw [comparedAt] at h
          by_cases ho : (root.opened schema).isObjectSchema = true
          · rw [if_pos ho] at h
            cases hp : ((root.opened schema).get "properties").bind Value.asObject with
            | none => simp [hp] at h
            | some properties =>
              cases hchild : properties.lookup name with
              | none => simp [hp, hchild] at h
              | some child =>
                simp only [hp, hchild] at h
                exact .member ho hp (mem_of_lookup hw) hchild (ih h hat)
          · rw [if_neg ho] at h
            cases h
      | _ => cases hat
    | index i =>
      cases v with
      | array items =>
        simp only [Value.at?] at hat
        cases hw : items[i]? with
        | none => simp [hw] at hat
        | some w =>
          rw [hw] at hat
          rw [comparedAt] at h
          by_cases ha : (root.opened schema).isArraySchema = true
          · rw [if_pos ha] at h
            cases hi : (root.opened schema).get "items" with
            | none => simp [hi] at h
            | some child =>
              simp only [hi] at h
              exact .item ha hi (List.mem_of_getElem? hw) (ih h hat)
          · rw [if_neg ha] at h
            cases h
      | _ => cases hat

/-- The walk lets some value stand that has an object at this path. -/
def letsStand (root : Value) : Value → List ValueStep → Bool
  | schema, [] =>
    !(root.opened schema).isObjectSchema || ((root.opened schema).rejectsUnknown &&
      (((root.opened schema).get "properties").bind Value.asObject).isSome)
  | schema, .member name :: path =>
    if (root.opened schema).isObjectSchema then
      (root.opened schema).rejectsUnknown &&
        match ((root.opened schema).get "properties").bind Value.asObject with
        | none => false
        | some properties =>
          match properties.lookup name with
          | none => false
          | some child => letsStand root child path
    else true
  | schema, .index _ :: path =>
    if (root.opened schema).isArraySchema then
      match (root.opened schema).get "items" with
      | none => true
      | some child => letsStand root child path
    else true

/-- The walk compares an object at this path with an object schema that lists only what is declared
there. -/
def ClosesAt (schema : Value) (path : List ValueStep) : Prop :=
  ∃ t, comparedAt schema schema path = some t ∧ t.isObjectSchema = true ∧
    ∀ name ∈ t.propertyNames, DeclaredAt schema.unwrapped path name

theorem letsStand_of_ok {root schema v : Value} {path : List ValueStep}
    {members : List (String × Value)}
    (hok : validateUnknownFieldsInner root v schema = .ok ())
    (hat : v.at? path = some (.object members)) : letsStand root schema path = true := by
  induction path generalizing schema v with
  | nil =>
    obtain rfl := Option.some.inj hat
    rw [validateUnknownFieldsInner_eq_ok_iff, allListed_object_iff] at hok
    rw [letsStand]
    cases ho : (root.opened schema).isObjectSchema with
    | false => rfl
    | true =>
      obtain ⟨hreject, properties, hp, _⟩ := hok ho
      simp [hreject, hp]
  | cons step path ih =>
    cases step with
    | member name =>
      cases v with
      | object own =>
        simp only [Value.at?] at hat
        cases hw : own.lookup name with
        | none => simp [hw] at hat
        | some w =>
          rw [hw] at hat
          rw [validateUnknownFieldsInner_eq_ok_iff, allListed_object_iff] at hok
          rw [letsStand]
          by_cases ho : (root.opened schema).isObjectSchema = true
          · obtain ⟨hreject, properties, hp, hall⟩ := hok ho
            obtain ⟨child, hchild, hlisted⟩ := hall _ (mem_of_lookup hw)
            have hbelow : letsStand root child path = true :=
              ih ((validateUnknownFieldsInner_eq_ok_iff root w child).mpr hlisted) hat
            simp [ho, hreject, hp, hchild, hbelow]
          · rw [if_neg ho]
      | _ => cases hat
    | index i =>
      cases v with
      | array items =>
        simp only [Value.at?] at hat
        cases hw : items[i]? with
        | none => simp [hw] at hat
        | some w =>
          rw [hw] at hat
          rw [validateUnknownFieldsInner_eq_ok_iff, allListed_array_iff] at hok
          rw [letsStand]
          by_cases ha : (root.opened schema).isArraySchema = true
          · cases hi : (root.opened schema).get "items" with
            | none => simp
            | some child =>
              have hlisted := hok ha child hi w (List.mem_of_getElem? hw)
              have hbelow : letsStand root child path = true :=
                ih ((validateUnknownFieldsInner_eq_ok_iff root w child).mpr hlisted) hat
              simp [ha, hbelow]
          · rw [if_neg ha]
      | _ => cases hat

/-- A value with nothing but `u` at a path. -/
def probe (u : Value) : List ValueStep → Value
  | [] => u
  | .member name :: path => .object [(name, probe u path)]
  | .index i :: path => .array (List.replicate i .null ++ [probe u path])

theorem at?_probe (u : Value) (path : List ValueStep) : (probe u path).at? path = some u := by
  induction path with
  | nil => rfl
  | cons step path ih => cases step <;> simp [probe, Value.at?, ih]

theorem keysDistinct_null : KeysDistinct .null := by
  rintro (_ | ⟨_ | _, _⟩) members hat <;> cases hat

theorem KeysDistinct.probe {u : Value} (hu : KeysDistinct u) (path : List ValueStep) :
    KeysDistinct (probe u path) := by
  induction path with
  | nil => exact hu
  | cons step path ih =>
    cases step with
    | member name => exact .of_members (by simp) (List.forall_mem_singleton.mpr ih)
    | index i =>
      refine .of_items fun w hmem => ?_
      rcases List.mem_append.mp hmem with hmem | hmem
      · exact List.eq_of_mem_replicate hmem ▸ keysDistinct_null
      · exact List.mem_singleton.mp hmem ▸ ih

theorem validateUnknownFieldsInner_null (root schema : Value) :
    validateUnknownFieldsInner root .null schema = .ok () := by
  rw [validateUnknownFieldsInner] <;> simp

/-- An object with one member passes at a path, if the walk does not know better there. -/
theorem validate_probe {root schema : Value} {path : List ValueStep} {name : String}
    (hlets : letsStand root schema path = true)
    (hname : ∀ t, comparedAt root schema path = some t → t.isObjectSchema = true →
      name ∈ t.propertyNames) :
    validateUnknownFieldsInner root (probe (.object [(name, .null)]) path) schema = .ok () := by
  induction path generalizing schema with
  | nil =>
    rw [probe, validateUnknownFieldsInner]
    by_cases ho : (root.opened schema).isObjectSchema = true
    · simp only [letsStand, ho, Bool.not_true, Bool.false_or, Bool.and_eq_true] at hlets
      obtain ⟨properties, hp⟩ := Option.isSome_iff_exists.mp hlets.2
      obtain ⟨child, hchild⟩ := (mem_propertyNames hp).mp (hname _ rfl ho)
      simp only [ho, if_true, hlets.1, Bool.not_true, Bool.false_eq_true, if_false, hp,
        validateUnknownMembers, hchild, validateUnknownFieldsInner_null]
    · rw [if_neg ho]
  | cons step path ih =>
    cases step with
    | member own =>
      rw [probe, validateUnknownFieldsInner]
      by_cases ho : (root.opened schema).isObjectSchema = true
      · rw [letsStand, if_pos ho, Bool.and_eq_true] at hlets
        cases hp : ((root.opened schema).get "properties").bind Value.asObject with
        | none => simp [hp] at hlets
        | some properties =>
          cases hchild : properties.lookup own with
          | none => simp [hp, hchild] at hlets
          | some child =>
            simp only [hp, hchild] at hlets
            have hbelow := ih hlets.2 fun t hcompared => hname t (by
              rw [comparedAt, if_pos ho]
              simpa only [hp, hchild] using hcompared)
            simp only [ho, if_true, hlets.1, Bool.not_true, Bool.false_eq_true, if_false,
              validateUnknownMembers, hchild, hbelow]
      · rw [if_neg ho]
    | index i =>
      rw [probe, validateUnknownFieldsInner]
      by_cases ha : (root.opened schema).isArraySchema = true
      · rw [letsStand, if_pos ha] at hlets
        rw [if_pos ha]
        cases hi : (root.opened schema).get "items" with
        | none => rfl
        | some child =>
          simp only [hi] at hlets
          have hbelow := ih hlets fun t hcompared => hname t (by
            rw [comparedAt, if_pos ha]
            simpa only [hi] using hcompared)
          rw [validateUnknownItems_eq_ok_iff]
          intro w hmem
          rw [← validateUnknownFieldsInner_eq_ok_iff]
          rcases List.mem_append.mp hmem with hmem | hmem
          · obtain rfl := List.eq_of_mem_replicate hmem
            exact validateUnknownFieldsInner_null root child
          · obtain rfl := List.mem_singleton.mp hmem
            exact hbelow
      · rw [if_neg ha]

namespace Value

mutual

/-- The member names at any depth. -/
def allNames : Value → List String
  | .object members => namesOfMembers members
  | .array items => namesOfItems items
  | _ => []

def namesOfMembers : List (String × Value) → List String
  | [] => []
  | (name, w) :: rest => name :: (allNames w ++ namesOfMembers rest)

def namesOfItems : List Value → List String
  | [] => []
  | w :: rest => allNames w ++ namesOfItems rest

end

theorem subset_namesOfMembers {members : List (String × Value)} {name : String} {w : Value}
    (hmem : (name, w) ∈ members) :
    name ∈ namesOfMembers members ∧ w.allNames ⊆ namesOfMembers members := by
  induction members with
  | nil => cases hmem
  | cons m rest ih =>
    rw [namesOfMembers]
    rcases List.mem_cons.mp hmem with rfl | hmem
    · exact ⟨List.mem_cons_self, fun n hn => List.mem_cons_of_mem _ (List.mem_append_left _ hn)⟩
    · obtain ⟨hname, hbelow⟩ := ih hmem
      exact ⟨List.mem_cons_of_mem _ (List.mem_append_right _ hname),
        fun n hn => List.mem_cons_of_mem _ (List.mem_append_right _ (hbelow hn))⟩

theorem subset_namesOfItems {items : List Value} {w : Value} (hmem : w ∈ items) :
    w.allNames ⊆ namesOfItems items := by
  induction items with
  | nil => cases hmem
  | cons v rest ih =>
    rw [namesOfItems]
    rcases List.mem_cons.mp hmem with rfl | hmem
    · exact List.subset_append_left _ _
    · exact fun n hn => List.mem_append_right _ (ih hmem hn)

theorem allNames_get {v w : Value} {key : String} (h : v.get key = some w) :
    w.allNames ⊆ v.allNames := by
  cases v with
  | object members => exact (subset_namesOfMembers (mem_of_lookup h)).2
  | _ => cases h

theorem propertyNames_subset (schema : Value) : schema.propertyNames ⊆ schema.allNames := by
  intro name hname
  obtain ⟨properties, child, hget, hmem⟩ := exists_property hname
  exact allNames_get hget (subset_namesOfMembers hmem).1

end Value

theorem Positioned.allNames {root schema t : Value} {path : List ValueStep}
    (h : Positioned root schema path t) (hschema : schema.allNames ⊆ root.allNames) :
    t.allNames ⊆ root.allNames := by
  induction h with
  | here => exact hschema
  | ref hr hname htarget rest ih =>
    obtain ⟨definitions, hget, hdefinition⟩ := Option.bind_eq_some_iff.mp htarget
    exact ih fun n hn => Value.allNames_get hget (Value.allNames_get hdefinition hn)
  | branch hkey hget hmem rest ih =>
    exact ih fun n hn => hschema (Value.allNames_get hget (Value.subset_namesOfItems hmem hn))
  | property hget hmem rest ih =>
    exact ih fun n hn => hschema (Value.allNames_get hget ((Value.subset_namesOfMembers hmem).2 hn))
  | item hget rest ih => exact ih fun n hn => hschema (Value.allNames_get hget hn)

theorem exists_undeclared (root : Value) : ∃ name, ∀ path, ¬ DeclaredAt root path name := by
  have hinjective : Function.Injective fun n : Nat => String.ofList (List.replicate n 'a') := by
    intro m n h
    have hlists := congrArg String.toList h
    simp only [String.toList_ofList] at hlists
    simpa using congrArg List.length hlists
  have hinfinite : Infinite String := Infinite.of_injective _ hinjective
  obtain ⟨name, hname⟩ := Infinite.exists_notMem_finset root.allNames.toFinset
  rw [List.mem_toFinset] at hname
  refine ⟨name, fun path hdeclared => hname ?_⟩
  obtain ⟨t, hpositioned, hlists⟩ := hdeclared
  exact hpositioned.allNames (List.Subset.refl _) (t.propertyNames_subset hlists)

/-- A schema makes the decoder reject unknown fields exactly if wherever it reaches and the decoder
lets an object stand, the decoder compares that object with an object schema for its place. -/
theorem decoder_rejects_unknown_iff (schema : Value) :
    (∀ v, KeysDistinct v → validateUnknownFields v schema = .ok () →
      FieldsDeclared schema.unwrapped v) ↔
    ∀ path, (∃ t, Positioned schema.unwrapped schema.unwrapped path t) →
      letsStand schema schema path = true → ClosesAt schema path := by
  constructor
  · intro h path hreached hlets
    have hprobe {name : String}
        (hname : ∀ t, comparedAt schema schema path = some t → t.isObjectSchema = true →
          name ∈ t.propertyNames) : DeclaredAt schema.unwrapped path name := by
      have hkeys : KeysDistinct (.object [(name, .null)]) :=
        keysDistinct_null.probe [.member name]
      exact h _ (hkeys.probe path) (validate_probe hlets hname) path _ (at?_probe _ path) hreached
        name (by simp)
    by_cases hobject : ∃ t, comparedAt schema schema path = some t ∧ t.isObjectSchema = true
    · obtain ⟨t, hcompared, ho⟩ := hobject
      refine ⟨t, hcompared, ho, fun name hname => hprobe fun t' hcompared' _ => ?_⟩
      obtain rfl := Option.some.inj (hcompared.symm.trans hcompared')
      exact hname
    · obtain ⟨name, hnone⟩ := exists_undeclared schema.unwrapped
      exact absurd (hprobe fun t hcompared ho => absurd ⟨t, hcompared, ho⟩ hobject) (hnone path)
  · intro h v _ hok path members hat hreached name hname
    obtain ⟨t, hcompared, ho, hdeclared⟩ := h path hreached (letsStand_of_ok hok hat)
    have hlisted := (validateUnknownFieldsInner_eq_ok_iff schema v schema).mp hok t members
      (met_of_comparedAt hcompared hat) ho
    exact hdeclared name (hlisted.names name hname)

namespace Sample

def emptyOptions : Value :=
  .object [("type", .string "object"), ("additionalProperties", .bool false),
    ("properties", .object [])]

def optionsReference : Value := .object [("$ref", .string "#/$defs/Options")]

def nothing : Value := .object [("type", .string "null")]

def optionalProperty : Value :=
  .object [("description", .string "the options"), ("anyOf", .array [optionsReference, nothing])]

/-- The schema of an optional argument structure without fields of its own. -/
def optionalSchema : Value :=
  .object [("type", .string "object"), ("additionalProperties", .bool false),
    ("properties", .object [("options", optionalProperty)]),
    ("$defs", .object [("Options", emptyOptions)])]

theorem optionalProperty_lists_nothing {t : Value}
    (h : Positioned optionalSchema optionalProperty [] t) : t.propertyNames = [] := by
  cases h with
  | here => decide
  | ref hr => cases hr
  | branch hkey hget mem rest =>
    have hkeys : ∀ key ∈ ["anyOf", "oneOf", "allOf"],
        optionalProperty.get key = none ∨
          optionalProperty.get key = some (.array [optionsReference, nothing]) := by decide
    obtain rfl : _ = [optionsReference, nothing] := by
      rcases hkeys _ hkey with hnone | hsome
      · cases hnone.symm.trans hget
      · exact (Value.array.inj (Option.some.inj (hget.symm.trans hsome)))
    simp only [List.mem_cons, List.not_mem_nil, or_false] at mem
    rcases mem with rfl | rfl
    · cases rest with
      | here => decide
      | branch hkey hget =>
        have hnone : ∀ key ∈ ["anyOf", "oneOf", "allOf"], optionsReference.get key = none := by
          decide
        cases (hnone _ hkey).symm.trans hget
      | ref hr hname htarget rest =>
        obtain rfl := Option.some.inj hr
        have hstripped : stripPrefix "#/$defs/" "#/$defs/Options" = some "Options" := by decide
        obtain rfl := Option.some.inj (hname.symm.trans hstripped)
        obtain rfl := Option.some.inj htarget
        have hbare : Bare emptyOptions := ⟨by decide, by decide⟩
        rw [hbare.eq_of_positioned rest]
        decide
    · have hbare : Bare nothing := ⟨by decide, by decide⟩
      rw [hbare.eq_of_positioned rest]
      decide

end Sample

/-- The optional structure is below an `anyOf`, where the walk does not follow. -/
theorem nested_unknown_field_passes :
    ¬ ∀ (_ : SchemaCompiler) (fuel : Nat) (description : String) (schema v : Value),
      validateToolDefinition fuel description schema = some (.ok ()) →
      validateUnknownFields v schema = .ok () → FieldsDeclared schema.unwrapped v := by
  intro claim
  have hdeclared := claim Sample.schemaCompiler 10 "takes options" Sample.optionalSchema
    Sample.options (by decide +kernel) (by decide +kernel)
  have hroot : Sample.optionalSchema.unwrapped = Sample.optionalSchema := rfl
  rw [hroot] at hdeclared
  obtain ⟨t, hpositioned, hlists⟩ := hdeclared [.member "options"] [("unknown", .bool true)] rfl
    ⟨_, .property rfl List.mem_cons_self (.here _)⟩ "unknown" (by simp)
  have hbare : Bare Sample.optionalSchema := ⟨by decide, by decide⟩
  obtain ⟨properties, child, hget, hmem, hrest⟩ := hbare.property_of_positioned hpositioned
  cases hget
  simp only [List.mem_cons, Prod.mk.injEq, true_and, List.not_mem_nil, or_false] at hmem
  subst hmem
  rw [Sample.optionalProperty_lists_nothing hrest] at hlists
  cases hlists

end Agentive
