import Agentive.ToolEffect
import Agentive.ToolSchema

/-! Unknown fields at every depth. The walk over a schema closes the objects that it recognises;
what a value may hold elsewhere is up to the schema. -/

namespace Agentive

section

variable {walk : Value → List String → ShapeResult} {refs refs' : List String}
  {result : Except ToolDecodeError Unit}

/-- A walk over subschemas leaves the references as it has found them, if that over each of them
does, and accepts each of them where it accepts all. -/
theorem walkAll_keeps {schemas : List Value}
    (hwalk : ∀ schema refs result refs', walk schema refs = some (result, refs') → refs' = refs)
    (h : walkAll walk schemas refs = some (result, refs')) :
    refs' = refs ∧
      (result = .ok () → ∀ schema ∈ schemas, walk schema refs = some (.ok (), refs)) := by
  induction schemas with
  | nil =>
    simp only [walkAll, Option.some.injEq, Prod.mk.injEq] at h
    exact ⟨h.2.symm, by simp⟩
  | cons schema rest ih =>
    rw [walkAll_cons, ShapeResult.andThen_eq_some] at h
    rcases h with ⟨refs₁, hw, hrest⟩ | ⟨e, refs₁, he, hw⟩
    · obtain rfl := hwalk _ _ _ _ hw
      obtain ⟨hrefs, hall⟩ := ih hrest
      exact ⟨hrefs, fun hok => List.forall_mem_cons.mpr ⟨hw, hall hok⟩⟩
    · obtain ⟨rfl, rfl⟩ := Prod.mk.inj he
      exact ⟨hwalk _ _ _ _ hw, fun hok => by cases hok⟩

theorem walkProperties_keeps {properties : List (String × Value)}
    (hwalk : ∀ schema refs result refs', walk schema refs = some (result, refs') → refs' = refs)
    (h : walkProperties walk properties refs = some (result, refs')) :
    refs' = refs ∧
      (result = .ok () → ∀ property ∈ properties, walk property.2 refs = some (.ok (), refs)) := by
  induction properties with
  | nil =>
    simp only [walkProperties, Option.some.injEq, Prod.mk.injEq] at h
    exact ⟨h.2.symm, by simp⟩
  | cons property rest ih =>
    obtain ⟨name, child⟩ := property
    rw [walkProperties_cons] at h
    by_cases hd : (!child.described) = true
    · rw [if_pos hd, Option.some.injEq, Prod.mk.injEq] at h
      obtain ⟨rfl, rfl⟩ := h
      exact ⟨rfl, fun hok => by cases hok⟩
    rw [if_neg hd, ShapeResult.andThen_eq_some] at h
    rcases h with ⟨refs₁, hw, hrest⟩ | ⟨e, refs₁, he, hw⟩
    · obtain rfl := hwalk _ _ _ _ hw
      obtain ⟨hrefs, hall⟩ := ih hrest
      exact ⟨hrefs, fun hok => List.forall_mem_cons.mpr ⟨hw, hall hok⟩⟩
    · obtain ⟨rfl, rfl⟩ := Prod.mk.inj he
      exact ⟨hwalk _ _ _ _ hw, fun hok => by cases hok⟩

theorem validateSchemaShapeInner_refs {root schema : Value} {fuel : Nat}
    (h : validateSchemaShapeInner root fuel schema refs = some (result, refs')) :
    refs' = refs := by
  induction fuel generalizing schema refs result refs' with
  | zero => cases h
  | succ fuel ih =>
    have hwalk (schema : Value) (refs : List String) (result : Except ToolDecodeError Unit)
        (refs' : List String)
        (h : validateSchemaShapeInner root fuel schema refs = some (result, refs')) :
        refs' = refs := ih h
    cases shapeTurn root schema refs with
    | ended own hturn =>
      rw [hturn, Option.some.injEq, Prod.mk.injEq] at h
      exact h.2.symm
    | definition reference name target hr fresh hname htarget =>
      rw [validateSchemaShapeInner_definition hr fresh hname htarget, Option.map_eq_some_iff] at h
      obtain ⟨⟨_, below⟩, hbelow, hresult⟩ := h
      obtain rfl := ih hbelow
      obtain ⟨-, rfl⟩ := Prod.mk.inj hresult
      exact List.dropLast_concat
    | object properties hr ho hrejects hp =>
      rw [validateSchemaShapeInner_object hr ho hrejects hp, ShapeResult.andThen_eq_some] at h
      rcases h with ⟨refs₁, hw, hrest⟩ | ⟨e, refs₁, he, hw⟩
      · obtain rfl := (walkProperties_keeps hwalk hw).1
        exact (walkAll_keeps hwalk hrest).1
      · exact (walkProperties_keeps hwalk hw).1
    | other hr ho =>
      rw [validateSchemaShapeInner_other hr ho] at h
      exact (walkAll_keeps hwalk h).1

end

/-- The walk from `start` comes to a subschema, below these references. -/
inductive Visited (root start : Value) : Value → List String → Prop
  | start : Visited root start start []
  | definition {schema target : Value} {refs : List String} {reference name : String}
      (h : Visited root start schema refs) (hr : schema.reference = some reference)
      (fresh : reference ∉ refs) (hname : stripPrefix "#/$defs/" reference = some name)
      (htarget : root.definition name = some target) :
      Visited root start target (refs ++ [reference])
  | property {schema child : Value} {refs : List String} {name : String}
      {properties : List (String × Value)} (h : Visited root start schema refs)
      (hr : schema.reference = none) (ho : schema.isObjectSchema = true)
      (hp : (schema.get "properties").bind Value.asObject = some properties)
      (mem : (name, child) ∈ properties) : Visited root start child refs
  | keyword {schema child : Value} {refs : List String} (h : Visited root start schema refs)
      (hr : schema.reference = none)
      (hp : schema.isObjectSchema = true →
        ((schema.get "properties").bind Value.asObject).isSome = true)
      (mem : child ∈ schema.subschemas) : Visited root start child refs

section

variable {root start schema : Value} {refs : List String}

def Shaped (root schema : Value) (refs : List String) : Prop :=
  ∃ fuel, validateSchemaShapeInner root fuel schema refs = some (.ok (), refs)

theorem Shaped.exists_succ (h : Shaped root schema refs) :
    ∃ fuel, validateSchemaShapeInner root (fuel + 1) schema refs = some (.ok (), refs) := by
  obtain ⟨fuel, h⟩ := h
  exact ⟨fuel, validateSchemaShapeInner_succ h⟩

theorem Shaped.definition {reference name : String} {target : Value}
    (h : Shaped root schema refs) (hr : schema.reference = some reference)
    (fresh : reference ∉ refs) (hname : stripPrefix "#/$defs/" reference = some name)
    (htarget : root.definition name = some target) : Shaped root target (refs ++ [reference]) := by
  obtain ⟨fuel, h⟩ := h.exists_succ
  rw [validateSchemaShapeInner_definition hr fresh hname htarget, Option.map_eq_some_iff] at h
  obtain ⟨⟨result, below⟩, hbelow, hresult⟩ := h
  obtain rfl := validateSchemaShapeInner_refs hbelow
  obtain ⟨rfl, -⟩ := Prod.mk.inj hresult
  exact ⟨fuel, hbelow⟩

theorem Shaped.rejectsUnknown (h : Shaped root schema refs) (hr : schema.reference = none)
    (ho : schema.isObjectSchema = true) : schema.rejectsUnknown = true := by
  obtain ⟨fuel, h⟩ := h.exists_succ
  by_contra hopen
  rw [validateSchemaShapeInner_open hr ho (Bool.eq_false_iff.mpr hopen)] at h
  cases h

theorem Shaped.walks {properties : List (String × Value)} (h : Shaped root schema refs)
    (hr : schema.reference = none) (ho : schema.isObjectSchema = true)
    (hp : (schema.get "properties").bind Value.asObject = some properties) :
    ∃ fuel, walkProperties (validateSchemaShapeInner root fuel) properties refs =
        some (.ok (), refs) ∧
      walkAll (validateSchemaShapeInner root fuel) schema.subschemas refs =
        some (.ok (), refs) := by
  have hrejects := h.rejectsUnknown hr ho
  obtain ⟨fuel, h⟩ := h.exists_succ
  rw [validateSchemaShapeInner_object hr ho hrejects hp, ShapeResult.andThen_eq_some] at h
  rcases h with ⟨refs₁, hw, hrest⟩ | ⟨e, refs₁, he, -⟩
  · obtain ⟨rfl, -⟩ := walkProperties_keeps (fun _ _ _ _ => validateSchemaShapeInner_refs) hw
    exact ⟨fuel, hw, hrest⟩
  · cases he

theorem Shaped.property {properties : List (String × Value)} {property : String × Value}
    (h : Shaped root schema refs) (hr : schema.reference = none)
    (ho : schema.isObjectSchema = true)
    (hp : (schema.get "properties").bind Value.asObject = some properties)
    (mem : property ∈ properties) : Shaped root property.2 refs := by
  obtain ⟨fuel, hw, -⟩ := h.walks hr ho hp
  have hall := (walkProperties_keeps (fun _ _ _ _ => validateSchemaShapeInner_refs) hw).2 rfl
  exact ⟨fuel, hall property mem⟩

theorem Shaped.subschema {child : Value} (h : Shaped root schema refs)
    (hr : schema.reference = none)
    (hp : schema.isObjectSchema = true →
      ((schema.get "properties").bind Value.asObject).isSome = true)
    (mem : child ∈ schema.subschemas) : Shaped root child refs := by
  obtain ⟨fuel, hw⟩ : ∃ fuel, walkAll (validateSchemaShapeInner root fuel) schema.subschemas refs =
      some (.ok (), refs) := by
    by_cases ho : schema.isObjectSchema = true
    · obtain ⟨properties, hproperties⟩ := Option.isSome_iff_exists.mp (hp ho)
      obtain ⟨fuel, -, hw⟩ := h.walks hr ho hproperties
      exact ⟨fuel, hw⟩
    · obtain ⟨fuel, h⟩ := h.exists_succ
      rw [validateSchemaShapeInner_other hr (Bool.eq_false_iff.mpr ho)] at h
      exact ⟨fuel, h⟩
  have hall := (walkAll_keeps (fun _ _ _ _ => validateSchemaShapeInner_refs) hw).2 rfl
  exact ⟨fuel, hall child mem⟩

theorem Visited.shaped (h : Visited root start schema refs) (hstart : Shaped root start []) :
    Shaped root schema refs := by
  induction h with
  | start => exact hstart
  | definition _ hr fresh hname htarget ih => exact ih.definition hr fresh hname htarget
  | property _ hr ho hp mem ih => exact ih.property hr ho hp mem
  | keyword _ hr hp mem ih => exact ih.subschema hr hp mem

/-- A subschema that the walk comes to and takes for an object. -/
def Recognised (root start schema : Value) : Prop :=
  schema.reference = none ∧ schema.isObjectSchema = true ∧
    ∃ refs, Visited root start schema refs

theorem Recognised.rejectsUnknown (h : Recognised root start schema)
    (hstart : Shaped root start []) : schema.rejectsUnknown = true := by
  obtain ⟨hr, ho, refs, hvisited⟩ := h
  exact (hvisited.shaped hstart).rejectsUnknown hr ho

end

namespace Value

/-- The type of a schema leaves room for values of a kind. -/
def admits (schema : Value) (kind : String) : Bool :=
  match schema.get "type" with
  | some (.string own) => kind = own
  | some (.array kinds) => kinds.any fun own => own.asStr = some kind
  | _ => true

theorem typeAllows_eq_admits {schema v : Value} {kind : String}
    (hkind : ∀ own, v.hasType own = decide (kind = own)) :
    schema.typeAllows v = schema.admits kind := by
  unfold typeAllows admits
  cases schema.get "type" with
  | none => rfl
  | some t =>
    cases t with
    | string own =>
      simp only [hkind]
    | array kinds =>
      refine congrArg (kinds.any) (funext fun own => ?_)
      cases hs : own.asStr with
      | none => simp
      | some text => simp [hkind, eq_comm]
    | _ => rfl

theorem admits_object {schema : Value} {members : List (String × Value)}
    (h : schema.typeAllows (.object members) = true) : schema.admits "object" = true := by
  rw [← h, typeAllows_eq_admits]
  intro own
  simp [hasType, eq_comm]

theorem admits_array {schema : Value} {items : List Value}
    (h : schema.typeAllows (.array items) = true) : schema.admits "array" = true := by
  rw [← h, typeAllows_eq_admits]
  intro own
  simp [hasType, eq_comm]

end Value

theorem exists_property {schema : Value} {name : String} (h : name ∈ schema.propertyNames) :
    ∃ properties child, schema.get "properties" = some (.object properties) ∧
      (name, child) ∈ properties := by
  unfold Value.propertyNames at h
  cases hp : schema.get "properties" with
  | none => simp [hp] at h
  | some listed =>
    cases listed with
    | object properties =>
      simp only [hp, Option.bind_some, Value.asObject, Option.getD_some] at h
      obtain ⟨⟨name, child⟩, hmem, rfl⟩ := List.mem_map.mp h
      exact ⟨properties, child, rfl, hmem⟩
    | _ => simp [hp, Value.asObject] at h

theorem mem_of_lookup {members : List (String × Value)} {name : String} {w : Value}
    (h : members.lookup name = some w) : (name, w) ∈ members := by
  obtain ⟨l₁, l₂, rfl, _⟩ := List.lookup_eq_some_iff.mp h
  simp

theorem not_bool_of_get {schema w : Value} {key : String} (h : schema.get key = some w) :
    ∀ b, schema ≠ .bool b := by
  rintro b rfl
  cases h

section

variable [ReferenceResolver] {root start schema v : Value} {C : Value → Prop} {fuel : Nat}

/-- Why a subschema leaves no room for unknown fields, given that the subschemas in `C` do not. -/
inductive Closes (root start : Value) (C : Value → Prop) (schema : Value) : Prop
  | never (h : schema = .bool false)
  | own (closed : schema.admits "object" = true →
        (schema.rejectsUnknown = true ∨ Recognised root start schema) ∧
          ∀ properties, schema.get "properties" = some (.object properties) →
            ∀ property ∈ properties, C property.2)
      (itemized : schema.admits "array" = true → ∃ items, schema.get "items" = some items ∧ C items)
  | anyOf (children : List Value) (h : schema.get "anyOf" = some (.array children))
      (all : ∀ child ∈ children, C child)
  | oneOf (children : List Value) (h : schema.get "oneOf" = some (.array children))
      (all : ∀ child ∈ children, C child)
  | allOf (children : List Value) (child : Value) (h : schema.get "allOf" = some (.array children))
      (mem : child ∈ children) (closes : C child)
  | ref (reference : String) (target : Value)
      (h : schema.get "$ref" = some (.string reference))
      (resolved : ReferenceResolver.resolve root reference = some target) (closes : C target)

theorem Value.Accepts.exists_succ (h : root.Accepts schema v) :
    ∃ fuel, Value.validate root (fuel + 1) schema v = some true := by
  obtain ⟨fuel, h⟩ := h
  cases fuel with
  | zero => cases h
  | succ fuel => exact ⟨fuel, h⟩

theorem Value.Accepts.ref {target : Value} {reference : String} (h : root.Accepts schema v)
    (hget : schema.get "$ref" = some (.string reference))
    (hresolved : ReferenceResolver.resolve root reference = some target) :
    root.Accepts target v := by
  obtain ⟨fuel, hvalidate⟩ := h.exists_succ
  have hcheck := (Value.checks_of_validate hvalidate (not_bool_of_get hget)).ref
  simp only [Value.checkRef, hget, hresolved, Option.bind_some] at hcheck
  exact ⟨fuel, hcheck⟩

theorem Value.Accepts.property {members properties : List (String × Value)} {name : String}
    {child w : Value} (h : root.Accepts schema (.object members))
    (hget : schema.get "properties" = some (.object properties))
    (hmem : (name, child) ∈ properties) (hw : members.lookup name = some w) :
    root.Accepts child w := by
  obtain ⟨fuel, hvalidate⟩ := h.exists_succ
  have hcheck := (Value.checks_of_validate hvalidate (not_bool_of_get hget)).properties
  simp only [Value.checkProperties, hget] at hcheck
  have hchild := allHold_eq_true.mp hcheck _ (List.mem_map_of_mem hmem)
  simp only [hw] at hchild
  exact ⟨fuel, hchild⟩

theorem Value.Accepts.item {items : List Value} {child w : Value}
    (h : root.Accepts schema (.array items)) (hget : schema.get "items" = some child)
    (hmem : w ∈ items) : root.Accepts child w := by
  obtain ⟨fuel, hvalidate⟩ := h.exists_succ
  have hcheck := (Value.checks_of_validate hvalidate (not_bool_of_get hget)).items
  simp only [Value.checkItems, hget] at hcheck
  exact ⟨fuel, allHold_eq_true.mp hcheck _ (List.mem_map_of_mem hmem)⟩

theorem listed_of_rejectsUnknown {members : List (String × Value)}
    (hreject : schema.rejectsUnknown = true)
    (h : root.Accepts schema (.object members)) :
    ∀ name ∈ members.map (·.1), name ∈ schema.propertyNames := by
  obtain ⟨fuel, h⟩ := h.exists_succ
  have hadditional : schema.get "additionalProperties" = some (.bool false) := by
    simpa [Value.rejectsUnknown] using hreject
  have hcheck := (Value.checks_of_validate h (not_bool_of_get hadditional)).additional
  simp only [Value.checkAdditionalProperties, hadditional] at hcheck
  intro name hname
  obtain ⟨⟨name, w⟩, hmem, rfl⟩ := List.mem_map.mp hname
  by_contra hunlisted
  have hfalse := allHold_eq_true.mp hcheck _ (List.mem_map_of_mem hmem)
  simp only [hunlisted, if_false] at hfalse
  cases fuel with
  | zero => cases hfalse
  | succ fuel => cases hfalse

/-- What a closed subschema says about one member. -/
theorem property_of_closed {members : List (String × Value)} {name : String} {w : Value}
    (hreject : schema.rejectsUnknown = true)
    (h : Value.validate root (fuel + 1) schema (.object members) = some true)
    (hw : members.lookup name = some w) :
    ∃ properties child, schema.get "properties" = some (.object properties) ∧
      (name, child) ∈ properties ∧ Value.validate root fuel child w = some true := by
  have hlisted := listed_of_rejectsUnknown hreject ⟨fuel + 1, h⟩ name
    (List.mem_map_of_mem (mem_of_lookup hw))
  obtain ⟨properties, child, hp, hmem⟩ := exists_property hlisted
  have hcheck := (Value.checks_of_validate h (not_bool_of_get hp)).properties
  simp only [Value.checkProperties, hp] at hcheck
  have hchild := allHold_eq_true.mp hcheck _ (List.mem_map_of_mem hmem)
  simp only [hw] at hchild
  exact ⟨properties, child, hp, hmem, hchild⟩

theorem exists_branch {children : List Value} {p : Nat → Bool}
    (h : (countHold (children.map fun child => Value.validate root fuel child v)).map p =
      some true) (hp : p 0 = false) :
    ∃ child ∈ children, Value.validate root fuel child v = some true := by
  cases hc : countHold (children.map fun child => Value.validate root fuel child v) with
  | none => simp [hc] at h
  | some n =>
    have hn : 0 < n := by
      rcases Nat.eq_zero_or_pos n with rfl | hpos
      · simp [hc, hp] at h
      · exact hpos
    obtain ⟨child, hmem, hchild⟩ := List.mem_map.mp (exists_of_countHold hc hn)
    exact ⟨child, hmem, hchild⟩

/-- A subschema for the value that says itself which members and items there may be. -/
structure SpeaksFor (root : Value) (C : Value → Prop) (schema v t : Value) (fuel : Nat) : Prop where
  accepts : Value.validate root (fuel + 1) t v = some true
  applies : ∀ path s, Applies root t v path s → Applies root schema v path s
  closed : t.admits "object" = true → t.rejectsUnknown = true ∧
    ∀ properties, t.get "properties" = some (.object properties) →
      ∀ property ∈ properties, C property.2
  itemized : t.admits "array" = true → ∃ items, t.get "items" = some items ∧ C items

theorem SpeaksFor.branch {child t : Value} {key : String} {children : List Value} {steps : Nat}
    (h : SpeaksFor root C child v t fuel) (hkey : key ∈ ["anyOf", "oneOf", "allOf"])
    (hget : schema.get key = some (.array children)) (hmem : child ∈ children)
    (hchild : Value.validate root steps child v = some true) :
    SpeaksFor root C schema v t fuel :=
  ⟨h.accepts, fun path s hs => .branch hkey hget hmem ⟨steps, hchild⟩ (h.applies path s hs),
    h.closed, h.itemized⟩

theorem SpeaksFor.not_bool {t : Value} (h : SpeaksFor root C schema v t fuel) :
    ∀ b, t ≠ .bool b := by
  rintro b rfl
  obtain ⟨_, hitems, _⟩ := h.itemized rfl
  cases hitems

/-- Some subschema speaks for a value that one of `C` accepts. The induction is on the steps of
the validation. -/
theorem exists_speaksFor (hC : ∀ t, C t → Closes root start C t) (hstart : Shaped root start [])
    (hc : C schema) (h : Value.validate root fuel schema v = some true) :
    ∃ t fuel, SpeaksFor root C schema v t fuel := by
  induction fuel generalizing schema with
  | zero => cases h
  | succ fuel ih =>
    rcases hC schema hc with rfl | ⟨hobject, harray⟩ | ⟨children, hget, hall⟩ |
      ⟨children, hget, hall⟩ | ⟨children, child, hget, hmem, hclosed⟩ |
      ⟨reference, target, hget, hresolved, hclosed⟩
    · cases h
    · refine ⟨schema, fuel, h, fun _ _ hs => hs, fun ha => ⟨?_, (hobject ha).2⟩, harray⟩
      rcases (hobject ha).1 with hreject | hrecognised
      · exact hreject
      · exact hrecognised.rejectsUnknown hstart
    · have hcheck := (Value.checks_of_validate h (not_bool_of_get hget)).anyOf
      simp only [Value.checkAnyOf, hget] at hcheck
      obtain ⟨child, hmem, hchild⟩ := exists_branch hcheck (by decide)
      obtain ⟨t, fuel', ht⟩ := ih (hall child hmem) hchild
      exact ⟨t, fuel', ht.branch (by decide) hget hmem hchild⟩
    · have hcheck := (Value.checks_of_validate h (not_bool_of_get hget)).oneOf
      simp only [Value.checkOneOf, hget] at hcheck
      obtain ⟨child, hmem, hchild⟩ := exists_branch hcheck (by decide)
      obtain ⟨t, fuel', ht⟩ := ih (hall child hmem) hchild
      exact ⟨t, fuel', ht.branch (by decide) hget hmem hchild⟩
    · have hcheck := (Value.checks_of_validate h (not_bool_of_get hget)).allOf
      simp only [Value.checkAllOf, hget] at hcheck
      have hchild := allHold_eq_true.mp hcheck _ (List.mem_map_of_mem hmem)
      obtain ⟨t, fuel', ht⟩ := ih hclosed hchild
      exact ⟨t, fuel', ht.branch (by decide) hget hmem hchild⟩
    · have hcheck := (Value.checks_of_validate h (not_bool_of_get hget)).ref
      simp only [Value.checkRef, hget, hresolved, Option.bind_some] at hcheck
      obtain ⟨t, fuel', ht⟩ := ih hclosed hcheck
      exact ⟨t, fuel', ht.accepts,
        fun path s hs => .ref hget hresolved (ht.applies path s hs), ht.closed, ht.itemized⟩

/-- What a schema with closed subschemas accepts has no unknown fields. -/
theorem closed_of_closes (hC : ∀ t, C t → Closes root start C t) (hstart : Shaped root start [])
    {path : List ValueStep} (hc : C schema)
    (h : Value.validate root fuel schema v = some true) {members : List (String × Value)}
    (hat : v.at? path = some (.object members)) :
    ∀ name ∈ members.map (·.1), ∃ t, Applies root schema v path t ∧ name ∈ t.propertyNames := by
  induction path generalizing v schema fuel with
  | nil =>
    obtain ⟨t, fuel', ht⟩ := exists_speaksFor hC hstart hc h
    obtain rfl : v = .object members := Option.some.inj hat
    have htype := (Value.checks_of_validate ht.accepts ht.not_bool).type
    have hreject := (ht.closed (Value.admits_object htype)).1
    intro name hname
    exact ⟨t, ht.applies _ _ (.here _ _),
      listed_of_rejectsUnknown hreject ⟨_, ht.accepts⟩ name hname⟩
  | cons step path ihpath =>
    obtain ⟨t, fuel', ht⟩ := exists_speaksFor hC hstart hc h
    have hchecks := Value.checks_of_validate ht.accepts ht.not_bool
    intro name hname
    cases v with
    | object own =>
      cases step with
      | index i => cases hat
      | member key =>
        obtain ⟨hreject, hclosed⟩ := ht.closed (Value.admits_object hchecks.type)
        simp only [Value.at?] at hat
        cases hw : own.lookup key with
        | none => simp [hw] at hat
        | some w =>
          simp only [hw] at hat
          obtain ⟨properties, child, hp, hmem, hchild⟩ := property_of_closed hreject ht.accepts hw
          obtain ⟨s, hs, hlists⟩ := ihpath (hclosed properties hp _ hmem) hchild hat name hname
          exact ⟨s, ht.applies _ _ (.property hp hmem hw hs), hlists⟩
    | array items =>
      cases step with
      | member key => cases hat
      | index i =>
        obtain ⟨child, hitems, hclosed⟩ := ht.itemized (Value.admits_array hchecks.type)
        simp only [Value.at?] at hat
        cases hw : items[i]? with
        | none => simp [hw] at hat
        | some w =>
          simp only [hw] at hat
          have hcheck := hchecks.items
          simp only [Value.checkItems, hitems] at hcheck
          have hchild := allHold_eq_true.mp hcheck _
            (List.mem_map_of_mem (List.mem_of_getElem? hw))
          obtain ⟨s, hs, hlists⟩ := ihpath hclosed hchild hat name hname
          exact ⟨s, ht.applies _ _ (.item hitems hw hs), hlists⟩
    | null => simp [Value.at?] at hat
    | bool => simp [Value.at?] at hat
    | number => simp [Value.at?] at hat
    | string => simp [Value.at?] at hat

theorem Applies.accepts {path : List ValueStep} {t u : Value}
    (h : Applies root schema v path t) (haccepts : root.Accepts schema v)
    (hat : v.at? path = some u) : root.Accepts t u := by
  induction h with
  | here schema v =>
    obtain rfl := Option.some.inj hat
    exact haccepts
  | ref hget hresolved _ ih =>
    exact ih (haccepts.ref hget hresolved) hat
  | branch _ _ _ hbranch _ ih => exact ih hbranch hat
  | property hget hmem hw _ ih =>
    simp only [Value.at?, hw] at hat
    exact ih (haccepts.property hget hmem hw) hat
  | additional hget hunlisted hw _ ih =>
    obtain ⟨fuel, hvalidate⟩ := haccepts.exists_succ
    simp only [Value.at?, hw] at hat
    refine ih ?_ hat
    have hcheck := (Value.checks_of_validate hvalidate (not_bool_of_get hget)).additional
    simp only [Value.checkAdditionalProperties, hget] at hcheck
    have hchild := allHold_eq_true.mp hcheck _ (List.mem_map_of_mem (mem_of_lookup hw))
    simp only [hunlisted, if_false] at hchild
    exact ⟨fuel, hchild⟩
  | item hget hw _ ih =>
    simp only [Value.at?, hw] at hat
    exact ih (haccepts.item hget (List.mem_of_getElem? hw)) hat

variable (root start) in
/-- Every place that values can reach is left without room for unknown fields. -/
def LeavesNoRoom : Prop := ∃ C : Value → Prop, C root ∧ ∀ t, C t → Closes root start C t

omit [ReferenceResolver] in
theorem shaped_of_validateToolDefinition [SchemaCompiler] {description : String}
    (h : validateToolDefinition fuel description schema = some (.ok ())) :
    Shaped schema.unwrapped schema.unwrapped.unwrapped [] := by
  unfold validateToolDefinition at h
  split at h
  · cases h
  · split at h
    · cases h
    · split at h
      · cases h
      · split at h
        · cases h
        · unfold validateSchemaShape at h
          cases hw : validateSchemaShapeInner schema.unwrapped fuel
              schema.unwrapped.unwrapped [] with
          | none => simp [hw] at h
          | some step =>
            obtain ⟨result, refs⟩ := step
            simp only [hw, Option.map_some, Option.some.injEq] at h
            obtain rfl := validateSchemaShapeInner_refs hw
            exact ⟨fuel, by rw [hw, h]⟩

/-- A value that the schema of a registered tool accepts has unknown fields only where the walk
over the schema has seen no object. -/
theorem registered_closed_iff [SchemaCompiler] [ArgumentSchema] {description : String}
    (hstandard : ∀ v, ArgumentSchema.accepts schema.unwrapped v = true →
      schema.unwrapped.Accepts schema.unwrapped v)
    (hdefinition : validateToolDefinition fuel description schema = some (.ok ())) :
    (∀ v, validateToolArguments v schema = true →
      (ClosedUnder schema.unwrapped v ↔
        ∀ path members, v.at? path = some (.object members) →
          (∀ t, Applies schema.unwrapped schema.unwrapped v path t →
            ¬ Recognised schema.unwrapped schema.unwrapped.unwrapped t) →
          ∀ name ∈ members.map (·.1), ∃ t,
            Applies schema.unwrapped schema.unwrapped v path t ∧ name ∈ t.propertyNames)) ∧
    (LeavesNoRoom schema.unwrapped schema.unwrapped.unwrapped →
      ∀ v, validateToolArguments v schema = true → ClosedUnder schema.unwrapped v) := by
  have hshaped := shaped_of_validateToolDefinition hdefinition
  have haccepts (v : Value) (hv : validateToolArguments v schema = true) :
      schema.unwrapped.Accepts schema.unwrapped v := hstandard v hv
  refine ⟨fun v hv => ⟨fun h path members hat _ => h path members hat, fun h => ?_⟩,
    fun ⟨C, hroot, hC⟩ v hv => ?_⟩
  · intro path members hat
    by_cases hseen : ∃ t, Applies schema.unwrapped schema.unwrapped v path t ∧
        Recognised schema.unwrapped schema.unwrapped.unwrapped t
    · obtain ⟨t, happlies, hrecognised⟩ := hseen
      have hreject := hrecognised.rejectsUnknown hshaped
      intro name hname
      exact ⟨t, happlies,
        listed_of_rejectsUnknown hreject (happlies.accepts (haccepts v hv) hat) name hname⟩
    · exact h path members hat fun t happlies hr => hseen ⟨t, happlies, hr⟩
  · obtain ⟨steps, hvalidate⟩ := haccepts v hv
    exact fun path members hat => closed_of_closes hC hshaped hroot hvalidate hat

end

namespace Sample

@[reducible] def definitions : ReferenceResolver where
  resolve root reference := (stripPrefix "#/$defs/" reference).bind root.definition

@[reducible] def schemaCompiler : SchemaCompiler := ⟨fun _ => true⟩

@[reducible] def schemaArguments : ArgumentSchema :=
  let _ := definitions
  { accepts s v := s.validate 20 s v = some true, decodeTask _ := .error "no task" }

theorem schemaArguments_standard (s v : Value)
    (h : @ArgumentSchema.accepts schemaArguments s v = true) :
    @Value.Accepts definitions s s v := ⟨20, of_decide_eq_true h⟩

def fileSchema : Value :=
  .object [("type", .string "object"), ("additionalProperties", .bool false),
    ("properties", .object [("path", .object [("description", .string "a path"),
      ("type", .string "string")])])]

def fileReference : Value := .object [("$ref", .string "#/$defs/File")]

def filesProperty : Value :=
  .object [("description", .string "the files"), ("type", .string "array"),
    ("items", fileReference)]

def filesSchema : Value :=
  .object [("type", .string "object"), ("additionalProperties", .bool false),
    ("properties", .object [("files", filesProperty)]),
    ("$defs", .object [("File", fileSchema)])]

def files : Value :=
  .object [("files", .array [.object [("path", .string "a")], .object [("path", .string "b")]])]

theorem filesSchema_leavesNoRoom : @LeavesNoRoom definitions filesSchema filesSchema := by
  let _ := definitions
  let pathProperty : Value :=
    .object [("description", .string "a path"), ("type", .string "string")]
  refine ⟨(· ∈ [filesSchema, filesProperty, fileReference, fileSchema, pathProperty]),
    List.mem_cons_self, fun t ht => ?_⟩
  simp only [List.mem_cons, List.not_mem_nil, or_false] at ht
  rcases ht with rfl | rfl | rfl | rfl | rfl
  · refine .own (fun _ => ⟨.inl (by decide), fun properties hp => ?_⟩) (fun h => by cases h)
    cases hp
    simp
  · exact .own (fun h => by cases h) fun _ => ⟨fileReference, rfl, by simp⟩
  · exact .ref "#/$defs/File" fileSchema rfl rfl (by simp)
  · refine .own (fun _ => ⟨.inl (by decide), fun properties hp => ?_⟩) (fun h => by cases h)
    cases hp
    simp [pathProperty]
  · exact .own (fun h => by cases h) fun h => by cases h

/-- The type of the property is a list, so that the walk takes it for no object. -/
def optionsProperty : Value :=
  .object [("description", .string "the options"),
    ("type", .array [.string "object", .string "null"]), ("properties", .object [])]

def optionsSchema : Value :=
  .object [("type", .string "object"), ("additionalProperties", .bool false),
    ("properties", .object [("options", optionsProperty)])]

def options : Value := .object [("options", .object [("unknown", .bool true)])]

end Sample

theorem registered_closed_sample :
    @validateToolArguments Sample.schemaArguments Sample.files Sample.filesSchema = true ∧
      @ClosedUnder Sample.definitions Sample.filesSchema Sample.files := by
  let _ := Sample.definitions
  let _ := Sample.schemaCompiler
  let _ := Sample.schemaArguments
  have hdefinition : validateToolDefinition 10 "reads files" Sample.filesSchema =
      some (.ok ()) := by decide +kernel
  have hv : validateToolArguments Sample.files Sample.filesSchema = true := by decide +kernel
  exact ⟨hv, (registered_closed_iff (Sample.schemaArguments_standard _) hdefinition).2
    Sample.filesSchema_leavesNoRoom _ hv⟩

/-- An object with an unknown field, below a property that may be an object or null. -/
theorem unknown_field_accepted :
    ¬ ∀ (_ : ReferenceResolver) (_ : SchemaCompiler) (_ : ArgumentSchema) (fuel : Nat)
      (description : String) (schema v : Value),
      (∀ s v, ArgumentSchema.accepts s v = true → s.Accepts s v) →
      validateToolDefinition fuel description schema = some (.ok ()) →
      validateToolArguments v schema = true → ClosedUnder schema.unwrapped v := by
  intro claim
  let _ := Sample.definitions
  have hclosed := claim Sample.definitions Sample.schemaCompiler Sample.schemaArguments 10
    "takes options" Sample.optionsSchema Sample.options Sample.schemaArguments_standard
    (by decide +kernel) (by decide +kernel)
  obtain ⟨t, happlies, hlists⟩ := hclosed [.member "options"] _ rfl "unknown" (by simp)
  have hroot : Sample.optionsSchema.unwrapped = Sample.optionsSchema := rfl
  rw [hroot] at happlies
  cases happlies with
  | ref h => cases h
  | branch hkey h =>
    have hnone : ∀ key ∈ ["anyOf", "oneOf", "allOf"], Sample.optionsSchema.get key = none := by
      decide
    rw [hnone _ hkey] at h
    cases h
  | additional h unlisted => exact unlisted (by decide)
  | property h mem value rest =>
    cases h
    cases value
    simp only [List.mem_cons, Prod.mk.injEq, true_and, List.not_mem_nil, or_false] at mem
    subst mem
    cases rest with
    | here => exact absurd hlists (by decide)
    | ref h => cases h
    | branch hkey h =>
      have hnone : ∀ key ∈ ["anyOf", "oneOf", "allOf"],
          Sample.optionsProperty.get key = none := by decide
      rw [hnone _ hkey] at h
      cases h

end Agentive
