import Agentive.ClosedSchemas
import Agentive.PathRecursion

/-! The walk over a schema comes to an end. On its way down it goes below a reference once at most,
and from one reference to the next only to subschemas. -/

namespace Agentive

namespace Value

mutual

/-- How deep arrays and objects are nested in a value. -/
def depth : Value → Nat
  | .array items => itemsDepth items + 1
  | .object members => membersDepth members + 1
  | _ => 0

def itemsDepth : List Value → Nat
  | [] => 0
  | item :: rest => max item.depth (itemsDepth rest)

def membersDepth : List (String × Value) → Nat
  | [] => 0
  | (_, w) :: rest => max w.depth (membersDepth rest)

end

theorem depth_lt_of_item {items : List Value} {item : Value} (h : item ∈ items) :
    item.depth < (array items).depth := by
  have hle : item.depth ≤ itemsDepth items := by
    induction items with
    | nil => simp at h
    | cons first rest ih =>
      have hmax : itemsDepth (first :: rest) = max first.depth (itemsDepth rest) := by
        rw [itemsDepth]
      by_cases hfirst : item = first
      · subst item
        omega
      · have hrest := ih ((List.mem_cons.mp h).resolve_left hfirst)
        omega
  rw [depth]
  omega

theorem depth_lt_of_member {members : List (String × Value)} {name : String} {w : Value}
    (h : (name, w) ∈ members) : w.depth < (object members).depth := by
  have hle : w.depth ≤ membersDepth members := by
    induction members with
    | nil => simp at h
    | cons first rest ih =>
      have hmax : membersDepth (first :: rest) = max first.2.depth (membersDepth rest) := by
        rw [membersDepth]
      by_cases hfirst : (name, w) = first
      · subst first
        rw [hmax]
        exact Nat.le_max_left w.depth (membersDepth rest)
      · have hrest := ih ((List.mem_cons.mp h).resolve_left hfirst)
        omega
  rw [depth]
  omega

variable {root schema child w : Value} {key : String}

theorem depth_lt_of_get (h : schema.get key = some w) : w.depth < schema.depth := by
  cases schema with
  | object members => exact depth_lt_of_member (mem_of_lookup h)
  | _ => cases h

theorem depth_lt_of_property {name : String} {properties : List (String × Value)}
    (hp : (schema.get "properties").bind asObject = some properties)
    (hmem : (name, child) ∈ properties) : child.depth < schema.depth := by
  obtain ⟨listed, hget, hlisted⟩ := Option.bind_eq_some_iff.mp hp
  have hlt := depth_lt_of_get hget
  cases listed with
  | object members =>
    obtain rfl := Option.some.inj hlisted
    exact Nat.lt_trans (depth_lt_of_member hmem) hlt
  | _ => cases hlisted

theorem depth_lt_of_branch (h : child ∈ schema.branches key) : child.depth < schema.depth := by
  unfold branches at h
  cases hget : schema.get key with
  | none => simp [hget] at h
  | some below =>
    have hlt := depth_lt_of_get hget
    cases below with
    | array children =>
      simp only [hget] at h
      exact Nat.lt_trans (depth_lt_of_item h) hlt
    | _ =>
      simp only [hget, List.mem_singleton] at h
      rw [h]
      exact hlt

theorem mem_branches_of_mem_allOf (h : child ∈ schema.allOf) : child ∈ schema.branches "allOf" := by
  unfold allOf at h
  unfold branches
  cases hget : schema.get "allOf" with
  | none => simp [hget] at h
  | some below =>
    cases below with
    | array children => simpa only [hget] using h
    | _ => simp [hget] at h

theorem depth_lt_of_subschema (h : child ∈ schema.subschemas) : child.depth < schema.depth := by
  rcases List.mem_append.mp h with h | h
  · rcases List.mem_append.mp h with h | h
    · exact depth_lt_of_get (Option.mem_toList.mp h)
    · exact depth_lt_of_branch (mem_branches_of_mem_allOf h)
  · obtain ⟨key, -, hbranch⟩ := List.mem_flatMap.mp h
    exact depth_lt_of_branch hbranch

theorem depth_lt_of_definition {name : String} (h : root.definition name = some w) :
    w.depth < root.depth := by
  obtain ⟨definitions, hdefinitions, hget⟩ := Option.bind_eq_some_iff.mp h
  exact Nat.lt_trans (depth_lt_of_get hget) (depth_lt_of_get hdefinitions)

/-- The references that lead to the definitions of a root. -/
def references (root : Value) : List String :=
  (((root.get "$defs").bind asObject).getD []).map fun entry => "#/$defs/" ++ entry.1

theorem mem_references {reference name : String}
    (hname : stripPrefix "#/$defs/" reference = some name)
    (htarget : root.definition name = some w) : reference ∈ root.references := by
  obtain ⟨definitions, hdefinitions, hget⟩ := Option.bind_eq_some_iff.mp htarget
  cases definitions with
  | object members =>
    have hentry : (name, w) ∈ members := mem_of_lookup hget
    rw [references, hdefinitions, eq_append_of_stripPrefix hname]
    exact List.mem_map.mpr ⟨(name, w), hentry, rfl⟩
  | _ => cases hget

end Value

section

variable {walk : Value → List String → ShapeResult} {refs : List String}

theorem walkAll_answers {schemas : List Value}
    (hkeeps : ∀ schema refs result refs', walk schema refs = some (result, refs') → refs' = refs)
    (h : ∀ schema ∈ schemas, ∃ r, walk schema refs = some r) :
    ∃ r, walkAll walk schemas refs = some r := by
  induction schemas with
  | nil => exact ⟨_, rfl⟩
  | cons schema rest ih =>
    obtain ⟨⟨⟨result, refs'⟩, hw⟩, hrest⟩ := List.forall_mem_cons.mp h
    obtain rfl := hkeeps _ _ _ _ hw
    rw [walkAll_cons, hw]
    cases result with
    | error e => exact ⟨_, rfl⟩
    | ok => exact ih hrest

theorem walkProperties_answers {properties : List (String × Value)}
    (hkeeps : ∀ schema refs result refs', walk schema refs = some (result, refs') → refs' = refs)
    (h : ∀ property ∈ properties, ∃ r, walk property.2 refs = some r) :
    ∃ r, walkProperties walk properties refs = some r := by
  induction properties with
  | nil => exact ⟨_, rfl⟩
  | cons property rest ih =>
    obtain ⟨name, child⟩ := property
    obtain ⟨⟨⟨result, refs'⟩, hw⟩, hrest⟩ := List.forall_mem_cons.mp h
    obtain rfl := hkeeps _ _ _ _ hw
    change walk child refs' = some (result, refs') at hw
    rw [walkProperties_cons]
    by_cases hd : (!child.described) = true
    · exact ⟨_, if_pos hd⟩
    rw [if_neg hd, hw]
    cases result with
    | error e => exact ⟨_, rfl⟩
    | ok => exact ih hrest

end

/-- A call that `validate_schema_shape_inner` may make of itself, with the references on its stack.
An error before it leaves it out. -/
inductive ShapeCall (root : Value) : Value × List String → Value × List String → Prop
  | definition {schema target : Value} {refs : List String} {reference name : String}
      (hr : schema.reference = some reference) (fresh : reference ∉ refs)
      (hname : stripPrefix "#/$defs/" reference = some name)
      (htarget : root.definition name = some target) :
      ShapeCall root (schema, refs) (target, refs ++ [reference])
  | property {schema child : Value} {refs : List String} {name : String}
      {properties : List (String × Value)} (hr : schema.reference = none)
      (ho : schema.isObjectSchema = true)
      (hp : (schema.get "properties").bind Value.asObject = some properties)
      (mem : (name, child) ∈ properties) : ShapeCall root (schema, refs) (child, refs)
  | keyword {schema child : Value} {refs : List String} (hr : schema.reference = none)
      (hp : schema.isObjectSchema = true →
        ((schema.get "properties").bind Value.asObject).isSome = true)
      (mem : child ∈ schema.subschemas) : ShapeCall root (schema, refs) (child, refs)

/-- How deep the calls from a subschema go. -/
def shapeDepth (root : Value) (call : Value × List String) : Nat :=
  PathRecursion.callDepth root.references call.2 root.depth call.1.depth

theorem ShapeCall.shapeDepth_lt {root : Value} {caller callee : Value × List String}
    (h : ShapeCall root caller callee) : shapeDepth root callee < shapeDepth root caller := by
  cases h with
  | definition hr fresh hname htarget =>
    have hmem := Value.mem_references hname htarget
    have hlt := Value.depth_lt_of_definition htarget
    exact PathRecursion.callDepth_lt_of_label hmem fresh hlt
  | property _ _ hp mem =>
    exact PathRecursion.callDepth_lt_of_rank (Value.depth_lt_of_property hp mem)
  | keyword _ _ mem => exact PathRecursion.callDepth_lt_of_rank (Value.depth_lt_of_subschema mem)

section

variable (root : Value)

theorem shape_answersCalls :
    PathRecursion.AnswersCalls
      (fun fuel call => validateSchemaShapeInner root fuel call.1 call.2) (ShapeCall root) := by
  rintro fuel ⟨schema, refs⟩ hcalls
  have hkeeps (schema : Value) (refs : List String) (result : Except ToolDecodeError Unit)
      (refs' : List String)
      (h : validateSchemaShapeInner root fuel schema refs = some (result, refs')) :
      refs' = refs := validateSchemaShapeInner_refs h
  have hkeywords (hr : schema.reference = none)
      (hp : schema.isObjectSchema = true →
        ((schema.get "properties").bind Value.asObject).isSome = true) :
      ∃ r, walkAll (validateSchemaShapeInner root fuel) schema.subschemas refs = some r :=
    walkAll_answers hkeeps fun child hc => hcalls (child, refs) (.keyword hr hp hc)
  show ∃ r, validateSchemaShapeInner root (fuel + 1) schema refs = some r
  cases shapeTurn root schema refs with
  | ended result hturn => exact ⟨_, hturn fuel⟩
  | definition reference name target hr fresh hname htarget =>
    obtain ⟨r, hbelow⟩ := hcalls (target, refs ++ [reference]) (.definition hr fresh hname htarget)
    rw [validateSchemaShapeInner_definition hr fresh hname htarget]
    exact ⟨_, congrArg (Option.map _) hbelow⟩
  | object properties hr ho hrejects hp =>
    obtain ⟨⟨result, refs'⟩, hw⟩ := walkProperties_answers hkeeps
      fun property hmem => hcalls (property.2, refs) (.property hr ho hp hmem)
    obtain rfl := (walkProperties_keeps hkeeps hw).1
    rw [validateSchemaShapeInner_object hr ho hrejects hp, hw]
    cases result with
    | error e => exact ⟨_, rfl⟩
    | ok => exact hkeywords hr fun _ => by rw [hp]; rfl
  | other hr ho =>
    rw [validateSchemaShapeInner_other hr ho]
    apply hkeywords hr
    intro htrue
    rw [ho] at htrue
    cases htrue

theorem validateSchemaShapeInner_answers (schema : Value) (refs : List String) :
    ∃ result : Except ToolDecodeError Unit, ∀ fuel, shapeDepth root (schema, refs) < fuel →
      validateSchemaShapeInner root fuel schema refs = some (result, refs) := by
  obtain ⟨⟨result, refs'⟩, hresult⟩ := (shape_answersCalls root).answers
    (fun _ _ hcall => hcall.shapeDepth_lt) (Nat.lt_succ_self (shapeDepth root (schema, refs)))
  obtain rfl := validateSchemaShapeInner_refs hresult
  refine ⟨result, fun fuel hfuel => ?_⟩
  exact validateSchemaShapeInner_mono (Nat.succ_le_of_lt hfuel) hresult

/-- Whatever a schema refers to, the walk over it ends with one result, and leaves the references
that it was called with. -/
theorem schema_shape_terminates (schema : Value) (refs : List String) :
    ∃ result : Except ToolDecodeError Unit,
      (∀ fuel, shapeDepth root (schema, refs) < fuel →
        validateSchemaShapeInner root fuel schema refs = some (result, refs)) ∧
      ∀ fuel r, validateSchemaShapeInner root fuel schema refs = some r → r = (result, refs) := by
  obtain ⟨result, hresult⟩ := validateSchemaShapeInner_answers root schema refs
  refine ⟨result, hresult, fun fuel r hr => ?_⟩
  -- A walk that has ended ends in the same way where there are steps enough.
  obtain ⟨enough, hle, hlt⟩ : ∃ n, fuel ≤ n ∧ shapeDepth root (schema, refs) < n :=
    ⟨fuel + shapeDepth root (schema, refs) + 1, by omega, by omega⟩
  have hmore := validateSchemaShapeInner_mono hle hr
  exact Option.some.inj (hmore.symm.trans (hresult enough hlt))

end

example : validateSchemaShape 8
    (.object [("$ref", .string "#/$defs/Even"), ("$defs", .object
      [("Even", .object [("items", .object [("$ref", .string "#/$defs/Odd")])]),
        ("Odd", .object [("not", .object [("$ref", .string "#/$defs/Even")])])])]) =
    some (.ok ()) := by decide +kernel

end Agentive
