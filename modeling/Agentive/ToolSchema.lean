import Agentive.JsonSchema

/-! Which schemas a tool may register. The walk over a schema keeps the references that it is
below of in a list, and stops at one that it meets again. -/

namespace Agentive

inductive ToolDecodeError
  | unknownFields (message : String)
  | invalidSchema (message : String)
deriving DecidableEq

/-- Whether the validation library can compile a schema. -/
class SchemaCompiler where
  compiles : Value → Bool

def stripPrefix (start text : String) : Option String :=
  if start.toList.isPrefixOf text.toList then
    some (String.ofList (text.toList.drop start.toList.length))
  else none

theorem eq_append_of_stripPrefix {start text rest : String}
    (h : stripPrefix start text = some rest) :
    text = start ++ rest := by
  unfold stripPrefix at h
  by_cases hp : start.toList.isPrefixOf text.toList = true
  · rw [if_pos hp] at h
    obtain rfl := Option.some.inj h
    obtain ⟨tail, htail⟩ := List.isPrefixOf_iff_prefix.mp hp
    apply String.toList_injective
    rw [String.toList_append, String.toList_ofList, ← htail, List.drop_left]
  · rw [if_neg hp] at h
    cases h

namespace Value

def reference (schema : Value) : Option String := (schema.get "$ref").bind asStr

def isObjectSchema (schema : Value) : Bool := (schema.get "type").bind asStr = some "object"

def rejectsUnknown (schema : Value) : Bool :=
  schema.get "additionalProperties" = some (.bool false)

/-- The definition that a root has under a name. -/
def definition (root : Value) (name : String) : Option Value :=
  (root.get "$defs").bind (·.get name)

/-- The published schema may be wrapped. -/
def unwrapped (schema : Value) : Value := (schema.get "schema").getD schema

def describes (v : Option Value) : Bool :=
  ((v.bind asStr).map fun text => !isBlank text).getD false

/-- The property has a description of its own or in its metadata. -/
def described (child : Value) : Bool :=
  describes (child.get "description") ||
    describes ((child.get "metadata").bind (·.get "description"))

def allOf (schema : Value) : List Value :=
  match schema.get "allOf" with
  | some (.array children) => children
  | _ => []

def branches (schema : Value) (key : String) : List Value :=
  match schema.get key with
  | some (.array children) => children
  | some child => [child]
  | none => []

/-- The subschemas below `items`, `allOf` and the other keywords, in the order of the walk. -/
def subschemas (schema : Value) : List Value :=
  (schema.get "items").toList ++ schema.allOf ++
    ["anyOf", "oneOf", "not", "if", "then", "else"].flatMap schema.branches

end Value

/-- The result of a walk, with the references that it leaves; none when the steps run out. -/
abbrev ShapeResult := Option (Except ToolDecodeError Unit × List String)

def walkAll (walk : Value → List String → ShapeResult) : List Value → List String → ShapeResult
  | [], refs => some (.ok (), refs)
  | schema :: rest, refs =>
    match walk schema refs with
    | some (.ok (), refs) => walkAll walk rest refs
    | result => result

def walkProperties (walk : Value → List String → ShapeResult) :
    List (String × Value) → List String → ShapeResult
  | [], refs => some (.ok (), refs)
  | (name, child) :: rest, refs =>
    if !child.described then
      some (.error (.invalidSchema ("property `" ++ name ++ "` missing description")), refs)
    else
      match walk child refs with
      | some (.ok (), refs) => walkProperties walk rest refs
      | result => result

def mustRejectUnknown : ToolDecodeError :=
  .invalidSchema "tool argument schema must reject unknown fields"

def validateSchemaShapeInner (root : Value) : Nat → Value → List String → ShapeResult
  | 0, _, _ => none
  | fuel + 1, schema, refs =>
    match schema.reference with
    | some reference =>
      if reference ∈ refs then some (.ok (), refs)
      else
        match stripPrefix "#/$defs/" reference with
        | none =>
          some (.error (.invalidSchema "only local $defs references are supported"), refs)
        | some name =>
          match root.definition name with
          | none =>
            some (.error (.invalidSchema ("unresolved schema reference `" ++ reference ++ "`")),
              refs)
          | some resolved =>
            match validateSchemaShapeInner root fuel resolved (refs ++ [reference]) with
            | none => none
            | some (result, refs) => some (result, refs.dropLast)
    | none =>
      if schema.isObjectSchema then
        if !schema.rejectsUnknown then some (.error mustRejectUnknown, refs)
        else
          match (schema.get "properties").bind Value.asObject with
          | none => some (.ok (), refs)
          | some properties =>
            match walkProperties (validateSchemaShapeInner root fuel) properties refs with
            | some (.ok (), refs) =>
              walkAll (validateSchemaShapeInner root fuel) schema.subschemas refs
            | result => result
      else walkAll (validateSchemaShapeInner root fuel) schema.subschemas refs

def validateSchemaShape (fuel : Nat) (schema : Value) : Option (Except ToolDecodeError Unit) :=
  (validateSchemaShapeInner schema fuel schema.unwrapped []).map (·.1)

def resolveRef (schema root : Value) : Value :=
  let child : Option Value := do
    let reference ← schema.reference
    let leaf ← (stripPrefix "#/$defs/" reference).or (stripPrefix "#/$ref/" reference)
    root.definition leaf
  child.getD schema

def validateToolDefinition [SchemaCompiler] (fuel : Nat) (description : String)
    (schema : Value) : Option (Except ToolDecodeError Unit) :=
  if isBlank description then
    some (.error (.invalidSchema "tool description must not be blank"))
  else if !SchemaCompiler.compiles schema.unwrapped then
    some (.error (.invalidSchema "tool argument schema could not be compiled"))
  else if !(resolveRef schema.unwrapped schema.unwrapped).isObjectSchema then
    some (.error (.invalidSchema "tool argument schema must describe a top-level object"))
  else if !(resolveRef schema.unwrapped schema.unwrapped).rejectsUnknown then
    some (.error mustRejectUnknown)
  else validateSchemaShape fuel schema.unwrapped

/-- A walk that goes on where the one before has accepted. -/
def ShapeResult.andThen (result : ShapeResult) (next : List String → ShapeResult) : ShapeResult :=
  match result with
  | some (.ok (), refs) => next refs
  | result => result

theorem ShapeResult.andThen_eq_some {result : ShapeResult} {next : List String → ShapeResult}
    {r : Except ToolDecodeError Unit × List String} :
    result.andThen next = some r ↔
      (∃ refs, result = some (.ok (), refs) ∧ next refs = some r) ∨
        ∃ e refs, r = (.error e, refs) ∧ result = some r := by
  rcases result with _ | ⟨_ | _, refs⟩
  · simp [andThen]
  · simp only [andThen, Option.some.injEq, Prod.mk.injEq, reduceCtorEq, false_and, exists_false,
      false_or]
    constructor
    · intro h
      exact ⟨_, _, h.symm, h⟩
    · rintro ⟨_, _, _, h⟩
      exact h
  · simp only [andThen, Option.some.injEq, Prod.mk.injEq, true_and, exists_eq_left']
    constructor
    · exact .inl
    · rintro (h | ⟨_, _, rfl, h⟩)
      · exact h
      · simp at h

section

variable {root schema : Value} {refs : List String}

theorem validateSchemaShapeInner_definition {reference name : String} {target : Value}
    (hr : schema.reference = some reference) (fresh : reference ∉ refs)
    (hname : stripPrefix "#/$defs/" reference = some name)
    (htarget : root.definition name = some target) (fuel : Nat) :
    validateSchemaShapeInner root (fuel + 1) schema refs =
      (validateSchemaShapeInner root fuel target (refs ++ [reference])).map fun r =>
        (r.1, r.2.dropLast) := by
  simp only [validateSchemaShapeInner, hr, if_neg fresh, hname, htarget]
  cases validateSchemaShapeInner root fuel target (refs ++ [reference]) with
  | none => rfl
  | some r => rfl

theorem validateSchemaShapeInner_open (hr : schema.reference = none)
    (ho : schema.isObjectSchema = true) (hrejects : schema.rejectsUnknown = false) (fuel : Nat) :
    validateSchemaShapeInner root (fuel + 1) schema refs =
      some (.error mustRejectUnknown, refs) := by
  simp only [validateSchemaShapeInner, hr, ho, hrejects, if_true, Bool.not_false]

theorem validateSchemaShapeInner_object {properties : List (String × Value)}
    (hr : schema.reference = none) (ho : schema.isObjectSchema = true)
    (hrejects : schema.rejectsUnknown = true)
    (hp : (schema.get "properties").bind Value.asObject = some properties) (fuel : Nat) :
    validateSchemaShapeInner root (fuel + 1) schema refs =
      (walkProperties (validateSchemaShapeInner root fuel) properties refs).andThen
        (walkAll (validateSchemaShapeInner root fuel) schema.subschemas) := by
  simp only [validateSchemaShapeInner, hr, ho, hrejects, hp, if_true, Bool.not_true,
    Bool.false_eq_true, if_false]
  rfl

theorem validateSchemaShapeInner_other (hr : schema.reference = none)
    (ho : schema.isObjectSchema = false) (fuel : Nat) :
    validateSchemaShapeInner root (fuel + 1) schema refs =
      walkAll (validateSchemaShapeInner root fuel) schema.subschemas refs := by
  simp only [validateSchemaShapeInner, hr, ho, Bool.false_eq_true, if_false]

end

/-- What the walk does with a subschema, for any number of steps left. -/
inductive ShapeTurn (root schema : Value) (refs : List String) : Prop
  | ended (result : Except ToolDecodeError Unit)
      (h : ∀ fuel, validateSchemaShapeInner root (fuel + 1) schema refs = some (result, refs))
  | definition (reference name : String) (target : Value)
      (hr : schema.reference = some reference) (fresh : reference ∉ refs)
      (hname : stripPrefix "#/$defs/" reference = some name)
      (htarget : root.definition name = some target)
  | object (properties : List (String × Value)) (hr : schema.reference = none)
      (ho : schema.isObjectSchema = true) (hrejects : schema.rejectsUnknown = true)
      (hp : (schema.get "properties").bind Value.asObject = some properties)
  | other (hr : schema.reference = none) (ho : schema.isObjectSchema = false)

theorem shapeTurn (root schema : Value) (refs : List String) : ShapeTurn root schema refs := by
  cases hr : schema.reference with
  | some reference =>
    by_cases hseen : reference ∈ refs
    · apply ShapeTurn.ended (.ok ())
      intro fuel
      simp only [validateSchemaShapeInner, hr, if_pos hseen]
    cases hname : stripPrefix "#/$defs/" reference with
    | none =>
      apply ShapeTurn.ended
      intro fuel
      simp only [validateSchemaShapeInner, hr, if_neg hseen, hname]
      rfl
    | some name =>
      cases htarget : root.definition name with
      | none =>
        apply ShapeTurn.ended
        intro fuel
        simp only [validateSchemaShapeInner, hr, if_neg hseen, hname, htarget]
        rfl
      | some target => exact .definition reference name target hr hseen hname htarget
  | none =>
    by_cases ho : schema.isObjectSchema = true
    · by_cases hrejects : schema.rejectsUnknown = true
      · cases hp : (schema.get "properties").bind Value.asObject with
        | none =>
          apply ShapeTurn.ended (.ok ())
          intro fuel
          simp only [validateSchemaShapeInner, hr, ho, hrejects, hp, if_true, Bool.not_true,
            Bool.false_eq_true, if_false]
        | some properties => exact .object properties hr ho hrejects hp
      · exact .ended _ (validateSchemaShapeInner_open hr ho (Bool.eq_false_iff.mpr hrejects))
    · exact .other hr (Bool.eq_false_iff.mpr ho)

section

variable {walk walk' : Value → List String → ShapeResult}
  {r : Except ToolDecodeError Unit × List String}

theorem walkAll_cons (walk : Value → List String → ShapeResult) (schema : Value)
    (rest : List Value) (refs : List String) :
    walkAll walk (schema :: rest) refs = (walk schema refs).andThen (walkAll walk rest) := rfl

theorem walkProperties_cons (walk : Value → List String → ShapeResult) (name : String)
    (child : Value) (rest : List (String × Value)) (refs : List String) :
    walkProperties walk ((name, child) :: rest) refs =
      if !child.described then
        some (.error (.invalidSchema ("property `" ++ name ++ "` missing description")), refs)
      else (walk child refs).andThen (walkProperties walk rest) := rfl

theorem walkAll_mono
    (hwalk : ∀ schema refs r, walk schema refs = some r → walk' schema refs = some r)
    {schemas : List Value} {refs : List String} (h : walkAll walk schemas refs = some r) :
    walkAll walk' schemas refs = some r := by
  induction schemas generalizing refs with
  | nil => exact h
  | cons schema rest ih =>
    rw [walkAll_cons, ShapeResult.andThen_eq_some] at h ⊢
    rcases h with ⟨refs₁, hw, hrest⟩ | ⟨e, refs₁, he, hw⟩
    · exact .inl ⟨refs₁, hwalk _ _ _ hw, ih hrest⟩
    · exact .inr ⟨e, refs₁, he, hwalk _ _ _ hw⟩

theorem walkProperties_mono
    (hwalk : ∀ schema refs r, walk schema refs = some r → walk' schema refs = some r)
    {properties : List (String × Value)} {refs : List String}
    (h : walkProperties walk properties refs = some r) :
    walkProperties walk' properties refs = some r := by
  induction properties generalizing refs with
  | nil => exact h
  | cons property rest ih =>
    obtain ⟨name, child⟩ := property
    rw [walkProperties_cons] at h ⊢
    by_cases hd : (!child.described) = true
    · rw [if_pos hd] at h ⊢
      exact h
    rw [if_neg hd, ShapeResult.andThen_eq_some] at h ⊢
    rcases h with ⟨refs₁, hw, hrest⟩ | ⟨e, refs₁, he, hw⟩
    · exact .inl ⟨refs₁, hwalk _ _ _ hw, ih hrest⟩
    · exact .inr ⟨e, refs₁, he, hwalk _ _ _ hw⟩

end

theorem validateSchemaShapeInner_succ {root schema : Value} {fuel : Nat} {refs : List String}
    {r : Except ToolDecodeError Unit × List String}
    (h : validateSchemaShapeInner root fuel schema refs = some r) :
    validateSchemaShapeInner root (fuel + 1) schema refs = some r := by
  induction fuel generalizing schema refs r with
  | zero => cases h
  | succ fuel ih =>
    have hwalk : ∀ schema refs r, validateSchemaShapeInner root fuel schema refs = some r →
        validateSchemaShapeInner root (fuel + 1) schema refs = some r := fun _ _ _ => ih
    cases shapeTurn root schema refs with
    | ended result hturn =>
      rw [hturn] at h ⊢
      exact h
    | definition reference name target hr fresh hname htarget =>
      rw [validateSchemaShapeInner_definition hr fresh hname htarget, Option.map_eq_some_iff]
        at h ⊢
      obtain ⟨below, hbelow, hresult⟩ := h
      exact ⟨below, hwalk _ _ _ hbelow, hresult⟩
    | object properties hr ho hrejects hp =>
      rw [validateSchemaShapeInner_object hr ho hrejects hp, ShapeResult.andThen_eq_some] at h ⊢
      rcases h with ⟨refs₁, hw, hrest⟩ | ⟨e, refs₁, he, hw⟩
      · exact .inl ⟨refs₁, walkProperties_mono hwalk hw, walkAll_mono hwalk hrest⟩
      · exact .inr ⟨e, refs₁, he, walkProperties_mono hwalk hw⟩
    | other hr ho =>
      rw [validateSchemaShapeInner_other hr ho] at h ⊢
      exact walkAll_mono hwalk h

/-- A walk that comes to a result comes to it with more steps, too. -/
theorem validateSchemaShapeInner_mono {root schema : Value} {fuel fuel' : Nat}
    {refs : List String} {r : Except ToolDecodeError Unit × List String} (hle : fuel ≤ fuel')
    (h : validateSchemaShapeInner root fuel schema refs = some r) :
    validateSchemaShapeInner root fuel' schema refs = some r := by
  induction hle with
  | refl => exact h
  | step _ ih => exact validateSchemaShapeInner_succ ih

theorem validateToolDefinition_mono [SchemaCompiler] {fuel fuel' : Nat} {description : String}
    {schema : Value} {result : Except ToolDecodeError Unit} (hle : fuel ≤ fuel')
    (h : validateToolDefinition fuel description schema = some result) :
    validateToolDefinition fuel' description schema = some result := by
  rw [validateToolDefinition] at h ⊢
  by_cases hblank : isBlank description = true
  · rw [if_pos hblank] at h ⊢
    exact h
  rw [if_neg hblank] at h ⊢
  by_cases hcompiles : (!SchemaCompiler.compiles schema.unwrapped) = true
  · rw [if_pos hcompiles] at h ⊢
    exact h
  rw [if_neg hcompiles] at h ⊢
  by_cases hobject :
      (!(resolveRef schema.unwrapped schema.unwrapped).isObjectSchema) = true
  · rw [if_pos hobject] at h ⊢
    exact h
  rw [if_neg hobject] at h ⊢
  by_cases hrejects :
      (!(resolveRef schema.unwrapped schema.unwrapped).rejectsUnknown) = true
  · rw [if_pos hrejects] at h ⊢
    exact h
  rw [if_neg hrejects] at h ⊢
  rw [validateSchemaShape, Option.map_eq_some_iff] at h ⊢
  obtain ⟨step, hstep, hresult⟩ := h
  exact ⟨step, validateSchemaShapeInner_mono hle hstep, hresult⟩

end Agentive
