import Agentive.ClosedSchemas

/-! The decoder of a tool goes once more over the arguments. Its walk follows the value, where the
walk of the registration follows the schema, and both only see objects with a type of that name. -/

namespace Agentive

def Value.opened (root schema : Value) : Value := (resolveRef schema root).unwrapped

def Value.isArraySchema (schema : Value) : Bool := (schema.get "type").bind asStr = some "array"

mutual

def validateUnknownFieldsInner (root : Value) : Value → Value → Except ToolDecodeError Unit
  | .object values, schema =>
    if (root.opened schema).isObjectSchema then
      if !(root.opened schema).rejectsUnknown then
        .error (.unknownFields "unknown object fields must be rejected")
      else
        match ((root.opened schema).get "properties").bind Value.asObject with
        | none =>
          .error (.invalidSchema "tool argument schema for object values must include properties")
        | some properties => validateUnknownMembers root properties values
    else .ok ()
  | .array items, schema =>
    if (root.opened schema).isArraySchema then
      match (root.opened schema).get "items" with
      | none => .ok ()
      | some itemsSchema => validateUnknownItems root itemsSchema items
    else .ok ()
  | _, _ => .ok ()

def validateUnknownMembers (root : Value) (properties : List (String × Value)) :
    List (String × Value) → Except ToolDecodeError Unit
  | [] => .ok ()
  | (name, childValue) :: rest =>
    match properties.lookup name with
    | none => .error (.unknownFields ("unknown field `" ++ name ++ "` in tool args"))
    | some child =>
      match validateUnknownFieldsInner root childValue child with
      | .error e => .error e
      | .ok () => validateUnknownMembers root properties rest

def validateUnknownItems (root itemsSchema : Value) : List Value → Except ToolDecodeError Unit
  | [] => .ok ()
  | item :: rest =>
    match validateUnknownFieldsInner root item itemsSchema with
    | .error e => .error e
    | .ok () => validateUnknownItems root itemsSchema rest

end

def validateUnknownFields (v schema : Value) : Except ToolDecodeError Unit :=
  validateUnknownFieldsInner schema v schema

/-- The schema is the one that the argument type of the tool has. -/
def validateToolCallSchema [SchemaCompiler] (fuel : Nat) (v schema : Value) :
    Option (Except ToolDecodeError Unit) :=
  match validateToolDefinition fuel "typed tool arguments" schema with
  | some (.ok ()) => some (validateUnknownFields v schema)
  | result => result

/-- What the arguments decode to, once they have passed, is up to their type. -/
def decodeToolCallArgs {α : Type} [SchemaCompiler] (fromValue : Value → Except String α)
    (fuel : Nat) (v schema : Value) : Option (Except ToolDecodeError α) :=
  match validateToolCallSchema fuel v schema with
  | none => none
  | some (.error e) => some (.error e)
  | some (.ok ()) => some ((fromValue v).mapError .unknownFields)

/-- The walk compares a value inside of `v` with a schema. -/
inductive Met (root : Value) : Value → Value → Value → Value → Prop
  | here (schema v : Value) : Met root schema v (root.opened schema) v
  | member {schema child w t u : Value} {name : String} {properties members : List (String × Value)}
      (ho : (root.opened schema).isObjectSchema = true)
      (hp : ((root.opened schema).get "properties").bind Value.asObject = some properties)
      (mem : (name, w) ∈ members) (hchild : properties.lookup name = some child)
      (rest : Met root child w t u) : Met root schema (.object members) t u
  | item {schema child w t u : Value} {items : List Value}
      (ha : (root.opened schema).isArraySchema = true)
      (hi : (root.opened schema).get "items" = some child) (mem : w ∈ items)
      (rest : Met root child w t u) : Met root schema (.array items) t u

/-- An object schema takes these members as far as their names go. -/
structure Listed (t : Value) (members : List (String × Value)) : Prop where
  rejectsUnknown : t.rejectsUnknown = true
  properties : ((t.get "properties").bind Value.asObject).isSome = true
  names : ∀ name ∈ members.map (·.1), name ∈ t.propertyNames

def AllListed (root schema v : Value) : Prop :=
  ∀ t members, Met root schema v t (.object members) → t.isObjectSchema = true → Listed t members

theorem get_properties {t : Value} {properties : List (String × Value)}
    (hp : (t.get "properties").bind Value.asObject = some properties) :
    t.get "properties" = some (.object properties) := by
  obtain ⟨listed, hget, hlisted⟩ := Option.bind_eq_some_iff.mp hp
  cases listed with
  | object own =>
    obtain rfl := Option.some.inj hlisted
    exact hget
  | _ => cases hlisted

theorem mem_propertyNames {t : Value} {properties : List (String × Value)} {name : String}
    (hp : (t.get "properties").bind Value.asObject = some properties) :
    name ∈ t.propertyNames ↔ ∃ child, properties.lookup name = some child := by
  rw [← Option.isSome_iff_exists, List.lookup_isSome_iff]
  simp only [Value.propertyNames, hp, Option.getD_some, List.mem_map, beq_iff_eq,
    eq_comm (a := name)]

section

variable {root schema : Value}

theorem Met.inner_object {members : List (String × Value)} {t u : Value}
    (h : Met root schema (.object members) t u) :
    (t = root.opened schema ∧ u = .object members) ∨
      ((root.opened schema).isObjectSchema = true ∧
        ∃ properties name w child,
          ((root.opened schema).get "properties").bind Value.asObject = some properties ∧
            (name, w) ∈ members ∧ properties.lookup name = some child ∧ Met root child w t u) := by
  cases h with
  | here => exact .inl ⟨rfl, rfl⟩
  | member ho hp mem hchild rest => exact .inr ⟨ho, _, _, _, _, hp, mem, hchild, rest⟩

theorem allListed_object_iff {members : List (String × Value)} :
    AllListed root schema (.object members) ↔
      ((root.opened schema).isObjectSchema = true →
        (root.opened schema).rejectsUnknown = true ∧
          ∃ properties, ((root.opened schema).get "properties").bind Value.asObject =
              some properties ∧
            ∀ m ∈ members, ∃ child, properties.lookup m.1 = some child ∧
              AllListed root child m.2) := by
  refine ⟨fun h ho => ?_, fun h t own hmet ht => ?_⟩
  · obtain ⟨hreject, hproperties, hnames⟩ := h _ _ (.here _ _) ho
    obtain ⟨properties, hp⟩ := Option.isSome_iff_exists.mp hproperties
    refine ⟨hreject, properties, hp, fun ⟨name, w⟩ hmem => ?_⟩
    obtain ⟨child, hchild⟩ := (mem_propertyNames hp).mp (hnames name (List.mem_map_of_mem hmem))
    exact ⟨child, hchild, fun t own hmet => h t own (.member ho hp hmem hchild hmet)⟩
  · rcases hmet.inner_object with ⟨rfl, hown⟩ | ⟨ho, properties, name, w, child, hp, hmem, hchild,
      hrest⟩
    · obtain rfl := Value.object.inj hown
      obtain ⟨hreject, properties, hp, hall⟩ := h ht
      refine ⟨hreject, by simp [hp], fun name hname => ?_⟩
      obtain ⟨m, hmem, rfl⟩ := List.mem_map.mp hname
      obtain ⟨child, hchild, _⟩ := hall m hmem
      exact (mem_propertyNames hp).mpr ⟨child, hchild⟩
    · obtain ⟨_, properties', hp', hall⟩ := h ho
      obtain rfl := Option.some.inj (hp.symm.trans hp')
      obtain ⟨child', hchild', hsound⟩ := hall _ hmem
      obtain rfl := Option.some.inj (hchild.symm.trans hchild')
      exact hsound t own hrest ht

theorem allListed_array_iff {items : List Value} :
    AllListed root schema (.array items) ↔
      ((root.opened schema).isArraySchema = true →
        ∀ child, (root.opened schema).get "items" = some child →
          ∀ w ∈ items, AllListed root child w) := by
  refine ⟨fun h ha child hi w hmem t own hmet => h t own (.item ha hi hmem hmet),
    fun h t own hmet ht => ?_⟩
  cases hmet with
  | item ha hi mem rest => exact h ha _ hi _ mem t own rest ht

end

mutual

/-- The walk accepts where the names fit, and nowhere else. -/
theorem validateUnknownFieldsInner_eq_ok_iff (root : Value) : ∀ v schema : Value,
    validateUnknownFieldsInner root v schema = .ok () ↔ AllListed root schema v
  | .object members, schema => by
    rw [allListed_object_iff, validateUnknownFieldsInner]
    cases ho : (root.opened schema).isObjectSchema with
    | false => simp
    | true =>
      cases hreject : (root.opened schema).rejectsUnknown with
      | false => simp
      | true =>
        cases hp : ((root.opened schema).get "properties").bind Value.asObject with
        | none => simp
        | some properties => simp [validateUnknownMembers_eq_ok_iff root properties members]
  | .array items, schema => by
    rw [allListed_array_iff, validateUnknownFieldsInner]
    cases ha : (root.opened schema).isArraySchema with
    | false => simp
    | true =>
      cases hi : (root.opened schema).get "items" with
      | none => simp
      | some child => simp [validateUnknownItems_eq_ok_iff root child items]
  | .null, schema | .bool _, schema | .number _, schema | .string _, schema => by
    refine iff_of_true (by rw [validateUnknownFieldsInner]; all_goals simp) ?_
    intro t own hmet
    cases hmet

theorem validateUnknownMembers_eq_ok_iff (root : Value) (properties : List (String × Value)) :
    ∀ members : List (String × Value),
      validateUnknownMembers root properties members = .ok () ↔
        ∀ m ∈ members, ∃ child, properties.lookup m.1 = some child ∧ AllListed root child m.2
  | [] => by simp [validateUnknownMembers]
  | (name, w) :: rest => by
    have hrest := validateUnknownMembers_eq_ok_iff root properties rest
    rw [validateUnknownMembers, List.forall_mem_cons, ← hrest]
    cases hl : properties.lookup name with
    | none => simp
    | some child =>
      have hchild := validateUnknownFieldsInner_eq_ok_iff root w child
      simp only [Option.some.injEq, exists_eq_left', ← hchild]
      cases validateUnknownFieldsInner root w child with
      | error e => simp
      | ok => simp

theorem validateUnknownItems_eq_ok_iff (root itemsSchema : Value) : ∀ items : List Value,
    validateUnknownItems root itemsSchema items = .ok () ↔
      ∀ w ∈ items, AllListed root itemsSchema w
  | [] => by simp [validateUnknownItems]
  | w :: rest => by
    have hrest := validateUnknownItems_eq_ok_iff root itemsSchema rest
    have hchild := validateUnknownFieldsInner_eq_ok_iff root w itemsSchema
    rw [validateUnknownItems, List.forall_mem_cons, ← hrest, ← hchild]
    cases validateUnknownFieldsInner root w itemsSchema with
    | error e => simp
    | ok => simp

end

section

variable [SchemaCompiler] {fuel : Nat} {description : String} {schema v : Value}

theorem validateToolDefinition_of_described {other : String} (hother : isBlank other = false)
    (h : validateToolDefinition fuel description schema = some (.ok ())) :
    validateToolDefinition fuel other schema = some (.ok ()) := by
  unfold validateToolDefinition at h ⊢
  split at h
  · cases h
  · rw [hother]
    exact h

theorem validateToolCallSchema_eq_ok_iff
    (h : validateToolDefinition fuel description schema = some (.ok ())) :
    validateToolCallSchema fuel v schema = some (.ok ()) ↔ AllListed schema schema v := by
  have hdescribed : isBlank "typed tool arguments" = false := by decide +kernel
  rw [validateToolCallSchema, validateToolDefinition_of_described hdescribed h]
  simp only [Option.some.injEq]
  exact validateUnknownFieldsInner_eq_ok_iff schema v schema

/-- A call that passes both gates fails in the decoder only for its type. -/
theorem decodeToolCallArgs_of_passed {α : Type} {fromValue : Value → Except String α}
    (h : validateToolCallSchema fuel v schema = some (.ok ())) :
    decodeToolCallArgs fromValue fuel v schema =
      some ((fromValue v).mapError .unknownFields) := by
  rw [decodeToolCallArgs, h]

end

/-- No object inside the value has two members of one name. -/
def KeysDistinct (v : Value) : Prop :=
  ∀ path members, v.at? path = some (.object members) → (members.map (·.1)).Nodup

theorem KeysDistinct.member {members : List (String × Value)} {name : String} {w : Value}
    (h : KeysDistinct (.object members)) (hmem : (name, w) ∈ members) :
    members.lookup name = some w ∧ KeysDistinct w := by
  have hlookup : members.lookup name = some w := by
    obtain ⟨before, after, rfl⟩ := List.append_of_mem hmem
    refine List.lookup_eq_some_iff.mpr ⟨before, after, rfl, fun p hp => ?_⟩
    have hnodup := h [] _ rfl
    rw [List.map_append, List.nodup_append] at hnodup
    simpa using (hnodup.2.2 p.1 (List.mem_map_of_mem hp) name (by simp)).symm
  refine ⟨hlookup, fun path own hat => h (.member name :: path) own ?_⟩
  simpa only [Value.at?, hlookup] using hat

theorem KeysDistinct.item {items : List Value} {w : Value} (h : KeysDistinct (.array items))
    (hmem : w ∈ items) : KeysDistinct w := by
  obtain ⟨i, hi⟩ := List.mem_iff_getElem?.mp hmem
  intro path own hat
  refine h (.index i :: path) own ?_
  simpa only [Value.at?, hi] using hat

theorem KeysDistinct.of_members {members : List (String × Value)}
    (hkeys : (members.map (·.1)).Nodup) (h : ∀ m ∈ members, KeysDistinct m.2) :
    KeysDistinct (.object members) := by
  rintro (_ | ⟨step, path⟩) own hat
  · obtain rfl := Value.object.inj (Option.some.inj hat)
    exact hkeys
  · cases step with
    | member name =>
      simp only [Value.at?] at hat
      cases hw : members.lookup name with
      | none => simp [hw] at hat
      | some w =>
        rw [hw] at hat
        exact h _ (mem_of_lookup hw) path own hat
    | index i => cases hat

theorem KeysDistinct.of_items {items : List Value} (h : ∀ w ∈ items, KeysDistinct w) :
    KeysDistinct (.array items) := by
  rintro (_ | ⟨step, path⟩) own hat
  · cases hat
  · cases step with
    | member name => cases hat
    | index i =>
      simp only [Value.at?] at hat
      cases hw : items[i]? with
      | none => simp [hw] at hat
      | some w =>
        rw [hw] at hat
        exact h w (List.mem_of_getElem? hw) path own hat

/-- The targets of the references that the walk is below of have been visited. -/
theorem Visited.target {root start schema : Value} {refs : List String}
    (h : Visited root start schema refs) :
    ∀ reference ∈ refs, ∀ name target, stripPrefix "#/$defs/" reference = some name →
      root.definition name = some target → ∃ refs', Visited root start target refs' := by
  induction h with
  | start => simp
  | definition h hr fresh hname htarget ih =>
    intro reference hmem name target hname' htarget'
    rcases List.mem_append.mp hmem with hmem | hmem
    · exact ih reference hmem name target hname' htarget'
    · obtain rfl := List.mem_singleton.mp hmem
      obtain rfl := Option.some.inj (hname.symm.trans hname')
      obtain rfl := Option.some.inj (htarget.symm.trans htarget')
      exact ⟨_, .definition h hr fresh hname htarget⟩
  | property _ _ _ _ _ ih => exact ih
  | keyword _ _ _ _ ih => exact ih

section

variable [ReferenceResolver] {root schema v t u : Value} {C : Value → Prop}

/-- The walk takes the schema for that of an object or an array. -/
def Value.isWalked (schema : Value) : Bool := schema.isObjectSchema || schema.isArraySchema

/-- The references of a subschema lead to definitions that are either references or walked, and
its subschemas are in `C`. -/
structure Plain (root : Value) (C : Value → Prop) (schema : Value) : Prop where
  bare : schema.get "schema" = none
  target : ∀ reference, schema.reference = some reference →
    ∃ name target, stripPrefix "#/$defs/" reference = some name ∧
      root.definition name = some target ∧
      ReferenceResolver.resolve root reference = some target ∧
      (target.isWalked = true → target.reference = none) ∧ C target
  properties : ∀ properties, (schema.get "properties").bind Value.asObject = some properties →
    ∀ property ∈ properties, C property.2
  items : ∀ child, schema.get "items" = some child → C child

variable (root) in
def PlainSchema : Prop := ∃ C : Value → Prop, C root ∧ ∀ t, C t → Plain root C t

theorem Plain.unwrapped (h : Plain root C schema) : schema.unwrapped = schema := by
  simp [Value.unwrapped, h.bare]

/-- What the walk over the value compares with is a definition or the subschema itself. -/
theorem Plain.opened (hC : ∀ t, C t → Plain root C t) (hc : C schema) :
    C (root.opened schema) ∧
      ((root.opened schema).isWalked = true → (root.opened schema).reference = none) ∧
      (root.opened schema = schema ∨
        ∃ reference name, schema.reference = some reference ∧
          stripPrefix "#/$defs/" reference = some name ∧
          root.definition name = some (root.opened schema) ∧
          ReferenceResolver.resolve root reference = some (root.opened schema)) := by
  cases hr : schema.reference with
  | none =>
    have heq : root.opened schema = schema := by
      simp [Value.opened, resolveRef, hr, (hC schema hc).unwrapped]
    rw [heq]
    exact ⟨hc, fun _ => hr, .inl rfl⟩
  | some reference =>
    obtain ⟨name, target, hname, htarget, hresolved, hnone, hclosed⟩ :=
      (hC schema hc).target reference hr
    have heq : root.opened schema = target := by
      simp [Value.opened, resolveRef, hr, hname, htarget, (hC target hclosed).unwrapped]
    rw [heq]
    exact ⟨hclosed, hnone, .inr ⟨reference, name, rfl, hname, htarget, hresolved⟩⟩

theorem Plain.visited_opened {start : Value} {refs : List String}
    (hC : ∀ t, C t → Plain root C t) (hc : C schema) (h : Visited root start schema refs) :
    ∃ refs', Visited root start (root.opened schema) refs' := by
  obtain ⟨_, _, heq | ⟨reference, name, hr, hname, htarget, _⟩⟩ := Plain.opened hC hc
  · exact ⟨refs, heq.symm ▸ h⟩
  · by_cases hmem : reference ∈ refs
    · exact h.target reference hmem name _ hname htarget
    · exact ⟨_, .definition h hr hmem hname htarget⟩

theorem Met.visited {start : Value} {refs : List String} (h : Met root schema v t u)
    (hC : ∀ t, C t → Plain root C t) (hc : C schema) (hv : Visited root start schema refs) :
    (t.isWalked = true → t.reference = none) ∧ ∃ refs', Visited root start t refs' := by
  induction h generalizing refs with
  | here schema v => exact ⟨(Plain.opened hC hc).2.1, Plain.visited_opened hC hc hv⟩
  | member ho hp mem hchild rest ih =>
    obtain ⟨hopened, hr, _⟩ := Plain.opened hC hc
    obtain ⟨refs', hv'⟩ := Plain.visited_opened hC hc hv
    have hr := hr (by rw [Value.isWalked, ho, Bool.true_or])
    have hmem := mem_of_lookup hchild
    exact ih ((hC _ hopened).properties _ hp _ hmem) (.property hv' hr ho hp hmem)
  | item ha hi mem rest ih =>
    obtain ⟨hopened, hr, _⟩ := Plain.opened hC hc
    obtain ⟨refs', hv'⟩ := Plain.visited_opened hC hc hv
    have hr := hr (by rw [Value.isWalked, ha, Bool.or_true])
    refine ih ((hC _ hopened).items _ hi) (.keyword hv' hr (fun ho => ?_) ?_)
    · have harray := of_decide_eq_true ha
      rw [Value.isObjectSchema, harray] at ho
      cases ho
    · simp [Value.subschemas, hi]

theorem Plain.accepts_opened (hC : ∀ t, C t → Plain root C t) (hc : C schema)
    (h : root.Accepts schema v) : root.Accepts (root.opened schema) v := by
  obtain ⟨_, _, heq | ⟨reference, name, hr, _, _, hresolved⟩⟩ := Plain.opened hC hc
  · exact heq.symm ▸ h
  · obtain ⟨text, hget, htext⟩ := Option.bind_eq_some_iff.mp hr
    cases text with
    | string text =>
      obtain rfl := Option.some.inj htext
      exact h.ref hget hresolved
    | _ => cases htext

/-- What a plain schema accepts, its subschemas accept where the walk meets them. -/
theorem Met.accepts (h : Met root schema v t u) (hC : ∀ t, C t → Plain root C t) (hc : C schema)
    (hkeys : KeysDistinct v) (haccepts : root.Accepts schema v) : root.Accepts t u := by
  induction h with
  | here schema v => exact Plain.accepts_opened hC hc haccepts
  | member ho hp mem hchild rest ih =>
    obtain ⟨hopened, _⟩ := Plain.opened hC hc
    obtain ⟨hlookup, hw⟩ := hkeys.member mem
    have hmem := mem_of_lookup hchild
    have hget := get_properties hp
    exact ih ((hC _ hopened).properties _ hp _ hmem) hw
      ((Plain.accepts_opened hC hc haccepts).property hget hmem hlookup)
  | item ha hi mem rest ih =>
    obtain ⟨hopened, _⟩ := Plain.opened hC hc
    exact ih ((hC _ hopened).items _ hi) (hkeys.item mem)
      ((Plain.accepts_opened hC hc haccepts).item hi mem)

/-- What the gate before a call accepts, the decoder accepts too where it compares objects with
schemas that list properties, were visited at the registration and apply; for plain schemas exactly
where they list properties. Then a call fails in the decoder only for its type. -/
theorem argument_gates_agree_iff [SchemaCompiler] [ArgumentSchema] {fuel : Nat}
    {description : String}
    (hstandard : ∀ v, ArgumentSchema.accepts schema.unwrapped v = true →
      schema.unwrapped.Accepts schema.unwrapped v)
    (hdefinition : validateToolDefinition fuel description schema = some (.ok ()))
    (hv : validateToolArguments v schema = true) :
    ((∀ t members, Met schema schema v t (.object members) → t.isObjectSchema = true →
        ((t.get "properties").bind Value.asObject).isSome = true ∧
          Recognised schema.unwrapped schema.unwrapped.unwrapped t ∧
          ∃ path, Applies schema.unwrapped schema.unwrapped v path t ∧
            v.at? path = some (.object members)) →
      validateToolCallSchema fuel v schema = some (.ok ())) ∧
    (PlainSchema schema → KeysDistinct v →
      (validateToolCallSchema fuel v schema = some (.ok ()) ↔
        ∀ t members, Met schema schema v t (.object members) → t.isObjectSchema = true →
          ((t.get "properties").bind Value.asObject).isSome = true)) ∧
    ∀ (α : Type) (fromValue : Value → Except String α),
      validateToolCallSchema fuel v schema = some (.ok ()) →
        decodeToolCallArgs fromValue fuel v schema =
          some ((fromValue v).mapError .unknownFields) := by
  have hshaped := shaped_of_validateToolDefinition hdefinition
  have haccepts : schema.unwrapped.Accepts schema.unwrapped v := hstandard v hv
  rw [validateToolCallSchema_eq_ok_iff hdefinition]
  refine ⟨fun h t members hmet ht => ?_,
    fun ⟨C, hroot, hC⟩ hkeys => ⟨fun h t members hmet ht => (h t members hmet ht).properties,
      fun h t members hmet ht => ?_⟩, fun α fromValue hlisted => ?_⟩
  · obtain ⟨hproperties, hrecognised, path, happlies, hat⟩ := h t members hmet ht
    have hreject := hrecognised.rejectsUnknown hshaped
    exact ⟨hreject, hproperties, listed_of_rejectsUnknown hreject (happlies.accepts haccepts hat)⟩
  · have hbare := (hC schema hroot).unwrapped
    rw [hbare, hbare] at hshaped
    rw [hbare] at haccepts
    have hrecognised : Recognised schema schema t := by
      obtain ⟨hr, refs, hvisited⟩ := hmet.visited hC hroot .start
      exact ⟨hr (by rw [Value.isWalked, ht, Bool.true_or]), ht, refs, hvisited⟩
    have hreject := hrecognised.rejectsUnknown hshaped
    exact ⟨hreject, h t members hmet ht,
      listed_of_rejectsUnknown hreject (hmet.accepts hC hroot hkeys haccepts)⟩
  · exact decodeToolCallArgs_of_passed ((validateToolCallSchema_eq_ok_iff hdefinition).mpr hlisted)

end

namespace Sample

theorem filesSchema_plain : @PlainSchema definitions filesSchema := by
  let _ := definitions
  let pathProperty : Value :=
    .object [("description", .string "a path"), ("type", .string "string")]
  refine ⟨(· ∈ [filesSchema, filesProperty, fileReference, fileSchema, pathProperty]),
    List.mem_cons_self, fun t ht => ?_⟩
  simp only [List.mem_cons, List.not_mem_nil, or_false] at ht
  rcases ht with rfl | rfl | rfl | rfl | rfl
  · refine ⟨rfl, nofun, fun properties hp => ?_, nofun⟩
    cases hp
    simp
  · refine ⟨rfl, nofun, nofun, fun child hi => ?_⟩
    cases hi
    simp
  · refine ⟨rfl, fun reference hr => ?_, nofun, nofun⟩
    cases hr
    exact ⟨"File", fileSchema, rfl, rfl, rfl, fun _ => rfl, by simp⟩
  · refine ⟨rfl, nofun, fun properties hp => ?_, nofun⟩
    cases hp
    simp [pathProperty]
  · exact ⟨rfl, nofun, nofun, nofun⟩

theorem files_keysDistinct : KeysDistinct files := by
  have htext (s : String) : KeysDistinct (.string s) := by
    rintro (_ | ⟨_ | _, _⟩) members hat <;> cases hat
  have hfile (s : String) : KeysDistinct (.object [("path", .string s)]) :=
    .of_members (by simp) (by simpa using htext s)
  refine .of_members (by simp) (List.forall_mem_singleton.mpr (.of_items ?_))
  simp [hfile]

def fieldlessSchema : Value :=
  .object [("type", .string "object"), ("additionalProperties", .bool false)]

end Sample

theorem argument_gates_agree_sample :
    @validateToolArguments Sample.schemaArguments Sample.files Sample.filesSchema = true ∧
      (∀ t members, Met Sample.filesSchema Sample.filesSchema Sample.files t (.object members) →
        t.isObjectSchema = true → ((t.get "properties").bind Value.asObject).isSome = true) ∧
      @decodeToolCallArgs _ Sample.schemaCompiler (fun v => .ok v) 10 Sample.files
        Sample.filesSchema = some (.ok Sample.files) := by
  let _ := Sample.definitions
  let _ := Sample.schemaCompiler
  let _ := Sample.schemaArguments
  have hdefinition : validateToolDefinition 10 "reads files" Sample.filesSchema =
      some (.ok ()) := by decide +kernel
  have hv : validateToolArguments Sample.files Sample.filesSchema = true := by decide +kernel
  have hpassed : validateToolCallSchema 10 Sample.files Sample.filesSchema = some (.ok ()) := by
    decide +kernel
  obtain ⟨_, hplain, hdecoder⟩ :=
    argument_gates_agree_iff (Sample.schemaArguments_standard _) hdefinition hv
  exact ⟨hv, (hplain Sample.filesSchema_plain Sample.files_keysDistinct).mp hpassed,
    hdecoder Value (fun v => .ok v) hpassed⟩

/-- The tool has no arguments, and every call of it is invalid. -/
theorem fieldless_arguments_refused :
    ¬ ∀ (_ : ReferenceResolver) (_ : SchemaCompiler) (_ : ArgumentSchema) (fuel : Nat)
      (description : String) (schema v : Value),
      (∀ s v, ArgumentSchema.accepts s v = true → s.Accepts s v) →
      validateToolDefinition fuel description schema = some (.ok ()) →
      validateToolArguments v schema = true →
      validateToolCallSchema fuel v schema = some (.ok ()) := by
  intro claim
  let _ := Sample.schemaCompiler
  have haccepted := claim Sample.definitions Sample.schemaCompiler Sample.schemaArguments 10
    "takes nothing" Sample.fieldlessSchema (.object []) Sample.schemaArguments_standard
    (by decide +kernel) (by decide +kernel)
  have hrefused : validateToolCallSchema 10 (.object []) Sample.fieldlessSchema =
      some (.error (.invalidSchema
        "tool argument schema for object values must include properties")) := by decide +kernel
  rw [haccepted] at hrefused
  cases hrefused

end Agentive
