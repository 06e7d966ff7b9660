import Agentive.Message

/-! JSON Schema validation: types, properties, items, combinators and references. -/

namespace Agentive

namespace Value

def asStr : Value → Option String
  | .string s => some s
  | _ => none

def asObject : Value → Option (List (String × Value))
  | .object members => some members
  | _ => none

end Value

/-- A float is an integer if no bit of its fraction is left behind the point. -/
def Number.isIntegral : Number → Bool
  | .posInt _ | .negInt _ => true
  | .float bits =>
    let exponent := bits.toNat / 2 ^ 52 % 2 ^ 11
    if 1075 ≤ exponent then true
    else if exponent < 1023 then bits.toNat % 2 ^ 63 = 0
    else (bits.toNat % 2 ^ 52) % 2 ^ (1075 - exponent) = 0

def Value.hasType (v : Value) (kind : String) : Bool :=
  match v with
  | .null => kind = "null"
  | .bool _ => kind = "boolean"
  | .number n => kind = "number" || kind = "integer" && n.isIntegral
  | .string _ => kind = "string"
  | .array _ => kind = "array"
  | .object _ => kind = "object"

/-- What a reference in a document points to. -/
class ReferenceResolver where
  resolve : Value → String → Option Value

def allHold : List (Option Bool) → Option Bool
  | [] => some true
  | none :: _ => none
  | some b :: rest => (allHold rest).map (b && ·)

def countHold : List (Option Bool) → Option Nat
  | [] => some 0
  | none :: _ => none
  | some b :: rest => (countHold rest).map (b.toNat + ·)

theorem allHold_eq_true {l : List (Option Bool)} :
    allHold l = some true ↔ ∀ x ∈ l, x = some true := by
  induction l with
  | nil => simp [allHold]
  | cons x l ih =>
    cases x with
    | none => simp [allHold]
    | some b => cases b <;> simp [allHold, ih]

theorem exists_of_countHold {l : List (Option Bool)} {n : Nat} (h : countHold l = some n)
    (hn : 0 < n) : some true ∈ l := by
  induction l generalizing n with
  | nil =>
    obtain rfl := Option.some.inj h
    exact absurd hn (Nat.lt_irrefl 0)
  | cons x l ih =>
    cases x with
    | none => cases h
    | some b =>
      cases b with
      | true => exact List.mem_cons_self
      | false =>
        simp only [countHold, Bool.toNat_false, Nat.zero_add, Option.map_id_fun', id_eq] at h
        exact List.mem_cons_of_mem _ (ih h hn)

namespace Value

def typeAllows (schema v : Value) : Bool :=
  match schema.get "type" with
  | some (.string kind) => v.hasType kind
  | some (.array kinds) => kinds.any fun kind => (kind.asStr.map v.hasType).getD false
  | _ => true

/-- The names that the schema lists. -/
def propertyNames (schema : Value) : List String :=
  (((schema.get "properties").bind asObject).getD []).map (·.1)

section

variable (validate : Value → Value → Option Bool) (schema v : Value)

def checkProperties : Option Bool :=
  match schema.get "properties", v with
  | some (.object properties), .object members =>
    allHold (properties.map fun (name, child) =>
      match members.lookup name with
      | none => some true
      | some w => validate child w)
  | _, _ => some true

def checkAdditionalProperties : Option Bool :=
  match schema.get "additionalProperties", v with
  | some additional, .object members =>
    allHold (members.map fun (name, w) =>
      if name ∈ schema.propertyNames then some true else validate additional w)
  | _, _ => some true

def checkItems : Option Bool :=
  match schema.get "items", v with
  | some items, .array ws => allHold (ws.map fun w => validate items w)
  | _, _ => some true

def checkAnyOf : Option Bool :=
  match schema.get "anyOf" with
  | some (.array children) =>
    (countHold (children.map fun child => validate child v)).map (decide <| 0 < ·)
  | _ => some true

def checkOneOf : Option Bool :=
  match schema.get "oneOf" with
  | some (.array children) =>
    (countHold (children.map fun child => validate child v)).map (decide <| · = 1)
  | _ => some true

def checkAllOf : Option Bool :=
  match schema.get "allOf" with
  | some (.array children) => allHold (children.map fun child => validate child v)
  | _ => some true

def checkRef [ReferenceResolver] (root : Value) : Option Bool :=
  match schema.get "$ref" with
  | some (.string reference) =>
    (ReferenceResolver.resolve root reference).bind fun target => validate target v
  | _ => some true

end

/-- Validation of a value; there is no answer while references go round without end. -/
def validate [ReferenceResolver] (root : Value) : Nat → Value → Value → Option Bool
  | 0, _, _ => none
  | _ + 1, .bool b, _ => some b
  | fuel + 1, schema, v =>
    allHold [some (schema.typeAllows v), schema.checkProperties (validate root fuel) v,
      schema.checkAdditionalProperties (validate root fuel) v,
      schema.checkItems (validate root fuel) v, schema.checkAnyOf (validate root fuel) v,
      schema.checkOneOf (validate root fuel) v, schema.checkAllOf (validate root fuel) v,
      schema.checkRef (validate root fuel) v root]

/-- What the members of a schema say about a value, each on its own. -/
structure Checks [ReferenceResolver] (root schema v : Value) (fuel : Nat) : Prop where
  type : schema.typeAllows v = true
  properties : schema.checkProperties (validate root fuel) v = some true
  additional : schema.checkAdditionalProperties (validate root fuel) v = some true
  items : schema.checkItems (validate root fuel) v = some true
  anyOf : schema.checkAnyOf (validate root fuel) v = some true
  oneOf : schema.checkOneOf (validate root fuel) v = some true
  allOf : schema.checkAllOf (validate root fuel) v = some true
  ref : schema.checkRef (validate root fuel) v root = some true

theorem checks_of_validate [ReferenceResolver] {root schema v : Value} {fuel : Nat}
    (h : validate root (fuel + 1) schema v = some true) (hbool : ∀ b, schema ≠ .bool b) :
    Checks root schema v fuel := by
  have heq : validate root (fuel + 1) schema v = allHold [some (schema.typeAllows v),
      schema.checkProperties (validate root fuel) v,
      schema.checkAdditionalProperties (validate root fuel) v,
      schema.checkItems (validate root fuel) v, schema.checkAnyOf (validate root fuel) v,
      schema.checkOneOf (validate root fuel) v, schema.checkAllOf (validate root fuel) v,
      schema.checkRef (validate root fuel) v root] := by
    cases schema with
    | bool b => exact absurd rfl (hbool b)
    | _ => rfl
  rw [heq] at h
  have hall := allHold_eq_true.mp h
  simp only [List.mem_cons, List.not_mem_nil, or_false, forall_eq_or_imp, forall_eq] at hall
  obtain ⟨htype, hproperties, hadditional, hitems, hanyOf, honeOf, hallOf, href⟩ := hall
  exact ⟨Option.some.inj htype, hproperties, hadditional, hitems, hanyOf, honeOf, hallOf, href⟩

def Accepts [ReferenceResolver] (root schema v : Value) : Prop :=
  ∃ fuel, validate root fuel schema v = some true

end Value

/-- One step into a value. -/
inductive ValueStep
  | member (name : String)
  | index (i : Nat)

def Value.at? : Value → List ValueStep → Option Value
  | v, [] => some v
  | .object members, .member name :: path =>
    match members.lookup name with
    | none => none
    | some w => w.at? path
  | .array items, .index i :: path =>
    match items[i]? with
    | none => none
    | some w => w.at? path
  | _, _ :: _ => none

/-- The subschemas that apply to what is at a path of a value. Of the branches of a combinator
only those apply that accept the value. -/
inductive Applies [ReferenceResolver] (root : Value) :
    Value → Value → List ValueStep → Value → Prop
  | here (schema v : Value) : Applies root schema v [] schema
  | ref {schema v t target : Value} {path : List ValueStep} {reference : String}
      (h : schema.get "$ref" = some (.string reference))
      (resolved : ReferenceResolver.resolve root reference = some target)
      (rest : Applies root target v path t) : Applies root schema v path t
  | branch {schema v t child : Value} {path : List ValueStep} {key : String}
      {children : List Value} (hkey : key ∈ ["anyOf", "oneOf", "allOf"])
      (h : schema.get key = some (.array children)) (mem : child ∈ children)
      (accepts : root.Accepts child v) (rest : Applies root child v path t) :
      Applies root schema v path t
  | property {schema t child w : Value} {path : List ValueStep} {name : String}
      {properties members : List (String × Value)}
      (h : schema.get "properties" = some (.object properties))
      (mem : (name, child) ∈ properties) (value : members.lookup name = some w)
      (rest : Applies root child w path t) :
      Applies root schema (.object members) (.member name :: path) t
  | additional {schema t additional w : Value} {path : List ValueStep} {name : String}
      {members : List (String × Value)}
      (h : schema.get "additionalProperties" = some additional)
      (unlisted : name ∉ schema.propertyNames) (value : members.lookup name = some w)
      (rest : Applies root additional w path t) :
      Applies root schema (.object members) (.member name :: path) t
  | item {schema t child w : Value} {path : List ValueStep} {i : Nat} {items : List Value}
      (h : schema.get "items" = some child) (value : items[i]? = some w)
      (rest : Applies root child w path t) : Applies root schema (.array items) (.index i :: path) t

/-- Every object inside the value has only members that a subschema for it lists. -/
def ClosedUnder [ReferenceResolver] (root v : Value) : Prop :=
  ∀ path members, v.at? path = some (.object members) → ∀ name ∈ members.map (·.1),
    ∃ t, Applies root root v path t ∧ name ∈ t.propertyNames

end Agentive
