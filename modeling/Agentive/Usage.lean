import Agentive.Model

/-! Token usage of a run: one entry for each provider call, and their aggregate. -/

namespace Agentive

structure TokenUsage where
  input : Option U64
  output : Option U64
  cachedInput : Option U64
  reasoning : Option U64
  providerTotal : Option U64
deriving DecidableEq

def mergeOpt : Option U64 → Option U64 → Option U64
  | some a, some b => some (a.saturatingAdd b)
  | _, _ => none

namespace TokenUsage

def unknown : TokenUsage :=
  { input := none, output := none, cachedInput := none, reasoning := none,
    providerTotal := none }

def fromModel (u : ModelTokenUsage) : TokenUsage :=
  { input := u.input, output := u.output, cachedInput := u.cachedInput,
    reasoning := u.reasoning, providerTotal := u.providerTotal }

def merge (u rhs : TokenUsage) : TokenUsage :=
  { input := mergeOpt u.input rhs.input
    output := mergeOpt u.output rhs.output
    cachedInput := mergeOpt u.cachedInput rhs.cachedInput
    reasoning := mergeOpt u.reasoning rhs.reasoning
    providerTotal := mergeOpt u.providerTotal rhs.providerTotal }

def complete (u : TokenUsage) : Bool :=
  u.input.isSome && u.output.isSome && u.cachedInput.isSome && u.reasoning.isSome &&
    u.providerTotal.isSome

end TokenUsage

structure ModelCallUsage where
  model : String
  usage : TokenUsage
deriving DecidableEq

structure RunUsage where
  aggregate : TokenUsage
  complete : Bool
  modelCalls : List ModelCallUsage
deriving DecidableEq

namespace RunUsage

def new : RunUsage := { aggregate := .unknown, complete := true, modelCalls := [] }

def addCall (u : RunUsage) (model : String) : Option ModelTokenUsage → RunUsage
  | some usage =>
    let tokenUsage := TokenUsage.fromModel usage
    { aggregate := if u.modelCalls.isEmpty then tokenUsage else u.aggregate.merge tokenUsage
      complete := u.complete && tokenUsage.complete
      modelCalls := u.modelCalls ++ [{ model, usage := tokenUsage }] }
  | none =>
    { aggregate := u.aggregate
      complete := false
      modelCalls := u.modelCalls ++ [{ model, usage := .unknown }] }

def mergeChild (u child : RunUsage) : RunUsage :=
  { aggregate :=
      if child.modelCalls.isEmpty then u.aggregate
      else if u.modelCalls.isEmpty then child.aggregate
      else u.aggregate.merge child.aggregate
    complete := u.complete && child.complete
    modelCalls := u.modelCalls ++ child.modelCalls }

end RunUsage

/-- The entry that one provider call leaves in a run's usage. -/
def ModelCallUsage.ofReport (model : String) (reported : Option ModelTokenUsage) :
    ModelCallUsage :=
  { model, usage := reported.elim .unknown TokenUsage.fromModel }

@[simp] theorem RunUsage.modelCalls_addCall (u : RunUsage) (model : String)
    (reported : Option ModelTokenUsage) : (u.addCall model reported).modelCalls =
      u.modelCalls ++ [ModelCallUsage.ofReport model reported] := by
  cases reported <;> rfl

@[simp] theorem RunUsage.modelCalls_mergeChild (u child : RunUsage) :
    (u.mergeChild child).modelCalls = u.modelCalls ++ child.modelCalls := rfl

end Agentive
