import Agentive.RunTrace

/-! Fallback routers: a router of two providers is a provider again, so routers nest. What a router
promises in admission is what all its leaves promise. -/

namespace Agentive

/-- What a transport call is told besides its request. -/
structure ProviderCallContext where
  providerCallId : String
  modelRound : U32
  attempt : U8
deriving DecidableEq

/-- A provider with its transport calls. -/
structure ModelProvider extends Provider where
  generate : ModelRequest → ProviderCallContext → Except ProviderError ModelResponse
  stream : ModelRequest → ProviderCallContext →
    Except ProviderError (List (Except ProviderError ModelStreamEvent))

def commonBound : Option U64 → Option U64 → Except String (Option U64)
  | some primary, some fallback => .ok (some (primary.max fallback))
  | _, _ => .ok none

def weakestStructuredSupport :
    StructuredOutputSupport → StructuredOutputSupport → StructuredOutputSupport
  | .jsonSchema, .jsonSchema => .jsonSchema
  | .json, .json | .json, .jsonSchema | .jsonSchema, .json => .json
  | _, _ => .none

def guaranteedCapabilities (primary fallback : ModelCapabilities) : ModelCapabilities :=
  { supportsToolCalls := primary.supportsToolCalls && fallback.supportsToolCalls
    supportsStreaming := primary.supportsStreaming && fallback.supportsStreaming
    supportsImages := primary.supportsImages && fallback.supportsImages
    maxContextTokens :=
      match primary.maxContextTokens, fallback.maxContextTokens with
      | some primary, some fallback => some (primary.min fallback)
      | _, _ => none }

/-- The bounds of two providers in their order; the first failure is the router's. -/
def commonCount (primary fallback : ModelRequest → Except String (Option U64))
    (request : ModelRequest) : Except String (Option U64) := do
  let primary ← primary request
  let fallback ← fallback request
  commonBound primary fallback

/-- `FallbackProvider`: the primary makes attempt one, the fallback every later attempt. -/
def FallbackProvider (primary fallback : ModelProvider) : ModelProvider :=
  { routingAttempts := 2
    structuredOutputSupport :=
      weakestStructuredSupport primary.structuredOutputSupport fallback.structuredOutputSupport
    conservativeContextTokenBound :=
      commonCount primary.conservativeContextTokenBound fallback.conservativeContextTokenBound
    exactContextTokenCount :=
      commonCount primary.exactContextTokenCount fallback.exactContextTokenCount
    capabilities := guaranteedCapabilities primary.capabilities fallback.capabilities
    generate := fun request context =>
      if context.attempt = 1 then primary.generate request context
      else fallback.generate request context
    stream := fun request context =>
      if context.attempt = 1 then primary.stream request context
      else fallback.stream request context }

/-- Nested fallback routers over providers, in any shape. -/
inductive Router
  | leaf (provider : ModelProvider)
  | fallback (primary fallback : Router)

def Router.provider : Router → ModelProvider
  | .leaf provider => provider
  | .fallback first second => FallbackProvider first.provider second.provider

/-- The providers that the routers are nested over, from left to right. -/
def Router.leaves : Router → List ModelProvider
  | .leaf provider => [provider]
  | .fallback first second => first.leaves ++ second.leaves

/-- The context count of a provider in one mode. -/
def Provider.contextCount (provider : Provider) : AllOrError → ModelRequest →
    Except String (Option U64)
  | .exact => provider.exactContextTokenCount
  | .conservative => provider.conservativeContextTokenBound

/-- What the context admission of a provider promises: the request asks for nothing that the
provider lacks, and with its output reserve it fits the context limit. -/
structure Provider.Admits (provider : Provider) (mode : AllOrError) (optOut : Bool)
    (request : ModelRequest) (bound : Option U64) : Prop where
  tools : request.tools = [] ∨ provider.capabilities.supportsToolCalls = true
  output : outputSupported request.outputFormat provider.structuredOutputSupport = true
  images : request.messages.any (fun m => m.content.any (·.isImage)) = false ∨
    provider.capabilities.supportsImages = true
  unbounded : optOut = true → bound = none
  bounded : optOut = false → ∃ prompt limit, bound = some prompt ∧
    provider.contextCount mode request = .ok (some prompt) ∧
    provider.capabilities.maxContextTokens = some limit ∧
    prompt.saturatingAdd request.maxOutputTokens ≤ limit

section

variable {provider : Provider} {mode : AllOrError} {optOut : Bool} {request : ModelRequest}
  {bound : Option U64}

theorem promptTokenBound_eq_ok_iff :
    promptTokenBound provider mode optOut request = .ok bound ↔
      if optOut then bound = none else provider.contextCount mode request = .ok bound := by
  cases optOut with
  | true => simp [promptTokenBound, eq_comm]
  | false =>
    cases mode with
    | exact =>
      cases hc : provider.exactContextTokenCount request <;>
        simp [promptTokenBound, Provider.contextCount, hc, Except.mapError]
    | conservative =>
      cases hc : provider.conservativeContextTokenBound request <;>
        simp [promptTokenBound, Provider.contextCount, hc, Except.mapError]

theorem canAdmit_eq_ok_iff {capabilities : ModelCapabilities} :
    canAdmit mode request capabilities bound optOut = .ok () ↔
      optOut = true ∨ ∃ prompt limit, bound = some prompt ∧
        capabilities.maxContextTokens = some limit ∧
        prompt.saturatingAdd request.maxOutputTokens ≤ limit := by
  cases optOut with
  | true => simp [canAdmit]
  | false =>
    cases hl : capabilities.maxContextTokens with
    | none => simp [canAdmit, hl]
    | some limit =>
      cases bound with
      | none => cases mode <;> simp [canAdmit, hl]
      | some prompt =>
        have hroom : prompt.saturatingAdd request.maxOutputTokens ≤ limit ↔
            ¬ limit < prompt.saturatingAdd request.maxOutputTokens := by
          rw [Capped.lt_def, Capped.le_def, Nat.not_lt]
        simp [canAdmit, hl, hroom]

/-- The three capability checks, the count of the prompt and the admission of the count. -/
theorem validateContext_eq_ok :
    validateContext provider mode optOut request = .ok bound ↔
      (request.tools = [] ∨ provider.capabilities.supportsToolCalls = true) ∧
      outputSupported request.outputFormat provider.structuredOutputSupport = true ∧
      (request.messages.any (fun m => m.content.any (·.isImage)) = false ∨
        provider.capabilities.supportsImages = true) ∧
      promptTokenBound provider mode optOut request = .ok bound ∧
      canAdmit mode request provider.capabilities bound optOut = .ok () := by
  have hsplit : ∀ b c : Bool, (!b && !c) = false ↔ b = true ∨ c = true := by decide
  have himage : ∀ b c : Bool, (b && !c) = false ↔ b = false ∨ c = true := by decide
  rw [← List.isEmpty_iff, ← hsplit, ← himage]
  unfold validateContext
  by_cases htools : (!request.tools.isEmpty && !provider.capabilities.supportsToolCalls) = true
  · simp [htools]
  · by_cases houtput : outputSupported request.outputFormat provider.structuredOutputSupport = true
    · by_cases himages : (request.messages.any (fun m => m.content.any (·.isImage)) &&
          !provider.capabilities.supportsImages) = true
      · rw [if_neg htools, if_neg (by simp [houtput]), if_pos himages]
        simp [himages]
      · rw [if_neg htools, if_neg (by simp [houtput]), if_neg himages]
        simp only [Bool.not_eq_true] at htools himages
        simp only [htools, himages, houtput, true_and]
        cases hbound : promptTokenBound provider mode optOut request with
        | error e => simp
        | ok bound' =>
          by_cases hb : bound' = bound
          · subst hb
            cases hfits : canAdmit mode request provider.capabilities bound' optOut <;>
              simp [hfits]
          · cases hfits : canAdmit mode request provider.capabilities bound' optOut <;>
              simp [hfits, hb]
    · simp [htools, houtput]

theorem validateContext_eq_ok_iff :
    validateContext provider mode optOut request = .ok bound ↔
      provider.Admits mode optOut request bound := by
  rw [validateContext_eq_ok, promptTokenBound_eq_ok_iff, canAdmit_eq_ok_iff]
  cases optOut with
  | true =>
    constructor
    · rintro ⟨htools, houtput, himages, hbound, _⟩
      exact ⟨htools, houtput, himages, fun _ => hbound, nofun⟩
    · intro h
      exact ⟨h.tools, h.output, h.images, h.unbounded rfl, .inl rfl⟩
  | false =>
    constructor
    · rintro ⟨htools, houtput, himages, hcount, h | ⟨prompt, limit, rfl, hlimit, hfits⟩⟩
      · cases h
      · exact ⟨htools, houtput, himages, nofun,
          fun _ => ⟨prompt, limit, rfl, hcount, hlimit, hfits⟩⟩
    · intro h
      obtain ⟨prompt, limit, rfl, hcount, hlimit, hfits⟩ := h.bounded rfl
      exact ⟨h.tools, h.output, h.images, hcount, .inr ⟨prompt, limit, rfl, hlimit, hfits⟩⟩

end

/-- Both bounds are unknown, or the first is at most the second. -/
def BoundLe : Option U64 → Option U64 → Prop
  | none, none => True
  | some a, some b => a ≤ b
  | _, _ => False

theorem BoundLe.refl (a : Option U64) : BoundLe a a := by
  cases a with
  | none => trivial
  | some a => exact Nat.le_refl a.val

theorem BoundLe.trans {a b c : Option U64} (hab : BoundLe a b) (hbc : BoundLe b c) :
    BoundLe a c := by
  cases a <;> cases b <;> cases c
  case none.none.none => trivial
  case some.some.some => exact Nat.le_trans hab hbc
  all_goals first | exact hab.elim | exact hbc.elim

theorem commonCount_eq_some {first second : ModelRequest → Except String (Option U64)}
    {request : ModelRequest} {n : U64} (h : commonCount first second request = .ok (some n)) :
    ∃ a b, first request = .ok (some a) ∧ second request = .ok (some b) ∧ n = a.max b := by
  cases ha : first request with
  | error e => simp [commonCount, ha, bind, Except.bind] at h
  | ok a =>
    cases hb : second request with
    | error e => simp [commonCount, ha, hb, bind, Except.bind] at h
    | ok b =>
      simp only [commonCount, ha, hb, bind, Except.bind] at h
      cases a with
      | none => cases h
      | some a =>
        cases b with
        | none => cases h
        | some b =>
          cases h
          exact ⟨a, b, rfl, rfl, rfl⟩

theorem weakest_supports {format : ModelOutputFormat} {a b : StructuredOutputSupport}
    (h : outputSupported format (weakestStructuredSupport a b) = true) :
    outputSupported format a = true ∧ outputSupported format b = true := by
  cases format <;> cases a <;> cases b <;> first | exact ⟨rfl, rfl⟩ | cases h

theorem guaranteed_limit {a b : ModelCapabilities} {limit : U64}
    (h : (guaranteedCapabilities a b).maxContextTokens = some limit) :
    ∃ m n, a.maxContextTokens = some m ∧ b.maxContextTokens = some n ∧ limit = m.min n := by
  simp only [guaranteedCapabilities] at h
  split at h
  · next m n hm hn =>
    cases h
    exact ⟨m, n, hm, hn, rfl⟩
  · cases h

section

variable {first second : ModelProvider} {mode : AllOrError} {optOut : Bool}
  {request : ModelRequest} {bound : Option U64}

theorem contextCount_fallback :
    (FallbackProvider first second).contextCount mode request =
      commonCount (first.contextCount mode) (second.contextCount mode) request := by
  cases mode <;> rfl

/-- What a router promises, both its providers promise, with a bound that is no larger. -/
theorem Provider.Admits.of_fallback
    (h : (FallbackProvider first second).Admits mode optOut request bound) :
    (∃ b, first.Admits mode optOut request b ∧ BoundLe b bound) ∧
    ∃ b, second.Admits mode optOut request b ∧ BoundLe b bound := by
  obtain ⟨htools₁, htools₂⟩ := or_and_left.mp (h.tools.imp_right (Bool.and_eq_true _ _).mp)
  obtain ⟨himages₁, himages₂⟩ := or_and_left.mp (h.images.imp_right (Bool.and_eq_true _ _).mp)
  obtain ⟨houtput₁, houtput₂⟩ := weakest_supports h.output
  cases optOut with
  | true =>
    have hnone := h.unbounded rfl
    subst hnone
    exact ⟨⟨none, ⟨htools₁, houtput₁, himages₁, fun _ => rfl, nofun⟩, trivial⟩,
      none, ⟨htools₂, houtput₂, himages₂, fun _ => rfl, nofun⟩, trivial⟩
  | false =>
    obtain ⟨prompt, limit, rfl, hcount, hlimit, hfits⟩ := h.bounded rfl
    rw [contextCount_fallback] at hcount
    obtain ⟨a, b, ha, hb, rfl⟩ := commonCount_eq_some hcount
    obtain ⟨m, n, hm, hn, rfl⟩ := guaranteed_limit hlimit
    simp only [Capped.le_def, Capped.val_saturatingAdd, Capped.val_max, Capped.val_min] at hfits
    have hfits₁ : a.saturatingAdd request.maxOutputTokens ≤ m := by
      simp only [Capped.le_def, Capped.val_saturatingAdd]
      omega
    have hfits₂ : b.saturatingAdd request.maxOutputTokens ≤ n := by
      simp only [Capped.le_def, Capped.val_saturatingAdd]
      omega
    have hmax₁ : a ≤ a.max b := Nat.le_max_left a.val b.val
    have hmax₂ : b ≤ a.max b := Nat.le_max_right a.val b.val
    exact ⟨⟨some a, ⟨htools₁, houtput₁, himages₁, nofun, fun _ => ⟨a, m, rfl, ha, hm, hfits₁⟩⟩,
        hmax₁⟩,
      some b, ⟨htools₂, houtput₂, himages₂, nofun, fun _ => ⟨b, n, rfl, hb, hn, hfits₂⟩⟩, hmax₂⟩

theorem Router.leaf_admits {r : Router} (h : r.provider.Admits mode optOut request bound)
    {leaf : ModelProvider} (hleaf : leaf ∈ r.leaves) :
    ∃ b, leaf.Admits mode optOut request b ∧ BoundLe b bound := by
  induction r generalizing bound with
  | leaf provider =>
    rw [Router.leaves, List.mem_singleton] at hleaf
    subst hleaf
    exact ⟨bound, h, .refl bound⟩
  | fallback first second ihFirst ihSecond =>
    obtain ⟨⟨b₁, h₁, hle₁⟩, b₂, h₂, hle₂⟩ := Provider.Admits.of_fallback h
    rcases List.mem_append.mp hleaf with hmem | hmem
    · obtain ⟨b, hb, hle⟩ := ihFirst h₁ hmem
      exact ⟨b, hb, hle.trans hle₁⟩
    · obtain ⟨b, hb, hle⟩ := ihSecond h₂ hmem
      exact ⟨b, hb, hle.trans hle₂⟩

end

/-- A request that is admitted for a router is admitted for each of its leaves, with a bound that
is no larger: no leaf gets a request beyond its capabilities or its context limit. -/
theorem router_promises_what_leaves_keep (r : Router) (mode : AllOrError) (optOut : Bool)
    (request : ModelRequest) (bound : Option U64)
    (h : validateContext r.provider.toProvider mode optOut request = .ok bound) :
    ∀ leaf ∈ r.leaves, ∃ b,
      validateContext leaf.toProvider mode optOut request = .ok b ∧ BoundLe b bound ∧
        (optOut = true → b = none ∧ bound = none) ∧
        leaf.Admits mode optOut request b := by
  intro leaf hleaf
  have hrouter := validateContext_eq_ok_iff.mp h
  obtain ⟨b, hb, hle⟩ := Router.leaf_admits hrouter hleaf
  exact ⟨b, validateContext_eq_ok_iff.mpr hb, hle,
    fun hopt => ⟨hb.unbounded hopt, hrouter.unbounded hopt⟩, hb⟩

namespace Sample

def countingProvider (tokens limit : U64) : ModelProvider :=
  { routingAttempts := 1
    capabilities := { supportsToolCalls := true, supportsStreaming := false,
                      supportsImages := false, maxContextTokens := some limit }
    structuredOutputSupport := .json
    conservativeContextTokenBound := fun _ => .ok (some tokens)
    exactContextTokenCount := fun _ => .ok (some tokens)
    generate := fun _ _ => .error (.terminal .unavailable "offline")
    stream := fun _ _ => .error (.terminal .unavailable "offline") }

def nestedRouter : Router :=
  .fallback (.leaf (countingProvider 30 100))
    (.fallback (.leaf (countingProvider 50 70)) (.leaf (countingProvider 40 90)))

def request : ModelRequest := state.nextModelRequest "run:provider:0"

end Sample

theorem router_promises_what_leaves_keep_sample :
    ∃ b, validateContext (Sample.countingProvider 40 90).toProvider .exact false Sample.request =
        .ok b ∧ BoundLe b (some 50) := by
  obtain ⟨b, hb, hle, _⟩ := router_promises_what_leaves_keep Sample.nestedRouter .exact false
    Sample.request (some 50) (by decide) (Sample.countingProvider 40 90)
    (by simp [Sample.nestedRouter, Router.leaves])
  exact ⟨b, hb, hle⟩

end Agentive
