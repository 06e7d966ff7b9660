import Agentive.CodexTurn
import Mathlib.Data.List.Nodup
import Mathlib.Data.List.Perm.Subperm
import Mathlib.Logic.Equiv.Defs

/-! The tools of a Codex turn. The declarations of the request and the registered tools are
compared by name before anything is sent. -/

namespace Agentive

namespace Codex

inductive PreflightError
  | invalidToolConfiguration
  | unsupported (capability : String)
deriving DecidableEq

/-- A registered handle and the metadata that it answers. There are none where asking panics. -/
structure CodexTool where
  tool : ToolHandle
  metadata : Option ToolDefinition

def FrozenTool.registered (frozen : FrozenTool) : CodexTool :=
  { tool := frozen.tool, metadata := some frozen.definition }

def FrozenTool.name (frozen : FrozenTool) : ToolName := frozen.definition.name

/-- The declaration says what the tool says of itself. -/
def describesSame (descriptor : ProviderToolDescriptor) (definition : ToolDefinition) : Prop :=
  descriptor.description = definition.description ∧
    descriptor.schema.same definition.schema = true ∧
    descriptor.idempotent = definition.idempotent

instance (descriptor : ProviderToolDescriptor) (definition : ToolDefinition) :
    Decidable (describesSame descriptor definition) :=
  inferInstanceAs (Decidable (_ ∧ _ ∧ _))

section

variable [SchemaCompiler]

/-- The first loop of `freeze_tools`, with the map that it fills. -/
def freezeDeclared (fuel : Nat) :
    List ProviderToolDescriptor → List ProviderToolDescriptor →
      Option (Except PreflightError (List ProviderToolDescriptor))
  | [], declared => some (.ok declared)
  | descriptor :: rest, declared =>
    match validateToolDefinition fuel descriptor.description descriptor.schema with
    | none => none
    | some (.error _) => some (.error .invalidToolConfiguration)
    | some (.ok ()) =>
      if descriptor.name ∈ declared.map (·.name) then some (.error .invalidToolConfiguration)
      else freezeDeclared fuel rest (declared ++ [descriptor])

/-- The second loop of `freeze_tools`, with the list and the set that it fills. -/
def freezeRegistered (fuel : Nat) (declared : List ProviderToolDescriptor) :
    List CodexTool → List FrozenTool → List ToolName →
      Option (Except PreflightError (List FrozenTool × List ToolName))
  | [], frozen, registered => some (.ok (frozen, registered))
  | tool :: rest, frozen, registered =>
    match tool.metadata with
    | none => some (.error .invalidToolConfiguration)
    | some definition =>
      match validateToolDefinition fuel definition.description definition.schema with
      | none => none
      | some (.error _) => some (.error .invalidToolConfiguration)
      | some (.ok ()) =>
        if definition.name ∈ registered then some (.error .invalidToolConfiguration)
        else
          match declared.find? fun descriptor => descriptor.name = definition.name with
          | none =>
            freezeRegistered fuel declared rest (frozen ++ [⟨tool.tool, definition⟩])
              (registered ++ [definition.name])
          | some descriptor =>
            if ¬ describesSame descriptor definition then some (.error .invalidToolConfiguration)
            else
              freezeRegistered fuel declared rest (frozen ++ [⟨tool.tool, definition⟩])
                (registered ++ [definition.name])

/-- `freeze_tools`; none when the steps of a validation run out. -/
def freezeTools (fuel : Nat) (request : ModelRequest) (tools : List CodexTool) :
    Option (Except PreflightError (List FrozenTool)) :=
  match freezeDeclared fuel request.tools [] with
  | none => none
  | some (.error e) => some (.error e)
  | some (.ok declared) =>
    match freezeRegistered fuel declared tools [] [] with
    | none => none
    | some (.error e) => some (.error e)
    | some (.ok (frozen, registered)) =>
      if declared.length ≠ registered.length ∨ ∃ d ∈ declared, d.name ∉ registered then
        some (.error .invalidToolConfiguration)
      else some (.ok frozen)

def ValidDeclaration (fuel : Nat) (description : String) (schema : Value) : Prop :=
  validateToolDefinition fuel description schema = some (.ok ())

theorem ValidDeclaration.mono {fuel fuel' : Nat} {description : String} {schema : Value}
    (hle : fuel ≤ fuel') (h : ValidDeclaration fuel description schema) :
    ValidDeclaration fuel' description schema :=
  validateToolDefinition_mono hle h

theorem freezeDeclared_eq_ok_iff {fuel : Nat} {descriptors declared result}
    (hdeclared : (declared.map ProviderToolDescriptor.name).Nodup) :
    freezeDeclared fuel descriptors declared = some (.ok result) ↔
      (∀ d ∈ descriptors, ValidDeclaration fuel d.description d.schema) ∧
        ((declared ++ descriptors).map ProviderToolDescriptor.name).Nodup ∧
          result = declared ++ descriptors := by
  induction descriptors generalizing declared with
  | nil => simp [freezeDeclared, hdeclared, eq_comm]
  | cons d rest ih =>
    rw [freezeDeclared]
    cases hv : validateToolDefinition fuel d.description d.schema with
    | none => simp [ValidDeclaration, hv]
    | some outcome =>
      cases outcome with
      | error e => simp [ValidDeclaration, hv]
      | ok _ =>
        by_cases hmem : d.name ∈ declared.map ProviderToolDescriptor.name
        · simp only [if_pos hmem, Option.some.injEq, reduceCtorEq, false_iff]
          rintro ⟨-, hnodup, -⟩
          rw [List.map_append, List.map_cons] at hnodup
          exact (List.nodup_append.mp hnodup).2.2 _ hmem _ List.mem_cons_self rfl
        · have hnext : ((declared ++ [d]).map ProviderToolDescriptor.name).Nodup := by
            rw [List.map_append, List.map_singleton, ← List.concat_eq_append]
            exact List.Nodup.concat hmem hdeclared
          simp only [if_neg hmem, ih hnext, List.append_assoc, List.singleton_append,
            List.forall_mem_cons]
          simp [ValidDeclaration, hv]

/-- The declaration of that name, if there is one, says what the tool says of itself. -/
def Undisputed (declared : List ProviderToolDescriptor) (frozen : FrozenTool) : Prop :=
  ∀ d, declared.find? (fun d => d.name = frozen.name) = some d → describesSame d frozen.definition

theorem freezeRegistered_cons_of_undisputed {fuel : Nat} {declared : List ProviderToolDescriptor}
    {rest : List CodexTool} {frozen : List FrozenTool} {registered : List ToolName} {t : FrozenTool}
    (hv : ValidDeclaration fuel t.definition.description t.definition.schema)
    (hmem : t.name ∉ registered) (h : Undisputed declared t) :
    freezeRegistered fuel declared (t.registered :: rest) frozen registered =
      freezeRegistered fuel declared rest (frozen ++ [t]) (registered ++ [t.name]) := by
  rw [ValidDeclaration] at hv
  rw [freezeRegistered]
  simp only [FrozenTool.registered, hv]
  rw [if_neg (show t.definition.name ∉ registered from hmem)]
  cases hd : declared.find? fun d => d.name = t.definition.name with
  | none => rfl
  | some d =>
    simp only
    rw [if_neg (not_not.mpr (h d hd))]
    rfl

theorem freezeRegistered_cons_eq_ok {fuel : Nat} {declared : List ProviderToolDescriptor}
    {tool : CodexTool} {rest : List CodexTool} {frozen : List FrozenTool}
    {registered : List ToolName} {result : List FrozenTool × List ToolName}
    (h : freezeRegistered fuel declared (tool :: rest) frozen registered = some (.ok result)) :
    ∃ t : FrozenTool, tool = t.registered ∧
      ValidDeclaration fuel t.definition.description t.definition.schema ∧
      t.name ∉ registered ∧ Undisputed declared t := by
  rw [freezeRegistered] at h
  cases hm : tool.metadata with
  | none => simp [hm] at h
  | some definition =>
    simp only [hm] at h
    have htool : tool = FrozenTool.registered ⟨tool.tool, definition⟩ := by
      rw [FrozenTool.registered, ← hm]
    refine ⟨_, htool, ?_⟩
    cases hv : validateToolDefinition fuel definition.description definition.schema with
    | none => simp [hv] at h
    | some outcome =>
      cases outcome with
      | error e => simp [hv] at h
      | ok _ =>
        simp only [hv] at h
        by_cases hmem : definition.name ∈ registered
        · simp [hmem] at h
        rw [if_neg hmem] at h
        refine ⟨hv, hmem, fun d hd => ?_⟩
        have hfind : declared.find? (fun d => d.name = definition.name) = some d := hd
        simp only [hfind] at h
        by_cases hsame : describesSame d definition
        · exact hsame
        · simp [hsame] at h

theorem freezeRegistered_eq_ok_iff {fuel : Nat} {declared : List ProviderToolDescriptor}
    {tools : List CodexTool} {frozen : List FrozenTool} {registered : List ToolName}
    {f : List FrozenTool} {r : List ToolName} (hregistered : registered.Nodup) :
    freezeRegistered fuel declared tools frozen registered = some (.ok (f, r)) ↔
      ∃ new : List FrozenTool, tools = new.map FrozenTool.registered ∧ f = frozen ++ new ∧
        r = registered ++ new.map FrozenTool.name ∧
        (∀ t ∈ new, ValidDeclaration fuel t.definition.description t.definition.schema ∧
          Undisputed declared t) ∧
        (registered ++ new.map FrozenTool.name).Nodup := by
  induction tools generalizing frozen registered with
  | nil =>
    rw [freezeRegistered]
    constructor
    · intro h
      cases h
      exact ⟨[], rfl, by simp, by simp, by simp, by simpa using hregistered⟩
    · rintro ⟨new, hnew, rfl, rfl, -, -⟩
      obtain rfl := List.map_eq_nil_iff.mp hnew.symm
      simp
  | cons tool rest ih =>
    constructor
    · intro h
      obtain ⟨t, rfl, hv, hmem, hundisputed⟩ := freezeRegistered_cons_eq_ok h
      rw [freezeRegistered_cons_of_undisputed hv hmem hundisputed] at h
      have hnext : (registered ++ [t.name]).Nodup := by
        rw [← List.concat_eq_append]
        exact List.Nodup.concat hmem hregistered
      obtain ⟨new, rfl, rfl, rfl, hnew, hnodup⟩ := (ih hnext).mp h
      exact ⟨t :: new, rfl, by simp, by simp, List.forall_mem_cons.mpr ⟨⟨hv, hundisputed⟩, hnew⟩,
        by simpa using hnodup⟩
    · rintro ⟨new, hnew, rfl, rfl, hall, hnodup⟩
      cases new with
      | nil => cases hnew
      | cons t new =>
        obtain ⟨rfl, rfl⟩ := List.cons.inj hnew
        obtain ⟨⟨hv, hundisputed⟩, hrest⟩ := List.forall_mem_cons.mp hall
        have hmem : t.name ∉ registered := by
          intro hmem
          exact (List.nodup_append.mp hnodup).2.2 _ hmem _ List.mem_cons_self rfl
        rw [freezeRegistered_cons_of_undisputed hv hmem hundisputed]
        have hnext : (registered ++ [t.name]).Nodup := by
          rw [← List.concat_eq_append]
          exact List.Nodup.concat hmem hregistered
        exact (ih hnext).mpr ⟨new, rfl, by simp, by simp, hrest, by simpa using hnodup⟩

end

/-- The map by name between the declarations and the frozen tools. -/
def Corresponds (descriptors : List ProviderToolDescriptor) (frozen : List FrozenTool) : Prop :=
  ∃ e : {d // d ∈ descriptors} ≃ {t // t ∈ frozen},
    ∀ d, d.1.name = (e d).1.name ∧ describesSame d.1 (e d).1.definition

theorem eq_of_name {α : Type} {name : α → ToolName} {l : List α} (h : (l.map name).Nodup)
    {a b : α} (ha : a ∈ l) (hb : b ∈ l) (hname : name a = name b) : a = b :=
  List.inj_on_of_nodup_map h ha hb hname

theorem find_name {descriptors : List ProviderToolDescriptor} {d : ProviderToolDescriptor}
    (h : (descriptors.map ProviderToolDescriptor.name).Nodup) (hmem : d ∈ descriptors) :
    descriptors.find? (fun d' => d'.name = d.name) = some d := by
  cases hfind : descriptors.find? fun d' => d'.name = d.name with
  | none =>
    have hne := List.find?_eq_none.mp hfind d hmem
    simp at hne
  | some d' =>
    have hname : d'.name = d.name := by simpa using List.find?_some hfind
    rw [eq_of_name h (List.mem_of_find?_eq_some hfind) hmem hname]

theorem corresponds_of_find {descriptors : List ProviderToolDescriptor} {frozen : List FrozenTool}
    (hd : (descriptors.map ProviderToolDescriptor.name).Nodup)
    (hf : (frozen.map FrozenTool.name).Nodup)
    (hlength : descriptors.length = frozen.length)
    (hsub : ∀ d ∈ descriptors, d.name ∈ frozen.map FrozenTool.name)
    (hundisputed : ∀ t ∈ frozen, Undisputed descriptors t) :
    Corresponds descriptors frozen := by
  have hsubset : descriptors.map ProviderToolDescriptor.name ⊆ frozen.map FrozenTool.name := by
    intro name hname
    obtain ⟨d, hmem, rfl⟩ := List.mem_map.mp hname
    exact hsub d hmem
  -- As many names on both sides, and all of one side on the other: the names are the same.
  have hperm : (descriptors.map ProviderToolDescriptor.name).Perm (frozen.map FrozenTool.name) :=
    (hd.subperm hsubset).perm_of_length_le (by simp [hlength])
  have hchoose (d : {d // d ∈ descriptors}) : ∃ t, t ∈ frozen ∧ t.name = d.1.name :=
    List.mem_map.mp (hsub d.1 d.2)
  choose g hg hname using hchoose
  have hbijective : Function.Bijective fun d => (⟨g d, hg d⟩ : {t // t ∈ frozen}) := by
    constructor
    · intro d d' heq
      have hgeq : g d = g d' := congrArg Subtype.val heq
      exact Subtype.ext (eq_of_name hd d.2 d'.2 (by rw [← hname, ← hname, hgeq]))
    · intro t
      have hmem : t.1.name ∈ descriptors.map ProviderToolDescriptor.name :=
        hperm.symm.subset (List.mem_map_of_mem t.2)
      obtain ⟨d, hdmem, hdname⟩ := List.mem_map.mp hmem
      refine ⟨⟨d, hdmem⟩, Subtype.ext (eq_of_name hf (hg _) t.2 ?_)⟩
      exact (hname _).trans hdname
  refine ⟨Equiv.ofBijective _ hbijective, fun d => ⟨(hname d).symm, ?_⟩⟩
  refine hundisputed _ (hg d) d.1 ?_
  rw [hname d]
  exact find_name hd d.2

theorem Corresponds.map_perm {descriptors : List ProviderToolDescriptor} {frozen : List FrozenTool}
    (h : Corresponds descriptors frozen)
    (hd : (descriptors.map ProviderToolDescriptor.name).Nodup)
    (hf : (frozen.map FrozenTool.name).Nodup) :
    (descriptors.map ProviderToolDescriptor.name).Perm (frozen.map FrozenTool.name) := by
  obtain ⟨e, he⟩ := h
  refine (List.perm_ext_iff_of_nodup hd hf).mpr fun name => ⟨fun hname => ?_, fun hname => ?_⟩
  · obtain ⟨d, hmem, rfl⟩ := List.mem_map.mp hname
    rw [(he ⟨d, hmem⟩).1]
    exact List.mem_map_of_mem (e ⟨d, hmem⟩).2
  · obtain ⟨t, hmem, rfl⟩ := List.mem_map.mp hname
    have heq := (he (e.symm ⟨t, hmem⟩)).1
    rw [e.apply_symm_apply] at heq
    rw [← heq]
    exact List.mem_map_of_mem (e.symm ⟨t, hmem⟩).2

theorem Corresponds.undisputed {descriptors : List ProviderToolDescriptor}
    {frozen : List FrozenTool} (h : Corresponds descriptors frozen)
    (hd : (descriptors.map ProviderToolDescriptor.name).Nodup) {t : FrozenTool} (ht : t ∈ frozen) :
    Undisputed descriptors t := by
  obtain ⟨e, he⟩ := h
  intro d hfind
  have hname : d.name = t.name := by simpa using List.find?_some hfind
  obtain ⟨heq, hsame⟩ := he (e.symm ⟨t, ht⟩)
  rw [e.apply_symm_apply] at heq hsame
  rw [eq_of_name hd (List.mem_of_find?_eq_some hfind) (e.symm ⟨t, ht⟩).2 (hname.trans heq.symm)]
  exact hsame

/-- The declarations of the request and the frozen tools match exactly. -/
structure MatchesExactly [SchemaCompiler] (descriptors : List ProviderToolDescriptor)
    (frozen : List FrozenTool) : Prop where
  declarations : ∀ d ∈ descriptors, ∃ fuel, ValidDeclaration fuel d.description d.schema
  definitions : ∀ t ∈ frozen,
    ∃ fuel, ValidDeclaration fuel t.definition.description t.definition.schema
  declaredNames : (descriptors.map ProviderToolDescriptor.name).Nodup
  registeredNames : (frozen.map FrozenTool.name).Nodup
  corresponds : Corresponds descriptors frozen

theorem exists_common_fuel {α : Type} {P : Nat → α → Prop}
    (hmono : ∀ n m a, n ≤ m → P n a → P m a) {l : List α} (h : ∀ a ∈ l, ∃ n, P n a) :
    ∃ n, ∀ a ∈ l, P n a := by
  induction l with
  | nil => exact ⟨0, nofun⟩
  | cons a rest ih =>
    obtain ⟨⟨n, ha⟩, hrest⟩ := List.forall_mem_cons.mp h
    obtain ⟨m, hm⟩ := ih hrest
    refine ⟨max n m, List.forall_mem_cons.mpr ⟨hmono _ _ _ (Nat.le_max_left n m) ha, ?_⟩⟩
    exact fun b hb => hmono _ _ _ (Nat.le_max_right n m) (hm b hb)

section

variable [SchemaCompiler] {request : ModelRequest} {tools : List CodexTool}
  {frozen : List FrozenTool}

theorem freezeTools_eq_ok_iff_of_fuel {fuel : Nat} :
    freezeTools fuel request tools = some (.ok frozen) ↔
      tools = frozen.map FrozenTool.registered ∧
        (∀ d ∈ request.tools, ValidDeclaration fuel d.description d.schema) ∧
        (∀ t ∈ frozen, ValidDeclaration fuel t.definition.description t.definition.schema) ∧
        (request.tools.map ProviderToolDescriptor.name).Nodup ∧
        (frozen.map FrozenTool.name).Nodup ∧ Corresponds request.tools frozen := by
  have hnil : (([] : List ProviderToolDescriptor).map ProviderToolDescriptor.name).Nodup :=
    List.nodup_nil
  rw [freezeTools]
  constructor
  · intro h
    cases hdeclared : freezeDeclared fuel request.tools [] with
    | none => simp [hdeclared] at h
    | some outcome =>
      cases outcome with
      | error e => simp [hdeclared] at h
      | ok declared =>
        obtain ⟨hvalid, hnames, rfl⟩ := (freezeDeclared_eq_ok_iff hnil).mp hdeclared
        simp only [hdeclared, List.nil_append] at h hnames
        cases hregistered : freezeRegistered fuel request.tools tools [] [] with
        | none => simp [hregistered] at h
        | some outcome =>
          cases outcome with
          | error e => simp [hregistered] at h
          | ok result =>
            obtain ⟨f, r⟩ := result
            obtain ⟨new, htools, rfl, rfl, hnew, hnewNames⟩ :=
              (freezeRegistered_eq_ok_iff List.nodup_nil).mp hregistered
            simp only [hregistered, List.nil_append] at h hnewNames
            by_cases hcheck : request.tools.length ≠ (f.map FrozenTool.name).length ∨
                ∃ d ∈ request.tools, d.name ∉ f.map FrozenTool.name
            · rw [if_pos hcheck] at h
              cases h
            rw [if_neg hcheck, Option.some.injEq, Except.ok.injEq] at h
            subst h
            obtain ⟨hlength, hsub⟩ := not_or.mp hcheck
            push Not at hlength hsub
            refine ⟨htools, hvalid, fun t ht => (hnew t ht).1, hnames, hnewNames, ?_⟩
            exact corresponds_of_find hnames hnewNames (by simpa using hlength) hsub
              fun t ht => (hnew t ht).2
  · rintro ⟨rfl, hvalid, hdefinitions, hnames, hfrozenNames, hcorresponds⟩
    have hdeclared : freezeDeclared fuel request.tools [] = some (.ok request.tools) :=
      (freezeDeclared_eq_ok_iff hnil).mpr ⟨hvalid, hnames, rfl⟩
    have hregistered :
        freezeRegistered fuel request.tools (frozen.map FrozenTool.registered) [] [] =
          some (.ok (frozen, frozen.map FrozenTool.name)) :=
      (freezeRegistered_eq_ok_iff List.nodup_nil).mpr
        ⟨frozen, rfl, rfl, rfl,
          fun t ht => ⟨hdefinitions t ht, hcorresponds.undisputed hnames ht⟩, hfrozenNames⟩
    have hperm := hcorresponds.map_perm hnames hfrozenNames
    have hcheck : ¬ (request.tools.length ≠ (frozen.map FrozenTool.name).length ∨
        ∃ d ∈ request.tools, d.name ∉ frozen.map FrozenTool.name) := by
      refine not_or.mpr ⟨not_not.mpr (by simpa using hperm.length_eq), ?_⟩
      rintro ⟨d, hd, hmissing⟩
      exact hmissing (hperm.subset (List.mem_map_of_mem hd))
    simp only [hdeclared, hregistered]
    rw [if_neg hcheck]

/-- What is frozen for a turn is what the request declares, and what is registered, in order: a
tool is found for the turn exactly if it is declared. -/
theorem freezeTools_eq_ok_iff (request : ModelRequest) (tools : List CodexTool)
    (frozen : List FrozenTool) :
    ((∃ fuel, freezeTools fuel request tools = some (.ok frozen)) ↔
      tools = frozen.map FrozenTool.registered ∧ MatchesExactly request.tools frozen) ∧
    ∀ fuel, freezeTools fuel request tools = some (.ok frozen) →
      ∀ (c : Collector) (r : ToolRequest), c.tools = frozen →
        ((c.toolFor r).isSome = true ↔ ∃ d ∈ request.tools, d.name.text = r.tool) := by
  refine ⟨⟨fun ⟨fuel, h⟩ => ?_, fun ⟨htools, hmatches⟩ => ?_⟩, fun fuel h c r hc => ?_⟩
  · obtain ⟨htools, hvalid, hdefinitions, hnames, hfrozenNames, hcorresponds⟩ :=
      freezeTools_eq_ok_iff_of_fuel.mp h
    exact ⟨htools, fun d hd => ⟨fuel, hvalid d hd⟩, fun t ht => ⟨fuel, hdefinitions t ht⟩, hnames,
      hfrozenNames, hcorresponds⟩
  · obtain ⟨n, hn⟩ := exists_common_fuel
      (P := fun n (d : ProviderToolDescriptor) => ValidDeclaration n d.description d.schema)
      (fun _ _ _ hle => ValidDeclaration.mono hle) hmatches.declarations
    obtain ⟨m, hm⟩ := exists_common_fuel
      (P := fun n (t : FrozenTool) =>
        ValidDeclaration n t.definition.description t.definition.schema)
      (fun _ _ _ hle => ValidDeclaration.mono hle) hmatches.definitions
    refine ⟨max n m, freezeTools_eq_ok_iff_of_fuel.mpr ⟨htools, fun d hd => ?_, fun t ht => ?_,
      hmatches.declaredNames, hmatches.registeredNames, hmatches.corresponds⟩⟩
    · exact ValidDeclaration.mono (Nat.le_max_left n m) (hn d hd)
    · exact ValidDeclaration.mono (Nat.le_max_right n m) (hm t ht)
  · obtain ⟨-, -, -, hnames, hfrozenNames, hcorresponds⟩ := freezeTools_eq_ok_iff_of_fuel.mp h
    have hperm := hcorresponds.map_perm hnames hfrozenNames
    rw [Collector.toolFor, List.find?_isSome, hc]
    constructor
    · rintro ⟨t, ht, hname⟩
      obtain ⟨d, hd, hdname⟩ :=
        List.mem_map.mp (hperm.symm.subset (List.mem_map_of_mem (f := FrozenTool.name) ht))
      refine ⟨d, hd, ?_⟩
      rw [hdname]
      exact of_decide_eq_true hname
    · rintro ⟨d, hd, hname⟩
      obtain ⟨t, ht, htname⟩ := List.mem_map.mp (hperm.subset (List.mem_map_of_mem hd))
      refine ⟨t, ht, ?_⟩
      rw [← hname, ← htname]
      simp [FrozenTool.name]

end

end Codex

end Agentive
