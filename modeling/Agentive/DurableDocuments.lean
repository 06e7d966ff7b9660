import Agentive.DocumentLevels
import Agentive.Workflow

/-! The documents of a durable run: the members of every record that is serialized, what stands
for those that older releases did not write, and the checks on what is read. -/

namespace Agentive

open Document

instance : Medium Value where
  null := .null
  text := .string
  sequence := .array
  members := .object
  isNull
    | .null => true
    | _ => false
  toText
    | .string s => some s
    | _ => none
  toSequence
    | .array items => some items
    | _ => none
  toMembers
    | .object members => some members
    | _ => none
  isNull_iff v := by cases v <;> simp
  toText_text _ := rfl
  toSequence_sequence _ := rfl
  toSequence_null := rfl
  toMembers_members _ := rfl
  toMembers_null := rfl

/-- What `Url::parse` finds in a text. -/
structure ParsedUrl where
  scheme : String
  host : Option String
  username : String
  password : Option String

/-- The URL parser. -/
class UrlText where
  parse : String → Option ParsedUrl

/-- `ImageUrl::parse`. -/
def parseImageUrl [UrlText] (value : String) : Option String :=
  match UrlText.parse value with
  | none => none
  | some parsed =>
    if !(parsed.scheme == "http" || parsed.scheme == "https") || parsed.host.isNone ||
        !parsed.username.isEmpty || parsed.password.isSome then none
    else some value

theorem eq_of_parseImageUrl [UrlText] {value url : String} (h : parseImageUrl value = some url) :
    url = value := by
  unfold parseImageUrl at h
  cases hp : UrlText.parse value with
  | none => simp [hp] at h
  | some parsed =>
    simp only [hp, Option.ite_none_left_eq_some, Option.some.injEq] at h
    exact h.2.symm

def Number.isInteger : Number → Bool
  | .posInt _ | .negInt _ => true
  | .float _ => false

mutual

/-- The value nests at most `depth` deep, its numbers are integers, and no key is there twice. -/
def Value.fits : Value → Nat → Bool
  | .null, _ | .bool _, _ | .string _, _ => true
  | .number n, _ => n.isInteger
  | .array items, depth => 0 < depth && Value.itemsFit items (depth - 1)
  | .object members, depth =>
    0 < depth && decide (members.map (·.1)).Nodup && Value.membersFit members (depth - 1)

def Value.itemsFit : List Value → Nat → Bool
  | [], _ => true
  | item :: rest, depth => item.fits depth && Value.itemsFit rest depth

def Value.membersFit : List (String × Value) → Nat → Bool
  | [], _ => true
  | (_, v) :: rest, depth => v.fits depth && Value.membersFit rest depth

end

theorem Value.itemsFit_iff {items : List Value} {depth : Nat} :
    Value.itemsFit items depth = true ↔ ∀ v ∈ items, v.fits depth = true := by
  induction items with
  | nil => simp [itemsFit]
  | cons v rest ih => simp [itemsFit, ih]

theorem Value.membersFit_iff {members : List (String × Value)} {depth : Nat} :
    Value.membersFit members depth = true ↔ ∀ p ∈ members, p.2.fits depth = true := by
  induction members with
  | nil => simp [membersFit]
  | cons p rest ih =>
    obtain ⟨name, v⟩ := p
    simp [membersFit, ih]

theorem Value.fits_mono {v : Value} {n m : Nat} (h : n ≤ m) (hv : v.fits n = true) :
    v.fits m = true := by
  induction n generalizing v m with
  | zero => cases v <;> simp_all [fits]
  | succ n ih =>
    obtain ⟨m, rfl⟩ : ∃ k, m = k + 1 := ⟨m - 1, by omega⟩
    have hle : n ≤ m := Nat.le_of_succ_le_succ h
    cases v with
    | array items =>
      simp only [fits, itemsFit_iff, Nat.add_sub_cancel, Bool.and_eq_true] at hv ⊢
      exact ⟨by simp, fun v hmem => ih hle (hv.2 v hmem)⟩
    | object members =>
      simp only [fits, membersFit_iff, Nat.add_sub_cancel, Bool.and_eq_true] at hv ⊢
      exact ⟨⟨by simp, hv.1.2⟩, fun p hmem => ih hle (hv.2 p hmem)⟩
    | _ => exact hv

instance : Levels Value where
  Fits n v := v.fits n = true
  fits_null _ := rfl
  fits_text _ _ := rfl
  fits_sequence n vs := by
    show Value.fits (.array vs) (n + 1) = true ↔ _
    simp [Value.fits, Value.itemsFit_iff]
  fits_members n ms := by
    show Value.fits (.object ms) (n + 1) = true ↔ _
    simp [Value.fits, Value.membersFit_iff]

/-- `serde_json` stops at the 128th level of a text that it reads. -/
def Value.isPortable (v : Value) : Bool := v.fits 127

/-- The texts of JSON values, as `serde_json` writes and reads them. A text that nests too deep is
refused, and a double may be read as one of its neighbours; other values come back. -/
class DocumentText (τ : Type) where
  write : Value → τ
  read : τ → Option Value
  read_write : ∀ v, v.isPortable = true → read (write v) = some v

namespace Wire

section

variable {τ α : Type} [DocumentText τ]

/-- The text of a record. -/
def writeText (c : Codec Value α) (a : α) : τ := DocumentText.write (c.encode a)

def readText (c : Codec Value α) (text : τ) : Option α := (DocumentText.read text).bind c.decode

end

/-- A JSON value stands in a record as it is; what its text may lose is a matter of
`DocumentText`. -/
def value : Codec Value Value := .total id some fun _ => rfl

def string : Codec Value String :=
  .total .string Medium.toText fun _ => rfl

def bool : Codec Value Bool :=
  .total .bool (fun v => match v with | .bool b => some b | _ => none) fun _ => rfl

/-- The natural number that a number is. One that is written with a point is none. -/
def ofNumber : Number → Option Nat
  | .posInt n => some n.toNat
  | .negInt _ => none
  | .float _ => none

def toCapped (cap : Nat) : Value → Option (Capped cap)
  | .number n => (ofNumber n).bind fun n => if h : n ≤ cap then some ⟨n, h⟩ else none
  | _ => none

theorem toCapped_number {cap : Nat} (h : cap < 18446744073709551616) (a : Capped cap) :
    toCapped cap (.number (.posInt (UInt64.ofNat a.val))) = some a := by
  have hle := a.le_cap
  have hval : (UInt64.ofNat a.val).toNat = a.val := by
    rw [UInt64.toNat_ofNat', Nat.mod_eq_of_lt (by omega)]
  simp [toCapped, ofNumber, hval, hle]

/-- A number up to a cap. -/
def counter (cap : Nat) (h : cap < 18446744073709551616) : Codec Value (Capped cap) :=
  .total (fun a => .number (.posInt (UInt64.ofNat a.val))) (toCapped cap) (toCapped_number h)

def u8 : Codec Value U8 := counter 255 (by decide)

def u32 : Codec Value U32 := counter 4294967295 (by decide)

def u64 : Codec Value U64 := counter 18446744073709551615 (by decide)

def u16 : Codec Value (Fin 65536) :=
  (counter 65535 (by decide)).via (fun n => ⟨n.val, Nat.le_of_lt_succ n.isLt⟩)
    (fun a => ⟨a.val, Nat.lt_succ_of_le a.le_cap⟩) (fun _ => rfl) fun _ => rfl

theorem solid_string : string.Solid := rfl

theorem solid_u64 : u64.Solid := rfl

/-- A text that may be missing. -/
def optionalText : Codec Value (Option String) := string.nullable solid_string

@[simp] theorem good_value (a : Value) : value.Good a := rfl

@[simp] theorem good_string (a : String) : string.Good a := rfl

@[simp] theorem good_bool (a : Bool) : bool.Good a := rfl

@[simp] theorem good_counter {cap : Nat} {h : cap < 18446744073709551616} (a : Capped cap) :
    (counter cap h).Good a := Codec.good_total

@[simp] theorem good_u8 (a : U8) : u8.Good a := Codec.good_total

@[simp] theorem good_u32 (a : U32) : u32.Good a := Codec.good_total

@[simp] theorem good_u64 (a : U64) : u64.Good a := Codec.good_total

section

variable {n : Nat}

@[simp] theorem fits_value {v : Value} : value.Fits n v ↔ v.fits n = true := Iff.rfl

@[simp] theorem fits_string {a : String} : string.Fits n a := rfl

@[simp] theorem fits_bool {a : Bool} : bool.Fits n a := rfl

@[simp] theorem fits_counter {cap : Nat} {h : cap < 18446744073709551616} {a : Capped cap} :
    (counter cap h).Fits n a := rfl

@[simp] theorem fits_u8 {a : U8} : u8.Fits n a := rfl

@[simp] theorem fits_u32 {a : U32} : u32.Fits n a := rfl

@[simp] theorem fits_u64 {a : U64} : u64.Fits n a := rfl

end

/-- A flag that is off where it is missing. -/
abbrev flag (name : String) : Fields Value Bool := .defaulted name bool false (good_bool false)

/-- A count that is zero where it is missing. -/
abbrev count32 (name : String) : Fields Value U32 := .defaulted name u32 0 (good_u32 0)

@[inherit_doc count32]
abbrev count64 (name : String) : Fields Value U64 := .defaulted name u64 0 (good_u64 0)

@[simp] theorem good_optionalText (a : Option String) : optionalText.Good a := by
  simp [optionalText]

@[simp] theorem good_u16 (a : Fin 65536) : u16.Good a := by simp [u16]

@[simp] theorem fits_u16 {n : Nat} {a : Fin 65536} : u16.Fits n a := rfl

@[simp] theorem fits_optionalText {n : Nat} {a : Option String} : optionalText.Fits n a := by
  simp [optionalText]

end Wire

open Wire

def ToolName.parse (value : String) : Option ToolName :=
  if h : ToolName.isValid value = true then some ⟨value, h⟩ else none

theorem ToolName.text_of_parse (value : String) (name : ToolName)
    (h : ToolName.parse value = some name) : name.text = value := by
  obtain ⟨_, hname⟩ := Option.dite_none_right_eq_some.mp h
  exact congrArg ToolName.text (Option.some.inj hname).symm

theorem ToolName.parse_text (name : ToolName) : ToolName.parse name.text = some name := by
  rw [ToolName.parse, dif_pos name.valid]

def ToolName.document : Codec Value ToolName :=
  string.convert ToolName.text ToolName.parse ToolName.text_of_parse

@[simp] theorem ToolName.good (a : ToolName) : ToolName.document.Good a := by
  simp [ToolName.document, ToolName.parse_text]

@[simp] theorem ToolName.fits {n : Nat} {a : ToolName} : ToolName.document.Fits n a := by
  simp [ToolName.document]

theorem ToolName.solid : ToolName.document.Solid := Codec.solid_convert solid_string _ _ _

/-- Counts of tokens that a provider need not report. -/
def tokenFields : Fields Value ((((Option U64 × Option U64) × Option U64) × Option U64) ×
    Option U64) :=
  Fields.optional "input" u64 solid_u64
    |>.and (.optional "output" u64 solid_u64)
    |>.and (.optional "cached_input" u64 solid_u64)
    |>.and (.optional "reasoning" u64 solid_u64)
    |>.and (.optional "provider_total" u64 solid_u64)

def TokenUsage.document : Codec Value TokenUsage :=
  (Codec.record tokenFields false).via
    (fun u => ((((u.input, u.output), u.cachedInput), u.reasoning), u.providerTotal))
    (fun ((((input, output), cachedInput), reasoning), providerTotal) =>
      { input, output, cachedInput, reasoning, providerTotal })
    (fun _ => rfl) fun _ => rfl

def ModelTokenUsage.document : Codec Value ModelTokenUsage :=
  (Codec.record tokenFields false).via
    (fun u => ((((u.input, u.output), u.cachedInput), u.reasoning), u.providerTotal))
    (fun ((((input, output), cachedInput), reasoning), providerTotal) =>
      { input, output, cachedInput, reasoning, providerTotal })
    (fun _ => rfl) fun _ => rfl

@[simp] theorem TokenUsage.good (a : TokenUsage) : TokenUsage.document.Good a := by
  simp [TokenUsage.document, tokenFields]

@[simp] theorem fits_tokenFields {n : Nat} {a} : tokenFields.Fits n a := by simp [tokenFields]

@[simp] theorem TokenUsage.fits {n : Nat} {a : TokenUsage} :
    TokenUsage.document.Fits (n + 1) a := by
  simp [TokenUsage.document]

@[simp] theorem ModelTokenUsage.good (a : ModelTokenUsage) : ModelTokenUsage.document.Good a := by
  simp [ModelTokenUsage.document, tokenFields]

@[simp] theorem ModelTokenUsage.fits {n : Nat} {a : ModelTokenUsage} :
    ModelTokenUsage.document.Fits (n + 1) a := by
  simp [ModelTokenUsage.document]

def ModelCallUsage.document : Codec Value ModelCallUsage :=
  (Codec.record
    (Fields.required "model" string
      |>.and (.required "usage" TokenUsage.document)) false).via
    (fun c => (c.model, c.usage)) (fun (model, usage) => { model, usage })
    (fun _ => rfl) fun _ => rfl

@[simp] theorem ModelCallUsage.good (a : ModelCallUsage) : ModelCallUsage.document.Good a := by
  simp [ModelCallUsage.document]

@[simp] theorem ModelCallUsage.fits {n : Nat} {a : ModelCallUsage} :
    ModelCallUsage.document.Fits (n + 2) a := by
  simp [ModelCallUsage.document]

def RunUsage.document : Codec Value RunUsage :=
  (Codec.record
    (Fields.required "aggregate" TokenUsage.document
      |>.and (.required "complete" bool)
      |>.and (.required "model_calls" ModelCallUsage.document.list)) false).via
    (fun u => ((u.aggregate, u.complete), u.modelCalls))
    (fun ((aggregate, complete), modelCalls) => { aggregate, complete, modelCalls })
    (fun _ => rfl) fun _ => rfl

@[simp] theorem RunUsage.good (a : RunUsage) : RunUsage.document.Good a := by
  simp [RunUsage.document]

@[simp] theorem RunUsage.fits {n : Nat} {a : RunUsage} : RunUsage.document.Fits (n + 4) a := by
  simp [RunUsage.document]

theorem ModelTokenUsage.solid : ModelTokenUsage.document.Solid :=
  Codec.solid_via (Codec.solid_record _ _) _ _ _ _

theorem RunUsage.solid : RunUsage.document.Solid :=
  Codec.solid_via (Codec.solid_record _ _) _ _ _ _

def MessageRole.name : MessageRole → String
  | .system => "system"
  | .user => "user"
  | .assistant => "assistant"
  | .tool => "tool"

def MessageRole.ofName : String → Option MessageRole
  | "system" => some .system
  | "user" => some .user
  | "assistant" => some .assistant
  | "tool" => some .tool
  | _ => none

def MessageRole.document : Codec Value MessageRole :=
  .names name ofName fun role => by cases role <;> rfl

@[simp] theorem MessageRole.good (a : MessageRole) : MessageRole.document.Good a := by
  simp [MessageRole.document]

@[simp] theorem MessageRole.fits {n : Nat} {a : MessageRole} : MessageRole.document.Fits n a := by
  simp [MessageRole.document]

def ImageMediaType.asStr : ImageMediaType → String
  | .png => "image/png"
  | .jpeg => "image/jpeg"
  | .gif => "image/gif"
  | .webp => "image/webp"

def ImageMediaType.parse : String → Option ImageMediaType
  | "image/png" => some .png
  | "image/jpeg" => some .jpeg
  | "image/gif" => some .gif
  | "image/webp" => some .webp
  | _ => none

theorem ImageMediaType.asStr_of_parse (value : String) (mediaType : ImageMediaType)
    (h : ImageMediaType.parse value = some mediaType) : mediaType.asStr = value := by
  unfold ImageMediaType.parse at h
  split at h <;> cases h <;> rfl

theorem ImageMediaType.parse_asStr (mediaType : ImageMediaType) :
    ImageMediaType.parse mediaType.asStr = some mediaType := by
  cases mediaType <;> rfl

def ImageMediaType.document : Codec Value ImageMediaType :=
  string.convert asStr ImageMediaType.parse asStr_of_parse

@[simp] theorem ImageMediaType.good (a : ImageMediaType) : ImageMediaType.document.Good a := by
  simp [ImageMediaType.document, ImageMediaType.parse_asStr]

@[simp] theorem ImageMediaType.fits {n : Nat} {a : ImageMediaType} :
    ImageMediaType.document.Fits n a := by
  simp [ImageMediaType.document]

/-- `Vec<u8>` is written as a sequence of numbers. -/
def byte : Codec Value UInt8 :=
  u8.via (fun b => ⟨b.toNat, Nat.le_of_lt_succ b.toNat_lt⟩) (fun a => UInt8.ofNat a.val)
    (fun a => by
      apply Capped.ext
      exact UInt8.toNat_ofNat_of_lt' (Nat.lt_succ_of_le a.le_cap))
    fun _ => UInt8.ofNat_toNat

def InlineImageBytes.new (bytes : List UInt8) : Option InlineImageBytes :=
  if h : bytes ≠ [] then some ⟨bytes, h⟩ else none

theorem InlineImageBytes.bytes_of_new (bytes : List UInt8) (image : InlineImageBytes)
    (h : InlineImageBytes.new bytes = some image) : image.bytes = bytes := by
  obtain ⟨_, himage⟩ := Option.dite_none_right_eq_some.mp h
  exact congrArg InlineImageBytes.bytes (Option.some.inj himage).symm

theorem InlineImageBytes.new_bytes (image : InlineImageBytes) :
    InlineImageBytes.new image.bytes = some image := by
  rw [InlineImageBytes.new, dif_pos image.nonempty]

def InlineImageBytes.document : Codec Value InlineImageBytes :=
  byte.list.convert InlineImageBytes.bytes InlineImageBytes.new InlineImageBytes.bytes_of_new

@[simp] theorem InlineImageBytes.good (a : InlineImageBytes) :
    InlineImageBytes.document.Good a := by
  simp [InlineImageBytes.document, InlineImageBytes.new_bytes, byte]

@[simp] theorem InlineImageBytes.fits {n : Nat} {a : InlineImageBytes} :
    InlineImageBytes.document.Fits (n + 1) a := by
  simp [InlineImageBytes.document, byte]

def ToolCall.document : Codec Value ToolCall :=
  (Codec.record
    (Fields.required "id" string
      |>.and (.required "name" ToolName.document)
      |>.and (.required "arguments" value)) false).via
    (fun c => ((c.id, c.name), c.arguments))
    (fun ((id, name), arguments) => { id, name, arguments })
    (fun _ => rfl) fun _ => rfl

@[simp] theorem ToolCall.good (a : ToolCall) : ToolCall.document.Good a := by
  simp [ToolCall.document]

@[simp] theorem ToolCall.fits_iff {n : Nat} {a : ToolCall} :
    ToolCall.document.Fits (n + 1) a ↔ a.arguments.fits n = true := by
  simp [ToolCall.document]

section

variable [UrlText]

def ImageUrl.document : Codec Value String :=
  string.convert id parseImageUrl fun _ _ => eq_of_parseImageUrl

def ImageSource.document : Codec Value ImageSource :=
  (Codec.tagged "kind"
    (Variants.case "url" (.required "url" ImageUrl.document)
      |>.or (.case "inline" (.required "bytes" InlineImageBytes.document)))).via
    (fun (source : ImageSource) =>
      match source with
      | .url value => .inl value
      | .inline bytes => .inr bytes)
    (Sum.elim (.url ·) (.inline ·)) (by rintro (_ | _) <;> rfl) (by rintro (_ | _) <;> rfl)

def MessageContent.document : Codec Value MessageContent :=
  (Codec.tagged "type"
    (Variants.case "text" (.required "text" string)
      |>.or (.case "image"
        (Fields.required "source" ImageSource.document
          |>.and (.required "media_type" ImageMediaType.document))))).via
    (fun (content : MessageContent) =>
      match content with
      | .text value => .inl value
      | .image source mediaType => .inr (source, mediaType))
    (Sum.elim (.text ·) fun (source, mediaType) => .image source mediaType)
    (by rintro (_ | _) <;> rfl) (by rintro (_ | _) <;> rfl)

def Message.document : Codec Value Message :=
  (Codec.record
    (Fields.required "role" MessageRole.document
      |>.and (.defaulted "content" MessageContent.document.list [] (by simp))
      |>.and (.skipped "tool_calls"
        (ToolCall.document.list.nullable (Codec.solid_list _)) none (by simp))
      |>.and (.skipped "tool_call_id" optionalText none (by simp))
      |>.and (.skipped "name" (ToolName.document.nullable ToolName.solid) none (by simp)))
    false).via
    (fun m => ((((m.role, m.content), m.toolCalls), m.toolCallId), m.name))
    (fun ((((role, content), toolCalls), toolCallId), name) =>
      { role, content, toolCalls, toolCallId, name })
    (fun _ => rfl) fun _ => rfl

/-- The image, if there is one, is validated. -/
def MessageContent.Validated : MessageContent → Prop
  | .image (.url url) _ => parseImageUrl url = some url
  | _ => True

def Message.Validated (m : Message) : Prop := ∀ content ∈ m.content, content.Validated

@[simp] theorem MessageContent.fits {n : Nat} {a : MessageContent} :
    MessageContent.document.Fits (n + 3) a := by
  rcases a with _ | ⟨_ | _, _⟩ <;>
    simp [MessageContent.document, ImageSource.document, ImageUrl.document]

/-- The JSON values that a message carries. -/
def Message.values (m : Message) : List Value := (m.toolCalls.getD []).map (·.arguments)

theorem Message.fits {n : Nat} {m : Message} (h : ∀ v ∈ m.values, v.fits n = true) :
    Message.document.Fits (n + 5) m := by
  have hcalls (calls : List ToolCall) (hm : m.toolCalls = some calls) (call : ToolCall)
      (hcall : call ∈ calls) : call.arguments.fits (n + 2) = true := by
    refine Value.fits_mono (Nat.le_add_right n 2) (h _ (List.mem_map_of_mem ?_))
    rwa [hm, Option.getD_some]
  simp only [document, Codec.fits_via, Codec.fits_record, Fields.fits_and, Fields.fits_required,
    Fields.fits_defaulted, Fields.fits_skipped, Codec.fits_list, Codec.fits_nullable,
    MessageContent.fits, MessageRole.fits, ToolName.fits, ToolCall.fits_iff, fits_optionalText,
    implies_true, true_and, and_true]
  exact fun _ calls hm call hcall => hcalls calls hm call hcall

end

def InstructionFragment.document : Codec Value InstructionFragment :=
  (Codec.record
    (Fields.required "key" string
      |>.and (.required "version" u32)
      |>.and (.required "text" string)) false).via
    (fun f => ((f.key, f.version), f.text))
    (fun ((key, version), text) => { key, version, text })
    (fun _ => rfl) fun _ => rfl

@[simp] theorem InstructionFragment.good (a : InstructionFragment) :
    InstructionFragment.document.Good a := by
  simp [InstructionFragment.document]

@[simp] theorem InstructionFragment.fits {n : Nat} {a : InstructionFragment} :
    InstructionFragment.document.Fits (n + 1) a := by
  simp [InstructionFragment.document]

def CompiledInstructions.document : Codec Value CompiledInstructions :=
  (Codec.record
    (Fields.required "core" InstructionFragment.document
      |>.and (.optional "agent" string solid_string)
      |>.and (.optional "run" string solid_string)
      |>.and (.skipped "features" InstructionFragment.document.list [] (by simp))) false).via
    (fun i => (((i.core, i.agent), i.run), i.features))
    (fun (((core, agent), run), features) => { core, agent, run, features })
    (fun _ => rfl) fun _ => rfl

@[simp] theorem CompiledInstructions.good (a : CompiledInstructions) :
    CompiledInstructions.document.Good a := by
  simp [CompiledInstructions.document]

@[simp] theorem CompiledInstructions.fits {n : Nat} {a : CompiledInstructions} :
    CompiledInstructions.document.Fits (n + 3) a := by
  simp [CompiledInstructions.document]

def ProviderToolDescriptor.document : Codec Value ProviderToolDescriptor :=
  (Codec.record
    (Fields.required "name" ToolName.document
      |>.and (.required "description" string)
      |>.and (.required "schema" value)
      |>.and (.required "idempotent" bool)) false).via
    (fun d => (((d.name, d.description), d.schema), d.idempotent))
    (fun (((name, description), schema), idempotent) =>
      { name, description, schema, idempotent })
    (fun _ => rfl) fun _ => rfl

@[simp] theorem ProviderToolDescriptor.good (a : ProviderToolDescriptor) :
    ProviderToolDescriptor.document.Good a := by
  simp [ProviderToolDescriptor.document]

@[simp] theorem ProviderToolDescriptor.fits_iff {n : Nat} {a : ProviderToolDescriptor} :
    ProviderToolDescriptor.document.Fits (n + 1) a ↔ a.schema.fits n = true := by
  simp [ProviderToolDescriptor.document]

def ModelOutputFormat.document : Codec Value ModelOutputFormat :=
  (Codec.tagged "kind"
    (Variants.case "text" .empty
      |>.or (.case "json" .empty)
      |>.or (.case "json_schema" (.required "schema" value)))).via
    (fun (format : ModelOutputFormat) =>
      match format with
      | .text => .inl (.inl ())
      | .json => .inl (.inr ())
      | .jsonSchema schema => .inr schema)
    (Sum.elim (Sum.elim (fun _ => .text) fun _ => .json) (.jsonSchema ·))
    (by rintro ((_ | _) | _) <;> rfl) (by rintro (_ | _ | _) <;> rfl)

@[simp] theorem ModelOutputFormat.good (a : ModelOutputFormat) :
    ModelOutputFormat.document.Good a := by
  cases a <;> simp [ModelOutputFormat.document]

/-- The JSON values that an output contract carries. -/
def ModelOutputFormat.values : ModelOutputFormat → List Value
  | .jsonSchema schema => [schema]
  | _ => []

@[simp] theorem ModelOutputFormat.fits_iff {n : Nat} {a : ModelOutputFormat} :
    ModelOutputFormat.document.Fits (n + 1) a ↔ ∀ v ∈ a.values, v.fits n = true := by
  cases a <;> simp [ModelOutputFormat.document, values]

/-- The output contract of a plan or a request. -/
abbrev ModelOutputFormat.field : Fields Value ModelOutputFormat :=
  .defaulted "output_format" ModelOutputFormat.document .text (ModelOutputFormat.good .text)

def AllOrError.name : AllOrError → String
  | .exact => "Exact"
  | .conservative => "Conservative"

def AllOrError.ofName : String → Option AllOrError
  | "Exact" => some .exact
  | "Conservative" => some .conservative
  | _ => none

def AllOrError.document : Codec Value AllOrError :=
  .names name ofName fun mode => by cases mode <;> rfl

@[simp] theorem AllOrError.good (a : AllOrError) : AllOrError.document.Good a := by
  simp [AllOrError.document]

@[simp] theorem AllOrError.fits {n : Nat} {a : AllOrError} : AllOrError.document.Fits n a := by
  simp [AllOrError.document]

def RunStatus.name : RunStatus → String
  | .pending => "Pending"
  | .running => "Running"
  | .completed => "Completed"
  | .incomplete => "Incomplete"
  | .failed => "Failed"
  | .cancelled => "Cancelled"

def RunStatus.ofName : String → Option RunStatus
  | "Pending" => some .pending
  | "Running" => some .running
  | "Completed" => some .completed
  | "Incomplete" => some .incomplete
  | "Failed" => some .failed
  | "Cancelled" => some .cancelled
  | _ => none

def RunStatus.document : Codec Value RunStatus :=
  .names name ofName fun status => by cases status <;> rfl

@[simp] theorem RunStatus.good (a : RunStatus) : RunStatus.document.Good a := by
  simp [RunStatus.document]

@[simp] theorem RunStatus.fits {n : Nat} {a : RunStatus} : RunStatus.document.Fits n a := by
  simp [RunStatus.document]

def ToolRuntimePolicy.document : Codec Value ToolRuntimePolicy :=
  (Codec.record
    (Fields.required "descriptor" ProviderToolDescriptor.document
      |>.and (.required "idempotent" bool)
      |>.and (.required "max_attempts" u8)
      |>.and (.required "parallel_safe" bool)
      |>.and (flag "delegation")) false).via
    (fun p => ((((p.descriptor, p.idempotent), p.maxAttempts), p.parallelSafe), p.delegation))
    (fun ((((descriptor, idempotent), maxAttempts), parallelSafe), delegation) =>
      { descriptor, idempotent, maxAttempts, parallelSafe, delegation })
    (fun _ => rfl) fun _ => rfl

@[simp] theorem ToolRuntimePolicy.good (a : ToolRuntimePolicy) :
    ToolRuntimePolicy.document.Good a := by
  simp [ToolRuntimePolicy.document]

@[simp] theorem ToolRuntimePolicy.fits_iff {n : Nat} {a : ToolRuntimePolicy} :
    ToolRuntimePolicy.document.Fits (n + 2) a ↔ a.descriptor.schema.fits n = true := by
  simp [ToolRuntimePolicy.document]

theorem ToolRuntimePolicy.solid : ToolRuntimePolicy.document.Solid :=
  Codec.solid_via (Codec.solid_record _ _) _ _ _ _

def AgentRunPlan.document : Codec Value AgentRunPlan :=
  (Codec.record
    (Fields.required "instructions" CompiledInstructions.document
      |>.and (.required "tools" ToolRuntimePolicy.document.list)
      |>.and (.optional "model" string solid_string)
      |>.and (.required "max_output_tokens" u64)
      |>.and ModelOutputFormat.field
      |>.and (.required "provider_max_attempts" u8)
      |>.and (.defaulted "max_parallel_tool_calls" u64 4 (by simp))
      |>.and (.required "context_estimate" AllOrError.document)
      |>.and (.required "provider_enforced_limit_opt_out" bool)
      |>.and (.optional "deadline_ms" u64 solid_u64)
      |>.and (.defaulted "delegation_depth" u8 0 (by simp))
      |>.and (.defaulted "max_delegation_depth" u8 4 (by simp))
      |>.and (.optional "token_limit" u64 solid_u64)) false).via
    (fun p => ((((((((((((p.instructions, p.tools), p.model), p.maxOutputTokens), p.outputFormat),
      p.providerMaxAttempts), p.maxParallelToolCalls), p.contextEstimate),
      p.providerEnforcedLimitOptOut), p.deadlineMs), p.delegationDepth), p.maxDelegationDepth),
      p.tokenLimit))
    (fun ((((((((((((instructions, tools), model), maxOutputTokens), outputFormat),
        providerMaxAttempts), maxParallelToolCalls), contextEstimate),
        providerEnforcedLimitOptOut), deadlineMs), delegationDepth), maxDelegationDepth),
        tokenLimit) =>
      { instructions, tools, model, maxOutputTokens, outputFormat, providerMaxAttempts,
        maxParallelToolCalls, contextEstimate, providerEnforcedLimitOptOut, deadlineMs,
        delegationDepth, maxDelegationDepth, tokenLimit })
    (fun _ => rfl) fun _ => rfl

@[simp] theorem AgentRunPlan.good (a : AgentRunPlan) : AgentRunPlan.document.Good a := by
  simp [AgentRunPlan.document]

def AgentRunPlan.values (p : AgentRunPlan) : List Value :=
  p.tools.map (·.descriptor.schema) ++ p.outputFormat.values

theorem AgentRunPlan.fits {n : Nat} {p : AgentRunPlan} (h : ∀ v ∈ p.values, v.fits n = true) :
    AgentRunPlan.document.Fits (n + 4) p := by
  obtain ⟨htools, hformat⟩ := List.forall_mem_append.mp h
  rw [List.forall_mem_map] at htools
  have hformat : ∀ v ∈ p.outputFormat.values, v.fits (n + 2) = true := fun v hv =>
    Value.fits_mono (Nat.le_add_right n 2) (hformat v hv)
  simpa [document] using ⟨htools, hformat⟩

def ModelToolCall.document : Codec Value ModelToolCall :=
  (Codec.record
    (Fields.required "call_id" string
      |>.and (.required "name" ToolName.document)
      |>.and (.required "arguments" value)
      |>.and (.optional "provider_call_id" string solid_string)) false).via
    (fun c => (((c.callId, c.name), c.arguments), c.providerCallId))
    (fun (((callId, name), arguments), providerCallId) =>
      { callId, name, arguments, providerCallId })
    (fun _ => rfl) fun _ => rfl

@[simp] theorem ModelToolCall.good (a : ModelToolCall) : ModelToolCall.document.Good a := by
  simp [ModelToolCall.document]

@[simp] theorem ModelToolCall.fits_iff {n : Nat} {a : ModelToolCall} :
    ModelToolCall.document.Fits (n + 1) a ↔ a.arguments.fits n = true := by
  simp [ModelToolCall.document]

def AgentRunBudget.document : Codec Value AgentRunBudget :=
  (Codec.record (.required "model_call_limit" u32) false).via (·.modelCallLimit)
    (fun modelCallLimit => { modelCallLimit }) (fun _ => rfl) fun _ => rfl

@[simp] theorem AgentRunBudget.good (a : AgentRunBudget) : AgentRunBudget.document.Good a := by
  simp [AgentRunBudget.document]

@[simp] theorem AgentRunBudget.fits {n : Nat} {a : AgentRunBudget} :
    AgentRunBudget.document.Fits (n + 1) a := by
  simp [AgentRunBudget.document]

def AgentRunState.document [UrlText] : Codec Value AgentRunState :=
  (Codec.record
    (Fields.required "run_id" string
      |>.and (.required "plan" AgentRunPlan.document)
      |>.and (.required "history" Message.document.list)
      |>.and (.required "usage" RunUsage.document)
      |>.and (.required "budget" AgentRunBudget.document)
      |>.and (.required "model_calls" u32)
      |>.and (count32 "provider_calls_started")
      |>.and (.required "elapsed_ms" u64)
      |>.and (count32 "reserved_child_model_calls")
      |>.and (count64 "reserved_tokens")
      |>.and (.required "pending_tools" ModelToolCall.document.list)
      |>.and (.required "status" RunStatus.document)
      |>.and (.optional "text" string solid_string)
      |>.and (.optional "error" string solid_string)) false).via
    (fun s => (((((((((((((s.runId, s.plan), s.history), s.usage), s.budget), s.modelCalls),
      s.providerCallsStarted), s.elapsedMs), s.reservedChildModelCalls), s.reservedTokens),
      s.pendingTools), s.status), s.text), s.error))
    (fun (((((((((((((runId, plan), history), usage), budget), modelCalls),
        providerCallsStarted), elapsedMs), reservedChildModelCalls), reservedTokens),
        pendingTools), status), text), error) =>
      { runId, plan, history, usage, budget, modelCalls, providerCallsStarted, elapsedMs,
        reservedChildModelCalls, reservedTokens, pendingTools, status, text, error })
    (fun _ => rfl) fun _ => rfl

/-- Every image of the conversation is validated. -/
def AgentRunState.Validated [UrlText] (s : AgentRunState) : Prop := ∀ m ∈ s.history, m.Validated

/-- The JSON values that a state carries: schemas, and arguments of calls. -/
def AgentRunState.values (s : AgentRunState) : List Value :=
  s.plan.values ++ s.history.flatMap Message.values ++ s.pendingTools.map (·.arguments)

theorem AgentRunState.fits [UrlText] {n : Nat} {s : AgentRunState}
    (h : ∀ v ∈ s.values, v.fits n = true) : AgentRunState.document.Fits (n + 7) s := by
  simp only [values, List.forall_mem_append, List.forall_mem_map, List.forall_mem_flatMap] at h
  obtain ⟨⟨hplan, hhistory⟩, hpending⟩ := h
  have hplan : AgentRunPlan.document.Fits (n + 6) s.plan := AgentRunPlan.fits fun v hv =>
    Value.fits_mono (Nat.le_add_right n 2) (hplan v hv)
  have hhistory : ∀ m ∈ s.history, Message.document.Fits (n + 5) m := fun m hm =>
    Message.fits (hhistory m hm)
  have hpending : ∀ call ∈ s.pendingTools, call.arguments.fits (n + 4) = true := fun call hcall =>
    Value.fits_mono (Nat.le_add_right n 4) (hpending call hcall)
  simpa [document, hplan] using ⟨hhistory, hpending⟩

end Agentive
