import Agentive.Capped
import Mathlib.Algebra.GroupWithZero.Nat

/-! JSON values, identifiers and the canonical messages of a conversation. -/

namespace Agentive

abbrev U8 := Capped 255
abbrev U32 := Capped 4294967295
abbrev U64 := Capped 18446744073709551615

instance instNeZeroU16 : NeZero 65536 := ⟨by decide⟩

/-- `serde_json` keeps a number as one of three machine representations. -/
inductive Number
  | posInt (n : UInt64)
  | negInt (n : Int64)
  | float (bits : UInt64)
deriving DecidableEq

/-- The two zeros of an `f64` are one number, though their bits differ; no NaN is kept. -/
def Number.same : Number → Number → Bool
  | .posInt a, .posInt b => a = b
  | .negInt a, .negInt b => a = b
  | .float a, .float b => a = b || a.toNat % 2 ^ 63 = 0 && b.toNat % 2 ^ 63 = 0
  | _, _ => false

inductive Value
  | null
  | bool (b : Bool)
  | number (n : Number)
  | string (s : String)
  | array (items : List Value)
  | object (members : List (String × Value))

namespace Value

mutual

def decEq : (a b : Value) → Decidable (a = b)
  | .null, .null => isTrue rfl
  | .bool a, .bool b => decidable_of_iff (a = b) (by simp)
  | .number a, .number b => decidable_of_iff (a = b) (by simp)
  | .string a, .string b => decidable_of_iff (a = b) (by simp)
  | .array a, .array b => @decidable_of_iff _ (a = b) (by simp) (decEqItems a b)
  | .object a, .object b => @decidable_of_iff _ (a = b) (by simp) (decEqMembers a b)
  | .null, .bool _ | .null, .number _ | .null, .string _ | .null, .array _ | .null, .object _
  | .bool _, .null | .bool _, .number _ | .bool _, .string _ | .bool _, .array _
  | .bool _, .object _ | .number _, .null | .number _, .bool _ | .number _, .string _
  | .number _, .array _ | .number _, .object _ | .string _, .null | .string _, .bool _
  | .string _, .number _ | .string _, .array _ | .string _, .object _ | .array _, .null
  | .array _, .bool _ | .array _, .number _ | .array _, .string _ | .array _, .object _
  | .object _, .null | .object _, .bool _ | .object _, .number _ | .object _, .string _
  | .object _, .array _ => isFalse (by simp)

def decEqItems : (a b : List Value) → Decidable (a = b)
  | [], [] => isTrue rfl
  | [], _ :: _ => isFalse (by simp)
  | _ :: _, [] => isFalse (by simp)
  | a :: as, b :: bs =>
    match decEq a b, decEqItems as bs with
    | isTrue h, isTrue h' => isTrue (by rw [h, h'])
    | isFalse h, _ => isFalse (by simp [h])
    | _, isFalse h => isFalse (by simp [h])

def decEqMembers : (a b : List (String × Value)) → Decidable (a = b)
  | [], [] => isTrue rfl
  | [], _ :: _ => isFalse (by simp)
  | _ :: _, [] => isFalse (by simp)
  | (k, a) :: as, (l, b) :: bs =>
    match decEq a b, decEqMembers as bs, (inferInstance : Decidable (k = l)) with
    | isTrue h, isTrue h', isTrue h'' => isTrue (by rw [h, h', h''])
    | isFalse h, _, _ => isFalse (by simp [h])
    | _, isFalse h, _ => isFalse (by simp [h])
    | _, _, isFalse h => isFalse (by simp [h])

end

instance : DecidableEq Value := decEq

mutual

/-- `Value::eq`. -/
def same : Value → Value → Bool
  | .null, .null => true
  | .bool a, .bool b => a = b
  | .number a, .number b => a.same b
  | .string a, .string b => a = b
  | .array a, .array b => sameItems a b
  | .object a, .object b => sameMembers a b
  | _, _ => false

def sameItems : List Value → List Value → Bool
  | [], [] => true
  | a :: as, b :: bs => a.same b && sameItems as bs
  | _, _ => false

def sameMembers : List (String × Value) → List (String × Value) → Bool
  | [], [] => true
  | (k, a) :: as, (l, b) :: bs => k = l && a.same b && sameMembers as bs
  | _, _ => false

end

def isObject : Value → Bool
  | .object _ => true
  | _ => false

/-- `Value::get` with a member name. -/
def get : Value → String → Option Value
  | .object members, name => members.lookup name
  | _, _ => none

/-- The object `{ "error": { "code": .., "message": .. } }` of a failed tool call. -/
def ofError (code message : String) : Value :=
  .object [("error", .object [("code", .string code), ("message", .string message)])]

end Value

/-- The text functions of `serde_json`: `Value::to_string`, and whether `from_str` reads a
text back as a JSON value. -/
class JsonText where
  toText : Value → String
  parses : String → Bool

/-- The code points with the Unicode property `White_Space`, as in `char::is_whitespace`. -/
def isWhitespace (c : Char) : Bool :=
  let n := c.toNat
  (9 ≤ n && n ≤ 13) || n == 32 || n == 133 || n == 160 || n == 5760 ||
    (8192 ≤ n && n ≤ 8202) || n == 8232 || n == 8233 || n == 8239 || n == 8287 || n == 12288

/-- `text.trim().is_empty()`. -/
def isBlank (text : String) : Bool := text.toList.all isWhitespace

def ToolName.isValid (candidate : String) : Bool :=
  candidate.utf8ByteSize != 0 && decide (candidate.utf8ByteSize ≤ 64) &&
    candidate.toList.all (fun c => c.isAlphanum || c == '_' || c == '-')

/-- A validated model-facing tool name. -/
structure ToolName where
  text : String
  valid : ToolName.isValid text = true
deriving DecidableEq

structure ToolCall where
  id : String
  name : ToolName
  arguments : Value
deriving DecidableEq

inductive MessageRole
  | system
  | user
  | assistant
  | tool
deriving DecidableEq

inductive ImageMediaType
  | png
  | jpeg
  | gif
  | webp
deriving DecidableEq

structure InlineImageBytes where
  bytes : List UInt8
  nonempty : bytes ≠ []
deriving DecidableEq

inductive ImageSource
  | url (url : String)
  | inline (bytes : InlineImageBytes)
deriving DecidableEq

inductive MessageContent
  | text (text : String)
  | image (source : ImageSource) (mediaType : ImageMediaType)
deriving DecidableEq

def MessageContent.isImage : MessageContent → Bool
  | .image _ _ => true
  | .text _ => false

structure Message where
  role : MessageRole
  content : List MessageContent
  toolCalls : Option (List ToolCall)
  toolCallId : Option String
  name : Option ToolName
deriving DecidableEq

namespace Message

def user (text : String) : Message :=
  { role := .user, content := [.text text], toolCalls := none, toolCallId := none, name := none }

def assistantText (text : String) : Message :=
  { role := .assistant, content := [.text text], toolCalls := none, toolCallId := none,
    name := none }

def assistantToolCalls (calls : List ToolCall) : Message :=
  { role := .assistant, content := [], toolCalls := some calls, toolCallId := none,
    name := none }

def toolResult [JsonText] (toolCallId : String) (name : ToolName) (content : Value) : Message :=
  { role := .tool, content := [.text (JsonText.toText content)], toolCalls := none,
    toolCallId := some toolCallId, name := some name }

end Message

structure InstructionFragment where
  key : String
  version : U32
  text : String
deriving DecidableEq

structure CompiledInstructions where
  core : InstructionFragment
  agent : Option String
  run : Option String
  features : List InstructionFragment
deriving DecidableEq

end Agentive
