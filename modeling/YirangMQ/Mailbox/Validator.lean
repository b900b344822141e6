import YirangMQ.Mailbox.Types

namespace YirangMQ.Mailbox

/-!
# Message schemas

`MessageValidator`: the rules of a schema, and the validation of a payload under the schema of
a queue.  Only the writing of a field for a custom validator can throw.
-/

/-- `ValidationRuleType`. -/
inductive ValidationRuleType where
  | required
  | type
  | minLength
  | maxLength
  | minValue
  | maxValue
  | pattern
  | enum
  | custom
  deriving DecidableEq, Repr

/-- `ValidationRule`: the fields its type does not use are left as they are. -/
structure ValidationRule where
  field : String
  type : ValidationRuleType
  expectedType : String := ""
  minLength : Int := 0
  maxLength : Int := 9223372036854775807
  minValue : ℚ := 0
  maxValue : ℚ := 0
  pattern : String := ""
  enumValues : List String := []
  customValidator : Option (String → Bool) := none
  customValidatorName : String := ""
  errorMessage : String := ""

/-- `ValidationResult`: every rule that is broken is told. -/
structure ValidationResult where
  valid : Bool := true
  errors : List String := []
  deriving DecidableEq, Repr

/-- `MessageSchema` -/
structure MessageSchema where
  name : String := ""
  description : String := ""
  rules : List ValidationRule

/-- `MessageValidator`: the schemas by their queues, and the validators by their names. -/
structure MessageValidator where
  schemas : List (String × MessageSchema) := []
  customValidators : List (String × (String → Bool)) := []

namespace ValidationRule

/-- `make_error` -/
def makeError (rule : ValidationRule) (defaultMsg : String) : String :=
  if rule.errorMessage = "" then defaultMsg else rule.errorMessage

/-- The value is of the type named. -/
def typeMatches (expected : String) : Json String → Bool
  | .str _ => expected = "string"
  | .int _ | .real _ => expected = "number"
  | .bool _ => expected = "boolean"
  | .arr _ => expected = "array"
  | .obj _ => expected = "object"
  | .null => expected = "null"

/-- `value.get<double>()` of a number. -/
def number? (libs : Libraries) : Json String → Option ℚ
  | .int n => some (libs.toDouble n)
  | .real q => some q
  | _ => none

/-- A rule about the length of a string field fails. -/
def failsAt (payload : Json String) (field : String) (bad : String → Bool) : Bool :=
  match payload.get? field with
  | some (.str value) => bad value
  | _ => false

/-- A rule about a number field fails. -/
def failsAtNumber (libs : Libraries) (payload : Json String) (field : String) (bad : ℚ → Bool) :
    Bool :=
  ((payload.get? field).bind (number? libs)).any bad

/-- `validate_rule`, with the text of the exception it may throw. -/
def validate (libs : Libraries) (payload : Json String) (rule : ValidationRule) :
    Except String (Option String) :=
  let named := "field '" ++ rule.field ++ "'"
  let check (bad : Bool) (msg : String) : Except String (Option String) :=
    .ok (if bad then some (rule.makeError msg) else none)
  match rule.type with
  | .required => check (payload.get? rule.field).isNone (named ++ " is required")
  | .type =>
    check ((payload.get? rule.field).any (!typeMatches rule.expectedType ·))
      (named ++ " must be of type '" ++ rule.expectedType ++ "'")
  | .minLength =>
    check (failsAt payload rule.field fun value => value.length < rule.minLength)
      (named ++ " must be at least " ++ toString rule.minLength ++ " characters")
  | .maxLength =>
    check (failsAt payload rule.field fun value => rule.maxLength < value.length)
      (named ++ " must be at most " ++ toString rule.maxLength ++ " characters")
  | .minValue =>
    check (failsAtNumber libs payload rule.field (· < rule.minValue))
      (named ++ " must be at least " ++ libs.formatDouble rule.minValue)
  | .maxValue =>
    check (failsAtNumber libs payload rule.field (rule.maxValue < ·))
      (named ++ " must be at most " ++ libs.formatDouble rule.maxValue)
  | .pattern =>
    match payload.get? rule.field with
    | some (.str value) =>
      match libs.regexMatch rule.pattern value with
      | some found =>
        check (!found) (named ++ " does not match pattern '" ++ rule.pattern ++ "'")
      | none => check true ("invalid regex pattern for " ++ named)
    | _ => .ok none
  | .enum =>
    check (failsAt payload rule.field fun value => value ∉ rule.enumValues)
      (named ++ " must be one of: " ++
        ", ".intercalate (rule.enumValues.map fun value => "'" ++ value ++ "'"))
  | .custom =>
    match payload.get? rule.field, rule.customValidator with
    | some value, some validator => do
      check (!validator (← libs.dump value)) (named ++ " failed custom validation")
    | _, _ => .ok none

end ValidationRule

namespace MessageValidator

/-- `get_schema`. -/
def getSchema (validator : MessageValidator) (queue : String) : Option MessageSchema :=
  validator.schemas.lookup queue

/-- `has_schema`. -/
def hasSchema (validator : MessageValidator) (queue : String) : Bool :=
  (validator.getSchema queue).isSome

/-- `schemas_[queue] = schema` -/
def registerSchema (queue : String) (schema : MessageSchema) (validator : MessageValidator) :
    MessageValidator :=
  { validator with
    schemas := (queue, schema) :: validator.schemas.filter (fun entry => entry.1 ≠ queue) }

/-- The errors of a list of rules, in order. -/
def ruleErrors (libs : Libraries) (payload : Json String) :
    List ValidationRule → Except String (List String)
  | [] => .ok []
  | rule :: rules => do
    let error ← rule.validate libs payload
    return error.toList ++ (← ruleErrors libs payload rules)

/-- `validate_json`: a queue without a schema accepts anything, readable or not. -/
def validateJson (libs : Libraries) (validator : MessageValidator) (text queue : String) :
    Except String ValidationResult :=
  match validator.getSchema queue with
  | none => .ok {}
  | some schema =>
    match libs.parse text with
    | .error what => .ok ⟨false, ["JSON parse error: " ++ what]⟩
    | .ok payload => do
      let errors ← ruleErrors libs payload schema.rules
      return ⟨errors.isEmpty, errors⟩

/-- `validate`: the payload against the schema of its queue. -/
def validate (libs : Libraries) (validator : MessageValidator) (message : MessageEnvelope) :
    Except String ValidationResult :=
  validator.validateJson libs message.payloadJson message.queue

end MessageValidator

end YirangMQ.Mailbox
