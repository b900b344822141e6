import YirangMQ.Configurations.Policies
import YirangMQ.Mailbox.Validator
import Mathlib.Algebra.Ring.Int.Defs
import Mathlib.Algebra.Ring.Nat
import Mathlib.Order.Lattice

namespace YirangMQ

/-!
# Loading policies and schemas

The loaders of `Configurations`.  A field is taken when it is there with the right type, and
otherwise keeps its default.  The one read that does not look first is the one of `errorMessage`: it
throws when the field holds no string, and the exception leaves the loop over the queues.

* `loadQueuePolicy`, `loadMessageSchema`, `loadQueueConfig`, `loadQueues` — the loaders;
* `Throwing` — the rules whose reading throws, `loadValidationRule_eq_none_iff`;
* `loadQueues_getElem?` — **an entry is loaded as it stands, less the rules that cannot be loaded,
  exactly when no rule of this entry or of an earlier one throws.**
-/

open Mailbox

/-! ### Reading a field -/

namespace Json

/-- `is_string()` and `get<std::string>()` -/
def asString : Json String → Option String
  | .str s => some s
  | _ => none

/-- `is_boolean()` and `get<bool>()` -/
def asBool : Json String → Option Bool
  | .bool b => some b
  | _ => none

/-- `is_number()` and the `get` of a signed integer type: integers are cut to the type's width,
    other numbers to their integer part. -/
def asInt (width : Nat) : Json String → Option Int
  | .int n => some (n.bmod (2 ^ width))
  | .real q => some (q.num.tdiv q.den)
  | _ => none

/-- `is_object()` -/
def asObject : Json String → Option (Json String)
  | .obj fields => some (.obj fields)
  | _ => none

/-- `is_array()` -/
def asArray : Json String → Option (List (Json String))
  | .arr items => some items
  | _ => none

/-- A field that is there with the right type. -/
def read {α : Type} (obj : Json String) (key : String) (as : Json String → Option α) : Option α :=
  (obj.get? key).bind as

end Json

open Json

/-! ### Policies -/

/-- `load_retry_policy` -/
def loadRetryPolicy (defaults : RetryPolicy) (obj : Json String) : RetryPolicy where
  limit := (obj.read "limit" (asInt 32)).getD defaults.limit
  backoff := (obj.read "backoff" asString).getD defaults.backoff
  initialDelaySec := (obj.read "initialDelaySec" (asInt 32)).getD defaults.initialDelaySec
  maxDelaySec := (obj.read "maxDelaySec" (asInt 32)).getD defaults.maxDelaySec

/-- `load_dlq_policy` -/
def loadDlqPolicy (defaults : DlqPolicy) (obj : Json String) : DlqPolicy where
  enabled := (obj.read "enabled" asBool).getD defaults.enabled
  queue := (obj.read "queue" asString).getD defaults.queue
  retentionDays := (obj.read "retentionDays" (asInt 32)).getD defaults.retentionDays

/-- `load_queue_policy` -/
def loadQueuePolicy (defaults : QueuePolicy) (obj : Json String) : QueuePolicy where
  visibilityTimeoutSec :=
    (obj.read "visibilityTimeoutSec" (asInt 32)).getD defaults.visibilityTimeoutSec
  retry :=
    match obj.read "retry" asObject with
    | some retry => loadRetryPolicy defaults.retry retry
    | none => defaults.retry
  dlq :=
    match obj.read "dlq" asObject with
    | some dlq => loadDlqPolicy defaults.dlq dlq
    | none => defaults.dlq

/-! ### Schemas -/

/-- `QueueConfig` -/
structure QueueConfig where
  name : String := ""
  policy : QueuePolicy := {}
  messageSchema : Option MessageSchema := none

section Schemas

-- `compiles` tells the patterns that `std::regex` takes
variable (libs : Libraries) (compiles : String → Bool)

/-- The part of `load_validation_rule` that depends on the rule's type. -/
def loadTypedRule (obj : Json String) (type : String) (rule : ValidationRule) :
    Option ValidationRule :=
  if type = "required" then some { rule with type := .required }
  else if type = "type" then
    (obj.read "expectedType" asString).map fun expectedType =>
      { rule with type := .type, expectedType }
  else if type = "minLength" then
    (obj.read "value" (asInt 64)).map fun minLength => { rule with type := .minLength, minLength }
  else if type = "maxLength" then
    (obj.read "value" (asInt 64)).map fun maxLength => { rule with type := .maxLength, maxLength }
  else if type = "minValue" then
    (obj.read "value" (ValidationRule.number? libs)).map fun minValue =>
      { rule with type := .minValue, minValue }
  else if type = "maxValue" then
    (obj.read "value" (ValidationRule.number? libs)).map fun maxValue =>
      { rule with type := .maxValue, maxValue }
  else if type = "pattern" then
    ((obj.read "value" asString).filter compiles).map fun pattern =>
      { rule with type := .pattern, pattern }
  else if type = "enum" then
    -- values that are not strings are skipped, but one string has to be there
    let enumValues := ((obj.read "values" asArray).getD []).filterMap asString
    if enumValues.isEmpty then none else some { rule with type := .enum, enumValues }
  else if type = "custom" then
    (obj.read "validator" asString).map fun customValidatorName =>
      { rule with type := .custom, customValidatorName }
  else none

/-- `load_validation_rule`; the outer `none` is the type error that `value` throws. -/
def loadValidationRule (obj : Json String) : Option (Option ValidationRule) :=
  match obj.read "field" asString, obj.read "type" asString with
  | some field, some type => do
    let errorMessage ← obj.valueStr "errorMessage" ""
    return loadTypedRule libs compiles obj type { field, type := .required, errorMessage }
  | _, _ => some none

/-- The schema of the rules that could be loaded. -/
def schemaOf (obj : Json String) (rules : List ValidationRule) : Option MessageSchema :=
  if rules.isEmpty then none
  else some {
    name := (obj.read "name" asString).getD ""
    description := (obj.read "description" asString).getD ""
    rules }

/-- `load_message_schema` -/
def loadMessageSchema (obj : Json String) : Option (Option MessageSchema) := do
  let rules ← ((obj.read "rules" asArray).getD []).mapM (loadValidationRule libs compiles)
  return schemaOf obj rules.reduceOption

/-- The policy of an entry of `queues`. -/
def loadEntryPolicy (defaults : QueuePolicy) (entry : Json String) : QueuePolicy :=
  match entry.read "policy" asObject with
  | some policy => loadQueuePolicy defaults policy
  | none => defaults

/-- The body of the loop over `queues`. -/
def loadQueueConfig (defaults : QueuePolicy) (entry : Json String) : Option QueueConfig := do
  let messageSchema ←
    match entry.read "messageSchema" asObject with
    | some schema => loadMessageSchema libs compiles schema
    | none => some none
  return {
    name := (entry.read "name" asString).getD ""
    policy := loadEntryPolicy defaults entry
    messageSchema }

/-- The loop over `queues`, which an exception leaves with the entries before. -/
def loadQueues (defaults : QueuePolicy) : List (Json String) → List QueueConfig
  | [] => []
  | entry :: entries =>
    match loadQueueConfig libs compiles defaults entry with
    | none => []
    | some queueConfig => queueConfig :: loadQueues defaults entries

end Schemas

/-! ### What throws -/

/-- The rule is read up to its `errorMessage`, and this is not a string. -/
def Throwing (rule : Json String) : Bool :=
  (rule.read "field" asString).isSome && (rule.read "type" asString).isSome &&
    (rule.get? "errorMessage").any fun message => (asString message).isNone

/-- The rules of an entry that has a schema. -/
def entryRules (entry : Json String) : List (Json String) :=
  ((entry.read "messageSchema" asObject).bind fun schema => schema.read "rules" asArray).getD []

/-- What an entry says, whatever the other entries are: the rules that cannot be loaded are left
    out one by one. -/
def intendedConfig (libs : Libraries) (compiles : String → Bool) (defaults : QueuePolicy)
    (entry : Json String) : QueueConfig where
  name := (entry.read "name" asString).getD ""
  policy := loadEntryPolicy defaults entry
  messageSchema :=
    (entry.read "messageSchema" asObject).bind fun schema => schemaOf schema
      ((entryRules entry).filterMap fun rule => (loadValidationRule libs compiles rule).join)

variable {libs : Libraries} {compiles : String → Bool} {defaults : QueuePolicy}

theorem valueStr_eq_none_iff {obj : Json String} (hobj : obj.isObject = true) (key default : String) :
    obj.valueStr key default = none ↔
      (obj.get? key).any (fun value => (asString value).isNone) = true := by
  cases obj <;> simp only [isObject, Bool.false_eq_true] at hobj
  case obj fields =>
    simp only [valueStr, get?]
    cases fields.lookup key with
    | none => simp
    | some value => cases value <;> simp [asString]

/-- A field can only be read from an object. -/
theorem isObject_of_read {α : Type} {obj : Json String} {key : String}
    {as : Json String → Option α} (h : (obj.read key as).isSome = true) : obj.isObject = true := by
  cases obj <;> simp_all [Json.read, get?, isObject]

theorem loadValidationRule_eq_none_iff (rule : Json String) :
    loadValidationRule libs compiles rule = none ↔ Throwing rule = true := by
  unfold loadValidationRule Throwing
  cases hfield : rule.read "field" asString with
  | none => simp
  | some field =>
    cases htype : rule.read "type" asString with
    | none => simp
    | some type =>
      have hobj : rule.isObject = true := by
        apply isObject_of_read
        rw [hfield]
        rfl
      have hvalue := valueStr_eq_none_iff hobj "errorMessage" ""
      cases hmessage : rule.valueStr "errorMessage" "" with
      | none => simpa using hvalue.mp hmessage
      | some message =>
        rw [hmessage] at hvalue
        simpa using hvalue

/-- The rules are read one by one unless one of them throws. -/
theorem mapM_loadValidationRule (rules : List (Json String)) :
    rules.mapM (loadValidationRule libs compiles) =
      if rules.any Throwing = true then none
      else some (rules.map fun rule => (loadValidationRule libs compiles rule).join) := by
  induction rules with
  | nil => rfl
  | cons rule rules ih =>
    have hrule : loadValidationRule libs compiles rule = none ↔ Throwing rule = true :=
      loadValidationRule_eq_none_iff rule
    rw [List.mapM_cons, ih, List.any_cons, List.map_cons]
    cases hload : loadValidationRule libs compiles rule with
    | none =>
      have hthrow : Throwing rule = true := hrule.mp hload
      rw [hthrow]
      rfl
    | some loaded =>
      have hquiet : Throwing rule = false := by
        rw [hload] at hrule
        simpa using hrule
      rw [hquiet, Bool.false_or]
      by_cases hany : rules.any Throwing = true
      · rw [if_pos hany, if_pos hany]
        rfl
      · rw [if_neg hany, if_neg hany]
        rfl

/-- **An entry loads as it stands unless one of its rules throws.** -/
theorem loadQueueConfig_eq (entry : Json String) :
    loadQueueConfig libs compiles defaults entry =
      if (entryRules entry).any Throwing = true then none
      else some (intendedConfig libs compiles defaults entry) := by
  unfold loadQueueConfig entryRules intendedConfig
  cases hschema : entry.read "messageSchema" asObject with
  | none => simp [entryRules, hschema]
  | some schema =>
    have hrules : entryRules entry = (schema.read "rules" asArray).getD [] := by
      rw [entryRules, hschema]
      rfl
    simp only [hrules, Option.bind_some, loadMessageSchema, mapM_loadValidationRule]
    by_cases hany : ((schema.read "rules" asArray).getD []).any Throwing = true
    · rw [if_pos hany, if_pos hany]
      rfl
    · rw [if_neg hany, if_neg hany]
      show some _ = some _
      exact congrArg _ (congrArg _ (congrArg _ List.filterMap_map))

/-- The loop ends in front of the first entry one of whose rules throws. -/
theorem loadQueues_eq (entries : List (Json String)) :
    loadQueues libs compiles defaults entries =
      (entries.takeWhile fun entry => !(entryRules entry).any Throwing).map
        (intendedConfig libs compiles defaults) := by
  induction entries with
  | nil => rfl
  | cons entry entries ih =>
    rw [loadQueues, loadQueueConfig_eq, List.takeWhile_cons]
    by_cases hany : (entryRules entry).any Throwing = true
    · rw [if_pos hany, hany]
      rfl
    · rw [if_neg hany, if_pos (by simpa using hany), List.map_cons, ← ih]

/-- A position is within the longest prefix of which a predicate holds. -/
theorem getElem?_takeWhile {α : Type} (p : α → Bool) (l : List α) (i : Nat) (hi : i < l.length) :
    (l.takeWhile p)[i]? = if (l.take (i + 1)).all p = true then l[i]? else none := by
  induction l generalizing i with
  | nil => exact absurd hi (Nat.not_lt_zero i)
  | cons b l ih =>
    rw [List.take_succ_cons, List.all_cons]
    by_cases hb : p b = true
    · rw [List.takeWhile_cons_of_pos hb, hb, Bool.true_and]
      cases i with
      | zero => rfl
      | succ i =>
        have hi' : i < l.length := Nat.lt_of_succ_lt_succ hi
        rw [List.getElem?_cons_succ, List.getElem?_cons_succ, ih i hi']
    · rw [List.takeWhile_cons_of_neg hb, eq_false_of_ne_true hb]
      rfl

/-- **An entry is loaded as it stands exactly when no rule of it or of an earlier entry throws.** -/
theorem loadQueues_getElem? (entries : List (Json String)) (i : Nat) (hi : i < entries.length) :
    (loadQueues libs compiles defaults entries)[i]? =
        some (intendedConfig libs compiles defaults entries[i]) ↔
      ∀ entry ∈ entries.take (i + 1), ∀ rule ∈ entryRules entry, Throwing rule = false := by
  have hquiet : (entries.take (i + 1)).all (fun entry => !(entryRules entry).any Throwing) = true ↔
      ∀ entry ∈ entries.take (i + 1), ∀ rule ∈ entryRules entry, Throwing rule = false := by
    simp only [List.all_eq_true, Bool.not_eq_true', List.any_eq_false, Bool.not_eq_true]
  rw [loadQueues_eq, List.getElem?_map, getElem?_takeWhile _ _ _ hi, ← hquiet,
    List.getElem?_eq_getElem hi]
  split
  case isTrue hall => simp [hall]
  case isFalse hsome => simp [hsome]

end YirangMQ
