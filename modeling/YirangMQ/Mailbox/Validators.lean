import YirangMQ.Mailbox.Handler
import Mathlib.Data.List.Forall2
import Mathlib.Tactic.Tauto

namespace YirangMQ.Mailbox

/-!
# Custom validators

A rule of type `custom` names its validator.  `MailboxHandler::register_schema` looks the name up
once, in the copy of the schema that it stores; a rule whose name is not known then is never
checked.

* `ValidationRule.resolve`, `registerSchema`, `MessageValidator.registerCustomValidator` — the
  registrations;
* `Order` — the two orders of one registration of each kind;
* `Settled` — what a registered validator owes: both orders validate alike, a rejected field makes
  the publish fail, and no rule of that name is skipped;
* `settled_iff` — **it holds exactly when the validator answers, on the fields in question, like
  what was registered under its name before the schema**;
* `skipped_validator` — a message that is published against its validator.
-/

namespace ValidationRule

/-- The rule names a validator and has no function yet. -/
def isOpen (rule : ValidationRule) : Bool :=
  rule.type = .custom && rule.customValidatorName ≠ "" && rule.customValidator.isNone

/-- The rule waits for the validator of this name. -/
def waitsFor (rule : ValidationRule) (name : String) : Bool :=
  rule.isOpen && rule.customValidatorName = name

/-- The body of the loop of `resolve_custom_validators`. -/
def resolve (validators : List (String × (String → Bool))) (rule : ValidationRule) :
    ValidationRule :=
  if rule.isOpen then
    match validators.lookup rule.customValidatorName with
    | some validator => { rule with customValidator := some validator }
    | none => rule
  else rule

end ValidationRule

namespace MessageValidator

/-- `register_custom_validator`, which resolves no rule. -/
def registerCustomValidator (name : String) (validator : String → Bool) (self : MessageValidator) :
    MessageValidator :=
  { self with
    customValidators :=
      (name, validator) :: self.customValidators.filter (fun entry => entry.1 ≠ name) }

/-- The lookup of the custom rules by name, when a schema is registered. -/
def resolveCustomValidators (self : MessageValidator) (schema : MessageSchema) : MessageSchema :=
  { schema with rules := schema.rules.map (ValidationRule.resolve self.customValidators) }

/-- The rules stored for a queue. -/
def rulesOf (self : MessageValidator) (queue : String) : List ValidationRule :=
  ((self.getSchema queue).map MessageSchema.rules).getD []

end MessageValidator

/-- `MailboxHandler::register_schema` -/
def registerSchema (queue : String) (schema : MessageSchema) (validator : MessageValidator) :
    MessageValidator :=
  validator.registerSchema queue (validator.resolveCustomValidators schema)

/-- Which of the two registrations comes first. -/
inductive Order where
  | validatorFirst
  | schemaFirst
  deriving DecidableEq, Repr

/-- A validator and a schema are registered. -/
def Order.register (order : Order) (name : String) (validator : String → Bool) (queue : String)
    (schema : MessageSchema) (self : MessageValidator) : MessageValidator :=
  match order with
  | .validatorFirst => registerSchema queue schema (self.registerCustomValidator name validator)
  | .schemaFirst => (registerSchema queue schema self).registerCustomValidator name validator

/-! ### One rule -/

namespace ValidationRule

variable {libs : Libraries} {rule : ValidationRule} {name : String}

/-- What a rule with this function says of a value; without a function it accepts. -/
def answer (libs : Libraries) (validator : Option (String → Bool)) (value : Json String) :
    Except String Bool :=
  match validator with
  | none => .ok true
  | some validator => (libs.dump value).map validator

/-- The error of a custom rule. -/
def customError (rule : ValidationRule) (accepted : Bool) : Option String :=
  if accepted then none
  else some (rule.makeError ("field '" ++ rule.field ++ "'" ++ " failed custom validation"))

/-- The error of a custom rule tells what its validator has answered. -/
theorem customError_inj {a b : Bool} (h : rule.customError a = rule.customError b) : a = b := by
  cases a <;> cases b <;> simp [customError] at h ⊢

/-- A rule waits for a validator when it is custom, names it and has none yet. -/
theorem waitsFor_iff : rule.waitsFor name = true ↔ rule.type = .custom ∧
    rule.customValidator = none ∧ rule.customValidatorName ≠ "" ∧
    rule.customValidatorName = name := by
  simp only [waitsFor, isOpen, Bool.and_eq_true, decide_eq_true_eq, Option.isNone_iff_eq_none]
  tauto

/-- A custom rule checks the value of its field, when it is there. -/
theorem validate_custom (payload : Json String) (validator : Option (String → Bool))
    (htype : rule.type = .custom) :
    ({ rule with customValidator := validator } : ValidationRule).validate libs payload =
      match payload.get? rule.field with
      | none => .ok none
      | some value => (answer libs validator value).map rule.customError := by
  simp only [validate, htype]
  cases payload.get? rule.field with
  | none => rfl
  | some value =>
    cases validator with
    | none => rfl
    | some validator =>
      simp only [answer]
      cases libs.dump value with
      | error what => rfl
      | ok text => cases hvalid : validator text <;> simp [Except.map, bind, Except.bind,
          customError, hvalid, makeError]

/-- A rule waiting for a name gets what the name stands for. -/
theorem resolve_waiting (validators : List (String × (String → Bool)))
    (hwaits : rule.waitsFor name = true) :
    rule.resolve validators = { rule with customValidator := validators.lookup name } := by
  have hopen : rule.isOpen = true := (Bool.and_eq_true_iff.mp hwaits).1
  obtain ⟨-, hnone, -, hname⟩ := waitsFor_iff.mp hwaits
  have hself : ({ rule with customValidator := none } : ValidationRule) = rule := by rw [← hnone]
  have hlookup : validators.lookup rule.customValidatorName = validators.lookup name := by
    rw [hname]
  rw [resolve, if_pos hopen, hlookup]
  cases validators.lookup name with
  | none => exact hself.symm
  | some validator => rfl

end ValidationRule

open ValidationRule

variable {libs : Libraries} {rules stored stored' : List ValidationRule} {payload : Json String}

/-! ### All rules of a schema -/

/-- Rules that validate alike one by one have the same errors. -/
theorem ruleErrors_congr (h : List.Forall₂ (fun rule rule' : ValidationRule =>
      rule.validate libs payload = rule'.validate libs payload) stored stored') :
    MessageValidator.ruleErrors libs payload stored =
      MessageValidator.ruleErrors libs payload stored' := by
  induction h with
  | nil => rfl
  | cons hrule _ ih => rw [MessageValidator.ruleErrors, MessageValidator.ruleErrors, hrule, ih]

/-- A rule with an error leaves no empty list of errors. -/
theorem ruleErrors_ne_nil {rule : ValidationRule} {error : String} (hrule : rule ∈ stored)
    (herror : rule.validate libs payload = .ok (some error)) :
    MessageValidator.ruleErrors libs payload stored ≠ .ok [] := by
  induction stored with
  | nil => exact absurd hrule List.not_mem_nil
  | cons first rest ih =>
    rw [MessageValidator.ruleErrors]
    cases List.mem_cons.mp hrule with
    | inl heq =>
      subst heq
      rw [herror]
      cases MessageValidator.ruleErrors libs payload rest <;>
        simp [bind, Except.bind, pure, Except.pure]
    | inr hmem =>
      have hrest := ih hmem
      cases first.validate libs payload with
      | error what => simp [bind, Except.bind]
      | ok first =>
        cases herrors : MessageValidator.ruleErrors libs payload rest with
        | error what => simp [bind, Except.bind]
        | ok errors =>
          rw [herrors] at hrest
          cases errors with
          | nil => exact absurd rfl hrest
          | cons => simp [bind, Except.bind, pure, Except.pure]

/-! ### Both orders -/

variable {ctx : Context} {name queue : String} {validator : String → Bool} {schema : MessageSchema}

/-- The names that can be looked up when the schema is registered. -/
def Order.known (order : Order) (name : String) (validator : String → Bool)
    (self : MessageValidator) : List (String × (String → Bool)) :=
  match order with
  | .validatorFirst => (self.registerCustomValidator name validator).customValidators
  | .schemaFirst => self.customValidators

/-- The schema after the two registrations, in either order. -/
theorem getSchema_register (order : Order) (self : MessageValidator) :
    (order.register name validator queue schema self).getSchema queue =
      some { schema with
        rules := schema.rules.map (ValidationRule.resolve (order.known name validator self)) } := by
  cases order <;>
    simp [Order.register, Order.known, registerSchema, MessageValidator.getSchema,
      MessageValidator.registerSchema, MessageValidator.registerCustomValidator,
      MessageValidator.resolveCustomValidators]

/-- Both orders know the same other names. -/
theorem known_lookup_ne (order order' : Order) (self : MessageValidator) {name' : String}
    (hne : name' ≠ name) :
    (order.known name validator self).lookup name' =
      (order'.known name validator self).lookup name' := by
  have hbeq : (name' == name) = false := beq_eq_false_iff_ne.mpr hne
  have hregistered : ((MessageValidator.registerCustomValidator name validator
      self).customValidators).lookup name' = self.customValidators.lookup name' := by
    rw [MessageValidator.registerCustomValidator, List.lookup_cons, hbeq]
    exact (Json.lookup_filter_ne _ name name').trans (if_neg hne)
  cases order <;> cases order' <;> simp [Order.known, hregistered]

/-- What a validator owes once it is registered under a name, in whichever order. -/
structure Settled (ctx : Context) (name : String) (validator : String → Bool)
    (schema : MessageSchema) (envelope : MessageEnvelope) : Prop where
  same : ∀ order order' : Order,
    publishErrors { ctx with
        validator := order.register name validator envelope.queue schema ctx.validator } envelope =
      publishErrors { ctx with
        validator := order'.register name validator envelope.queue schema ctx.validator } envelope
  fails : ∀ order : Order, ∀ payload, ctx.libs.parse envelope.payloadJson = .ok payload →
    ∀ rule ∈ schema.rules, rule.waitsFor name = true →
    ∀ value, payload.get? rule.field = some value →
    ∀ text, ctx.libs.dump value = .ok text → validator text = false →
    ∀ validation, publishErrors { ctx with
        validator := order.register name validator envelope.queue schema ctx.validator } envelope =
      .ok validation → validation.valid = false
  checked : ∀ order : Order, ∀ payload, ctx.libs.parse envelope.payloadJson = .ok payload →
    List.Forall₂ (fun rule stored : ValidationRule => rule.waitsFor name = true →
        stored.validate ctx.libs payload =
          ({ rule with customValidator := some validator } : ValidationRule).validate ctx.libs
            payload)
      schema.rules
      ((order.register name validator envelope.queue schema ctx.validator).rulesOf envelope.queue)

/-- On the fields in question the validator answers like what the name stood for before. -/
def Known (ctx : Context) (name : String) (validator : String → Bool) (schema : MessageSchema)
    (envelope : MessageEnvelope) : Prop :=
  ∀ payload, ctx.libs.parse envelope.payloadJson = .ok payload →
    ∀ rule ∈ schema.rules, rule.waitsFor name = true →
    ∀ value, payload.get? rule.field = some value →
      answer ctx.libs (some validator) value =
        answer ctx.libs (ctx.validator.customValidators.lookup name) value

variable {envelope : MessageEnvelope}

/-- Its rules, resolved against the validators that were known. -/
theorem rulesOf_register (order : Order) (self : MessageValidator) :
    (order.register name validator queue schema self).rulesOf queue =
      schema.rules.map (ValidationRule.resolve (order.known name validator self)) := by
  rw [MessageValidator.rulesOf, getSchema_register]
  rfl

/-- The validator is known when it was registered first; otherwise there is the one known before. -/
theorem known_lookup_self (order : Order) (self : MessageValidator) :
    (order.known name validator self).lookup name =
      match order with
      | .validatorFirst => some validator
      | .schemaFirst => self.customValidators.lookup name := by
  cases order with
  | validatorFirst => simp [Order.known, MessageValidator.registerCustomValidator]
  | schemaFirst => rfl

/-- The errors of a publish are those of the stored rules. -/
theorem publishErrors_register (order : Order) :
    publishErrors { ctx with
        validator := order.register name validator envelope.queue schema ctx.validator } envelope =
      match ctx.libs.parse envelope.payloadJson with
      | .error what => .ok ⟨false, ["JSON parse error: " ++ what]⟩
      | .ok payload => do
        let errors ← MessageValidator.ruleErrors ctx.libs payload
          (schema.rules.map (ValidationRule.resolve (order.known name validator ctx.validator)))
        return ⟨errors.isEmpty, errors⟩ := by
  have hschema : (order.register name validator envelope.queue schema ctx.validator).getSchema
      envelope.queue = some { schema with
        rules := schema.rules.map (ValidationRule.resolve (order.known name validator
          ctx.validator)) } := getSchema_register order ctx.validator
  have hhas : (order.register name validator envelope.queue schema ctx.validator).hasSchema
      envelope.queue = true := by
    rw [MessageValidator.hasSchema, hschema]
    rfl
  cases hparse : ctx.libs.parse envelope.payloadJson <;>
    simp only [publishErrors, if_pos hhas, MessageValidator.validate,
      MessageValidator.validateJson, hschema, hparse]

/-- A rule waiting for the name is checked by the validator, if that answers as before. -/
theorem validate_resolved (hknown : Known ctx name validator schema envelope)
    (hparse : ctx.libs.parse envelope.payloadJson = .ok payload) {rule : ValidationRule}
    (hrule : rule ∈ schema.rules) (hwaits : rule.waitsFor name = true) (order : Order) :
    (rule.resolve (order.known name validator ctx.validator)).validate ctx.libs payload =
      ({ rule with customValidator := some validator } : ValidationRule).validate ctx.libs
        payload := by
  have htype := (waitsFor_iff.mp hwaits).1
  rw [resolve_waiting _ hwaits, known_lookup_self, validate_custom payload _ htype,
    validate_custom payload _ htype]
  cases hget : payload.get? rule.field with
  | none => rfl
  | some value =>
    have hanswer := hknown payload hparse rule hrule hwaits value hget
    cases order with
    | validatorFirst => rfl
    | schemaFirst =>
      show (answer ctx.libs (ctx.validator.customValidators.lookup name) value).map _ = _
      rw [← hanswer]

/-- The order does not matter to a rule that does not wait for the name. -/
theorem resolve_other {rule : ValidationRule} (hwaits : rule.waitsFor name = false)
    (order order' : Order) (self : MessageValidator) :
    rule.resolve (order.known name validator self) =
      rule.resolve (order'.known name validator self) := by
  unfold ValidationRule.resolve
  split
  case isTrue hopen =>
    have hne : rule.customValidatorName ≠ name := by
      rw [waitsFor, hopen, Bool.true_and] at hwaits
      exact of_decide_eq_false hwaits
    rw [known_lookup_ne order order' self hne]
  case isFalse => rfl

/-- Both orders validate alike. -/
theorem same_of_known (hknown : Known ctx name validator schema envelope) (order order' : Order) :
    publishErrors { ctx with
        validator := order.register name validator envelope.queue schema ctx.validator } envelope =
      publishErrors { ctx with
        validator := order'.register name validator envelope.queue schema ctx.validator }
          envelope := by
  rw [publishErrors_register, publishErrors_register]
  cases hparse : ctx.libs.parse envelope.payloadJson with
  | error what => rfl
  | ok payload =>
    have hrules : MessageValidator.ruleErrors ctx.libs payload
          (schema.rules.map (ValidationRule.resolve (order.known name validator ctx.validator))) =
        MessageValidator.ruleErrors ctx.libs payload
          (schema.rules.map (ValidationRule.resolve (order'.known name validator ctx.validator))) := by
      apply ruleErrors_congr
      rw [List.forall₂_map_left_iff, List.forall₂_map_right_iff, List.forall₂_same]
      intro rule hrule
      by_cases hwaits : rule.waitsFor name = true
      · rw [validate_resolved hknown hparse hrule hwaits order,
          validate_resolved hknown hparse hrule hwaits order']
      · rw [resolve_other (eq_false_of_ne_true hwaits) order order']
    simp only [hrules]

/-- A rule that is checked and rejects its field makes the publish fail. -/
theorem fails_of_error (order : Order) (hparse : ctx.libs.parse envelope.payloadJson = .ok payload)
    {rule : ValidationRule} (hrule : rule ∈ schema.rules) {error : String}
    (herror : (rule.resolve (order.known name validator ctx.validator)).validate ctx.libs payload =
      .ok (some error)) {validation : ValidationResult}
    (hok : publishErrors { ctx with
        validator := order.register name validator envelope.queue schema ctx.validator } envelope =
      .ok validation) : validation.valid = false := by
  have hne := ruleErrors_ne_nil (List.mem_map_of_mem hrule) herror
  rw [publishErrors_register, hparse] at hok
  cases herrors : MessageValidator.ruleErrors ctx.libs payload
      (schema.rules.map (ValidationRule.resolve (order.known name validator ctx.validator))) with
  | error what =>
    simp only [herrors] at hok
    exact absurd hok (by simp [bind, Except.bind])
  | ok errors =>
    simp only [herrors] at hok
    rw [herrors] at hne
    have hvalidation : (⟨errors.isEmpty, errors⟩ : ValidationResult) = validation :=
      Except.ok.inj hok
    rw [← hvalidation]
    cases errors with
    | nil => exact absurd rfl hne
    | cons => rfl

/-- A rule that is checked in the second order shows how the validator answers. -/
theorem known_of_checked (hchecked : ∀ payload, ctx.libs.parse envelope.payloadJson = .ok payload →
    List.Forall₂ (fun rule stored : ValidationRule => rule.waitsFor name = true →
        stored.validate ctx.libs payload =
          ({ rule with customValidator := some validator } : ValidationRule).validate ctx.libs
            payload)
      schema.rules ((Order.schemaFirst.register name validator envelope.queue schema
        ctx.validator).rulesOf envelope.queue)) :
    Known ctx name validator schema envelope := by
  intro payload hparse rule hrule hwaits value hget
  have hrules := hchecked payload hparse
  rw [rulesOf_register, List.forall₂_map_right_iff, List.forall₂_same] at hrules
  have htype := (waitsFor_iff.mp hwaits).1
  have hsame := hrules rule hrule hwaits
  rw [resolve_waiting _ hwaits, known_lookup_self, validate_custom payload _ htype,
    validate_custom payload _ htype, hget] at hsame
  have hmap : (answer ctx.libs (ctx.validator.customValidators.lookup name) value).map
      rule.customError = (answer ctx.libs (some validator) value).map rule.customError := hsame
  -- the error of a rule tells whether it accepts
  cases hold : answer ctx.libs (ctx.validator.customValidators.lookup name) value <;>
    cases hnew : answer ctx.libs (some validator) value <;>
      rw [hold, hnew] at hmap <;>
        simp only [Except.map, Except.error.injEq, Except.ok.injEq, reduceCtorEq] at hmap
  case error.error => rw [hmap]
  case ok.ok => rw [customError_inj hmap]

/-- **A validator does what it owes exactly when it answers, on the fields in question, like what
    was registered under its name before the schema: an accepted value, if nothing was.** -/
theorem settled_iff (ctx : Context) (name : String) (validator : String → Bool)
    (schema : MessageSchema) (envelope : MessageEnvelope) :
    Settled ctx name validator schema envelope ↔ Known ctx name validator schema envelope := by
  constructor
  · intro hsettled
    exact known_of_checked fun payload hparse => hsettled.checked .schemaFirst payload hparse
  · intro hknown
    refine ⟨same_of_known hknown, ?_, ?_⟩
    · intro order payload hparse rule hrule hwaits value hget text hdump hreject validation hok
      have htype := (waitsFor_iff.mp hwaits).1
      have herror : (rule.resolve (order.known name validator ctx.validator)).validate ctx.libs
          payload = .ok (rule.customError false) := by
        rw [validate_resolved hknown hparse hrule hwaits order, validate_custom payload _ htype,
          hget]
        simp only [answer, hdump, Except.map, hreject]
      exact fails_of_error order hparse hrule herror hok
    · intro order payload hparse
      rw [rulesOf_register, List.forall₂_map_right_iff, List.forall₂_same]
      intro rule hrule hwaits
      exact validate_resolved hknown hparse hrule hwaits order

/-- A schema whose one rule names the validator `positive`. -/
def positiveAmount : MessageSchema :=
  { rules := [{ field := "amount", type := .custom, customValidatorName := "positive" }] }

/-- The validator is registered after the schema and rejects everything; the message passes. -/
theorem skipped_validator :
    let text := "\x7b\"amount\":-5\x7d"
    let envelope : MessageEnvelope :=
      { key := "k", messageId := "m", queue := "q", payloadJson := text, attributesJson := "" }
    let ctx : Context :=
      { libs := .ofTable [(text, .obj [("amount", .int (-5))])]
        validator := {}, policies := fun _ => none, metrics := {}
        env := { now := 1, now_pos := Int.one_pos } }
    let register := fun order : Order =>
      order.register "positive" (fun _ => false) "q" positiveAmount ctx.validator
    publishErrors { ctx with validator := register .schemaFirst } envelope = .ok {} ∧
    publishErrors { ctx with validator := register .validatorFirst } envelope =
      .ok ⟨false, ["field 'amount' failed custom validation"]⟩ := by
  exact ⟨rfl, rfl⟩

end YirangMQ.Mailbox
