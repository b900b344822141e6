import YirangMQ.Configurations.Configurations

namespace YirangMQ

/-!
# Command lines

What `ArgumentParser::parse` makes of a command line of documented options, and what the consumer's
`nack` command sends for it.  An option is given as a name and a value, or it is a flag and has no
value; the parser has no table that says which, and only knows `--help` and `--version`.

* `CommandLine` — a command followed by options, in any order;
* `CommandLine.Keeps` — the parser has kept every option, and nothing else;
* `keeps_line_iff` — **it keeps them exactly when `--requeue` is not among them.**
-/

/-- The text is read as the name of an option. -/
def isOption (text : String) : Bool := ['-', '-'].isPrefixOf text.toList

/-- The options without a value: the one of the consumer, and those the parser knows. -/
def flags : List String := ["--requeue", "--help", "--version"]

/-- An option as it is given on a command line. -/
inductive GivenOption where
  | valued (name value : String)
  | flag (name : String)
  deriving DecidableEq, Repr

namespace GivenOption

/-- The option is used as it is documented. -/
def Documented : GivenOption → Prop
  | valued name value => isOption name = true ∧ name ∉ flags ∧ isOption value = false
  | flag name => name ∈ flags

/-- Whether an option is documented can be computed. -/
instance (option : GivenOption) : Decidable option.Documented :=
  match option with
  | valued name value =>
    inferInstanceAs (Decidable (isOption name = true ∧ name ∉ flags ∧ isOption value = false))
  | flag name => inferInstanceAs (Decidable (name ∈ flags))

/-- The arguments the option takes up. -/
def arguments : GivenOption → List String
  | valued name value => [name, value]
  | flag name => [name]

/-- The value the option gives to a name. -/
def valueFor (name : String) : GivenOption → Option String
  | valued name' value => if name' = name then some value else none
  | flag _ => none

end GivenOption

/-- A command line: the command, if one is named, and the options after it. -/
structure CommandLine where
  words : List String
  options : List GivenOption
  plain : ∀ word ∈ words, isOption word = false
  documented : ∀ option ∈ options, option.Documented

/-- `cmd_nack` up to its request: the payload that is sent, or the error. -/
def nackPayload (args : ArgumentParser) (consumerId : String) : Except String (Json String) :=
  let leaseId := args.toString "--lease-id"
  let reason := args.toString "--reason"
  let requeue := (args.toString "--requeue").isSome
  match args.toString "--message-key" with
  | none => .error "--message-key is required"
  | some messageKey => .ok (.obj ([("messageKey", .str messageKey)] ++
      (leaseId.map fun id => ("leaseId", Json.str id)).toList ++
      [("consumerId", .str consumerId), ("reason", .str (reason.getD "")),
        ("requeue", .bool requeue)]))

namespace CommandLine

/-- The words of a command line: the command and what stands with it, and then the options. -/
def arguments (line : CommandLine) : List String :=
  line.words ++ line.options.flatMap GivenOption.arguments

/-- The last value given to a name. -/
def lastValue (name : String) (options : List GivenOption) : Option String :=
  (options.filterMap (GivenOption.valueFor name)).getLast?

/-- The parser has kept the command line. -/
structure Keeps (line : CommandLine) (args : ArgumentParser) : Prop where
  /-- a valued option has the value that was given last -/
  valued : ∀ name, name ∉ flags → args.toString name = lastValue name line.options
  /-- a flag is there when it was given -/
  given : ∀ name ∈ flags, (args.toString name).isSome = true ↔ .flag name ∈ line.options
  /-- and has not taken an option as its value -/
  apart : ∀ name ∈ flags, ∀ value, args.toString name = some value → isOption value = false
  /-- `nack` asks to requeue when it was told to. -/
  requeue : ∀ consumerId payload, nackPayload args consumerId = .ok payload →
    payload.get? "requeue" = some (.bool (decide (.flag "--requeue" ∈ line.options)))

end CommandLine

/-! ### The map of the parser -/

namespace ArgumentParser

variable {args : ArgumentParser} {name name' value : String} {rest : List String}

/-- What is read after an insertion, which keeps an earlier value. -/
theorem toString_insert : (args.insert name value).toString name' =
    if name' = name then some ((args.toString name).getD value) else args.toString name' := by
  rw [insert]
  cases hname : args.toString name with
  | some value' =>
    by_cases h : name' = name
    · rw [if_pos h, h, hname, Option.getD_some]
    · rw [if_neg h]
  | none =>
    show ((name, value) :: args.arguments).lookup name' = _
    rw [List.lookup_cons]
    by_cases h : name' = name
    · rw [if_pos h, beq_iff_eq.mpr h]
      rfl
    · rw [if_neg h, beq_false_of_ne h]
      rfl

/-- What is read after an assignment, which does not. -/
theorem toString_assign : (args.assign name value).toString name' =
    if name' = name then some value else args.toString name' := by
  show ((name, value) :: args.arguments.filter fun argument => argument.1 ≠ name).lookup name' = _
  rw [List.lookup_cons]
  by_cases h : name' = name
  · rw [if_pos h, beq_iff_eq.mpr h]
  · have hfilter := Json.lookup_filter_ne args.arguments name name'
    rw [if_neg h] at hfilter
    rw [if_neg h, beq_false_of_ne h]
    exact hfilter

/-! ### What the loop does with an option -/

/-- A word that is no option is passed over. -/
theorem parseInto_word (hword : isOption name = false) :
    args.parseInto (name :: rest) = args.parseInto rest := by
  have hprefix : ¬['-', '-'].isPrefixOf name.toList = true := by
    rw [Bool.not_eq_true]
    exact hword
  cases rest with
  | nil => exact if_neg hprefix
  | cons value rest => exact if_neg hprefix

/-- Words that are no options are passed over. -/
theorem parseInto_words {words : List String} (hwords : ∀ word ∈ words, isOption word = false) :
    args.parseInto (words ++ rest) = args.parseInto rest := by
  induction words with
  | nil => rfl
  | cons word words ih =>
    rw [List.forall_mem_cons] at hwords
    rw [List.cons_append, parseInto_word hwords.1, ih hwords.2]

/-- Any name but the two that the parser knows takes the next argument as its value. -/
theorem parseInto_option (hname : isOption name = true) (hhelp : name ≠ "--help")
    (hversion : name ≠ "--version") :
    args.parseInto (name :: value :: rest) = (args.assign name value).parseInto rest := by
  have hprefix : ['-', '-'].isPrefixOf name.toList = true := hname
  rw [parseInto, if_pos hprefix, if_neg hhelp, if_neg hversion]

/-- It is dropped where there is none. -/
theorem parseInto_last (hname : isOption name = true) (hhelp : name ≠ "--help")
    (hversion : name ≠ "--version") : args.parseInto [name] = args := by
  have hprefix : ['-', '-'].isPrefixOf name.toList = true := hname
  rw [parseInto, if_pos hprefix, if_neg hhelp, if_neg hversion]

/-- `--help` stands for itself. -/
theorem parseInto_help : args.parseInto ("--help" :: rest) =
    (args.insert "--help" "display help").parseInto rest := by
  have hprefix : ['-', '-'].isPrefixOf "--help".toList = true := by decide
  cases rest with
  | nil => exact (if_pos hprefix).trans (if_pos rfl)
  | cons value rest => exact (if_pos hprefix).trans (if_pos rfl)

/-- `--version` stands for itself. -/
theorem parseInto_version : args.parseInto ("--version" :: rest) =
    (args.insert "--version" "display version").parseInto rest := by
  have hprefix : ['-', '-'].isPrefixOf "--version".toList = true := by decide
  have hhelp : "--version" ≠ "--help" := by decide
  cases rest with
  | nil => exact (if_pos hprefix).trans ((if_neg hhelp).trans (if_pos rfl))
  | cons value rest => exact (if_pos hprefix).trans ((if_neg hhelp).trans (if_pos rfl))

end ArgumentParser

namespace CommandLine

open ArgumentParser

/-! ### Without `--requeue` -/

/-- What an option does to the map when the parser reads it as it is meant. -/
def take (args : ArgumentParser) : GivenOption → ArgumentParser
  | .valued name value => args.assign name value
  | .flag name =>
    args.insert name (if name = "--help" then "display help" else "display version")

variable {args : ArgumentParser} {options : List GivenOption} {name : String}

/-- A documented option with a value is neither help nor version, and its value is no option. -/
theorem documented_valued {value : String}
    (h : (GivenOption.valued name value).Documented) :
    isOption name = true ∧ name ≠ "--help" ∧ name ≠ "--version" ∧ isOption value = false := by
  obtain ⟨hname, hflag, hvalue⟩ := h
  simp only [flags, List.mem_cons, List.not_mem_nil, or_false, not_or] at hflag
  exact ⟨hname, hflag.2.1, hflag.2.2, hvalue⟩

/-- **Documented options are all taken**, one after the other, where `--requeue` is not among
    them. -/
theorem parseInto_options (hdocumented : ∀ option ∈ options, option.Documented)
    (hrequeue : .flag "--requeue" ∉ options) :
    args.parseInto (options.flatMap GivenOption.arguments) = options.foldl take args := by
  induction options generalizing args with
  | nil => rfl
  | cons option options ih =>
    rw [List.forall_mem_cons] at hdocumented
    rw [List.mem_cons, not_or] at hrequeue
    have hrest := fun args => @ih args hdocumented.2 hrequeue.2
    rw [List.flatMap_cons, List.foldl_cons, ← hrest]
    cases option with
    | valued name value =>
      obtain ⟨hname, hhelp, hversion, -⟩ := documented_valued hdocumented.1
      exact parseInto_option hname hhelp hversion
    | flag name =>
      have hflag : name ∈ flags := hdocumented.1
      simp only [flags, List.mem_cons, List.not_mem_nil, or_false] at hflag
      rcases hflag with hname | hname | hname
      · exact absurd (congrArg GivenOption.flag hname.symm) hrequeue.1
      · rw [hname]
        exact parseInto_help
      · rw [hname]
        exact parseInto_version

/-- The last value is kept, and what was there before when there is none. -/
theorem foldl_take_valued (hname : name ∉ flags)
    (hdocumented : ∀ option ∈ options, option.Documented) :
    (options.foldl take args).toString name =
      (lastValue name options).or (args.toString name) := by
  induction options generalizing args with
  | nil => rfl
  | cons option options ih =>
    rw [List.forall_mem_cons] at hdocumented
    rw [List.foldl_cons, ih hdocumented.2, lastValue, lastValue]
    cases option with
    | valued name' value =>
      rw [take, toString_assign]
      by_cases h : name = name'
      · have hvalue : GivenOption.valueFor name (.valued name' value) = some value :=
          if_pos h.symm
        rw [if_pos h, List.filterMap_cons_some hvalue, List.getLast?_cons]
        cases (options.filterMap (GivenOption.valueFor name)).getLast? with
        | none => rfl
        | some last => rfl
      · have hvalue : GivenOption.valueFor name (.valued name' value) = none :=
          if_neg (Ne.symm h)
        rw [if_neg h, List.filterMap_cons_none hvalue]
    | flag name' =>
      have hne : name ≠ name' := fun h => hname (h ▸ hdocumented.1)
      rw [take, toString_insert, if_neg hne, List.filterMap_cons_none rfl]

/-- A flag that is given is there, and its text is none of an option. -/
theorem foldl_take_flag (hname : name ∈ flags)
    (hdocumented : ∀ option ∈ options, option.Documented)
    (happart : ∀ value, args.toString name = some value → isOption value = false) :
    (((options.foldl take args).toString name).isSome = true ↔
      .flag name ∈ options ∨ (args.toString name).isSome = true) ∧
    ∀ value, (options.foldl take args).toString name = some value → isOption value = false := by
  -- The induction is on the options, with the arguments taken so far in general: an option with a
  -- value has another name, and a flag of the same name keeps an earlier text or takes its own.
  induction options generalizing args with
  | nil =>
    refine ⟨?_, happart⟩
    simp
  | cons option options ih =>
    rw [List.forall_mem_cons] at hdocumented
    rw [List.foldl_cons]
    cases option with
    | valued name' value' =>
      have hne : name ≠ name' := fun h => hdocumented.1.2.1 (h ▸ hname)
      have hkept : (take args (.valued name' value')).toString name = args.toString name := by
        rw [take, toString_assign, if_neg hne]
      obtain ⟨hgiven, hvalue⟩ := @ih (take args (.valued name' value')) hdocumented.2 (hkept ▸ happart)
      rw [hgiven, hkept]
      refine ⟨?_, hvalue⟩
      simp
    | flag name' =>
      have htaken : (take args (.flag name')).toString name =
          if name = name' then some ((args.toString name').getD
            (if name' = "--help" then "display help" else "display version"))
          else args.toString name := toString_insert
      have happart' : ∀ value, (take args (.flag name')).toString name = some value →
          isOption value = false := by
        intro value hvalue
        rw [htaken] at hvalue
        by_cases h : name = name'
        · subst h
          rw [if_pos rfl] at hvalue
          -- The first flag of the name leaves its text, and later ones keep it.
          cases hthere : args.toString name with
          | some old =>
            rw [hthere] at hvalue
            exact happart value (hthere.trans hvalue)
          | none =>
            rw [hthere, Option.getD_none, Option.some.injEq] at hvalue
            rw [← hvalue]
            split <;> decide
        · rw [if_neg h] at hvalue
          exact happart value hvalue
      obtain ⟨hgiven, hvalue⟩ := @ih (take args (.flag name')) hdocumented.2 happart'
      rw [hgiven, htaken]
      refine ⟨?_, hvalue⟩
      by_cases h : name = name'
      · simp [h]
      · simp [h]

/-! ### With `--requeue` -/

/-- `--requeue` is not in the map, or has an option as its value. -/
def Spoilt (args : ArgumentParser) : Prop :=
  ∀ value, args.toString "--requeue" = some value → isOption value = true

/-- A spoilt line stays so while other options are assigned. -/
theorem Spoilt.assign (h : Spoilt args) {value : String}
    (hvalue : name = "--requeue" → isOption value = true) : Spoilt (args.assign name value) := by
  intro value' hvalue'
  rw [toString_assign] at hvalue'
  by_cases hname : "--requeue" = name
  · rw [if_pos hname] at hvalue'
    cases hvalue'
    exact hvalue hname.symm
  · rw [if_neg hname] at hvalue'
    exact h value' hvalue'

/-- It stays so while other options are inserted. -/
theorem Spoilt.insert (h : Spoilt args) {value : String} (hname : name ≠ "--requeue") :
    Spoilt (args.insert name value) := by
  intro value' hvalue'
  rw [toString_insert, if_neg (Ne.symm hname)] at hvalue'
  exact h value' hvalue'

/-- An option follows `--requeue` and is taken for its value; the value of that option is passed
    over as a word. -/
theorem parseInto_requeue {option : GivenOption} (hdocumented : option.Documented)
    (options : List GivenOption) :
    ∃ value, isOption value = true ∧
      args.parseInto ((GivenOption.flag "--requeue" :: option :: options).flatMap
        GivenOption.arguments) =
      (args.assign "--requeue" value).parseInto (options.flatMap GivenOption.arguments) := by
  cases option with
  | valued name value =>
    obtain ⟨hname, -, -, hvalue⟩ := documented_valued hdocumented
    exact ⟨name, hname, (parseInto_option (by decide) (by decide) (by decide)).trans
      (parseInto_word hvalue)⟩
  | flag name =>
    have hname : isOption name = true := by
      have hflag : name ∈ flags := hdocumented
      simp only [flags, List.mem_cons, List.not_mem_nil, or_false] at hflag
      rcases hflag with rfl | rfl | rfl <;> decide
    exact ⟨name, hname, parseInto_option (by decide) (by decide) (by decide)⟩

/-- A flag other than `--requeue` is taken by itself, and leaves a spoilt line spoilt. -/
theorem Spoilt.parseInto_flag (h : Spoilt args) (hflag : name ∈ flags) (hname : name ≠ "--requeue")
    (options : List GivenOption) :
    ∃ args', Spoilt args' ∧
      args.parseInto ((GivenOption.flag name :: options).flatMap GivenOption.arguments) =
        args'.parseInto (options.flatMap GivenOption.arguments) := by
  simp only [flags, List.mem_cons, List.not_mem_nil, or_false] at hflag
  rcases hflag with rfl | rfl | rfl
  · exact absurd rfl hname
  · exact ⟨args.insert "--help" "display help", h.insert hname, parseInto_help⟩
  · exact ⟨args.insert "--version" "display version", h.insert hname, parseInto_version⟩

/-- Wherever `--requeue` is among options, the parser reads on at the end of an option, and the map
    stays spoilt. -/
theorem Spoilt.parseInto : ∀ (options : List GivenOption) {args : ArgumentParser},
    Spoilt args → (∀ option ∈ options, option.Documented) →
    Spoilt (args.parseInto (options.flatMap GivenOption.arguments))
  | [], args, h, _ => h
  | .valued name value :: options, args, h, hdocumented => by
    rw [List.forall_mem_cons] at hdocumented
    obtain ⟨hname, hhelp, hversion, hvalue⟩ := documented_valued hdocumented.1
    have hread : args.parseInto ((GivenOption.valued name value :: options).flatMap
        GivenOption.arguments) =
        (args.assign name value).parseInto (options.flatMap GivenOption.arguments) :=
      parseInto_option hname hhelp hversion
    rw [hread]
    apply Spoilt.parseInto options (h.assign ?_) hdocumented.2
    intro hrequeue
    exact absurd (hrequeue ▸ (by decide : "--requeue" ∈ flags)) hdocumented.1.2.1
  | [.flag name], args, h, hdocumented => by
    by_cases hname : name = "--requeue"
    · -- the last word is `--requeue`, which has no value and is dropped
      have hread : args.parseInto ([GivenOption.flag name].flatMap GivenOption.arguments) =
          args := by
        rw [hname]
        exact parseInto_last (by decide) (by decide) (by decide)
      rw [hread]
      exact h
    · obtain ⟨args', h', hread⟩ :=
        h.parseInto_flag (hdocumented _ List.mem_cons_self) hname []
      rw [hread]
      exact h'
  | .flag name :: option :: options, args, h, hdocumented => by
    rw [List.forall_mem_cons, List.forall_mem_cons] at hdocumented
    by_cases hname : name = "--requeue"
    · obtain ⟨value, hvalue, hread⟩ := @parseInto_requeue args option hdocumented.2.1 options
      rw [hname, hread]
      exact Spoilt.parseInto options (h.assign fun _ => hvalue) hdocumented.2.2
    · obtain ⟨args', h', hread⟩ := h.parseInto_flag hdocumented.1 hname (option :: options)
      rw [hread]
      exact Spoilt.parseInto (option :: options) h' (List.forall_mem_cons.mpr hdocumented.2)

/-! ### What is kept -/

/-- The payload asks to requeue exactly when the map has the flag. -/
theorem nackPayload_requeue {consumerId : String} {payload : Json String}
    (h : nackPayload args consumerId = .ok payload) :
    payload.get? "requeue" = some (.bool (args.toString "--requeue").isSome) := by
  rw [nackPayload] at h
  cases hkey : args.toString "--message-key" with
  | none =>
    rw [hkey] at h
    cases h
  | some messageKey =>
    rw [hkey] at h
    cases h
    cases args.toString "--lease-id" with
    | none => rfl
    | some leaseId => rfl

/-- The words of a command line are parsed from its first option on. -/
theorem parse_arguments (line : CommandLine) : ArgumentParser.parse line.arguments =
    parseInto {} (line.options.flatMap GivenOption.arguments) := parseInto_words line.plain

/-- **The parser keeps a command line exactly when it has no `--requeue`**, the one flag that the
    parser does not know. -/
theorem keeps_line_iff (line : CommandLine) :
    line.Keeps (ArgumentParser.parse line.arguments) ↔ .flag "--requeue" ∉ line.options := by
  rw [parse_arguments]
  constructor
  -- The flag is kept with a text that is an option, or not at all.
  · intro hkeeps hrequeue
    have hempty : Spoilt {} := by
      intro value hvalue
      cases hvalue
    have hspoilt := hempty.parseInto line.options line.documented
    have hflag : "--requeue" ∈ flags := by decide
    obtain ⟨value, hvalue⟩ :=
      Option.isSome_iff_exists.mp ((hkeeps.given "--requeue" hflag).mpr hrequeue)
    have hoption := hspoilt value hvalue
    rw [hkeeps.apart "--requeue" hflag value hvalue] at hoption
    cases hoption
  -- Every other flag has a text of its own, so what follows it is not taken for its value.
  · intro hrequeue
    have hflags := fun name hname => @foldl_take_flag {} line.options name hname line.documented
      (by intro value hvalue; cases hvalue)
    have hgiven : ∀ name ∈ flags, ((line.options.foldl take {}).toString name).isSome = true ↔
        .flag name ∈ line.options := by
      intro name hname
      rw [(hflags name hname).1]
      exact or_iff_left (fun h => Bool.false_ne_true h)
    rw [parseInto_options line.documented hrequeue]
    refine ⟨?_, hgiven, fun name hname => (hflags name hname).2, ?_⟩
    · intro name hname
      rw [foldl_take_valued hname line.documented]
      exact Option.or_none
    · intro consumerId payload hpayload
      rw [nackPayload_requeue hpayload]
      refine congrArg (fun b => some (Json.bool b)) ?_
      rw [Bool.eq_iff_iff, decide_eq_true_iff]
      exact hgiven "--requeue" (by decide)

/-- The example of the documentation: the trailing `--requeue` is dropped, and the message is not
    asked to be requeued. -/
def documentedNack : CommandLine where
  words := ["nack"]
  options := [.valued "--message-key" "msg:telemetry:ABC123", .valued "--reason" "DB error",
    .flag "--requeue"]
  plain := by decide
  documented := by decide

/-- The documented `nack` with `--requeue` as its last word does not requeue. -/
theorem requeue_dropped : ¬documentedNack.Keeps (ArgumentParser.parse documentedNack.arguments) ∧
    ∃ payload, nackPayload (ArgumentParser.parse documentedNack.arguments) "consumer" =
      .ok payload ∧ payload.get? "requeue" = some (.bool false) := by
  have hdropped :
      ((ArgumentParser.parse documentedNack.arguments).toString "--requeue").isSome = false := by
    decide
  constructor
  · intro hkeeps
    have hgiven := (hkeeps.given "--requeue" (by decide)).mpr (by decide)
    rw [hdropped] at hgiven
    cases hgiven
  · have hpayload : nackPayload (ArgumentParser.parse documentedNack.arguments) "consumer" =
        .ok _ := rfl
    refine ⟨_, hpayload, ?_⟩
    rw [nackPayload_requeue hpayload, hdropped]

end CommandLine

end YirangMQ
