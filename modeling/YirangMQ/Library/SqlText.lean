import Mathlib.Data.List.Basic

namespace YirangMQ.SqlText

/-!
# SQL texts

A library that executes a text reads it up to its first NUL character, takes it apart into
tokens and runs every statement between semicolons.  A program that formats values into its
texts writes what it means only when the tokens are those of the statement with the values
bound to parameters.

* `Token`, `scan` — the tokens of a text, read by a machine that takes one character at a time;
* `executed` — the statements a library runs for a text;
* `Template` — a statement with the places where names, numbers and strings are spliced in;
* `Template.text` / `Template.bound` — its text with the strings between apostrophes, and its
  tokens with the strings bound to parameters;
* `executed_text_iff` — **the text means the bound statement exactly when no string contains an
  apostrophe or a NUL character.**
-/

/-! ### Tokens -/

/-- A token: keywords, names, numbers and variables are words alike. -/
inductive Token where
  | word (text : String)
  | literal (value : String)
  | name (text : String)
  | symbol (text : String)
  | parameter
  | illegal
  deriving DecidableEq, Repr

/-- The token that ends a statement. -/
def semicolon : Token := .symbol ";"

/-- The white space between tokens. -/
def isSpace (c : Char) : Bool := c = ' ' ∨ c = '\t' ∨ c = '\n' ∨ c = '\r' ∨ c = '\x0c'

/-- Letters, digits, `_`, `$` and everything beyond ASCII. -/
def isWordChar (c : Char) : Bool := c.isAlphanum ∨ c = '_' ∨ c = '$' ∨ 128 ≤ c.toNat

/-- The operators of more than one character. -/
def operators : List (List Char) :=
  [['<', '='], ['<', '>'], ['<', '<'], ['>', '='], ['>', '>'], ['=', '='], ['!', '='],
    ['|', '|'], ['-', '>'], ['-', '>', '>']]

/-- Where the machine is; what has been read of a token comes newest first. -/
inductive Mode where
  | between
  | word (read : List Char)
  | operator (read : List Char)
  | literal (read : List Char)
  /-- After an apostrophe in a literal, which ends it or is the first of two. -/
  | closing (read : List Char)
  | name (delimiter : Char) (read : List Char)
  | closingName (delimiter : Char) (read : List Char)
  | bracket (read : List Char)
  | lineComment
  | comment (star : Bool)
  deriving DecidableEq, Repr

/-- The text of what has been read. -/
def readText (read : List Char) : String := String.ofList read.reverse

/-- The token of an operator, or an error for characters that are none. -/
def operatorToken (read : List Char) : Token :=
  if read = ['!'] then .illegal else .symbol (readText read)

/-- The first character of a token. -/
def first (c : Char) : List Token × Mode :=
  if isSpace c then ([], .between)
  else if isWordChar c ∨ c = ':' ∨ c = '@' ∨ c = '#' then ([], .word [c])
  else if c = '\'' then ([], .literal [])
  else if c = '"' ∨ c.toNat = 96 then ([], .name c [])
  else if c = '[' then ([], .bracket [])
  else if c = '?' then ([.parameter], .between)
  else if c ∈ ['-', '/', '<', '>', '=', '!', '|'] then ([], .operator [c])
  else if c ∈ ['(', ')', ',', ';', '+', '*', '%', '&', '~', '.'] then
    ([.symbol (String.singleton c)], .between)
  else ([.illegal], .between)

/-- The character after the end of a token. -/
def next (token : Token) (c : Char) : List Token × Mode := (token :: (first c).1, (first c).2)

/-- The tokens a character completes, and where the machine is after it. -/
def Mode.step : Mode → Char → List Token × Mode
  | .between, c => first c
  | .word read, c => if isWordChar c then ([], .word (c :: read)) else next (.word (readText read)) c
  | .operator read, c =>
    if read = ['-'] ∧ c = '-' then ([], .lineComment)
    else if read = ['/'] ∧ c = '*' then ([], .comment false)
    else if (c :: read).reverse ∈ operators then ([], .operator (c :: read))
    else next (operatorToken read) c
  | .literal read, c => if c = '\'' then ([], .closing read) else ([], .literal (c :: read))
  | .closing read, c =>
    if c = '\'' then ([], .literal (c :: read)) else next (.literal (readText read)) c
  | .name d read, c => if c = d then ([], .closingName d read) else ([], .name d (c :: read))
  | .closingName d read, c =>
    if c = d then ([], .name d (c :: read)) else next (.name (readText read)) c
  | .bracket read, c =>
    if c = ']' then ([.name (readText read)], .between) else ([], .bracket (c :: read))
  | .lineComment, c => if c = '\n' then ([], .between) else ([], .lineComment)
  | .comment star, c =>
    if star ∧ c = '/' then ([], .between) else ([], .comment (c = '*'))

/-- The token the end of the text completes. -/
def Mode.finish : Mode → List Token
  | .between | .lineComment | .comment _ => []
  | .word read => [.word (readText read)]
  | .operator read => [operatorToken read]
  | .closing read => [.literal (readText read)]
  | .closingName _ read => [.name (readText read)]
  | .literal _ | .name _ _ | .bracket _ => [.illegal]

/-- The tokens of a text. -/
def scan (m : Mode) : List Char → List Token
  | [] => m.finish
  | c :: cs => (m.step c).1 ++ scan (m.step c).2 cs

/-- The tokens a text completes, and where the machine is at its end. -/
def reads (m : Mode) : List Char → List Token × Mode
  | [] => ([], m)
  | c :: cs => ((m.step c).1 ++ (reads (m.step c).2 cs).1, (reads (m.step c).2 cs).2)

/-- What a library reads of a text: it ends at the first NUL character. -/
def cut (text : List Char) : List Char := text.takeWhile (· ≠ '\x00')

/-- The statements between the semicolons. -/
def statements (tokens : List Token) : List (List Token) :=
  (tokens.splitOnP (· = semicolon)).filter (· ≠ [])

/-- The statements a library runs for a text. -/
def executed (text : List Char) : List (List Token) := statements (scan .between (cut text))

section Scanning

variable {m : Mode} {c : Char} {read text rest : List Char} {s v : String}

/-- A text is scanned part by part. -/
theorem scan_append : scan m (text ++ rest) = (reads m text).1 ++ scan (reads m text).2 rest := by
  induction text generalizing m with
  | nil => rfl
  | cons c text ih =>
    rw [List.cons_append, scan, ih, reads, List.append_assoc]

/-- The cut of a text without a NUL character keeps it whole. -/
theorem cut_append (h : '\x00' ∉ text) : cut (text ++ rest) = text ++ cut rest := by
  refine List.takeWhile_append_of_pos ?_
  intro c hc
  have hne : c ≠ '\x00' := fun he => h (he ▸ hc)
  simpa using hne

/-- A NUL character cuts the text it is in. -/
theorem length_cut_append (h : '\x00' ∈ text) (rest : List Char) :
    (cut (text ++ rest)).length < text.length := by
  induction text with
  | nil => simp at h
  | cons c text ih =>
    by_cases hc : c = '\x00'
    · simp [cut, hc]
    · have hmem : '\x00' ∈ text := by simpa [Ne.symm hc] using h
      simpa [cut, hc] using ih hmem

/-! ### Words -/

/-- A text that is read as one word. -/
structure Word where
  text : String
  nonempty : text ≠ ""
  isWord : text.toList.all isWordChar = true

/-- Every character of a word is a word character. -/
theorem Word.isWordChar (word : Word) : ∀ c ∈ word.text.toList, SqlText.isWordChar c = true :=
  List.all_eq_true.mp word.isWord

/-- A character after which another token begins: the templates have no other next to a place
    where something is spliced in. -/
def isDelimiter (c : Char) : Bool := c = ' ' ∨ c = ',' ∨ c = ')'

/-- The text is at its end or at a delimiter. -/
def Delimited (text : List Char) : Prop := ∀ c ∈ text.head?, isDelimiter c = true

/-- The delimiters, one by one. -/
theorem eq_of_isDelimiter (h : isDelimiter c = true) : c = ' ' ∨ c = ',' ∨ c = ')' := by
  simpa [isDelimiter] using h

/-- A delimiter ends a word. -/
theorem isWordChar_of_isDelimiter (h : isDelimiter c = true) : isWordChar c = false := by
  obtain rfl | rfl | rfl := eq_of_isDelimiter h <;> decide

/-- A delimiter is no apostrophe, so it ends a literal as well. -/
theorem ne_apostrophe_of_isDelimiter (h : isDelimiter c = true) : c ≠ '\'' := by
  obtain rfl | rfl | rfl := eq_of_isDelimiter h <;> decide

/-- What a word character is not. -/
theorem isWordChar_ne (h : isWordChar c = true) : c ≠ '\x00' ∧ c ≠ '\'' ∧ isSpace c = false := by
  refine ⟨?_, ?_, ?_⟩
  · rintro rfl
    exact absurd h (by decide)
  · rintro rfl
    exact absurd h (by decide)
  · rw [Bool.eq_false_iff]
    intro hspace
    simp only [isSpace, decide_eq_true_eq] at hspace
    obtain rfl | rfl | rfl | rfl | rfl := hspace
    all_goals exact absurd h (by decide)

/-- A cut text still starts with a delimiter, or is empty. -/
theorem Delimited.cut (h : Delimited rest) : Delimited (cut rest) := by
  intro c hc
  cases rest with
  | nil => simp [SqlText.cut] at hc
  | cons d rest =>
    have hd : isDelimiter d = true := h d rfl
    by_cases hnul : d = '\x00'
    · simp [SqlText.cut, hnul] at hc
    · have hcd : d = c := by simpa [SqlText.cut, hnul] using hc
      exact hcd ▸ hd

/-- A word is complete where another token begins. -/
theorem scan_word_delimited (h : Delimited rest) :
    scan (.word read) rest = .word (readText read) :: scan .between rest := by
  cases rest with
  | nil => rfl
  | cons c rest =>
    have hc : isWordChar c = false := isWordChar_of_isDelimiter (h c rfl)
    simp [scan, Mode.step, hc, next]

/-- A literal is complete where another token begins. -/
theorem scan_closing_delimited (h : Delimited rest) :
    scan (.closing read) rest = .literal (readText read) :: scan .between rest := by
  cases rest with
  | nil => rfl
  | cons c rest =>
    have hc : c ≠ '\'' := ne_apostrophe_of_isDelimiter (h c rfl)
    simp [scan, Mode.step, hc, next]

/-- Word characters add to the word that is being read. -/
theorem reads_word (h : ∀ c ∈ text, isWordChar c = true) :
    reads (.word read) text = ([], .word (text.reverse ++ read)) := by
  induction text generalizing read with
  | nil => rfl
  | cons c text ih =>
    have hc : isWordChar c = true := h c List.mem_cons_self
    have htext : ∀ d ∈ text, isWordChar d = true := fun d hd => h d (List.mem_cons_of_mem c hd)
    simp [reads, Mode.step, hc, ih htext]

/-- Word characters are read as one word. -/
theorem scan_chars (hne : text ≠ []) (h : ∀ c ∈ text, isWordChar c = true)
    (hrest : Delimited rest) :
    scan .between (text ++ rest) = .word (String.ofList text) :: scan .between rest := by
  cases text with
  | nil => exact absurd rfl hne
  | cons c text =>
    have hc : isWordChar c = true := h c List.mem_cons_self
    have htext : ∀ d ∈ text, isWordChar d = true := fun d hd => h d (List.mem_cons_of_mem c hd)
    have hspace : isSpace c = false := (isWordChar_ne hc).2.2
    have hfirst : first c = ([], .word [c]) := by simp [first, hspace, hc]
    rw [List.cons_append, scan, Mode.step, hfirst, List.nil_append, scan_append, reads_word htext,
      List.nil_append, scan_word_delimited hrest]
    simp [readText]

/-- A number is written with digits. -/
theorem isDigit_digits (n : ℕ) : ∀ c ∈ (toString n).toList, c.isDigit = true := by
  intro c hc
  refine Nat.isDigit_of_mem_toDigits (b := 10) (n := n) (by omega) (by omega) ?_
  simpa [Nat.toString_eq_repr, Nat.toList_repr] using hc

/-- A digit is a word character. -/
theorem isWordChar_of_isDigit (h : c.isDigit = true) : isWordChar c = true := by
  simp [isWordChar, Char.isAlphanum, h]

/-- A number has a digit. -/
theorem digits_ne_nil (n : ℕ) : (toString n).toList ≠ [] := by
  simp [Nat.toString_eq_repr, Nat.toList_repr]

/-- The tokens of a number: a sign is a token of its own. -/
def intTokens : Int → List Token
  | .ofNat n => [.word (toString n)]
  | .negSucc n => [.symbol "-", .word (toString (n + 1))]

/-- A number is one token where a delimiter follows. -/
theorem scan_nat (n : ℕ) (hrest : Delimited rest) :
    scan .between ((toString n).toList ++ rest) = .word (toString n) :: scan .between rest := by
  have hchars : ∀ c ∈ (toString n).toList, isWordChar c = true := fun c hc =>
    isWordChar_of_isDigit (isDigit_digits n c hc)
  have hscan := scan_chars (digits_ne_nil n) hchars hrest
  rwa [String.ofList_toList] at hscan

/-- A sign ends where the first digit is. -/
theorem scan_sign (hc : c.isDigit = true) :
    scan .between ('-' :: c :: rest) = .symbol "-" :: scan .between (c :: rest) := by
  have hsign : c ≠ '-' := by
    rintro rfl
    exact absurd hc (by decide)
  have harrow : ['-', c] ∉ operators := by
    intro hmem
    have hgt : c = '>' := by simpa [operators] using hmem
    exact absurd hc (by rw [hgt]; decide)
  have hfirst : first '-' = ([], .operator ['-']) := by decide
  simp only [scan, Mode.step, hfirst]
  simp [hsign, harrow, next, operatorToken, readText]

/-- An integer is its sign and its digits where a delimiter follows. -/
theorem scan_int (n : Int) (hrest : Delimited rest) :
    scan .between ((toString n).toList ++ rest) = intTokens n ++ scan .between rest := by
  cases n with
  | ofNat n => exact scan_nat n hrest
  | negSucc n =>
    have htext : (toString (Int.negSucc n)).toList = '-' :: (toString (n + 1)).toList := by
      rw [show toString (Int.negSucc n) = "-" ++ toString (n + 1) from rfl, String.toList_append]
      rfl
    have hscan := scan_nat (n + 1) hrest
    have hdigits := isDigit_digits (n + 1)
    rw [htext]
    cases hn : (toString (n + 1)).toList with
    | nil => exact absurd hn (digits_ne_nil (n + 1))
    | cons d ds =>
      rw [hn] at hscan hdigits
      have hd : d.isDigit = true := hdigits d List.mem_cons_self
      rw [List.cons_append, List.cons_append, scan_sign hd, ← List.cons_append, hscan]
      rfl

/-- No NUL character is in the digits of an integer. -/
theorem not_nul_int (n : Int) : '\x00' ∉ (toString n).toList := by
  have hnat : ∀ k : ℕ, '\x00' ∉ (toString k).toList := fun k hmem =>
    absurd (isDigit_digits k _ hmem) (by decide)
  cases n with
  | ofNat n => exact hnat n
  | negSucc n =>
    rw [show toString (Int.negSucc n) = "-" ++ toString (n + 1) from rfl, String.toList_append]
    simpa using hnat (n + 1)

/-! ### Literals -/

/-- The characters of a literal, `value`, and what follows its closing apostrophe. -/
inductive Decodes : (cs value rest : List Char) → Prop
  | closed {rest : List Char} (h : rest.head? ≠ some '\'') : Decodes ('\'' :: rest) [] rest
  | apostrophe {cs value rest : List Char} (h : Decodes cs value rest) :
      Decodes ('\'' :: '\'' :: cs) ('\'' :: value) rest
  | char {c : Char} {cs value rest : List Char} (hc : c ≠ '\'') (h : Decodes cs value rest) :
      Decodes (c :: cs) (c :: value) rest

/-- A literal is longer than the value it decodes to. -/
theorem Decodes.length_lt {cs value rest : List Char} (h : Decodes cs value rest) :
    value.length < cs.length := by
  induction h with
  | closed _ => simp
  | apostrophe _ ih => simp only [List.length_cons]; omega
  | char _ _ ih => simp only [List.length_cons]; omega

/-- A literal is decoded, or it is not closed. -/
theorem scan_literal (cs read : List Char) :
    (∃ value rest tokens, Decodes cs value rest ∧
      scan (.literal read) cs = .literal (readText (value.reverse ++ read)) :: tokens) ∨
    scan (.literal read) cs = [.illegal] := by
  match cs with
  | [] => exact .inr rfl
  | c :: cs =>
    by_cases hc : c = '\''
    · subst hc
      match cs with
      | [] => exact .inl ⟨[], [], [], .closed (by simp), rfl⟩
      | d :: cs =>
        by_cases hd : d = '\''
        · subst hd
          rcases scan_literal cs ('\'' :: read) with ⟨value, rest, tokens, hdecodes, hscan⟩ | hscan
          · refine .inl ⟨'\'' :: value, rest, tokens, hdecodes.apostrophe, ?_⟩
            simpa [scan, Mode.step] using hscan
          · exact .inr (by simpa [scan, Mode.step] using hscan)
        · refine .inl ⟨[], d :: cs, scan .between (d :: cs), .closed (by simpa using hd), ?_⟩
          simp [scan, Mode.step, hd, next]
    · rcases scan_literal cs (c :: read) with ⟨value, rest, tokens, hdecodes, hscan⟩ | hscan
      · refine .inl ⟨c :: value, rest, tokens, hdecodes.char hc, ?_⟩
        simpa [scan, Mode.step, hc] using hscan
      · exact .inr (by simpa [scan, Mode.step, hc] using hscan)
termination_by cs.length

/-- A character other than an apostrophe stands for itself. -/
theorem Decodes.of_char {cs value rest : List Char} (h : Decodes (c :: cs) value rest)
    (hc : c ≠ '\'') : ∃ v, value = c :: v ∧ Decodes cs v rest := by
  cases h with
  | closed _ => exact absurd rfl hc
  | apostrophe _ => exact absurd rfl hc
  | char _ h => exact ⟨_, rfl, h⟩

/-- An apostrophe ends the literal, or stands with a second one for itself. -/
theorem Decodes.of_apostrophe {cs value rest : List Char} (h : Decodes ('\'' :: cs) value rest) :
    (value = [] ∧ cs.head? ≠ some '\'') ∨
      ∃ cs' v, cs = '\'' :: cs' ∧ value = '\'' :: v ∧ Decodes cs' v rest := by
  cases h with
  | closed h => exact .inl ⟨rfl, h⟩
  | apostrophe h => exact .inr ⟨_, _, rfl, rfl, h⟩
  | char hc _ => exact absurd rfl hc

/-- One character more of the same. -/
theorem replicate_append_cons (n : ℕ) (x : List Char) :
    List.replicate n c ++ c :: x = List.replicate (n + 1) c ++ x := by
  rw [List.replicate_succ', List.append_assoc]
  rfl

/-- **A text between apostrophes is decoded to itself only when it contains none.**  The value
    gets ahead of the text by one apostrophe for every two that are read as one, and the text
    that follows does not make up for it. -/
theorem no_apostrophe_of_decodes {r rest : List Char} (hr : r.head? ≠ some '\'')
    (x : List Char) (n : ℕ)
    (h : Decodes (x ++ '\'' :: r) (List.replicate n '\'' ++ x) rest) : n = 0 ∧ '\'' ∉ x := by
  induction hlen : x.length using Nat.strongRecOn generalizing x n with
  | ind k ih =>
  subst hlen
  cases x with
  | nil =>
    -- the closing apostrophe is not the first of two
    rcases h.of_apostrophe with ⟨hvalue, -⟩ | ⟨cs, v, rfl, -, -⟩
    · cases n with
      | zero => simp
      | succ n => simp [List.replicate_succ] at hvalue
    · exact absurd rfl hr
  | cons c x =>
    by_cases hc : c = '\''
    · subst hc
      rw [replicate_append_cons, List.replicate_succ] at h
      rcases h.of_apostrophe with ⟨hvalue, -⟩ | ⟨cs, v, hcs, hvalue, h'⟩
      · simp at hvalue
      obtain rfl : List.replicate n '\'' ++ x = v := by simpa using hvalue
      cases x with
      | nil =>
        obtain rfl : r = cs := by simpa using hcs
        cases n with
        | zero =>
          cases h' with
          | closed _ => simp at hr
        | succ n =>
          rw [List.replicate_succ] at h'
          cases h' with
          | apostrophe _ => simp at hr
          | char hc _ => exact absurd rfl hc
      | cons d x =>
        obtain ⟨rfl, rfl⟩ : d = '\'' ∧ x ++ '\'' :: r = cs := by simpa using hcs
        rw [replicate_append_cons] at h'
        have hn : n + 1 = 0 := (ih x.length (by simp only [List.length_cons]; omega) x (n + 1) h' rfl).1
        omega
    · cases n with
      | zero =>
        obtain ⟨v, hvalue, h'⟩ := h.of_char hc
        obtain rfl : x = v := by simpa using hvalue
        have hx : '\'' ∉ x := (ih x.length (by simp) x 0 h' rfl).2
        exact ⟨rfl, by simpa [Ne.symm hc] using hx⟩
      | succ n =>
        obtain ⟨v, hvalue, -⟩ := h.of_char hc
        have hhead : '\'' = c := by simpa [List.replicate_succ] using congrArg List.head? hvalue
        exact absurd hhead.symm hc

/-- The string can stand between apostrophes as it is. -/
def Plain (v : String) : Prop := '\x00' ∉ v.toList ∧ '\'' ∉ v.toList

/-- Whether a text is plain can be computed. -/
instance (v : String) : Decidable (Plain v) := inferInstanceAs (Decidable (_ ∧ _))

/-- Without an apostrophe a literal is read on. -/
theorem reads_literal (h : '\'' ∉ text) :
    reads (.literal read) text = ([], .literal (text.reverse ++ read)) := by
  induction text generalizing read with
  | nil => rfl
  | cons c text ih =>
    have hc : c ≠ '\'' := fun he => h (he ▸ List.mem_cons_self)
    have htext : '\'' ∉ text := fun hmem => h (List.mem_cons_of_mem c hmem)
    simp [reads, Mode.step, hc, ih htext]

/-- The characters of a string between apostrophes. -/
def quoted (v : String) : List Char := '\'' :: (v.toList ++ ['\''])

/-- A plain text in apostrophes has no NUL character. -/
theorem nul_not_mem_quoted (h : Plain v) : '\x00' ∉ quoted v := by
  simpa [quoted] using h.1

/-- A plain string between apostrophes is a literal with this value. -/
theorem scan_quoted (h : Plain v) (hrest : Delimited rest) :
    scan .between (quoted v ++ rest) = .literal v :: scan .between rest := by
  have hfirst : first '\'' = ([], .literal []) := by decide
  have htext : quoted v ++ rest = '\'' :: (v.toList ++ '\'' :: rest) := by simp [quoted]
  rw [htext, scan, Mode.step, hfirst, List.nil_append, scan_append, reads_literal h.2,
    List.nil_append, scan, Mode.step, if_pos rfl, List.nil_append, scan_closing_delimited hrest]
  simp [readText]

/-- **Any other string is read as something else.** -/
theorem scan_quoted_of_not_plain (h : ¬ Plain v) (hrest : Delimited rest) :
    ∃ token tokens, scan .between (cut (quoted v ++ rest)) = token :: tokens ∧
      token ≠ .literal v ∧ token ≠ semicolon := by
  have hfirst : first '\'' = ([], .literal []) := by decide
  have htext : cut (quoted v ++ rest) = '\'' :: cut (v.toList ++ '\'' :: rest) := by
    simp [quoted, cut]
  rw [htext, scan, Mode.step, hfirst, List.nil_append]
  rcases scan_literal (cut (v.toList ++ '\'' :: rest)) [] with
    ⟨value, rest', tokens, hdecodes, hscan⟩ | hscan
  · refine ⟨_, tokens, hscan, ?_, by simp [semicolon]⟩
    intro hvalue
    have hv : v.toList = value := by
      simpa [readText, ← String.toList_inj, eq_comm] using hvalue
    by_cases hnul : '\x00' ∈ v.toList
    · -- the text ends inside the string
      have hlt : value.length < (cut (v.toList ++ '\'' :: rest)).length := hdecodes.length_lt
      have hcut := length_cut_append hnul ('\'' :: rest)
      rw [← hv] at hlt
      omega
    · rw [cut_append hnul, ← hv] at hdecodes
      have hcut : cut ('\'' :: rest) = '\'' :: cut rest := by simp [cut]
      rw [hcut] at hdecodes
      have hhead : (cut rest).head? ≠ some '\'' := fun he =>
        ne_apostrophe_of_isDelimiter (hrest.cut '\'' he) rfl
      exact h ⟨hnul, (no_apostrophe_of_decodes hhead v.toList 0 (by simpa using hdecodes)).2⟩
  · exact ⟨.illegal, [], hscan, by simp, by simp [semicolon]⟩

end Scanning

/-! ### Templates -/

/-- A part of a statement's text: a text of the program's own, or what is spliced in; a string
    stands between apostrophes. -/
inductive Piece where
  | sql (text : String)
  | name (word : Word)
  | int (n : Int)
  | string (v : String)

/-- A statement as it is written in the source: its words, and the places of its arguments. -/
abbrev Template := List Piece

/-- The text of a piece, with `f v` for a string. -/
def Piece.render (f : String → List Char) : Piece → List Char
  | .sql text => text.toList
  | .name word => word.text.toList
  | .int n => (toString n).toList
  | .string v => f v

/-- The tokens of a piece, with the token `g v` for a string. -/
def Piece.tokens (g : String → Token) : Piece → List Token
  | .sql text => scan .between text.toList
  | .name word => [.word word.text]
  | .int n => intTokens n
  | .string v => [g v]

/-- The string of a piece. -/
def Piece.argument? : Piece → Option String
  | .string v => some v
  | _ => none

/-- A piece with an argument is the place of a string. -/
theorem Piece.eq_of_argument {piece : Piece} {v : String} (h : piece.argument? = some v) :
    piece = .string v := by
  cases piece with
  | string w => exact congrArg Piece.string (Option.some.inj h)
  | sql _ => cases h
  | name _ => cases h
  | int _ => cases h

namespace Template

/-- The text with the strings spliced in. -/
def text (t : Template) : List Char := t.flatMap (Piece.render quoted)

/-- The text with a parameter for each string. -/
def prepared (t : Template) : List Char := t.flatMap (Piece.render fun _ => ['?'])

/-- The strings. -/
def arguments (t : Template) : List String := t.filterMap Piece.argument?

/-- Put the arguments in the places of the parameters, in order. -/
def bind : List Token → List String → List Token
  | .parameter :: tokens, v :: arguments => .literal v :: bind tokens arguments
  | token :: tokens, arguments => token :: bind tokens arguments
  | [], _ => []

/-- The prepared statement with its arguments bound to the parameters. -/
def bound (t : Template) : List Token := bind (scan .between t.prepared) t.arguments

/-- Another token begins after a place where something is spliced in. -/
def separated : Template → Bool
  | [] => true
  | .sql text :: _ => text.toList.head?.any isDelimiter
  | _ :: _ => false

/-- The program's own texts are whole tokens of one statement, without parameters, and what is
    spliced in stands apart. -/
def wellFormed : Template → Bool
  | [] => true
  | .sql text :: t =>
    (scan .between text.toList).all (fun token => token ∉ [semicolon, .illegal, .parameter]) &&
      text.toList.all (· ≠ '\x00') &&
      (t.isEmpty || (reads .between text.toList).2 = .between) && wellFormed t
  | _ :: t => separated t && wellFormed t

/-- The template is well formed and begins with a text of the program's own. -/
def isStatement (t : Template) : Bool :=
  match t with
  | .sql text :: _ => !(scan .between text.toList).isEmpty && t.wellFormed
  | _ => false

/-- The tokens of the bound statement, piece by piece. -/
def tokens (t : Template) : List Token := t.flatMap (Piece.tokens .literal)

variable {t : Template}

/-- The text of a template is that of its first piece and of the rest. -/
theorem text_cons (piece : Piece) (t : Template) :
    text (piece :: t) = piece.render quoted ++ text t := List.flatMap_cons

/-- The tokens of a template are those of its first piece and of the rest. -/
theorem tokens_cons (piece : Piece) (t : Template) :
    tokens (piece :: t) = piece.tokens .literal ++ tokens t := List.flatMap_cons

/-- After a place the rest of a separated template begins with a delimiter. -/
theorem delimited_of_separated {f : String → List Char} (h : t.separated = true) :
    Delimited (t.flatMap (Piece.render f)) := by
  cases t with
  | nil => simp [Delimited]
  | cons piece t =>
    cases piece with
    | sql text =>
      intro c hc
      simp only [separated] at h
      cases htext : text.toList with
      | nil => simp [htext] at h
      | cons d ds =>
        have hd : isDelimiter d = true := by simpa [htext] using h
        have hdc : d = c := by simpa [Piece.render, htext] using hc
        exact hdc ▸ hd
    | name _ => cases h
    | int _ => cases h
    | string _ => cases h

/-- The rest of a well formed template is well formed. -/
theorem wellFormed_tail {piece : Piece} (hwf : wellFormed (piece :: t) = true) :
    wellFormed t = true := by
  cases piece <;> simp only [wellFormed, Bool.and_eq_true] at hwf <;> exact hwf.2

/-- The program's own parts of a text are read as whole tokens. -/
theorem scan_own {piece : Piece} (hwf : wellFormed (piece :: t) = true)
    (hown : piece.argument? = none) (f : String → List Char) (g : String → Token)
    {rest : List Char} (hrest : separated t = true → Delimited rest) (hend : t = [] → rest = []) :
    scan .between (piece.render f ++ rest) = piece.tokens g ++ scan .between rest := by
  cases piece with
  | sql text =>
    simp only [wellFormed, Bool.and_eq_true, Bool.or_eq_true, List.isEmpty_iff,
      decide_eq_true_eq] at hwf
    rw [Piece.render, Piece.tokens]
    rcases hwf.1.2 with rfl | hbetween
    · rw [hend rfl, List.append_nil, scan, Mode.finish, List.append_nil]
    · have htext := @scan_append .between text.toList []
      rw [List.append_nil, hbetween, scan, Mode.finish, List.append_nil] at htext
      rw [scan_append, hbetween, htext]
  | name word =>
    simp only [wellFormed, Bool.and_eq_true] at hwf
    have hne : word.text.toList ≠ [] := by simpa using word.nonempty
    rw [Piece.render, Piece.tokens, scan_chars hne word.isWordChar (hrest hwf.1),
      String.ofList_toList]
    rfl
  | int n =>
    simp only [wellFormed, Bool.and_eq_true] at hwf
    rw [Piece.render, Piece.tokens, scan_int n (hrest hwf.1)]
  | string v => cases hown

/-- The tokens of a text are those of its pieces, when the strings are rendered as tokens. -/
theorem scan_render {f : String → List Char} {g : String → Token} (hwf : wellFormed t = true)
    (hfg : ∀ v ∈ arguments t, ∀ rest, Delimited rest →
      scan .between (f v ++ rest) = g v :: scan .between rest) :
    scan .between (t.flatMap (Piece.render f)) = t.flatMap (Piece.tokens g) := by
  induction t with
  | nil => rfl
  | cons piece t ih =>
    have htail : wellFormed t = true := wellFormed_tail hwf
    rw [List.flatMap_cons, List.flatMap_cons]
    cases hown : piece.argument? with
    | none =>
      have hargs : arguments (piece :: t) = arguments t := List.filterMap_cons_none hown
      rw [scan_own hwf hown f g delimited_of_separated (by rintro rfl; rfl)]
      rw [ih htail (hargs ▸ hfg)]
    | some v =>
      obtain rfl : piece = .string v := Piece.eq_of_argument hown
      simp only [wellFormed, Bool.and_eq_true] at hwf
      have hrest : Delimited (t.flatMap (Piece.render f)) := delimited_of_separated hwf.1
      rw [Piece.render, Piece.tokens, hfg v List.mem_cons_self _ hrest,
        ih htail fun w hw => hfg w (List.mem_cons_of_mem v hw)]
      rfl

/-- A template with parameters scans to its tokens, one for each place. -/
theorem scan_prepared (hwf : t.wellFormed = true) :
    scan .between t.prepared = t.flatMap (Piece.tokens fun _ => .parameter) := by
  refine scan_render hwf ?_
  intro v _ rest _
  have hfirst : first '?' = ([.parameter], .between) := by decide
  rw [List.singleton_append, scan, Mode.step, hfirst]
  rfl

/-- Tokens without parameters are left as they are. -/
theorem bind_append {front : List Token} (h : .parameter ∉ front) (tokens : List Token)
    (arguments : List String) :
    bind (front ++ tokens) arguments = front ++ bind tokens arguments := by
  induction front with
  | nil => rfl
  | cons token front ih =>
    have hne : token ≠ .parameter := fun he => h (he ▸ List.mem_cons_self)
    have hfront : .parameter ∉ front := fun hmem => h (List.mem_cons_of_mem token hmem)
    rw [List.cons_append, bind, ih hfront, List.cons_append]
    exact fun _ _ _ he => absurd he hne

/-- What a piece other than a string contributes to the tokens. -/
theorem own_tokens {piece : Piece} (hwf : wellFormed (piece :: t) = true)
    (hown : piece.argument? = none) (g : String → Token) :
    piece.tokens g = piece.tokens .literal ∧ .parameter ∉ piece.tokens g ∧
      semicolon ∉ piece.tokens g := by
  cases piece with
  | sql text =>
    simp only [wellFormed, Bool.and_eq_true, List.all_eq_true, decide_eq_true_eq] at hwf
    have hall := hwf.1.1.1
    refine ⟨rfl, fun hmem => hall _ hmem ?_, fun hmem => hall _ hmem ?_⟩
    · simp
    · simp
  | name word => exact ⟨rfl, by simp [Piece.tokens], by simp [Piece.tokens, semicolon]⟩
  | int n => cases n <;> exact ⟨rfl, by simp [Piece.tokens, intTokens],
      by simp [Piece.tokens, intTokens, semicolon]⟩
  | string v => cases hown

/-- The tokens of the bound statement are those of the pieces. -/
theorem bound_eq (hwf : wellFormed t = true) : bound t = tokens t := by
  rw [bound, scan_prepared hwf]
  induction t with
  | nil => rfl
  | cons piece t ih =>
    have htail : wellFormed t = true := wellFormed_tail hwf
    rw [tokens_cons, List.flatMap_cons]
    cases hown : piece.argument? with
    | none =>
      obtain ⟨heq, hparameter, -⟩ := own_tokens hwf hown fun _ => .parameter
      have hargs : arguments (piece :: t) = arguments t := List.filterMap_cons_none hown
      rw [bind_append hparameter, hargs, ih htail, heq]
    | some v =>
      obtain rfl : piece = .string v := Piece.eq_of_argument hown
      exact congrArg (Token.literal v :: ·) (ih htail)

/-- A well formed template is one statement: no token of it is a semicolon. -/
theorem semicolon_not_mem (hwf : wellFormed t = true) : semicolon ∉ tokens t := by
  induction t with
  | nil => simp [tokens]
  | cons piece t ih =>
    have htail : semicolon ∉ tokens t := ih (wellFormed_tail hwf)
    rw [tokens_cons, List.mem_append, not_or]
    refine ⟨?_, htail⟩
    cases hown : piece.argument? with
    | none => exact (own_tokens hwf hown .literal).2.2
    | some v =>
      obtain rfl : piece = .string v := Piece.eq_of_argument hown
      simp [Piece.tokens, semicolon]

/-- The program's own parts of a text contain no NUL character. -/
theorem nul_not_mem {piece : Piece} (hwf : wellFormed (piece :: t) = true)
    (hown : piece.argument? = none) (f : String → List Char) : '\x00' ∉ piece.render f := by
  cases piece with
  | sql text =>
    simp only [wellFormed, Bool.and_eq_true, List.all_eq_true, decide_eq_true_eq] at hwf
    exact fun hmem => hwf.1.1.2 _ hmem rfl
  | name word => exact fun hmem => (isWordChar_ne (word.isWordChar _ hmem)).1 rfl
  | int n => exact not_nul_int n
  | string v => cases hown

/-- With plain arguments the text has no NUL character. -/
theorem nul_not_mem_text (hwf : wellFormed t = true) (hplain : ∀ v ∈ arguments t, Plain v) :
    '\x00' ∉ text t := by
  induction t with
  | nil => simp [text]
  | cons piece t ih =>
    rw [text_cons, List.mem_append, not_or]
    cases hown : piece.argument? with
    | none =>
      have hargs : arguments (piece :: t) = arguments t := List.filterMap_cons_none hown
      exact ⟨nul_not_mem hwf hown quoted, ih (wellFormed_tail hwf) (hargs ▸ hplain)⟩
    | some v =>
      obtain rfl : piece = .string v := Piece.eq_of_argument hown
      refine ⟨nul_not_mem_quoted (hplain v List.mem_cons_self), ih (wellFormed_tail hwf) ?_⟩
      exact fun w hw => hplain w (List.mem_cons_of_mem v hw)

/-- **With plain arguments the text scans to the tokens of the template**, each argument one
    literal. -/
theorem scan_text_of_plain (hwf : wellFormed t = true) (hplain : ∀ v ∈ arguments t, Plain v) :
    scan .between (cut (text t)) = tokens t := by
  have hnul : '\x00' ∉ text t := nul_not_mem_text hwf hplain
  have hcut := @cut_append (text t) [] hnul
  rw [List.append_nil, show cut [] = [] from rfl, List.append_nil] at hcut
  rw [hcut]
  exact scan_render hwf fun v hv rest hrest => scan_quoted (hplain v hv) hrest

/-- **The first string that is not plain is read as something else.** -/
theorem scan_text_of_not_plain (hwf : wellFormed t = true) {v : String} (hv : v ∈ arguments t)
    (hplain : ¬ Plain v) :
    ∃ front w token tail tail', scan .between (cut (text t)) = front ++ token :: tail ∧
      tokens t = front ++ .literal w :: tail' ∧ token ≠ .literal w ∧ token ≠ semicolon ∧
      semicolon ∉ front := by
  induction t with
  | nil => simp [arguments] at hv
  | cons piece t ih =>
    have htail : wellFormed t = true := wellFormed_tail hwf
    have hdelimited : separated t = true → Delimited (cut (text t)) := fun h =>
      (delimited_of_separated h).cut
    rw [text_cons, tokens_cons]
    cases hown : piece.argument? with
    | none =>
      have hargs : arguments (piece :: t) = arguments t := List.filterMap_cons_none hown
      rw [cut_append (nul_not_mem hwf hown quoted),
        scan_own hwf hown quoted .literal hdelimited (by rintro rfl; rfl)]
      obtain ⟨front, w, token, rest, rest', hscan, htokens, hne, hsemi, hfront⟩ :=
        ih htail (hargs ▸ hv)
      refine ⟨piece.tokens .literal ++ front, w, token, rest, rest', ?_, ?_, hne, hsemi, ?_⟩
      · rw [List.append_assoc, ← hscan]
      · rw [List.append_assoc, ← htokens]
      · rw [List.mem_append, not_or]
        exact ⟨(own_tokens hwf hown .literal).2.2, hfront⟩
    | some w =>
      obtain rfl : piece = .string w := Piece.eq_of_argument hown
      simp only [wellFormed, Bool.and_eq_true] at hwf
      by_cases hw : Plain w
      · -- the string is read as itself, and the one in question comes later
        have hmem : v ∈ arguments t := by
          rcases List.mem_cons.mp hv with rfl | hmem
          · exact absurd hw hplain
          · exact hmem
        obtain ⟨front, w', token, rest, rest', hscan, htokens, hne, hsemi, hfront⟩ := ih htail hmem
        refine ⟨.literal w :: front, w', token, rest, rest', ?_, ?_, hne, hsemi, ?_⟩
        · rw [Piece.render, cut_append (nul_not_mem_quoted hw), scan_quoted hw (hdelimited hwf.1),
            List.cons_append, ← hscan]
        · rw [List.cons_append, ← htokens]
          rfl
        · simpa [semicolon] using hfront
      · obtain ⟨token, rest, hscan, hne, hsemi⟩ :=
          scan_quoted_of_not_plain hw (delimited_of_separated (f := quoted) hwf.1)
        exact ⟨[], w, token, rest, _, hscan, rfl, hne, hsemi, by simp⟩

/-- A statement is a well formed template. -/
theorem wellFormed_of_isStatement (h : isStatement t = true) : wellFormed t = true := by
  unfold isStatement at h
  split at h
  · exact (Bool.and_eq_true_iff.mp h).2
  · cases h

/-- A statement has a token. -/
theorem tokens_ne_nil (h : isStatement t = true) : tokens t ≠ [] := by
  unfold isStatement at h
  split at h
  case h_1 text t =>
    have hne : scan .between text.toList ≠ [] := by simpa using (Bool.and_eq_true_iff.mp h).1
    rw [tokens_cons]
    exact List.append_ne_nil_of_left_ne_nil hne _
  case h_2 => cases h

end Template

/-! ### What is executed -/

/-- A single statement without semicolons is executed as it is. -/
theorem statements_self {tokens : List Token} (h : semicolon ∉ tokens) (hne : tokens ≠ []) :
    statements tokens = [tokens] := by
  have hsplit : tokens.splitOnP (· = semicolon) = [tokens] := by
    refine List.splitOnP_eq_singleton ?_
    intro token htoken
    have hother : token ≠ semicolon := fun he => h (he ▸ htoken)
    simpa using hother
  rw [statements, hsplit]
  simpa using hne

/-- The first part of a split list goes on to the first separator. -/
theorem splitOnP_takeWhile {α : Type} (p : α → Bool) (xs : List α) :
    ∃ others, xs.splitOnP p = xs.takeWhile (fun x => !p x) :: others := by
  induction xs with
  | nil => exact ⟨[], rfl⟩
  | cons x xs ih =>
    obtain ⟨others, hothers⟩ := ih
    rw [List.splitOnP_cons_eq_if_modifyHead, hothers]
    cases hx : p x with
    | true => exact ⟨xs.takeWhile (fun x => !p x) :: others, by simp [hx]⟩
    | false => exact ⟨others, by simp [hx]⟩

/-- The first statement goes on to the first semicolon at least. -/
theorem statements_begin {front tail : List Token} {token : Token} (h : semicolon ∉ front)
    (htoken : token ≠ semicolon) :
    ∃ rest others, statements (front ++ token :: tail) = (front ++ token :: rest) :: others := by
  obtain ⟨others, hothers⟩ := splitOnP_takeWhile (· = semicolon) (front ++ token :: tail)
  rw [List.takeWhile_append_of_pos, List.takeWhile_cons_of_pos (by simpa using htoken)] at hothers
  · refine ⟨tail.takeWhile (fun x => !decide (x = semicolon)), others.filter (· ≠ []), ?_⟩
    rw [statements, hothers]
    simp
  · intro other hother
    have hne : other ≠ semicolon := fun he => h (he ▸ hother)
    simpa using hne

/-- **A text means the bound statement exactly when its strings are plain.** -/
theorem executed_text_iff {t : Template} (h : t.isStatement = true) :
    executed t.text = [t.bound] ↔ ∀ v ∈ t.arguments, Plain v := by
  have hwf : t.wellFormed = true := Template.wellFormed_of_isStatement h
  rw [t.bound_eq hwf]
  constructor
  · intro h v hv
    by_contra hplain
    obtain ⟨front, w, token, tail, tail', hscan, htokens, hother, hsemi, hfront⟩ :=
      Template.scan_text_of_not_plain hwf hv hplain
    obtain ⟨rest, others, hfirst⟩ := @statements_begin front tail token hfront hsemi
    rw [executed, hscan, hfirst, htokens] at h
    have heq : front ++ token :: rest = front ++ .literal w :: tail' := (List.cons.inj h).1
    have htoken : token = .literal w := (List.cons.inj (List.append_cancel_left heq)).1
    exact hother htoken
  · intro hplain
    rw [executed, Template.scan_text_of_plain hwf hplain]
    exact statements_self (Template.semicolon_not_mem hwf) (Template.tokens_ne_nil h)

end YirangMQ.SqlText
