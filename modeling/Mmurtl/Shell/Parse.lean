/-
This file models the parsing of shell commands and proves that it follows its grammar: arguments
stand apart by white space and are written as plain and quoted runs. Without its limits the
parser is an automaton that takes one character after another.
-/

import Mmurtl.Library.Bytes
import Mmurtl.Library.Program

namespace Mmurtl.Shell

open Bytes List

def maxLine : Nat := 256

def maxArgs : Nat := 16

/-- The text of the arguments, and the part of it that each argument is. -/
structure Command where
  bytes : List UInt8
  spans : List (Nat × Nat)

def isAsciiWhitespace (c : Char) : Bool := [0x20, 0x09, 0x0a, 0x0c, 0x0d].contains c.toNat

/-- A single or a double quote. -/
def isQuote (c : Char) : Bool := c.toNat == 0x27 || c.toNat == 0x22

/-- The loop over the characters of an argument. -/
def argument : List Char → Option Char → List UInt8 →
    Outcome String (List Char × Option Char × List UInt8)
  | [], quote, bytes => .ok ([], quote, bytes)
  | c :: rest, quote, bytes =>
      if quote = none ∧ isAsciiWhitespace c then .ok (c :: rest, quote, bytes)
      else if some c = quote then argument rest none bytes
      else if quote = none ∧ isQuote c then argument rest (some c) bytes
      else if maxLine < bytes.length + (String.utf8EncodeChar c).length then
        .error "command too long"
      else argument rest quote (bytes ++ String.utf8EncodeChar c)

/-- The loop over the arguments, for at most some number of rounds. -/
def arguments : Nat → List Char → Command → Outcome String Command
  | 0, _, _ => .panic
  | fuel + 1, chars, command =>
      match chars.dropWhile isAsciiWhitespace with
      | [] => .ok command
      | c :: rest =>
          if command.spans.length = maxArgs then .error "too many arguments"
          else do
            let (rest, quote, bytes) ← argument (c :: rest) none command.bytes
            if quote.isSome then .error "unclosed quote"
            else
              arguments fuel rest
                ⟨bytes, command.spans ++ [(command.bytes.length, bytes.length)]⟩

def Command.parse (line : List Char) : Outcome String Command :=
  arguments (line.length + 1) line ⟨[], []⟩

def Command.len (command : Command) : Nat := command.spans.length

def Command.arg (command : Command) (i : Nat) : Outcome String (List Char) :=
  if i < maxArgs then
    let (start, last) := command.spans.getD i (0, 0)
    Outcome.expect do
      let part ← slice? command.bytes start (last - start)
      let chars ← part.toByteArray.utf8Decode?
      return chars.toList
  else .panic

/-! ### Lines without limits -/

/-- The arguments of a line from a character on, and whether a quote is left open. The first
argument is the rest of the current one, if there is one. -/
def lex (inside : Bool) (quote : Option Char) : List Char → List (List Char) × Bool
  | [] => (if inside then [[]] else [], quote.isSome)
  | c :: rest =>
      if quote = none ∧ isAsciiWhitespace c then
        (if inside then [] :: (lex false none rest).1 else (lex false none rest).1,
          (lex false none rest).2)
      else if some c = quote then lex true none rest
      else if quote = none ∧ isQuote c then lex true (some c) rest
      else ((lex true quote rest).1.modifyHead (c :: ·), (lex true quote rest).2)

/-- The text of an argument, the quote that is open after it, and the rest of the line. -/
def word (quote : Option Char) : List Char → List Char × Option Char × List Char
  | [] => ([], quote, [])
  | c :: rest =>
      if quote = none ∧ isAsciiWhitespace c then ([], none, c :: rest)
      else if some c = quote then word none rest
      else if quote = none ∧ isQuote c then word (some c) rest
      else (c :: (word quote rest).1, (word quote rest).2)

/-- The bytes of a text. -/
def encode (text : List Char) : List UInt8 := text.flatMap String.utf8EncodeChar

theorem encode_append (first second : List Char) :
    encode (first ++ second) = encode first ++ encode second := flatMap_append

theorem lex_word (quote : Option Char) (chars : List Char) :
    lex true quote chars = ((word quote chars).1 :: (lex false none (word quote chars).2.2).1,
      (word quote chars).2.1.isSome || (lex false none (word quote chars).2.2).2) := by
  fun_induction word quote chars with
  | case1 => simp [lex]
  | case2 quote c rest blank => simp [lex, blank]
  | case3 c rest blank ih => rw [lex, if_neg blank, if_pos rfl, ih]
  | case4 quote c rest blank closed opened ih =>
    rw [lex, if_neg blank, if_neg closed, if_pos opened, ih]
  | case5 quote c rest blank closed opened ih =>
    rw [lex, if_neg blank, if_neg closed, if_neg opened, ih]
    rfl

theorem length_word (quote : Option Char) (chars : List Char) :
    (word quote chars).2.2.length ≤ chars.length := by
  fun_induction word quote chars with
  | case1 => exact Nat.le_refl _
  | case2 => exact Nat.le_refl _
  | case3 _ _ _ ih => exact Nat.le_succ_of_le ih
  | case4 _ _ _ _ _ _ ih => exact Nat.le_succ_of_le ih
  | case5 _ _ _ _ _ _ ih => exact Nat.le_succ_of_le ih

theorem length_word_of_proper {c : Char} (proper : isAsciiWhitespace c = false)
    (rest : List Char) : (word none (c :: rest)).2.2.length < (c :: rest).length := by
  rw [word, if_neg (by simp [proper]), if_neg (by simp)]
  split
  · exact Nat.lt_succ_of_le (length_word _ rest)
  · exact Nat.lt_succ_of_le (length_word _ rest)

theorem argument_eq {bytes : List UInt8} (short : bytes.length ≤ maxLine) (quote : Option Char)
    (chars : List Char) : argument chars quote bytes =
      if maxLine < bytes.length + (encode (word quote chars).1).length then
        .error "command too long"
      else .ok ((word quote chars).2.2, (word quote chars).2.1,
        bytes ++ encode (word quote chars).1) := by
  have room : ¬maxLine < bytes.length := Nat.not_lt.mpr short
  fun_induction word quote chars generalizing bytes with
  | case1 quote => simp [argument, encode, room]
  | case2 quote c rest blank => simp [argument, encode, blank, room]
  | case3 c rest blank ih => rw [argument, if_neg blank, if_pos rfl, ih short room]
  | case4 quote c rest blank closed opened ih =>
    rw [argument, if_neg blank, if_neg closed, if_pos opened, ih short room]
  | case5 quote c rest blank closed opened ih =>
    have split : encode (c :: (word quote rest).1) =
      String.utf8EncodeChar c ++ encode (word quote rest).1 := flatMap_cons
    rw [argument, if_neg blank, if_neg closed, if_neg opened, split, length_append]
    by_cases long : maxLine < bytes.length + (String.utf8EncodeChar c).length
    · rw [if_pos long, if_pos (by omega)]
    · have fits : (bytes ++ String.utf8EncodeChar c).length ≤ maxLine := by
        rw [length_append]
        omega
      rw [if_neg long, ih fits (Nat.not_lt.mpr fits), length_append, Nat.add_assoc, append_assoc]

theorem lex_dropWhile (chars : List Char) :
    lex false none chars = lex false none (chars.dropWhile isAsciiWhitespace) := by
  induction chars with
  | nil => rfl
  | cons c rest ih =>
    cases blank : isAsciiWhitespace c
    · rw [dropWhile_cons_of_neg (by simp [blank])]
    · rw [dropWhile_cons_of_pos blank, ← ih]
      simp [lex, blank]

theorem lex_of_proper {c : Char} (proper : isAsciiWhitespace c = false) (rest : List Char) :
    lex false none (c :: rest) = lex true none (c :: rest) := by simp [lex, proper]

/-- The parts of the text that the arguments are, from a position on. -/
def spansOf (start : Nat) : List (List Char) → List (Nat × Nat)
  | [] => []
  | text :: args =>
      (start, start + (encode text).length) :: spansOf (start + (encode text).length) args

/-- A line that does not end its quotes or exceeds the limits, after some text and arguments. -/
def Refused (text args : Nat) (lexed : List (List Char) × Bool) : Prop :=
  lexed.2 = true ∨ maxArgs < args + lexed.1.length ∨
    maxLine < text + (encode lexed.1.flatten).length

theorem refused_cons {text args : Nat} {arg : List Char} {lexed : List (List Char) × Bool} :
    Refused text args (arg :: lexed.1, lexed.2) ↔
      Refused (text + (encode arg).length) (args + 1) lexed := by
  rw [Refused, flatten_cons, encode_append, length_append, length_cons,
    Nat.add_comm lexed.1.length, ← Nat.add_assoc, ← Nat.add_assoc]
  rfl

theorem arguments_eq {fuel : Nat} {chars : List Char} (enough : chars.length < fuel)
    {command : Command} (few : command.spans.length ≤ maxArgs)
    (short : command.bytes.length ≤ maxLine) :
    (Refused command.bytes.length command.spans.length (lex false none chars) ∧
      ∃ reason, arguments fuel chars command = .error reason) ∨
    (¬Refused command.bytes.length command.spans.length (lex false none chars) ∧
      arguments fuel chars command = .ok ⟨command.bytes ++ encode (lex false none chars).1.flatten,
          command.spans ++ spansOf command.bytes.length (lex false none chars).1⟩) := by
  induction fuel generalizing chars command with
  | zero => exact absurd enough (Nat.not_lt_zero _)
  | succ fuel ih =>
    rw [lex_dropWhile, arguments]
    cases begin : chars.dropWhile isAsciiWhitespace with
    | nil =>
      exact Or.inr ⟨by simp [Refused, lex, encode, few, short], by simp [lex, encode, spansOf]⟩
    | cons c others =>
      have proper := head?_dropWhile_not isAsciiWhitespace chars
      have left := (dropWhile_suffix (l := chars) isAsciiWhitespace).length_le
      rw [begin] at proper left
      have proper : isAsciiWhitespace c = false := proper
      have shorter : (word none (c :: others)).2.2.length < fuel :=
        Nat.lt_of_lt_of_le (length_word_of_proper proper others) (by omega)
      simp only [lex_of_proper proper, lex_word, argument_eq short]
      generalize word none (c :: others) = taken at shorter
      obtain ⟨text, last, rest⟩ := taken
      dsimp only at shorter ⊢
      by_cases full : command.spans.length = maxArgs
      · refine Or.inl ⟨Or.inr (Or.inl ?_), _, if_pos full⟩
        rw [full, length_cons]
        omega
      rw [if_neg full]
      by_cases long : maxLine < command.bytes.length + (encode text).length
      · refine Or.inl ⟨Or.inr (Or.inr ?_), _, by rw [if_pos long]; rfl⟩
        rw [flatten_cons, encode_append, length_append]
        omega
      rw [if_neg long]
      cases last with
      | some quote => exact Or.inl ⟨Or.inl rfl, _, rfl⟩
      | none =>
        have next := @ih rest shorter ⟨command.bytes ++ encode text, command.spans ++
          [(command.bytes.length, (command.bytes ++ encode text).length)]⟩
        simp only [length_append, length_singleton, ← refused_cons] at next
        simpa [spansOf, encode_append] using next (by omega) (by omega)

/-- The parts of the text are the arguments. -/
theorem slice_spansOf {args : List (List Char)} {i : Nat} {text : List Char}
    (found : args[i]? = some text) (front : List UInt8) :
    ∃ start, (spansOf front.length args)[i]? = some (start, start + (encode text).length) ∧
      slice? (front ++ encode args.flatten) start (encode text).length = some (encode text) := by
  induction args generalizing i front with
  | nil => cases found
  | cons first rest ih =>
    rw [flatten_cons, encode_append]
    cases i with
    | zero =>
      cases found
      refine ⟨front.length, rfl, ?_⟩
      rw [slice?_of_le (by simp only [length_append]; omega), slice, drop_left, take_left]
    | succ i =>
      obtain ⟨start, span, part⟩ := ih found (front ++ encode first)
      rw [length_append] at span
      rw [append_assoc] at part
      exact ⟨start, span, part⟩

theorem length_spansOf (start : Nat) (args : List (List Char)) :
    (spansOf start args).length = args.length := by
  induction args generalizing start with
  | nil => rfl
  | cons text args ih => exact congrArg (· + 1) (ih _)

theorem arg_eq {args : List (List Char)} (few : args.length ≤ maxArgs) {i : Nat}
    {text : List Char} (found : args[i]? = some text) :
    Command.arg ⟨encode args.flatten, spansOf 0 args⟩ i = .ok text := by
  obtain ⟨start, span, part⟩ := slice_spansOf found []
  have span : (spansOf 0 args).getD i (0, 0) = (start, start + (encode text).length) := by
    rw [getD_eq_getElem?_getD]
    exact congrArg (Option.getD · (0, 0)) span
  have decoded : (encode text).toByteArray.utf8Decode? = some text.toArray :=
    utf8Decode?_utf8Encode
  rw [nil_append] at part
  rw [Command.arg, if_pos (Nat.lt_of_lt_of_le (List.getElem?_eq_some_iff.mp found).1 few), span]
  simp [part, decoded, Outcome.expect]

/-! ### Written arguments -/

/-- The text of an argument as it is written: plain characters and quoted runs. -/
inductive Runs : List Char → List Char → Prop
  | nil : Runs [] []
  | plain {c : Char} {text source : List Char} (proper : isAsciiWhitespace c = false)
      (unquoted : isQuote c = false) (runs : Runs text source) : Runs (c :: text) (c :: source)
  | quoted {mark : Char} {run text source : List Char} (quote : isQuote mark = true)
      (apart : mark ∉ run) (runs : Runs text source) :
      Runs (run ++ text) (mark :: (run ++ mark :: source))

/-- Arguments written on a line, each as some runs, with white space between them. -/
inductive Written : List (List Char) → List Char → Prop
  | nil {spaces : List Char} (blank : ∀ c ∈ spaces, isAsciiWhitespace c = true) :
      Written [] spaces
  | cons {spaces text source rest : List Char} {args : List (List Char)}
      (blank : ∀ c ∈ spaces, isAsciiWhitespace c = true) (runs : Runs text source)
      (filled : source ≠ []) (written : Written args rest)
      (apart : ∀ c ∈ rest.head?, isAsciiWhitespace c = true) :
      Written (text :: args) (spaces ++ (source ++ rest))

theorem isAsciiWhitespace_of_isQuote {c : Char} (quote : isQuote c = true) :
    isAsciiWhitespace c = false := by
  rw [isQuote, Bool.or_eq_true, beq_iff_eq, beq_iff_eq] at quote
  rcases quote with single | double
  · simp [isAsciiWhitespace, single]
  · simp [isAsciiWhitespace, double]

theorem word_quoted {mark : Char} {run : List Char} (apart : mark ∉ run) (rest : List Char) :
    word (some mark) (run ++ rest) =
      (run ++ (word (some mark) rest).1, (word (some mark) rest).2) := by
  induction run with
  | nil => rfl
  | cons c run ih =>
    rw [mem_cons, not_or] at apart
    rw [cons_append, word, if_neg (by simp), if_neg (by simpa using Ne.symm apart.1),
      if_neg (by simp), ih apart.2]
    rfl

theorem word_runs {text source : List Char} (runs : Runs text source) (rest : List Char) :
    word none (source ++ rest) = (text ++ (word none rest).1, (word none rest).2) := by
  induction runs with
  | nil => rfl
  | plain proper unquoted runs ih =>
    rw [cons_append, word, if_neg (by simp [proper]), if_neg (by simp),
      if_neg (by simp [unquoted]), ih]
    rfl
  | quoted quote apart runs ih =>
    rw [cons_append, word, if_neg (by simp [isAsciiWhitespace_of_isQuote quote]),
      if_neg (by simp), if_pos ⟨rfl, quote⟩, append_assoc, word_quoted apart,
      cons_append, word, if_neg (by simp), if_pos rfl, ih, append_assoc]

theorem lex_runs {text source : List Char} (runs : Runs text source) (filled : source ≠ [])
    (rest : List Char) : lex false none (source ++ rest) = lex true none (source ++ rest) := by
  cases runs with
  | nil => exact absurd rfl filled
  | plain proper => exact lex_of_proper proper _
  | quoted quote => exact lex_of_proper (isAsciiWhitespace_of_isQuote quote) _

theorem lex_written {args : List (List Char)} {line : List Char} (written : Written args line) :
    lex false none line = (args, false) := by
  induction written with
  | @nil spaces blank =>
    rw [← append_nil spaces, lex_dropWhile, dropWhile_append_of_pos blank]
    rfl
  | @cons spaces text source rest args blank runs filled written apart ih =>
    have ended : word none rest = ([], none, rest) := by
      cases rest with
      | nil => rfl
      | cons c rest => rw [word, if_pos ⟨rfl, apart c rfl⟩]
    rw [lex_dropWhile, dropWhile_append_of_pos blank, ← lex_dropWhile,
      lex_runs runs filled, lex_word, word_runs runs, ended, append_nil, ih]
    rfl

/-- A line is parsed as its grammar has it. -/
structure Parses (line : List Char) : Prop where
  rendered {args : List (List Char)} (written : Written args line)
    (few : args.length ≤ maxArgs) (short : (encode args.flatten).length ≤ maxLine) :
    ∃ command, Command.parse line = .ok command ∧
      (List.range command.len).map command.arg = args.map .ok
  refused : (∃ reason, Command.parse line = .error reason) ↔
    Refused 0 0 (lex false none line)
  accepted (accepted : ¬Refused 0 0 (lex false none line)) :
    ∃ command, Command.parse line = .ok command ∧
      (List.range command.len).map command.arg = (lex false none line).1.map .ok

theorem parses (line : List Char) : Parses line := by
  have parsed := @arguments_eq (line.length + 1) line (Nat.lt_succ_self _) ⟨[], []⟩
    (Nat.zero_le _) (Nat.zero_le _)
  rw [List.length_nil, List.length_nil] at parsed
  have accepted (accepted : ¬Refused 0 0 (lex false none line)) :
      ∃ command, Command.parse line = .ok command ∧
        (List.range command.len).map command.arg = (lex false none line).1.map .ok := by
    have returned := (parsed.resolve_left fun failed => accepted failed.1).2
    rw [List.nil_append, List.nil_append] at returned
    refine ⟨_, returned, List.ext_getElem ?_ fun i _ small => ?_⟩
    · simp [Command.len, length_spansOf]
    · rw [List.length_map] at small
      rw [List.getElem_map, List.getElem_range, List.getElem_map]
      have few : (lex false none line).1.length ≤ maxArgs :=
        Nat.le_of_not_lt fun many => accepted (Or.inr (Or.inl (by rwa [Nat.zero_add])))
      exact arg_eq few (List.getElem?_eq_getElem small)
  refine ⟨fun {args} written few short => ?_, ⟨?_, ?_⟩, accepted⟩
  · have lexed := lex_written written
    rw [lexed] at accepted
    refine accepted ?_
    simp [Refused, few, short]
  · rintro ⟨reason, failed⟩
    by_contra fine
    obtain ⟨command, returned, -⟩ := accepted fine
    rw [returned] at failed
    cases failed
  · intro refused
    exact (parsed.resolve_right fun returned => returned.1 refused).2

end Mmurtl.Shell
