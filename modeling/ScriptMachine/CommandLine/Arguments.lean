import ScriptMachine.Machine.Basic

/-!
# Arguments of the command line

`Request.ofArguments?` reads the arguments of the program. They name one command, `run` or `dump`, and
the file with its script; `run` has options besides. An argument is an option or not by its shape alone
(`Argument.ofText`), so that options may stand before and after the file, until a separator ends them.
Everything that does not fit the usage exactly is refused: an unknown option, a missing value, an option
or a file given twice, an empty file name. The verbosity option alone may be repeated, and stands before
or after the command.
-/

set_option autoImplicit false
set_option relaxedAutoImplicit false

namespace ScriptMachine

/-! ### Requests -/

/-- The two forms in which an error is reported. -/
inductive ReportForm where
  | terminal
  | record
  deriving DecidableEq, Repr

/-- How a script is run. -/
structure RunOptions where
  limits : Limits
  strict : Bool
  form : ReportForm
  deriving DecidableEq, Repr

/-- What the command line asks for. -/
inductive Request where
  | version
  | run (path : String) (options : RunOptions)
  | dump (path : String)
  deriving DecidableEq, Repr

/-! ### Single arguments -/

/-- An argument by its shape: two dashes alone end the options, two dashes before a text start an option
with a long name and perhaps a value behind an equals sign, one dash starts one-letter options, and
everything else is plain, a dash alone included. -/
inductive Argument where
  | separator
  | long (name : String) (value : Option String)
  | short (letters : List Char)
  | plain (content : String)
  deriving DecidableEq, Repr

namespace Argument

/-- An option with a long name, without its dashes. -/
def ofLongText (characters : List Char) : Argument :=
  let name := characters.takeWhile fun character ↦ character != '='
  match characters.dropWhile fun character ↦ character != '=' with
  | [] => .long (String.ofList name) none
  | _ :: value => .long (String.ofList name) (some (String.ofList value))

/-- The shape of an argument. -/
def ofText (content : String) : Argument :=
  match content.toList with
  | ['-', '-'] => .separator
  | '-' :: '-' :: rest => ofLongText rest
  | '-' :: first :: rest => .short (first :: rest)
  | _ => .plain content

end Argument

/-- The letter that asks for more messages while the program works. -/
def verbosityLetter : Char :=
  'v'

/-- The letter that asks for the version. -/
def versionLetter : Char :=
  'V'

/-! ### Values of options -/

/-- The value of a row of decimal digits, which must not be empty. -/
def decimalValue? (digits : List Char) : Option Nat :=
  if digits.isEmpty then none
  else
    digits.foldl
      (fun value? digit ↦ value?.bind fun value ↦
        if digit.isDigit then some (value * 10 + (digit.toNat - '0'.toNat)) else none)
      (some 0)

/-- A size in words: digits, perhaps with a plus sign in front, for a number of at most 64 bits. -/
def wordCount? (content : String) : Option Nat :=
  let digits :=
    match content.toList with
    | '+' :: rest => rest
    | all => all
  (decimalValue? digits).filter fun value ↦ value < UInt64.size

/-- The form of reports with a name. -/
def ReportForm.ofName? : String → Option ReportForm
  | "ansi" => some .terminal
  | "json" => some .record
  | _ => none

/-! ### Arguments of a command -/

/-- What the arguments of a command have said so far. -/
structure Draft where
  path : Option String
  heapWords : Option Nat
  maxStackWords : Option Nat
  strict : Bool
  form : Option ReportForm
  deriving DecidableEq, Repr

namespace Draft

/-- No argument has been read. -/
def empty : Draft :=
  ⟨none, none, none, false, none⟩

/-- The draft with the file named, which has to have a name and comes only once. -/
def withPath? (draft : Draft) (path : String) : Option Draft :=
  if draft.path.isSome || path.isEmpty then none else some { draft with path := some path }

/-- The draft with strictness asked for, once. -/
def withStrict? (draft : Draft) : Option Draft :=
  if draft.strict then none else some { draft with strict := true }

/-- The draft with an option set to a value, once. -/
def withValue? (draft : Draft) (name value : String) : Option Draft :=
  match name with
  | "heap-words" =>
    if draft.heapWords.isSome then none
    else (wordCount? value).map fun count ↦ { draft with heapWords := some count }
  | "max-stack" =>
    if draft.maxStackWords.isSome then none
    else (wordCount? value).map fun count ↦ { draft with maxStackWords := some count }
  | "format" =>
    if draft.form.isSome then none
    else (ReportForm.ofName? value).map fun form ↦ { draft with form := some form }
  | _ => none

/-- The options of a run, with the standard ones where nothing was said. -/
def options (draft : Draft) : RunOptions where
  limits :=
    { Limits.standard with
      heapWords := draft.heapWords.getD Limits.standard.heapWords
      maxStackWords := draft.maxStackWords.getD Limits.standard.maxStackWords }
  strict := draft.strict
  form := draft.form.getD .terminal

/-- Reads the arguments behind the separator, none of which is an option. -/
def readPaths (draft : Draft) (arguments : List String) : Option Draft :=
  arguments.foldlM withPath? draft

/-- Reads the arguments of `run`. -/
def readRun (draft : Draft) : List String → Option Draft
  | [] => some draft
  | argument :: rest =>
    match Argument.ofText argument with
    | .separator => draft.readPaths rest
    | .plain path => (draft.withPath? path).bind fun next ↦ next.readRun rest
    | .short letters => if letters.all (· == verbosityLetter) then draft.readRun rest else none
    | .long "verbose" none => draft.readRun rest
    | .long "strict" none => draft.withStrict?.bind fun next ↦ next.readRun rest
    | .long name (some value) => (draft.withValue? name value).bind fun next ↦ next.readRun rest
    | .long name none =>
      match rest with
      | [] => none
      | following :: rest =>
        match Argument.ofText following with
        | .plain value => (draft.withValue? name value).bind fun next ↦ next.readRun rest
        | _ => none

/-- Reads the arguments of `dump`, which has no options of its own. -/
def readDump (draft : Draft) : List String → Option Draft
  | [] => some draft
  | argument :: rest =>
    match Argument.ofText argument with
    | .separator => draft.readPaths rest
    | .plain path => (draft.withPath? path).bind fun next ↦ next.readDump rest
    | .short letters => if letters.all (· == verbosityLetter) then draft.readDump rest else none
    | .long "verbose" none => draft.readDump rest
    | .long _ _ => none

end Draft

/-! ### All arguments -/

/-- The request that the arguments make, if they fit the usage. The version is answered as soon as it is
asked for, whatever follows. -/
def Request.ofArguments? : List String → Option Request
  | [] => none
  | argument :: rest =>
    match Argument.ofText argument with
    | .plain "run" =>
      (Draft.empty.readRun rest).bind fun draft ↦ draft.path.map fun path ↦ .run path draft.options
    | .plain "dump" =>
      (Draft.empty.readDump rest).bind fun draft ↦ draft.path.map fun path ↦ .dump path
    | .long "verbose" none => Request.ofArguments? rest
    | .long "version" none => some .version
    | .short letters =>
      match letters.dropWhile (· == verbosityLetter) with
      | [] => Request.ofArguments? rest
      | letter :: _ => if letter = versionLetter then some .version else none
    | _ => none

end ScriptMachine
