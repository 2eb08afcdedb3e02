import SchemaAtlas.Text.Quoted
import SchemaAtlas.Text.Similarity

/-!
# Options

How the words of a command line are told apart: options with or without a value, and arguments. The
words after two dashes alone are all arguments.
-/
namespace SchemaAtlas.CommandLine

/-- An option: its name with two dashes, and perhaps a letter for one dash. -/
structure OptionForm where
  name : String
  letter : Option Char
  takesValue : Bool
  deriving DecidableEq

/-- What is wrong with a command line. -/
inductive UsageError
  | noSuchOption (name : String) (suggestions : List String)
  | needsValue (option : String)
  | takesNoValue (option : String)
  | missingOption (option : String)
  | missingArgument (name : String)
  | invalidLevel (value : String)
  | missingCommand
  | noSuchCommand (name : String)
  | extraArguments (arguments : List String)
  deriving DecidableEq

namespace UsageError

def suggestionText : List String → String
  | [] => ""
  | [name] => " Did you mean " ++ name ++ "?"
  | names => " (Possible options: " ++ Text.joinWith ", " names ++ ")"

def message : UsageError → String
  | noSuchOption name suggestions => "No such option: " ++ name ++ suggestionText suggestions
  | needsValue option => "Option '" ++ option ++ "' requires an argument."
  | takesNoValue option => "Option '" ++ option ++ "' does not take a value."
  | missingOption option => "Missing option '" ++ option ++ "'."
  | missingArgument name => "Missing argument '" ++ name ++ "'."
  | invalidLevel value =>
    "Invalid value for '--log-level': " ++ Text.quoted value ++
      " is not one of 'debug', 'info', 'warning', 'error'."
  | missingCommand => "Missing command."
  | noSuchCommand name => "No such command " ++ Text.quoted name ++ "."
  | extraArguments [argument] => "Got unexpected extra argument (" ++ argument ++ ")"
  | extraArguments arguments =>
    "Got unexpected extra arguments (" ++ Text.joinWith " " arguments ++ ")"

/-- Whether the error is shown without the usage of the command. -/
def isBrief : UsageError → Bool
  | needsValue _ | takesNoValue _ => true
  | _ => false

end UsageError

/-- The words of a command line, told apart: options in their order with their values, and arguments. -/
structure Words where
  options : List (String × Option String)
  arguments : List String
  deriving DecidableEq

namespace Words

def none : Words := ⟨[], []⟩

def addOption (name : String) (value : Option String) (w : Words) : Words :=
  { w with options := (name, value) :: w.options }

def addArgument (argument : String) (w : Words) : Words :=
  { w with arguments := argument :: w.arguments }

/-- Whether an option is given. -/
def has (w : Words) (name : String) : Bool := w.options.any fun option => option.1 = name

/-- The values of an option, in order. -/
def values (w : Words) (name : String) : List String :=
  w.options.filterMap fun option => if option.1 = name then option.2 else Option.none

/-- The value of an option; the last one given counts. -/
def value? (w : Words) (name : String) : Option String := (w.values name).getLast?

end Words

/-- The text before the first equals sign, and the text behind it if there is one. -/
def splitValue (word : String) : String × Option String :=
  let cs := word.toList
  match cs.dropWhile (· != '=') with
  | [] => (word, none)
  | _ :: value => (String.ofList (cs.takeWhile (· != '=')), some (String.ofList value))

def isOptionWord (word : String) : Bool := word.length > 1 && word.toList.head? = some '-'

/-- The error of an option that there is not; similar names are suggested for a long one. -/
def unknownOption (forms : List OptionForm) (name : String) : UsageError :=
  .noSuchOption name
    ((Text.closeWords name (forms.map (·.name))).mergeSort fun a b => decide (a ≤ b))

/-- The options that the letters behind one dash stand for; none of them takes a value. -/
def lettersOf (forms : List OptionForm) (w : Words) : List Char → Except UsageError Words
  | [] => .ok w
  | c :: rest =>
    match forms.find? fun form => form.letter = some c with
    | some form => (lettersOf forms w rest).map (Words.addOption form.name none)
    | none => .error (.noSuchOption (String.ofList ['-', c]) [])

/--
Tells words apart. Where options are not taken `anywhere`, the first argument ends them, and it comes
with all words behind it.
-/
def readWords (forms : List OptionForm) (anywhere : Bool) : List String → Except UsageError Words
  | [] => .ok .none
  | word :: rest =>
    if word = "--" then .ok ⟨[], rest⟩
    else if isOptionWord word then
      let (name, explicit) := splitValue word
      match forms.find? fun form => form.name = name with
      | some form =>
        if form.takesValue then
          match explicit, rest with
          | some value, rest => (readWords forms anywhere rest).map (.addOption name value)
          | none, value :: rest => (readWords forms anywhere rest).map (.addOption name value)
          | none, [] => .error (.needsValue name)
        else if explicit.isSome then .error (.takesNoValue name)
        else (readWords forms anywhere rest).map (.addOption name none)
      | none =>
        if "--".toList.isPrefixOf word.toList then .error (unknownOption forms name)
        else
          match lettersOf forms .none (word.toList.drop 1) with
          | .ok letters =>
            (readWords forms anywhere rest).map fun w =>
              { w with options := letters.options ++ w.options }
          | .error e => .error e
    else if anywhere then (readWords forms anywhere rest).map (.addArgument word)
    else .ok ⟨[], word :: rest⟩

end SchemaAtlas.CommandLine
