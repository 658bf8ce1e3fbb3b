import MailIndex.Text.Range

/-!
# Usage errors

What can be wrong with the arguments of the program, and the line that says so.
-/

namespace MailIndex.CommandLine

/-- Why arguments are refused. Options stand in the form in which they are shown. -/
inductive UsageError where
  /-- There are no arguments at all. -/
  | nothingGiven
  | missingCommand
  | unknownCommand (name : Text)
  | unexpected (argument : Text)
  | missingValue (option : Text)
  /-- A value is attached to an option that takes none. -/
  | unexpectedValue (option value : Text)
  | invalidValue (option value reason : Text)
  | repeated (option : Text)
  | conflict (option other : Text)
  | missingArguments
  deriving DecidableEq, Repr

def about : Text :=
  "inboxdb: a local-first mail archive index with safe full-text search".toList

def inQuotes (t : Text) : Text := '\'' :: t ++ ['\'']

def UsageError.reason : UsageError → Text
  | .nothingGiven => about
  | .missingCommand => "'inboxdb' requires a subcommand but one was not provided".toList
  | .unknownCommand name => "unrecognized subcommand ".toList ++ inQuotes name
  | .unexpected argument => "unexpected argument ".toList ++ inQuotes argument ++ " found".toList
  | .missingValue option =>
    "a value is required for ".toList ++ inQuotes option ++ " but none was supplied".toList
  | .unexpectedValue option value =>
    "unexpected value ".toList ++ inQuotes value ++ " for ".toList ++ inQuotes option
      ++ " found; no more were expected".toList
  | .invalidValue option value reason =>
    "invalid value ".toList ++ inQuotes value ++ " for ".toList ++ inQuotes option ++ ": ".toList
      ++ reason
  | .repeated option =>
    "the argument ".toList ++ inQuotes option ++ " cannot be used multiple times".toList
  | .conflict option other =>
    "the argument ".toList ++ inQuotes option ++ " cannot be used with ".toList ++ inQuotes other
  | .missingArguments => "the following required arguments were not provided:".toList

/-- The message of an error. Where nothing was given, the program introduces itself. -/
def UsageError.message : UsageError → Text
  | .nothingGiven => about
  | e => "error: ".toList ++ e.reason

inductive Early where
  | refused (e : UsageError)
  /-- Help is asked for. -/
  | help
  /-- The version is asked for. -/
  | version
  deriving DecidableEq, Repr

end MailIndex.CommandLine
