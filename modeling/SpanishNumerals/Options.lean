-- The languages, and the options of the command line. A language is found by one of its names. The
-- arguments are read from left to right, and a later one overrides an earlier one. The language is
-- looked up last, and a call for help comes first.
import SpanishNumerals.Catalogue
import SpanishNumerals.Text.Lowercase

namespace SpanishNumerals

/-! ## Languages -/

/-- A language. -/
structure Language where
  /-- The code of the language. -/
  code : String
  /-- The name of the language in itself. -/
  name : String
  /-- What its tokens measure. -/
  dimension : Dimension
  /-- The rules for its numerals. -/
  rules : Registry

/-- The Spanish language. -/
def spanish : Language where
  code := "es"
  name := "Español"
  dimension := .number
  rules := spanishRules

/-- The language of a code or a name, as it stands. -/
def Language.find? (code : String) : Option Language :=
  if code = "es" ∨ code = "spanish" ∨ code = "español" then some spanish else none

/-- The code of a language under one of its names, or else the name as it was understood:
blanks at the ends dropped, and in small letters. -/
def languageCode (name : String) : Except String String :=
  let plain := String.ofList (lowercase (trimBlank name.toList))
  if plain = "es" ∨ plain = "spanish" ∨ plain = "espanol" ∨ plain = "español" then .ok "es"
  else .error plain

/-! ## Options -/

/-- Why the arguments cannot be understood. -/
inductive OptionError
  /-- The option needs a value, and there is none. -/
  | missingValue (option : String)
  /-- There is no such option. -/
  | unknownOption (argument : String)
  /-- There is no such language. -/
  | unsupportedLanguage (name : String)
deriving DecidableEq

/-- The wording of an error. -/
def OptionError.message : OptionError → String
  | missingValue option => option ++ " requiere un valor"
  | unknownOption argument => "Opción desconocida: " ++ argument
  | unsupportedLanguage name => "Idioma no soportado: " ++ name

/-- What the command line asks for. -/
structure Options where
  /-- The language. -/
  language : String
  /-- The file to read. -/
  inputFile : Option String
  /-- The text to analyse. -/
  text : Option String
  /-- Whether all candidates are shown, and not only those that are kept. -/
  showCandidates : Bool
  /-- Whether the steps are traced. -/
  verbose : Bool
  /-- Whether the help is shown. -/
  showHelp : Bool
deriving DecidableEq

namespace Options

/-- What is asked for when nothing is said. -/
def initial : Options where
  language := "es"
  inputFile := none
  text := none
  showCandidates := false
  verbose := false
  showHelp := false

/-- Whether an argument has the form of an option: a hyphen, and then something that does not
begin a number. -/
def looksLikeOption (argument : String) : Bool :=
  match argument.toList with
  | '-' :: c :: _ => !(c.isDigit || c = ',' || c = '.')
  | _ => false

/-- The options with the code of their language. -/
def withLanguageCode (options : Options) : Except OptionError Options :=
  match languageCode options.language with
  | .ok code => .ok { options with language := code }
  | .error name => .error (.unsupportedLanguage name)

/-- The options after some more arguments. -/
def readArguments (options : Options) : List String → Except OptionError Options
  | [] => options.withLanguageCode
  | argument :: rest =>
    if argument = "-h" ∨ argument = "--help" then .ok { options with showHelp := true }
    else if argument = "-l" ∨ argument = "--lang" then
      match rest with
      | [] => .error (.missingValue "--lang")
      | value :: rest => readArguments { options with language := value } rest
    else if argument = "-i" ∨ argument = "--input" then
      match rest with
      | [] => .error (.missingValue "--input")
      | value :: rest => readArguments { options with inputFile := some value } rest
    else if argument = "-c" ∨ argument = "--candidates" then
      readArguments { options with showCandidates := true } rest
    else if argument = "-v" ∨ argument = "--verbose" then
      readArguments { options with verbose := true } rest
    else if looksLikeOption argument then .error (.unknownOption argument)
    else readArguments { options with text := some argument } rest

/-- The options that the arguments give, the name of the program left out. -/
def ofArguments (arguments : List String) : Except OptionError Options :=
  initial.readArguments arguments

end Options

end SpanishNumerals
