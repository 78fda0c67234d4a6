-- The command line: what is written, and the code that the program ends with.
import SpanishNumerals.Analysis
import SpanishNumerals.Options

namespace SpanishNumerals

/-- What a run leaves behind. -/
structure Outcome where
  /-- The code that the program ends with. -/
  code : Nat
  /-- What is written to the standard output. -/
  stdout : String
  /-- What is written to the standard error, without the trace. -/
  stderr : String
deriving DecidableEq

/-- Why a file gives no text. -/
inductive FileProblem
  | missing
  | directory
  | notUtf8
  /-- Any other reason, in the words of the system. -/
  | other (reason : String)
deriving DecidableEq

/-- The wording of a problem with a file. -/
def FileProblem.message : FileProblem → String
  | missing => "No such file or directory (os error 2)"
  | directory => "Is a directory (os error 21)"
  | notUtf8 => "stream did not contain valid UTF-8"
  | other reason => reason

/-- The help. -/
def helpText : String :=
  "Numerales - Reconocimiento de numerales en español\n" ++
  "\n" ++
  "USO:\n" ++
  "    numerales [OPCIONES] [TEXTO]\n" ++
  "\n" ++
  "ARGUMENTOS:\n" ++
  "    [TEXTO]    Texto a analizar\n" ++
  "\n" ++
  "OPCIONES:\n" ++
  "    -h, --help                  Muestra esta ayuda\n" ++
  "    -l, --lang <IDIOMA>         Idioma a usar (default: es)\n" ++
  "    -i, --input <ARCHIVO>       Archivo de entrada\n" ++
  "    -c, --candidates            Muestra todos los candidatos, no solo los resueltos\n" ++
  "    -v, --verbose               Trazas de depuración (o RUST_LOG=debug)\n" ++
  "\n" ++
  "EJEMPLOS:\n" ++
  "    numerales \"treinta y siete\"\n" ++
  "    numerales \"cuesta 2.5m o 1.234.567,89\"\n" ++
  "    numerales --input archivo.txt\n"

/-! ## Reports -/

/-- The line of a numeral: where it stands, its text, its token and its rule, with tabs
between them. -/
def Numeral.line (numeral : Numeral) : Text :=
  (toString numeral.start).toList ++ ['.', '.'] ++ (toString numeral.stop).toList ++
    '\t' :: numeral.text ++ '\t' :: numeral.token.text ++ '\t' :: numeral.rule.toList

/-- The report of the numerals of a text. -/
def report (numerals : List Numeral) : Outcome where
  code := 0
  stdout := String.ofList (numerals.flatMap fun numeral => numeral.line ++ ['\n'])
  stderr := if numerals.isEmpty then "No se reconoció ningún número.\n" else ""

/-- A complaint, with the help. -/
def complaint (message : String) : Outcome := ⟨1, helpText, "Error: " ++ message ++ "\n\n"⟩

/-- The report of a file that gives no text. -/
def fileComplaint (name : String) (problem : FileProblem) : Outcome :=
  ⟨1, "", "Error leyendo archivo '" ++ name ++ "': " ++ problem.message ++ "\n"⟩

/-! ## Runs -/

/-- The analysis that the options ask for, and its report. -/
def Options.reportOn (options : Options) (language : Language) (text : Text) : Outcome :=
  if options.showCandidates then report (candidates language.rules text defaultPasses)
  else report (analyze language.rules text defaultPasses)

/-- A run of the program. A file, if one is named, goes before a text. The lines of the trace, as
the warning that a word is missing from its table, are no part of the outcome: the standard error
is what the program itself writes there. -/
def runCommand {m : Type → Type} [Monad m] (readFile : String → m (Except FileProblem Text))
    (arguments : List String) : m Outcome :=
  match Options.ofArguments arguments with
  | .error error => pure (complaint error.message)
  | .ok options =>
    if options.showHelp then pure ⟨0, helpText, ""⟩
    else
      match Language.find? options.language with
      | none => pure ⟨1, "", "Error: idioma no soportado '" ++ options.language ++ "'\n"⟩
      | some language =>
        match options.inputFile, options.text with
        | some name, _ => do
          match ← readFile name with
          | .ok text => pure (options.reportOn language text)
          | .error problem => pure (fileComplaint name problem)
        | none, some text => pure (options.reportOn language text.toList)
        | none, none => pure (complaint "No se proporcionó texto para analizar.")

end SpanishNumerals
