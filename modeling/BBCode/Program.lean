import BBCode.Catalog
import BBCode.Command
import BBCode.Config
import BBCode.Conversion

/-!
# BBCode.Program

What the program does with a command line: the text it prints, what it says on its way and about
errors, and the code it ends with.
-/

namespace BBCode

/-- What a run of the program leaves beside changed files. -/
structure Outcome where
  code : Nat
  output : Text
  /-- What is said beside the output. -/
  remarks : Text
  deriving DecidableEq, Repr

/-- An outcome with remarks before its own. -/
def Outcome.warned (warnings : Text) (o : Outcome) : Outcome :=
  { o with remarks := warnings ++ o.remarks }

namespace Program

/-! ## The catalog as a table -/

/-- A line feed in a snippet is written as an escape, so that every entry is one line. -/
def oneLine (s : Text) : Text := s.flatMap fun c => if c = '\n' then ['\\', 'n'] else [c]

def entryLine (e : CatalogEntry) : Text :=
  Text.join [' ']
      [Text.padEnd 28 (oneLine e.snippet), Text.padEnd 14 e.label.toList,
        Text.padEnd 8 ((e.category.map Category.name).getD "-").toList,
        (e.shortcut.getD "").toList]
    ++ ['\n']

def catalogTable : Text := Catalog.entries.flatMap entryLine

/-! ## Errors -/

/-- How an error is shown, with the error behind it below. -/
def errorText (message : Text) (cause : Option OsError) : Text :=
  "Error: ".toList ++ message
    ++ (cause.map fun e => "\n\nCaused by:\n    ".toList ++ e.message).getD [] ++ ['\n']

def failed (remarks : Text) : Outcome := ⟨1, [], remarks⟩

def usageError (program : Text) (e : UsageError) : Outcome :=
  failed (errorText e.message none ++ Command.usage program)

/-! ## Running -/

/-- The filter for what is said, and what is wrong with its description: that of the variable
`RUST_LOG` if it is set. -/
def logging (e : Environment) : List LogWarning × LogFilter :=
  match e.value? "RUST_LOG".toList with
  | some s => LogFilter.ofText s
  | none => ([], LogFilter.usual)

def logFilter (e : Environment) : LogFilter := (logging e).2

def warnings (e : Environment) : Text := (logging e).1.flatMap LogWarning.line

section Running

variable {m : Type → Type} [Monad m] [FileSystem m]

def writeConfig (e : Environment) (path : Option Path) : m Outcome := do
  let p := path.getD (Config.defaultPath e)
  match ← Config.saveTo {} p with
  | .error cause => return failed (errorText cause.message none)
  | .ok () => return ⟨0, [], Event.lines (logFilter e) [.wroteConfig p]⟩

/-- The conversion that a request asks for. -/
def conversion (c : Config) (standalone : Bool) : Conversion :=
  { options := c.render
    form := if standalone then .page c.stylesheet else .fragment }

def convert (e : Environment) (stdin : m (Except OsError Text)) (r : Request) : m Outcome := do
  match ← Config.loadOrDefault e r.config with
  | .error err =>
    return failed (errorText ("Failed to load config file: ".toList ++ err.message) none)
  | .ok c =>
    let (es, x) ← (conversion c r.standalone).run stdin r.input r.output
    let said := Event.lines (logFilter e) es
    match x with
    | .error err => return failed (said ++ errorText err.message err.cause?)
    | .ok output => return ⟨0, output, said⟩

/-- What the words of a command line do. -/
def execute (e : Environment) (stdin : m (Except OsError Text)) (program : Text)
    (words : List Text) : m Outcome :=
  match Command.parse words with
  | .error err => return usageError program err
  | .ok .tags => return ⟨0, catalogTable, []⟩
  | .ok (.writeConfig path) => writeConfig e path
  | .ok (.convert r) => convert e stdin r

/-- Runs the program under a name with the words after it. What is wrong with the description of the
filter is said before all else. -/
def run (e : Environment) (stdin : m (Except OsError Text)) (program : Text)
    (words : List Text) : m Outcome := do
  return (← execute e stdin program words).warned (warnings e)

end Running

end Program

end BBCode
