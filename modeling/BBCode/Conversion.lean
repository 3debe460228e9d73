import BBCode.Log
import BBCode.Source

/-!
# BBCode.Conversion

Converting documents to HTML: one text, one file, or every source below a folder. A folder is
converted file by file in the order of the scan, and the first failure ends it.
-/

namespace BBCode

/-- What an output consists of. -/
inductive OutputForm where
  /-- The rendered document alone. -/
  | fragment
  /-- A whole page, with a link to a stylesheet if there is one. -/
  | page (stylesheet : Option Text)
  deriving DecidableEq, Repr

/-- How documents are converted. -/
structure Conversion where
  options : Options
  form : OutputForm
  deriving DecidableEq, Repr

/-- Why a conversion ends early. -/
inductive ConversionError where
  | unreadableInput (cause : OsError)
  | unreadable (path : Path) (cause : OsError)
  | unwritable (path : Path) (cause : OsError)
  | misplaced (cause : SourceError)
  | noOutputFolder
  deriving DecidableEq, Repr

namespace ConversionError

def message : ConversionError → Text
  | unreadableInput _ => "failed to read stdin".toList
  | unreadable p _ => "failed to read ".toList ++ p.text
  | unwritable p _ => "failed to write ".toList ++ p.text
  | misplaced e => e.message
  | noOutputFolder => "directory input needs an OUTPUT_DIR".toList

/-- The error behind this one, if there is one. -/
def cause? : ConversionError → Option OsError
  | unreadableInput e => some e
  | unreadable _ e => some e
  | unwritable _ e => some e
  | misplaced e => e.cause?
  | noOutputFolder => none

end ConversionError

namespace Conversion

open FileSystem

/-- The output for a document. Every document is rendered on its own. -/
def render (c : Conversion) (source : Text) : Text :=
  let body := (Page.render c.options source .empty).html
  match c.form with
  | .fragment => body
  | .page stylesheet => Html.page stylesheet body

/-- The remarks on a document. -/
def remarks (c : Conversion) (source : Text) : List Event :=
  (Notice.ofRender c.options source .empty).map .remark

variable {m : Type → Type} [Monad m] [FileSystem m]

/-- Converts one source below a folder to its place below the output folder. -/
def source (c : Conversion) (input output file : Path) :
    m (List Event × Except ConversionError Unit) := do
  match ← readText file with
  | .error e => return ([], .error (.unreadable file e))
  | .ok s =>
    match Source.outputPath input file with
    | .error e => return ([], .error (.misplaced e))
    | .ok target =>
      match ← Source.write output target (c.render s) with
      | .error e => return (c.remarks s, .error (.misplaced e))
      | .ok () => return (c.remarks s ++ [.converted file.text target], .ok ())

/-- Converts sources one after the other, up to the first failure. -/
def sources (c : Conversion) (input output : Path) :
    List Path → m (List Event × Except ConversionError Unit)
  | [] => return ([], .ok ())
  | file :: files => do
    match ← c.source input output file with
    | (es, .error e) => return (es, .error e)
    | (es, .ok ()) =>
      let (es', r) ← c.sources input output files
      return (es ++ es', r)

/-- Converts every source below a folder. -/
def folder (c : Conversion) (input output : Path) :
    m (List Event × Except ConversionError Unit) := do
  match ← Source.scan input with
  | .error e => return ([], .error (.misplaced e))
  | .ok [] => return ([.noSources input], .ok ())
  | .ok files => c.sources input output files

/-- Converts the document at a path to a file, or hands its HTML back. A dash stands for the input
of the program. -/
def document (c : Conversion) (stdin : m (Except OsError Text)) (input : Path)
    (output : Option Path) : m (List Event × Except ConversionError Text) := do
  let fromInput := input.same ⟨['-']⟩
  match ← (if fromInput then stdin else readText input) with
  | .error e =>
    return ([], .error (if fromInput then .unreadableInput e else .unreadable input e))
  | .ok s =>
    match output with
    | none => return (c.remarks s, .ok (c.render s))
    | some p =>
      match ← writeText p (c.render s) with
      | .error e => return (c.remarks s, .error (.unwritable p e))
      | .ok () => return (c.remarks s ++ [.converted input.text p.text], .ok [])

/-- Converts a folder or a document. What is handed back is the text to print. -/
def run (c : Conversion) (stdin : m (Except OsError Text)) (input : Path)
    (output : Option Path) : m (List Event × Except ConversionError Text) := do
  if ← isFolder? input then
    match output with
    | none => return ([], .error .noOutputFolder)
    | some p =>
      let (es, r) ← c.folder input p
      return (es, r.map fun _ => [])
  else c.document stdin input output

end Conversion

end BBCode
