import BBCode.Document
import BBCode.Path
import BBCode.Regex.Reader

/-!
# BBCode.Log

What a program says on its way, beside its output: an event has a level and belongs to a part of
the program, and a filter decides which events are shown.
-/

namespace BBCode

/-- How much an event matters, the most important first. -/
inductive LogLevel where
  | error
  | warn
  | info
  | debug
  | trace
  deriving DecidableEq, Repr

namespace LogLevel

def rank : LogLevel → Nat
  | error => 1
  | warn => 2
  | info => 3
  | debug => 4
  | trace => 5

def name : LogLevel → String
  | error => "ERROR"
  | warn => "WARN"
  | info => "INFO"
  | debug => "DEBUG"
  | trace => "TRACE"

def all : List LogLevel := [error, warn, info, debug, trace]

end LogLevel

/-- The levels that are shown: those up to one, or none at all. -/
abbrev LogThreshold := Option LogLevel

namespace LogThreshold

def admits (t : LogThreshold) (l : LogLevel) : Bool := t.any fun top => l.rank ≤ top.rank

/-- The threshold that a word means, whatever the case of its letters. -/
def ofWord? (w : Text) : Option LogThreshold :=
  if w.sameAscii "off".toList then some none
  else (LogLevel.all.find? fun l => w.sameAscii l.name.toList).map some

end LogThreshold

/-- A threshold for the parts of the program whose name starts with a text, or for every part. A
directive for the empty name holds for every part too, and is yet another one. -/
structure LogDirective where
  target : Option Text
  threshold : LogThreshold
  deriving DecidableEq, Repr

namespace LogDirective

def concerns (d : LogDirective) (part : Text) : Bool := d.target.all (·.isPrefixOf part)

/-- How much a directive says of the name of a part. -/
def length (d : LogDirective) : Nat := (d.target.map List.length).getD 0

end LogDirective

/-- Which events are shown: those of the levels that the directives admit, and of these those whose
message a pattern matches. -/
structure LogFilter where
  directives : List LogDirective
  pattern : Option Regex := none
  deriving DecidableEq, Repr

/-- What is wrong with the description of a filter. -/
inductive LogWarning where
  | directive (word : Text)
  | tooManySlashes (description : Text)
  | pattern (source : Text) (fault : Regex.Fault)
  deriving DecidableEq, Repr

namespace LogWarning

def reason : LogWarning → Text
  | directive w => "invalid logging spec '".toList ++ w ++ ['\'']
  | tooManySlashes d => "invalid logging spec '".toList ++ d ++ "' (too many '/'s)".toList
  | pattern s f => "invalid regex filter - ".toList ++ f.message s

def line (w : LogWarning) : Text := "warning: ".toList ++ w.reason ++ ", ignoring it\n".toList

end LogWarning

namespace LogFilter

/-- A word alone is a threshold for every part or else a part that shows everything. -/
def readDirective (s : Text) : Except LogWarning LogDirective :=
  match s.splitAt '=' with
  | [word] =>
    match LogThreshold.ofWord? word with
    | some t => .ok ⟨none, t⟩
    | none => .ok ⟨some word, some .trace⟩
  | [target, word] =>
    let word := word.trimBlanks
    if word.isEmpty then .ok ⟨some target, some .trace⟩
    else
      match LogThreshold.ofWord? word with
      | some t => .ok ⟨some target, t⟩
      | none => .error (.directive word)
  | _ => .error (.directive s)

/-- Adds a directive, in the place of one for the same parts. -/
def insert (d : LogDirective) : List LogDirective → List LogDirective
  | [] => [d]
  | e :: ds => if e.target = d.target then d :: ds else e :: insert d ds

/-- Reads directives with commas between them. Faulty ones do not count. -/
def readDirectives (s : Text) : List LogWarning × List LogDirective :=
  let parts := ((s.splitAt ',').map Text.trimBlanks).filter fun p => !p.isEmpty
  parts.foldl (fun x p =>
    match readDirective p with
    | .ok d => (x.1, insert d x.2)
    | .error w => (x.1 ++ [w], x.2)) ([], [])

/-- Without directives only errors are shown. -/
def ofDirectives (ds : List LogDirective) (pattern : Option Regex) : LogFilter :=
  ⟨if ds.isEmpty then [⟨none, some .error⟩] else ds, pattern⟩

/-- The filter that a text describes, by directives and, after a slash, a pattern. -/
def ofText (s : Text) : List LogWarning × LogFilter :=
  match s.splitAt '/' with
  | [spec] =>
    let (ws, ds) := readDirectives spec
    (ws, ofDirectives ds none)
  | [spec, source] =>
    let (ws, ds) := readDirectives spec
    match Regex.read source with
    | .ok r => (ws, ofDirectives ds (some r))
    | .error f => (ws ++ [.pattern source f], ofDirectives ds none)
  | _ => ([.tooManySlashes s], ofDirectives [] none)

/-- The directive for a part: the one that says most of its name, and of equals the last. -/
def choose (part : Text) (best : Option LogDirective) (d : LogDirective) : Option LogDirective :=
  if d.concerns part && (best.map LogDirective.length).getD 0 ≤ d.length then some d else best

def threshold (f : LogFilter) (part : Text) : LogThreshold :=
  (f.directives.foldl (choose part) none).bind (·.threshold)

/-- What is shown if nothing else is said. -/
def usual : LogFilter := ⟨[⟨none, some .warn⟩], none⟩

end LogFilter

/-- What a program says on its way. -/
inductive Event where
  /-- A remark of the renderer. -/
  | remark (n : Notice)
  /-- There is no source in a folder. -/
  | noSources (folder : Path)
  | converted (source target : Text)
  | wroteConfig (path : Path)
  deriving DecidableEq, Repr

namespace Event

def level : Event → LogLevel
  | remark (.applying _) => .trace
  | remark _ => .debug
  | noSources _ => .warn
  | converted _ _ => .info
  | wroteConfig _ => .info

/-- The part of the program that an event belongs to. -/
def target : Event → String
  | remark .stripped => "bbrender_engine::render::guard"
  | remark (.applying _) => "bbrender_engine::render::rules"
  | remark (.unclosed _ _) => "bbrender_engine::render::boxes"
  | _ => "bbrender_cli"

def message : Event → Text
  | remark .stripped => "stripping placeholder delimiters from source text".toList
  | remark (.applying rule) => "applying rule ".toList ++ rule.toList
  | remark (.unclosed k byte) =>
    "unclosed [".toList ++ k.tag ++ "] at byte ".toList ++ decimal byte
      ++ "; leaving the rest of the document unresolved".toList
  | noSources folder => "no .bbcode or .bb files below ".toList ++ folder.text
  | converted source target =>
    "converted ".toList ++ source ++ " -> ".toList ++ target
  | wroteConfig path => "wrote default config to ".toList ++ path.text

def shown (f : LogFilter) (e : Event) : Bool :=
  (f.threshold e.target.toList).admits e.level && f.pattern.all (·.matchesIn e.message)

/-- Later lines of a message are indented. -/
def indent (s : Text) : Text :=
  s.flatMap fun c => if c = '\n' then "\n    ".toList else [c]

def line (e : Event) : Text :=
  '[' :: Text.padEnd 5 e.level.name.toList ++ ' ' :: e.target.toList ++ "] ".toList
    ++ indent e.message ++ ['\n']

/-- What is said of some events. -/
def lines (f : LogFilter) (es : List Event) : Text := (es.filter (shown f)).flatMap line

end Event

end BBCode
