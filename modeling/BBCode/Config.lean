import BBCode.Config.Expand
import BBCode.FileSystem
import BBCode.Options
import BBCode.Toml.Printer
import BBCode.Toml.Reader

/-!
# BBCode.Config

The configuration file: the stylesheet that pages link to, and the options of rendering. Whatever
the file does not say is as by default; keys that mean nothing are skipped.
-/

namespace BBCode

structure Config where
  /-- The stylesheet that pages link to. -/
  stylesheet : Option Text := none
  render : Options := {}
  deriving DecidableEq, Repr

/-- Why a configuration cannot be loaded. -/
inductive ConfigError where
  | unreadable (path : Path) (cause : OsError)
  | invalid (path : Path) (fault : Toml.Fault)
  deriving DecidableEq, Repr

namespace ConfigError

/-- The first words of the diagnostic of a fault. For a malformed document the diagnostic goes on with
the place of the fault, the line it stands in and what was expected there; none of this is given
here. -/
def faultMessage : Toml.Fault → Text
  | .malformed => "TOML parse error".toList
  | .tooDeep => "recursion limit\n".toList

def message : ConfigError → Text
  | unreadable p e =>
    "Failed to read config file at ".toList ++ p.text ++ ": ".toList ++ e.message
  | invalid p f =>
    "Failed to parse config file at ".toList ++ p.text ++ ": ".toList ++ faultMessage f

end ConfigError

namespace Config

open Toml

/-! ## Reading -/

def sizeOf? : Value → Option UInt16
  | .integer n => if 0 ≤ n && n < 65536 then some (UInt16.ofNat n.toNat) else none
  | _ => none

def sizes? : Value → Option (List UInt16)
  | .array items => items.mapM sizeOf?
  | _ => none

/-- Whether a value is empty: a choice can be written as a key with an empty value. -/
def isEmptyValue : Value → Bool
  | .array [] => true
  | .table _ [] => true
  | _ => false

def codeBlocks? : Value → Option CodeMatching
  | .text s => CodeMatching.ofName? s
  | .table _ [(k, v)] => if isEmptyValue v then CodeMatching.ofName? k else none
  | _ => none

def text? : Value → Option Text
  | .text s => some s
  | _ => none

def boolean? : Value → Option Bool
  | .boolean b => some b
  | _ => none

/-- The value of a key, or the default if the key is not there. -/
def get? {α : Type} (read? : Value → Option α) (default : α) : Option Value → Option α
  | none => some default
  | some v => read? v

/-- The options, from the values for sizes, code regions, profile URL and flag. -/
def optionsOf? (sizes code profile expand : Option Value) : Option Options :=
  let d : Options := {}
  match get? sizes? d.allowedSizes sizes, get? codeBlocks? d.codeBlocks code,
    get? text? d.profileUrl profile, get? boolean? d.expandByDefault expand with
  | some s, some c, some p, some e => some ⟨s, c, p, e⟩
  | _, _, _, _ => none

/-- The options can be a table, or an array of the values in order. A date has no key in common
with them. -/
def options? : Value → Option Options
  | .table _ fs =>
    optionsOf? (fs.lookup "allowed_sizes".toList) (fs.lookup "code_blocks".toList)
      (fs.lookup "profile_url".toList) (fs.lookup "expand_widgets_by_default".toList)
  | .array items => optionsOf? items[0]? items[1]? items[2]? items[3]?
  | .moment => some {}
  | _ => none

def ofFields? (fs : Fields) : Option Config :=
  match get? (fun v => (text? v).map some) none (fs.lookup "stylesheet".toList),
    get? options? {} (fs.lookup "render".toList) with
  | some s, some r => some ⟨s, r⟩
  | _, _ => none

/-- The configuration that a text says, with the path of the stylesheet as it is written. -/
def parse (s : Text) : Except Fault Config :=
  (Toml.read s).bind fun fs => orMalformed (ofFields? fs)

def expand (e : Environment) (c : Config) : Config :=
  { c with stylesheet := c.stylesheet.map (Expand.expandPath e) }

/-! ## Writing -/

def printOptions (o : Options) : Text :=
  "[render]\n".toList
    ++ field "allowed_sizes" (numbers (o.allowedSizes.map UInt16.toNat))
    ++ field "code_blocks" (quote o.codeBlocks.name)
    ++ field "profile_url" (quote o.profileUrl)
    ++ field "expand_widgets_by_default" (boolean o.expandByDefault)

/-- The text of a configuration file. -/
def print (c : Config) : Text :=
  match c.stylesheet with
  | none => printOptions c.render
  | some s => field "stylesheet" (quote s) ++ '\n' :: printOptions c.render

/-! ## Files -/

/-- Where the configuration is if nothing else is said. -/
def defaultPath (e : Environment) : Path :=
  Path.child ⟨Expand.expandTilde e "~/.config/bbrender".toList⟩ "config.toml".toList

/-- Whether two configurations are the same, paths being compared by what they mean. -/
def same (a b : Config) : Bool :=
  a.render = b.render &&
    match a.stylesheet, b.stylesheet with
    | some s, some t => (Path.mk s).same ⟨t⟩
    | none, none => true
    | _, _ => false

section Files

variable {m : Type → Type} [Monad m] [FileSystem m]

/-- Loads the configuration at a path; there is none if nothing is there. -/
def loadFrom (e : Environment) (p : Path) : m (Except ConfigError (Option Config)) := do
  if ← FileSystem.exists? p then
    match ← FileSystem.readText p with
    | .error cause => return .error (.unreadable p cause)
    | .ok s =>
      match parse s with
      | .error fault => return .error (.invalid p fault)
      | .ok c => return .ok (some (c.expand e))
  else return .ok none

def load (e : Environment) : m (Except ConfigError (Option Config)) := loadFrom e (defaultPath e)

/-- Loads the configuration at a path, or where it is by default. Without a file it is the default
configuration. -/
def loadOrDefault (e : Environment) (p : Option Path) : m (Except ConfigError Config) := do
  match ← loadFrom e (p.getD (defaultPath e)) with
  | .error err => return .error err
  | .ok c => return .ok (c.getD {})

/-- Writes a configuration file, making the folders above it. -/
def saveTo (c : Config) (p : Path) : m (Except OsError Unit) := do
  match ← FileSystem.makeParents p with
  | .error e => return .error e
  | .ok () => FileSystem.writeText p c.print

end Files

end Config

end BBCode
