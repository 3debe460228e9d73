import BBCode.Path

/-!
# BBCode.Command

The command line: its words are read one after the other, and what they have asked for is looked at
when all are read.

Main statement: `read_nil`, the words together make up the command.
-/

namespace BBCode

/-- What is to be converted, and how. -/
structure Request where
  config : Option Path
  /-- Whether the output is a whole page. -/
  standalone : Bool
  input : Path
  output : Option Path
  deriving DecidableEq, Repr

inductive Command where
  /-- Print the catalog. -/
  | tags
  /-- Write the default configuration, to a path or where it is by default. -/
  | writeConfig (path : Option Path)
  | convert (r : Request)
  deriving DecidableEq, Repr

inductive UsageError where
  | missingConfigPath
  | unknownOption (word : Text)
  | placeWithWriteConfig
  | missingInput
  | tooManyPlaces
  deriving DecidableEq, Repr

namespace UsageError

def message : UsageError → Text
  | missingConfigPath => "--config needs a path".toList
  | unknownOption w => "unknown option ".toList ++ w
  | placeWithWriteConfig => "--init-config takes no INPUT".toList
  | missingInput => "missing INPUT".toList
  | tooManyPlaces => "too many arguments".toList

end UsageError

/-- What the words of a command line have asked for so far. -/
structure Collected where
  /-- The path of the configuration that was named last. -/
  config : Option Path := none
  standalone : Bool := false
  writeConfig : Bool := false
  /-- The input and the output, and what was named beyond them. -/
  places : List Path := []
  deriving DecidableEq, Repr

namespace Collected

/-- The command that is asked for when all words are read. -/
def command (c : Collected) : Except UsageError Command :=
  if c.writeConfig then
    if c.places.isEmpty then .ok (.writeConfig c.config) else .error .placeWithWriteConfig
  else
    match c.places with
    | [] => .error .missingInput
    | [input] => .ok (.convert ⟨c.config, c.standalone, input, none⟩)
    | [input, output] => .ok (.convert ⟨c.config, c.standalone, input, some output⟩)
    | _ => .error .tooManyPlaces

end Collected

namespace Command

/-- Reads words from left to right after some have been read. The option for a path takes the next
word with it, whatever that looks like. -/
def read (c : Collected) : List Text → Except UsageError Command
  | [] => c.command
  | w :: ws =>
    if w = "--tags".toList then .ok .tags
    else if w = "--standalone".toList then read { c with standalone := true } ws
    else if w = "--init-config".toList then read { c with writeConfig := true } ws
    else if w = "--config".toList then
      match ws with
      | [] => .error .missingConfigPath
      | v :: vs => read { c with config := some ⟨v⟩ } vs
    else if "--".toList.isPrefixOf w then .error (.unknownOption w)
    else read { c with places := c.places ++ [⟨w⟩] } ws

def parse (words : List Text) : Except UsageError Command := read {} words

/-- How the program is used. -/
def usage (program : Text) : Text :=
  "Usage: ".toList ++ program
    ++ " [--config PATH] [--standalone] <INPUT|-> [OUTPUT]\n       ".toList ++ program
    ++ " [--config PATH] [--standalone] <INPUT_DIR> <OUTPUT_DIR>\n       ".toList ++ program
    ++ " --tags\n       ".toList ++ program ++ " [--config PATH] --init-config\n".toList

theorem read_nil (c : Collected) : read c [] = c.command := by rw [read]

end Command

end BBCode
