import StoryWorld.Datum.Json.Reader
import StoryWorld.Datum.Toml.Reader
import StoryWorld.RuleSet.Basic

/-!
# Loading rules and tuning

Rules come from JSON or TOML and tuning comes from TOML. A file of rules is read as TOML when its
name ends in `.toml`, and as JSON otherwise; a name that is nothing but an ending has none.
-/

namespace StoryWorld

/-- Why something cannot be loaded. -/
inductive LoadError where
  | json
  | toml
  | unreadable
  deriving DecidableEq

/-- What follows the last dot of a file name, unless the name starts with that dot. -/
def fileEnding (name : String) : Option String :=
  let stem := (name.toList.reverse.dropWhile (· ≠ '.')).drop 1
  if stem.isEmpty then none else some (String.ofList (name.toList.drop (stem.length + 1)))

/-- The contents of a file, if it can be read. -/
def contents (file : Option String) : Except LoadError String :=
  match file with
  | none => .error .unreadable
  | some text => .ok text

namespace RuleSet

def ofJson (text : String) : Except LoadError RuleSet :=
  match (Json.read? text).bind (ofDatum? .json) with
  | none => .error .json
  | some r => .ok r

def ofToml (text : String) : Except LoadError RuleSet :=
  match (Toml.read? text).bind (ofDatum? .toml) with
  | none => .error .toml
  | some r => .ok r

/-- The rules in a file with a name and its text, if it can be read. -/
def ofFile (name : String) (file : Option String) : Except LoadError RuleSet := do
  let text ← contents file
  if fileEnding name = some "toml" then ofToml text else ofJson text

end RuleSet

namespace Tuning

def ofToml (text : String) : Except LoadError Tuning :=
  match (Toml.read? text).bind ofDatum? with
  | none => .error .toml
  | some t => .ok t

/-- The tuning in a file with its text, if it can be read. -/
def ofFile (file : Option String) : Except LoadError Tuning := contents file >>= ofToml

end Tuning

end StoryWorld
