import Methodology.FileTree
import Methodology.Vocabulary.Validation
import Methodology.Yaml.ToJson

/-!
# Documents as texts and files

* `Format`: the two notations of a document; `Format.ofPath`.
* `Vocabulary.render`: **writing** a vocabulary.
* `Vocabulary.parse`: **reading** a text.
* `Vocabulary.load`: reading a file.
-/

namespace Methodology

/-- A notation of documents. -/
inductive Format
  | yaml
  | json
  deriving DecidableEq, Repr

/-- The name of a format. -/
def Format.name : Format → String
  | yaml => "yaml"
  | json => "json"

/-- The format that the extension of a path names, in any case. -/
def Format.ofPath (path : String) : Except DocumentError Format :=
  match (FilePath.extension? path).map Text.foldCase with
  | some "yaml" => .ok yaml
  | some "yml" => .ok yaml
  | some "json" => .ok json
  | _ => .error (.unsupportedFormat path)

namespace Vocabulary

/-- **The text of a vocabulary.** -/
def render (v : Vocabulary) : Format → String
  | .yaml => Yaml.print v.toJson
  | .json => v.toJson.pretty

/-- The data value of a text. -/
def valueOf (format : Format) (text : String) : Except DocumentError Json :=
  match format with
  | .json => (Json.read text).mapError fun f => .parse ("invalid JSON: " ++ f.message text.toList)
  | .yaml =>
    match Yaml.read text with
    | none => .error (.parse "invalid YAML")
    | some v => v.toJson.mapError fun u => .parse ("YAML-to-JSON conversion failed: " ++ u.message)

/-- **The vocabulary of a text.** -/
def parse (format : Format) (text : String) (fresh : Fresh) :
    Except DocumentError Vocabulary × Fresh :=
  match valueOf format text with
  | .ok value => validate value fresh
  | .error e => (.error e, fresh)

/-- The text of a document's file, with the format that its path names. -/
def readFile (files : Files) (path : String) : Except DocumentError (Format × String) := do
  let format ← Format.ofPath path
  match files path with
  | .ok text => .ok (format, text)
  | .error e => .error (.load path ("cannot read file: " ++ e.message))

/-- **The vocabulary of a file.** -/
def load (files : Files) (path : String) (fresh : Fresh) :
    Except DocumentError Vocabulary × Fresh :=
  match readFile files path with
  | .ok (format, text) => parse format text fresh
  | .error e => (.error e, fresh)

end Vocabulary

end Methodology
