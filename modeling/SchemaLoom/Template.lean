import SchemaLoom.Json.Reader
import SchemaLoom.Layout
import SchemaLoom.Text.Blank
import SchemaLoom.Yaml.Conversion

/-!
# Templates

A template is a text that holds one document, in JSON when its file name says so and in YAML
otherwise. A blank text and a lone null stand for the empty object.
-/

namespace SchemaLoom.Template

inductive Format where
  | yaml
  | json
deriving DecidableEq, Repr

def Format.of (file : Path) : Format :=
  if file.extension? = some "json" then .json else .yaml

/-- Why a text is no template. -/
inductive Malformed where
  | json
  | yaml
  | conversion (error : Yaml.ConversionError)
deriving DecidableEq, Repr

def Malformed.message : Malformed → String
  | .json => "invalid JSON: the text is not a JSON document"
  | .yaml => "invalid YAML: the text is not a YAML document"
  | .conversion (.unrepresentable number) => s!"cannot represent float {number} in JSON"
  | .conversion (.unsupportedKey kind) => s!"unsupported YAML map key: {kind}"

/-- The document of a text that is not blank. -/
def read (format : Format) (text : String) : Except Malformed Json :=
  match format with
  | .json =>
    match Json.parse text with
    | some v => .ok v
    | none => .error .json
  | .yaml =>
    match Yaml.parse text with
    | none => .error .yaml
    | some v =>
      match v.toJson with
      | .ok v => .ok v
      | .error e => .error (.conversion e)

/-- A null document counts as empty. -/
def orEmpty : Json → Json
  | .null => .object []
  | v => v

def parse (format : Format) (text : String) : Except Malformed Json :=
  let cs := text.toList.dropWhile (· == '\ufeff')
  if (Text.trim cs).isEmpty then .ok (.object [])
  else match read format (String.ofList cs) with
    | .ok v => .ok (orEmpty v)
    | .error e => .error e

end SchemaLoom.Template
