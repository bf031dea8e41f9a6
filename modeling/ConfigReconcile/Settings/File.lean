import ConfigReconcile.Settings.Toml
import ConfigReconcile.Settings.Yaml
import ConfigReconcile.Text.Blank
import ConfigReconcile.Text.Lower
import ConfigReconcile.Text.Utf8

/-!
# Settings in a file

`Settings.ofFile` reads settings from what a file holds, which is TOML or YAML by the extension of
its name, in either case.  The extension is looked at before the file.
-/

namespace ConfigReconcile

open Text

/-- why there are no settings -/
inductive FileError where
  /-- there is no file, or it holds no text -/
  | notFound (name : Path)
  | notToml
  | notYaml
  | noExtension
  | unsupported (extension : String)
  deriving DecidableEq, Repr

def FileError.message : FileError → String
  | .notFound p => "File not found: " ++ p.text
  | .notToml => "Failed to parse TOML"
  | .notYaml => "Failed to parse YAML"
  | .noExtension => "Config file has no extension"
  | .unsupported ext => "Unsupported config file format: " ++ ext

/-- what a file of settings is written in -/
inductive FileFormat where
  | toml
  | yaml
  deriving DecidableEq, Repr

/-- the format that the extension of a name says -/
def FileFormat.ofName (p : Path) : Except FileError FileFormat :=
  match p.extension? with
  | none => .error .noExtension
  | some ext =>
    let ext := String.ofList (lower ext)
    if ext = "toml" then .ok .toml
    else if ext = "yaml" ∨ ext = "yml" then .ok .yaml
    else .error (.unsupported ext)

namespace Settings

/-- the settings in a text -/
def ofText (format : FileFormat) (text : String) : Except FileError Settings :=
  match format with
  | .toml =>
    match ofToml? text with
    | some s => .ok s
    | none => .error .notToml
  | .yaml =>
    if isBlankText text then .ok {}
    else
      match ofYaml? text with
      | some s => .ok s
      | none => .error .notYaml

/-- the settings in a file, of a format or of that which its name says; `contents?` is what the
file holds, if there is one -/
def ofFile (format? : Option FileFormat) (name : Path) (contents? : Option Bytes) :
    Except FileError Settings := do
  let format ←
    match format? with
    | some f => pure f
    | none => FileFormat.ofName name
  match contents?.map Utf8.decode with
  | some (.ok text) => ofText format text
  | _ => .error (.notFound name)

end Settings

end ConfigReconcile
