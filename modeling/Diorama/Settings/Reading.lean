import Diorama.Settings
import Diorama.Toml.Reading

/-! # Reading settings

Settings are read from a TOML document with up to three sections. Sections and keys that are absent
keep their standard values; those that are unknown are refused.
-/

namespace Diorama.Settings

/-- A setting and how it is changed, if the value fits. -/
structure Field where
  key : String
  set : Toml.Value → Settings → Option Settings

/-- A number, whole numbers of 64 bits included. -/
def number? : Toml.Value → Option Double
  | .integer n => if -0x8000000000000000 ≤ n ∧ n < UInt64.size then some (.ofInt n) else none
  | .float x => some x
  | _ => none

def switch? : Toml.Value → Option Bool
  | .boolean b => some b
  | _ => none

def numberField (key : String) (set : Settings → Double → Settings) : Field :=
  ⟨key, fun value s => (number? value).map (set s)⟩

def spacingField (key : String) (set : Spacing → Double → Spacing) : Field :=
  numberField key fun s x => { s with spacing := set s.spacing x }

/-- The sections and their keys. -/
def sections : List (String × List Field) :=
  [("layout",
      [spacingField "column_spacing" fun s x => { s with column := x },
        spacingField "row_spacing" fun s x => { s with row := x },
        spacingField "workload_depth" fun s x => { s with workloadDepth := x },
        spacingField "service_depth" fun s x => { s with serviceDepth := x }]),
    ("export", [numberField "cube_size" fun s x => { s with cubeSize := x }]),
    ("parser", [⟨"strict", fun value s => (switch? value).map fun b => { s with strict := b }⟩])]

/-- Reads a section: a table of known keys, or a list of values in the order of the keys. -/
def readSection (fields : List Field) (value : Toml.Value) (s : Settings) : Option Settings :=
  match value with
  | .table _ entries => entries.foldlM (fun s (key, value) => do
      let field ← fields.find? (·.key = key)
      field.set value s) s
  | .array _ items => (fields.zip items).foldlM (fun s (field, value) => field.set value s) s
  | _ => none

def ofEntries (entries : Toml.Entries) : Option Settings :=
  entries.foldlM (fun s (key, value) => do
    let fields ← sections.lookup key
    readSection fields value s) standard

def ofToml? (document : String) : Option Settings := (Toml.read? document).bind ofEntries

end Diorama.Settings
