import Diorama.Main
import Diorama.Proofs.Files.Replacing
import Diorama.Proofs.Command.AllOrNothing
import Diorama.Proofs.Diagram.Brackets
import Diorama.Proofs.Diagram.Description
import Diorama.Proofs.Diagram.Problems
import Diorama.Proofs.Diagram.Sources
import Diorama.Proofs.Diagram.Characters
import Diorama.Proofs.Number.Digits
import Diorama.Proofs.Number.ReadingBack
import Diorama.Proofs.Obj.Cubes
import Diorama.Proofs.Obj.RoundTrip
import Diorama.Proofs.Diagram.Spans
import Diorama.Proofs.Document.Embedding
import Diorama.Proofs.Layout.Filing
import Diorama.Proofs.Gltf.Reencoding
import Diorama.Proofs.Diagram.Untitled
import Diorama.Proofs.Layout.Restoring
import Diorama.Proofs.Obj.Blocks
import Diorama.Proofs.Gltf.Scenes
import Diorama.Proofs.Export.Agreement
import Diorama.Proofs.Export.Finiteness
import Diorama.Proofs.Diagram.Grammar
import Diorama.Proofs.Diagram.WellFormed
import Diorama.Proofs.Diagram.History
import Diorama.Proofs.Export.ColumnNames
import Diorama.Proofs.Diagram.RegionLines
import Diorama.Proofs.Obj.Tokens
import Diorama.Proofs.Obj.Account
import Diorama.Proofs.Obj.Relocation
import Diorama.Proofs.Obj.Interleaving
import Diorama.Proofs.Gltf.Unpacking
import Diorama.Proofs.Text.Pattern
import Diorama.Proofs.Document.Containers
import Diorama.Proofs.Diagram.Growing
import Diorama.Proofs.Diagram.Tidying
import Diorama.Proofs.Layout.Growing
import Diorama.Proofs.Toml.Keys
import Diorama.Proofs.Settings.Reading
import Diorama.Proofs.Command.Settings
import Diorama.Proofs.Export.Comments
import Diorama.Proofs.Geometry.Boundary
import Diorama.Proofs.Geometry.Enclosing
import Diorama.Proofs.Obj.Statements
import Diorama.Proofs.Obj.Strays
import Diorama.Proofs.Obj.Zeros
import Diorama.Proofs.Diagram.Kinds
