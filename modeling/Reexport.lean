import Reexport.Text.Blank
import Reexport.Text.Line
import Reexport.Text.Word
import Reexport.Text.CasedRanges
import Reexport.Text.Case
import Reexport.Text.HiddenRanges
import Reexport.Json.Reader
import Reexport.Json.Writer
import Reexport.Path
import Reexport.Entry
import Reexport.Statement.Reader
import Reexport.Entry.Sorted
import Reexport.Layout
import Reexport.Script.Export
import Reexport.Files.Memory
import Reexport.Locate
import Reexport.Options
import Reexport.Event
import Reexport.Resolve
import Reexport.Transform
import Reexport.Settings
import Reexport.Text.Quoted
import Reexport.Text.Utf8
import Reexport.Files.Disk
import Reexport.Files.Links
import Reexport.Batch
import Reexport.Log
import Reexport.Text.Integer
import Reexport.Command.Arguments
import Reexport.Host
import Reexport.Command
import Reexport.Service.Address
import Reexport.Service
import Reexport.Service.Launch
import Reexport.Main
import Reexport.Proofs.Provenance
import Reexport.Proofs.KeptNames
import Reexport.Proofs.Precedence
import Reexport.Proofs.Rewriting
import Reexport.Proofs.WrittenOrder
import Reexport.Proofs.Reachable
import Reexport.Proofs.Memo
import Reexport.Proofs.Conservation
import Reexport.Proofs.Readback
import Reexport.Proofs.Interruptions
import Reexport.Proofs.Flavours
import Reexport.Proofs.SortedEntries
import Reexport.Proofs.StatementForms
import Reexport.Proofs.StatementOrder
import Reexport.Proofs.KeptCode
import Reexport.Proofs.Relocation
import Reexport.Proofs.Formatting
import Reexport.Proofs.Snapshot
import Reexport.Proofs.StatementsOnly
import Reexport.Proofs.Retyping
import Reexport.Proofs.LeafNames
import Reexport.Proofs.Once
import Reexport.Proofs.Distinctness
import Reexport.Proofs.ExactDiscovery
import Reexport.Proofs.Failures
import Reexport.Proofs.TwoModes
import Reexport.Proofs.ForwardingChains
import Reexport.Proofs.ItemForms
import Reexport.Proofs.FoundAgain
import Reexport.Proofs.ExportedVariables
import Reexport.Proofs.StoredTexts
