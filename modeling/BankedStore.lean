import BankedStore.Size.Lemmas
import BankedStore.Bits.Text
import BankedStore.Element.Lemmas
import BankedStore.Lines
import BankedStore.Bus.Recorded
import BankedStore.Bus.Canned
import BankedStore.Script.Writer
import BankedStore.Workload
import BankedStore.Main
import BankedStore.Proofs.Link.Transport
import BankedStore.Proofs.Playback.Checker
import BankedStore.Proofs.Element.Normal
import BankedStore.Proofs.Playback.Alike
import BankedStore.Proofs.Playback.Shapes
import BankedStore.Proofs.Script.Grammar
import BankedStore.Proofs.Text.Utf8
import BankedStore.Proofs.Script.Printing
import BankedStore.Proofs.Script.Reading
import BankedStore.Proofs.Script.Following
import BankedStore.Proofs.Script.Recording
import BankedStore.Proofs.Bits.Canonical
import BankedStore.Proofs.Memory.Canonical
import BankedStore.Proofs.Memory.Granularity
import BankedStore.Proofs.Link.Crash
import BankedStore.Proofs.Playback.Totals
import BankedStore.Proofs.Run.Outcome
import BankedStore.Proofs.Bits.WordLoops
import BankedStore.Proofs.Bits.Chunking
import BankedStore.Proofs.Bus.Encoding
import BankedStore.Proofs.Memory.Checked
import BankedStore.Proofs.Memory.Independent
import BankedStore.Proofs.Bus.IdleCycles
import BankedStore.Proofs.Element.Components
import BankedStore.Proofs.Playback.Trace
import BankedStore.Proofs.Memory.ElementWise
import BankedStore.Proofs.Memory.Reading
import BankedStore.Proofs.Script.Diagnosis
import BankedStore.Proofs.Lines.Layouts
import BankedStore.Proofs.Memory.SlotMap
import BankedStore.Proofs.Bits.Hex
import BankedStore.Proofs.Playback.Splitting
import BankedStore.Proofs.Playback.Reference
import BankedStore.Proofs.Mask.FiniteSet
import BankedStore.Proofs.Script.FullSink
import BankedStore.Proofs.Text.Quoting
import BankedStore.Proofs.Script.Messages
import BankedStore.Proofs.Script.HexFields
import BankedStore.Proofs.Size.Selectors
import BankedStore.Proofs.Bank.Windows
