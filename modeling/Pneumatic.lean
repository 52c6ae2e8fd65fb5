import Pneumatic.Main
import Pneumatic.Program.Document
import Pneumatic.Proofs.Device.Stops
import Pneumatic.Proofs.Fault.Count
import Pneumatic.Proofs.Notation.Reading
import Pneumatic.Proofs.Program.Counters
import Pneumatic.Proofs.Program.Faithful
import Pneumatic.Proofs.Program.Incomplete
import Pneumatic.Proofs.Program.Layout
import Pneumatic.Proofs.Program.Targets
import Pneumatic.Proofs.Program.Wrap
import Pneumatic.Proofs.Run.Admission
import Pneumatic.Proofs.Run.Coils
import Pneumatic.Proofs.Run.Instant
import Pneumatic.Proofs.Run.Rejection
import Pneumatic.Proofs.Run.Stop
import Pneumatic.Tag.Listing
import Pneumatic.Proofs.Notation.Nesting
import Pneumatic.Proofs.Service.Conversation
import Pneumatic.Proofs.Fault.Undone
import Pneumatic.Proofs.Fault.Restored
import Pneumatic.Proofs.Notation.Order
import Pneumatic.Proofs.Field.Travel
import Pneumatic.Proofs.Field.Observation
import Pneumatic.Proofs.Run.Timeout
import Pneumatic.Proofs.Notation.Balance
import Pneumatic.Proofs.Notation.Slices
import Pneumatic.Proofs.Notation.Literals
import Pneumatic.Proofs.Run.Pause
import Pneumatic.Proofs.Program.Unambiguous
import Pneumatic.Proofs.Tag.Packing
import Pneumatic.Proofs.Program.Blocks
import Pneumatic.Proofs.Fault.Effects
import Pneumatic.Proofs.Program.Discovery
import Pneumatic.Proofs.Notation.Builder
import Pneumatic.Proofs.Program.Markup
import Pneumatic.Proofs.Service.Assignment
