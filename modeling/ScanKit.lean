import ScanKit.Alternation
import ScanKit.ByteString
import ScanKit.Growable.Storage
import ScanKit.Reader.Memory
import ScanKit.Sample
import ScanKit.Source.Lookahead
import ScanKit.Source.Memory
import ScanKit.Source.Search
import ScanKit.Proofs.Source.Refill
import ScanKit.Proofs.Source.Run
import ScanKit.Proofs.Reader.Recording
import ScanKit.Proofs.Source.Position
import ScanKit.Proofs.Source.Tape
import ScanKit.Proofs.Reader.Delivery
import ScanKit.Proofs.Source.Interchange
import ScanKit.Proofs.Reader.Marks
import ScanKit.Proofs.Source.Chunking
import ScanKit.Proofs.Arena.Call
import ScanKit.Proofs.Arena.Ledger
import ScanKit.Proofs.Arena.Walk
import ScanKit.Proofs.Arena.Answers
import ScanKit.Proofs.Arena.History
import ScanKit.Proofs.Arena.Store
import ScanKit.Proofs.Arena.Recycling
import ScanKit.Proofs.Arena.Loop
import ScanKit.Proofs.Arena.Acyclic
import ScanKit.Proofs.Arena.Agreement
import ScanKit.Proofs.Growable.Operation
import ScanKit.Proofs.Growable.Listed
import ScanKit.Proofs.Growable.Growth
import ScanKit.Proofs.Growable.Capacity
import ScanKit.Proofs.Scanner.Halting
import ScanKit.Proofs.Scanner.Account
import ScanKit.Proofs.Scanner.Queue
import ScanKit.Proofs.Arena.Representation
import ScanKit.Proofs.Arena.Append
import ScanKit.Proofs.Arena.Split
import ScanKit.Proofs.Arena.Teardown
import ScanKit.Proofs.Growable.Batch
import ScanKit.Proofs.Reader.Logged
import ScanKit.Proofs.Source.ReadAhead
import ScanKit.Proofs.Source.Retry
import ScanKit.Proofs.Text.Encoding
import ScanKit.Proofs.Text.Decoding
import ScanKit.Proofs.Text.Escaping
import ScanKit.Proofs.Arena.Building
import ScanKit.Proofs.ByteString.Order
import ScanKit.Proofs.ByteString.Slicing
import ScanKit.Proofs.Scanner.Terms
import ScanKit.Proofs.Arena.Peak
import ScanKit.Proofs.Arena.Rounds
