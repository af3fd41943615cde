import Lichtung.Clock
import Lichtung.Core
import Lichtung.Lib.MinHeap
import Lichtung.Lib.Graph
import Lichtung.Lib.Kahn
import Lichtung.Lib.Decimal
import Lichtung.Lib.Json
import Lichtung.Lib.JsonSchema
import Lichtung.Lib.KeyOrder
import Lichtung.Lib.Lines
import Lichtung.Lib.Pointwise
import Lichtung.Lib.ProductOrder
import Lichtung.Lib.Transition
import Lichtung.Lib.CausalHistory
import Lichtung.Log
import Lichtung.Schema
import Lichtung.Replay.Poset
import Lichtung.Replay.Extension
import Lichtung.Replay.Engine
import Lichtung.Replay.Acceptance
import Lichtung.Replay.Canonical
import Lichtung.Replay.Artifacts
import Lichtung.Replay.Reexec
import Lichtung.Replay.ClockOrder
import Lichtung.Replay.Faithful
import Lichtung.Replay.Verdict
import Lichtung.Replay.Payload
import Lichtung.Replay.LineOrder
import Lichtung.Replay.Local
import Lichtung.Replay.Machine
import Lichtung.Replay.Restamp
import Lichtung.Replay.Namesakes
import Lichtung.Replay.Walk
import Lichtung.Replay.Containment
import Lichtung.Replay.Confluence
import Lichtung.Prod.System
import Lichtung.Prod.Accounting
import Lichtung.Prod.Wakeup
import Lichtung.Prod.Ledger
import Lichtung.Prod.Death
import Lichtung.Prod.Quiescence
import Lichtung.Prod.Line
import Lichtung.Prod.LogWriter
import Lichtung.Prod.Causality
import Lichtung.Prod.Record
import Lichtung.Prod.Performance
import Lichtung.Prod.Replay
import Lichtung.Prod.Reproduction
import Lichtung.Prod.Isolation
import Lichtung.Prod.Drift
import Lichtung.Prod.Bounds
import Lichtung.Prod.Durability
import Lichtung.Prod.Pipeline
import Lichtung.Prod.Artifacts
import Lichtung.Prod.Shutdown
import Lichtung.Prod.Channel
import Lichtung.Prod.Reconstruction
import Lichtung.Prod.Influence
import Lichtung.Prod.Work
import Lichtung.Prod.Fanout
import Lichtung.Prod.Streams
import Lichtung.Prod.Arrivals
import Lichtung.Prod.Race
import Lichtung.Prod.RiskDesk
import Lichtung.Prod.Payload
import Lichtung.Replay.Pairing
import Lichtung.Replay.Delivery
