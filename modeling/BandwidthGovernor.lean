import BandwidthGovernor.Lib.Mt64
import BandwidthGovernor.Lib.Table
import BandwidthGovernor.Lib.Run
import BandwidthGovernor.Core
import BandwidthGovernor.Records
import BandwidthGovernor.Policy
import BandwidthGovernor.Fill
import BandwidthGovernor.Governor.State
import BandwidthGovernor.Governor.Ops
import BandwidthGovernor.Governor.Snapshot
import BandwidthGovernor.Governor.Run
import BandwidthGovernor.Governor.Aggregates
import BandwidthGovernor.Governor.Arbitration
import BandwidthGovernor.Governor.Txn
import BandwidthGovernor.Governor.Effects
import BandwidthGovernor.Governor.Refine
import BandwidthGovernor.Governor.Guarantees
import BandwidthGovernor.Governor.Admission
import BandwidthGovernor.Governor.Links
import BandwidthGovernor.Governor.Fences
import BandwidthGovernor.Lib.Double
import BandwidthGovernor.Lib.Crc
import BandwidthGovernor.Lib.Codec
import BandwidthGovernor.Persist.Binary
import BandwidthGovernor.Persist.Encoding
import BandwidthGovernor.Persist.RoundTrip
import BandwidthGovernor.Governor.Backing
import BandwidthGovernor.Governor.Writes
import BandwidthGovernor.Governor.Accounting
import BandwidthGovernor.Persist.Releases
import BandwidthGovernor.Transport.Server
import BandwidthGovernor.Governor.Pace
import BandwidthGovernor.Transport.Pacing
import BandwidthGovernor.Transport.Registration
import BandwidthGovernor.Transport.Boots
import BandwidthGovernor.Governor.Queue
import BandwidthGovernor.Governor.Figures
import BandwidthGovernor.Transport.Wire
import BandwidthGovernor.Transport.Payload
import BandwidthGovernor.Transport.Framing
import BandwidthGovernor.Transport.Decoders
import BandwidthGovernor.Governor.Lifecycle
import BandwidthGovernor.Governor.Queries
import BandwidthGovernor.Governor.Observation
import BandwidthGovernor.Governor.Preview
import BandwidthGovernor.FillOrder
import BandwidthGovernor.Governor.Priority
import BandwidthGovernor.Persist.Identities
import BandwidthGovernor.Lib.Layout
import BandwidthGovernor.Persist.Recovery
import BandwidthGovernor.FillLevel
import BandwidthGovernor.FillPerm
import BandwidthGovernor.Governor.Rejections
import BandwidthGovernor.Governor.Gauges
import BandwidthGovernor.Governor.Generations
import BandwidthGovernor.Governor.Freshness
import BandwidthGovernor.Governor.Waiting
import BandwidthGovernor.Persist.Counts
import BandwidthGovernor.Governor.Truth
import BandwidthGovernor.Governor.PathExact
import BandwidthGovernor.Minting
import BandwidthGovernor.Transport.Checksum
import BandwidthGovernor.FillExit
import BandwidthGovernor.FillCompare
import BandwidthGovernor.Governor.Authority
import BandwidthGovernor.Lib.Sealed
import BandwidthGovernor.Transport.Corruption
import BandwidthGovernor.Governor.Alike
import BandwidthGovernor.Governor.Independence
import BandwidthGovernor.Worker.Runtime
import BandwidthGovernor.Worker.Conformance
import BandwidthGovernor.Lib.Channel
import BandwidthGovernor.Cluster.Network
import BandwidthGovernor.Governor.Bytes
import BandwidthGovernor.Cluster.Delivery
import BandwidthGovernor.Cluster.Completion
import BandwidthGovernor.Lib.Log
import BandwidthGovernor.Transport.Service
