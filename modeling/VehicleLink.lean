import VehicleLink.Assoc
import VehicleLink.Checksum
import VehicleLink.Codec
import VehicleLink.Command.Queue
import VehicleLink.Command.Session
import VehicleLink.Command.Status
import VehicleLink.Config.Engine
import VehicleLink.Config.Setting
import VehicleLink.Config.Station
import VehicleLink.Dialect.Builtin
import VehicleLink.Dialect.Error
import VehicleLink.Dialect.Markup
import VehicleLink.Dialect.Reader
import VehicleLink.Engine.Basic
import VehicleLink.Engine.Clock
import VehicleLink.Engine.Errands
import VehicleLink.Engine.Handler
import VehicleLink.Engine.Override
import VehicleLink.Engine.Readers
import VehicleLink.Engine.Receive
import VehicleLink.Engine.Session
import VehicleLink.Health.Monitor
import VehicleLink.Health.Session
import VehicleLink.Health.Watchdog
import VehicleLink.Json.Quoted
import VehicleLink.Json.Reader
import VehicleLink.Link.Address
import VehicleLink.LittleEndian
import VehicleLink.Main
import VehicleLink.Message
import VehicleLink.Number.Binary
import VehicleLink.Number.Notation
import VehicleLink.Number.Shortest
import VehicleLink.Packet
import VehicleLink.Parameters
import VehicleLink.Proofs.Checksum
import VehicleLink.Proofs.Checksum.Register
import VehicleLink.Proofs.Command.Attempts
import VehicleLink.Proofs.Command.Dispatch
import VehicleLink.Proofs.Command.Draining
import VehicleLink.Proofs.Command.Moves
import VehicleLink.Proofs.Command.Order
import VehicleLink.Proofs.Command.Outcomes
import VehicleLink.Proofs.Command.Receipts
import VehicleLink.Proofs.Config.Loading
import VehicleLink.Proofs.Config.Sections
import VehicleLink.Proofs.Corruption
import VehicleLink.Proofs.Decoding
import VehicleLink.Proofs.Dialect
import VehicleLink.Proofs.Dialect.Attributes
import VehicleLink.Proofs.Dialect.Document
import VehicleLink.Proofs.Dialect.Elements
import VehicleLink.Proofs.Dialect.Inversion
import VehicleLink.Proofs.Dialect.Loading
import VehicleLink.Proofs.Dialect.Marks
import VehicleLink.Proofs.Dialect.Markup
import VehicleLink.Proofs.Dialect.Spelling
import VehicleLink.Proofs.Dialect.Tags
import VehicleLink.Proofs.Dialect.Types
import VehicleLink.Proofs.Engine.Attempts
import VehicleLink.Proofs.Engine.Datagram
import VehicleLink.Proofs.Engine.Effects
import VehicleLink.Proofs.Engine.Errands
import VehicleLink.Proofs.Engine.Handler
import VehicleLink.Proofs.Engine.History
import VehicleLink.Proofs.Engine.Interleaving
import VehicleLink.Proofs.Engine.Log
import VehicleLink.Proofs.Engine.Modes
import VehicleLink.Proofs.Engine.Orders
import VehicleLink.Proofs.Engine.Override
import VehicleLink.Proofs.Engine.Passes
import VehicleLink.Proofs.Engine.Phases
import VehicleLink.Proofs.Engine.Publication
import VehicleLink.Proofs.Engine.Punctuality
import VehicleLink.Proofs.Engine.Changes
import VehicleLink.Proofs.Engine.Retransmission
import VehicleLink.Proofs.Engine.Rounds
import VehicleLink.Proofs.Engine.Settings
import VehicleLink.Proofs.Engine.Telemetry
import VehicleLink.Proofs.Engine.Timeouts
import VehicleLink.Proofs.Engine.Views
import VehicleLink.Proofs.Fitting
import VehicleLink.Proofs.Frame
import VehicleLink.Proofs.Health.Alarms
import VehicleLink.Proofs.Health.Independence
import VehicleLink.Proofs.Health.Lifetime
import VehicleLink.Proofs.Health.Tidings
import VehicleLink.Proofs.Json.Acceptance
import VehicleLink.Proofs.Json.Grammar
import VehicleLink.Proofs.Layout
import VehicleLink.Proofs.Link
import VehicleLink.Proofs.Oversize
import VehicleLink.Proofs.Packing
import VehicleLink.Proofs.Parameters.Calls
import VehicleLink.Proofs.Parameters.Expiry
import VehicleLink.Proofs.Parameters.Merging
import VehicleLink.Proofs.Parameters.Table
import VehicleLink.Proofs.Payload
import VehicleLink.Proofs.Registration
import VehicleLink.Proofs.Repacking
import VehicleLink.Proofs.RoundTrip
import VehicleLink.Proofs.Schema
import VehicleLink.Proofs.Stream.Chunks
import VehicleLink.Proofs.Stream.Pieces
import VehicleLink.Proofs.Stream.Progress
import VehicleLink.Proofs.Stream.Resync
import VehicleLink.Proofs.Stream.Scan
import VehicleLink.Proofs.Stream.Stray
import VehicleLink.Proofs.Strings
import VehicleLink.Proofs.Text.Shorten
import VehicleLink.Proofs.Text.Utf8
import VehicleLink.Proofs.Unpacking
import VehicleLink.Proofs.Vehicle.Memory
import VehicleLink.Proofs.Vehicle.Outgoing
import VehicleLink.Proofs.Words
import VehicleLink.Schema.Definition
import VehicleLink.Schema.Field
import VehicleLink.Schema.Layout
import VehicleLink.Schema.Primitive
import VehicleLink.Schema.Registry
import VehicleLink.Stream
import VehicleLink.Text.Blank
import VehicleLink.Text.DecimalDigit
import VehicleLink.Text.Numeral
import VehicleLink.Text.Utf8
import VehicleLink.Timer
import VehicleLink.Value
import VehicleLink.Vehicle.Incoming
import VehicleLink.Vehicle.Mode
import VehicleLink.Vehicle.Outgoing
import VehicleLink.Vehicle.State
import VehicleLink.Vehicle.Subsystem
import VehicleLink.WireError
