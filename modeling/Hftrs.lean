import Hftrs.Library.Runs
import Hftrs.Library.Ring
import Hftrs.Library.Tally
import Hftrs.Library.Channel
import Hftrs.Library.BigEndian
import Hftrs.Library.Framing
import Hftrs.Library.Greedy
import Hftrs.Library.Retry
import Hftrs.Library.Leases
import Hftrs.Library.Json
import Hftrs.Library.Traverse
import Hftrs.Library.Lockstep
import Hftrs.Library.Cells
import Hftrs.Library.Upsert
import Hftrs.Profile
import Hftrs.Itch5.Messages
import Hftrs.Itch5.Parse
import Hftrs.Itch5.Acceptance
import Hftrs.Itch5.Resume
import Hftrs.Itch5.Symbol
import Hftrs.Orderbook.Pool
import Hftrs.Orderbook.PoolRuns
import Hftrs.Orderbook.Book
import Hftrs.Orderbook.Queues
import Hftrs.Orderbook.Splice
import Hftrs.Orderbook.Totals
import Hftrs.Orderbook.Reference
import Hftrs.Orderbook.Refinement
import Hftrs.Orderbook.Integrity
import Hftrs.Orderbook.Errors
import Hftrs.Orderbook.Effect
import Hftrs.Orderbook.Queries
import Hftrs.Orderbook.Exact
import Hftrs.Orderbook.Exhausted
import Hftrs.Orderbook.Ledger
import Hftrs.Orderbook.Commute
import Hftrs.Orderbook.LiveOrders
import Hftrs.Orderbook.Removal
import Hftrs.Orderbook.Registry
import Hftrs.Orderbook.VecRegistry
import Hftrs.Orderbook.RegistryEquivalence
import Hftrs.Orderbook.Registration
import Hftrs.Orderbook.Counting
import Hftrs.Orderbook.Walks
import Hftrs.Orderbook.Resting
import Hftrs.Orderbook.RegistryLaws
import Hftrs.Moldudp.Packet
import Hftrs.Moldudp.Iteration
import Hftrs.Moldudp.Server
import Hftrs.Moldudp.Codec
import Hftrs.Moldudp.Stopping
import Hftrs.Moldudp.Responder
import Hftrs.Moldudp.Chunks
import Hftrs.Moldudp.Labels
import Hftrs.Moldudp.Threads
import Hftrs.Moldudp.Announced
import Hftrs.Moldudp.Sessions
import Hftrs.Moldudp.Client
import Hftrs.Moldudp.GapCover
import Hftrs.Moldudp.Channels
import Hftrs.Moldudp.Expectation
import Hftrs.Moldudp.Pinning
import Hftrs.Moldudp.PerfectNetwork
import Hftrs.Moldudp.Retries
import Hftrs.Moldudp.Buffers
import Hftrs.Moldudp.Protocol
import Hftrs.Moldudp.Recovery
import Hftrs.App.Handler
import Hftrs.App.Demux
import Hftrs.App.Robust
import Hftrs.App.Receive
import Hftrs.App.Readers
import Hftrs.App.Heard
import Hftrs.App.Replay
import Hftrs.App.Transport
import Hftrs.App.Pipeline
import Hftrs.App.Report
import Hftrs.App.Table
import Hftrs.App.Market
import Hftrs.App.MarketLaws
import Hftrs.App.Volume
import Hftrs.App.Watch
import Hftrs.App.Interchange
import Hftrs.App.Shutdown
import Hftrs.App.Interrupt
import Hftrs.App.Program
import Hftrs.Tui.App
import Hftrs.Tui.SymbolCache
import Hftrs.Tui.Window
import Hftrs.Tui.Ladder
import Hftrs.Tui.Screen
