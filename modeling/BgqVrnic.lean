import BgqVrnic.Chain
import BgqVrnic.Runs
import BgqVrnic.ConnTypes
import BgqVrnic.ConnLists
import BgqVrnic.XlateSgl
import BgqVrnic.VerbsTypes
import BgqVrnic.Completions
import BgqVrnic.SendQueue
import BgqVrnic.PostSend
import BgqVrnic.SendVisits
import BgqVrnic.SendErrors
import BgqVrnic.SendOrder
import BgqVrnic.SendPasses
import BgqVrnic.SendRuns
import BgqVrnic.RecvQueue
import BgqVrnic.RecvReport
import BgqVrnic.RecvRuns
import BgqVrnic.PackedBytes
import BgqVrnic.ConnWire
import BgqVrnic.RegionSlices
import BgqVrnic.DirectPuts
import BgqVrnic.WalkBounds
import BgqVrnic.RemoteAccess
import BgqVrnic.RemoteConfined
import BgqVrnic.ConnCalls
import BgqVrnic.ConnPackets
import BgqVrnic.LinkFamily
import BgqVrnic.ConnListSpec
import BgqVrnic.ConnListInv
import BgqVrnic.ConnOutcomes
import BgqVrnic.ConnOps
import BgqVrnic.ConnRuns
import BgqVrnic.LinkReset
import BgqVrnic.LinkResetRuns
import BgqVrnic.QpNumbers
import BgqVrnic.RingWindow
import BgqVrnic.InjFifo
import BgqVrnic.InjRuns
import BgqVrnic.PacketSequence
import BgqVrnic.RecFifo
import BgqVrnic.RecFifoRuns
import BgqVrnic.RemoteGet
import BgqVrnic.RemoteGetRuns
import BgqVrnic.SendWaits
import BgqVrnic.PoolConservation
import BgqVrnic.ReportRuns
import BgqVrnic.CompletionPuts
import BgqVrnic.CompletionRuns
import BgqVrnic.Leases
import BgqVrnic.ConnEffects
import BgqVrnic.VrnicCm
import BgqVrnic.CmRuns
import BgqVrnic.CmTeardowns
import BgqVrnic.RtsRuns
import BgqVrnic.ConnWrites
import BgqVrnic.CepEffects
import BgqVrnic.CepHandshakes
import BgqVrnic.CqNotify
import BgqVrnic.HandshakeNumbers
import BgqVrnic.MuRecv
import BgqVrnic.QpReferences
import BgqVrnic.QpTeardown
import BgqVrnic.RecvBugs
import BgqVrnic.RecvSafety
import BgqVrnic.DisconnectIndex
import BgqVrnic.XlateExact
import BgqVrnic.WalkPieces
import BgqVrnic.TransferReads
import BgqVrnic.TransferWrites
import BgqVrnic.CounterWaits
import BgqVrnic.WholeGets
import BgqVrnic.Tails
import BgqVrnic.PktLists
import BgqVrnic.PktPoll
import BgqVrnic.BlockResets
import BgqVrnic.CleanupTable
import BgqVrnic.InitFailures
import BgqVrnic.InitCycles
import BgqVrnic.BcastNodes
import BgqVrnic.BcastRuns
import BgqVrnic.BcastSteps
import BgqVrnic.BcastEnds
import BgqVrnic.Fields
import BgqVrnic.QpAttrs
import BgqVrnic.CreateQp
import BgqVrnic.ModifyQp
import BgqVrnic.SqDrain
import BgqVrnic.PktArrays
import BgqVrnic.Alignment
import BgqVrnic.RdmaSections
import BgqVrnic.ConnMoves
import BgqVrnic.Stores
import BgqVrnic.Polls
import BgqVrnic.RdmaPoll
import BgqVrnic.RegUserMr
import BgqVrnic.RegPieces
import BgqVrnic.RegExact
import BgqVrnic.Merges
import BgqVrnic.FlightLogs
import BgqVrnic.FlightDecode
import BgqVrnic.Prints
import BgqVrnic.FlightPrint
import BgqVrnic.MudmFormats
import BgqVrnic.FlightBounds
import BgqVrnic.Sweeps
import BgqVrnic.FlightLeadup
import BgqVrnic.TorusAddress
import BgqVrnic.VrnicEth
import BgqVrnic.FifoSubgroups
import BgqVrnic.ConnSteps
import BgqVrnic.DisconnectKeys
import BgqVrnic.Exchanges
import BgqVrnic.ConnBindings
import BgqVrnic.Reservations
import BgqVrnic.SpinLock
import BgqVrnic.Refinements
import BgqVrnic.InjBatches
import BgqVrnic.InjCpus
import BgqVrnic.Progress
import BgqVrnic.Ownership
import BgqVrnic.MrTable
import BgqVrnic.MrTableRuns
import BgqVrnic.Terminations
import BgqVrnic.BitFields
import BgqVrnic.ReducePackets
import BgqVrnic.Deliveries
import BgqVrnic.RecvDispatch
import BgqVrnic.Channels
import BgqVrnic.PollEnds
import BgqVrnic.LinkStreams
import BgqVrnic.Bitmaps
import BgqVrnic.Tenancies
import BgqVrnic.InjOwners
import BgqVrnic.BaseAddresses
import BgqVrnic.MuLinks
import BgqVrnic.Loops
import BgqVrnic.MuResets
import BgqVrnic.MuActivations
import BgqVrnic.MuLinkRuns
