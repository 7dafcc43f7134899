import Sipnab.Sip.CallOutcome
import Sipnab.Sip.Subscription
import Sipnab.Sip.StoreEviction
import Sipnab.Sip.CorrelationTree
import Sipnab.Capture.TcpOverlap
import Sipnab.Capture.Continuity
import Sipnab.Capture.FragmentTiling
import Sipnab.Rtp.LossAccounting
import Sipnab.Rtp.SharedSsrc
import Sipnab.Rtp.SessionSplits
import Sipnab.Hep.DeliveryOrder
import Sipnab.Hep.SignedDatagrams
import Sipnab.Sip.SdpPrefilter
import Sipnab.Sip.FilterReferences
import Sipnab.Capture.WebSocketMessages
import Sipnab.Journal.HashChain
import Sipnab.Tls.DtlsSrtp
import Sipnab.Capture.SctpDelivery
import Sipnab.Capture.SctpChunks
import Sipnab.Tls.LateKeys
import Sipnab.Redact.Addresses
import Sipnab.Capture.PcapNgStripped
import Sipnab.Actions.LimitsHold
import Sipnab.Actions.RevertAll
import Sipnab.Capture.PacketChannel
import Sipnab.Vcon.Forwarder
import Sipnab.Capture.ExportStreams
import Sipnab.Security.RegOutcomes
import Sipnab.Security.FraudCalls
import Sipnab.Auth.TokenRuns
import Sipnab.Capture.SweepComplete
import Sipnab.Security.HookWords
import Sipnab.Capture.FramingCuts
import Sipnab.Sip.IdleCompaction
import Sipnab.Sip.TrackingUnits
import Sipnab.Sip.HeaderSpans
import Sipnab.Sip.RequestSniff
import Sipnab.Sip.TailPages
import Sipnab.Security.KillLedger
import Sipnab.Vcon.SealedRoundTrip
import Sipnab.Relay.Bencode
import Sipnab.Capture.EvidenceRing
import Sipnab.Tls.RecordReassembly
import Sipnab.Rtp.ReleaseOrder
import Sipnab.Sip.TimelineBuckets
import Sipnab.Sip.DroppedDialogs
import Sipnab.Sip.QuotedValues
import Sipnab.Capture.PcapNgTimes
import Sipnab.Capture.MergedPcapNg
import Sipnab.Sip.MappingEvents
import Sipnab.Sip.OfferRoles
import Sipnab.Sip.SdpSections
import Sipnab.Rtp.BurstGap
import Sipnab.Sip.HiddenCallids
import Sipnab.Security.Alerting
import Sipnab.Mcp.ResponseBudget
import Sipnab.Mcp.Subscriptions
import Sipnab.Capture.KeylogSource
