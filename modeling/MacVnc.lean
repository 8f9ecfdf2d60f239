import MacVnc.Lib.Bytes
import MacVnc.Lib.Cbc
import MacVnc.Lib.Checked
import MacVnc.Lib.Segments
import MacVnc.Lib.ReplayWindow
import MacVnc.Lib.Transition
import MacVnc.Lib.SerialNumber
import MacVnc.Lib.BoundedChannel
import MacVnc.Lib.Text
import MacVnc.Lib.Replacement
import MacVnc.Protocol.Record
import MacVnc.Protocol.Channel
import MacVnc.Protocol.FileTransfer
import MacVnc.Media.Srtp
import MacVnc.Media.SrtpReplay
import MacVnc.Media.SrtpRoundTrip
import MacVnc.Media.Depacketize
import MacVnc.Media.DepacketizeGroup
import MacVnc.Media.DepacketizeTrace
import MacVnc.Media.DepacketizeLoss
import MacVnc.Media.DepacketizeNumbers
import MacVnc.Media.Packetize
import MacVnc.Media.DepacketizeOrder
import MacVnc.Media.Compositing
import MacVnc.Client.Commands
import MacVnc.Client.Input
import MacVnc.Client.RemoteInput
import MacVnc.Client.Latch
import MacVnc.Client.Paste
import MacVnc.Client.Transfer
import MacVnc.Client.MediaLoop
import MacVnc.Client.ReferenceChain
import MacVnc.Client.LoopSafety
import MacVnc.Updater.Package
import MacVnc.Updater.Install
import MacVnc.Updater.Rollback
import MacVnc.Lib.PartialWriter
import MacVnc.Lib.CounterMode
import MacVnc.Protocol.ControlIo
import MacVnc.Media.SrtpCounters
import MacVnc.Protocol.FileDecoder
import MacVnc.Client.Upload
import MacVnc.Client.SessionBoundary
import MacVnc.Client.ConnectGuard
import MacVnc.Client.SavedProfile
import MacVnc.Lib.WeightedMap
import MacVnc.Media.DepacketizeBounds
import MacVnc.Media.DepacketizeSequence
import MacVnc.Media.DepacketizeFrame
import MacVnc.Media.DepacketizeTiles
import MacVnc.Lib.LastWrite
import MacVnc.Media.DepacketizeParams
import MacVnc.Media.DepacketizeFraming
import MacVnc.Media.DepacketizeHandoff
import MacVnc.Client.TransferWorker
import MacVnc.Client.TransferSessions
import MacVnc.Client.PasteOrigins
import MacVnc.Media.CompositorBands
import MacVnc.Lib.Varint
import MacVnc.Protocol.Metadata
import MacVnc.Client.CanvasGeometry
import MacVnc.Updater.NameRules
import MacVnc.Protocol.RecordErrors
import MacVnc.Protocol.ControlSend
import MacVnc.Protocol.FramebufferUpdate
import MacVnc.Protocol.Offer
import MacVnc.Protocol.AnswerBounds
import MacVnc.Protocol.Authenticate
import MacVnc.Lib.Ledger
import MacVnc.Media.DepacketizeAccounting
import MacVnc.Updater.Extract
import MacVnc.Updater.TreeBuilding
import MacVnc.Updater.ExtractedPackage
import MacVnc.Updater.Verification
import MacVnc.Lib.Coalescing
import MacVnc.Protocol.Recovery
import MacVnc.Lib.Stateful
import MacVnc.Protocol.Polling
import MacVnc.Lib.Interaction
import MacVnc.Lib.Layout
import MacVnc.Protocol.MediaOffer
import MacVnc.Protocol.Handshake
import MacVnc.Protocol.HandshakeSafety
import MacVnc.Protocol.Rekey
import MacVnc.Protocol.HandshakeAgreement
import MacVnc.Media.HevcDecoder
import MacVnc.Media.HevcDecoderSafety
import MacVnc.Updater.Releases
import MacVnc.Updater.Prepare
import MacVnc.Updater.UpdateState
import MacVnc.Updater.UpdateSafety
import MacVnc.Updater.Handover
import MacVnc.Updater.HandoverSafety
