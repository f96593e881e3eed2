import P2pShare.TransitionMachine
import P2pShare.RandomAccessFile
import P2pShare.Session
import P2pShare.Instances
import P2pShare.PathResolution
import P2pShare.FrameDecoding
import P2pShare.Receiver
import P2pShare.Sender
import P2pShare.SenderKinds
import P2pShare.LoopKinds
import P2pShare.HostileTransport
import P2pShare.PathConfinement
import P2pShare.OutstandingCopies
import P2pShare.Network
import P2pShare.CopyBalance
import P2pShare.DirectLiveness
import P2pShare.SavedChunks
import P2pShare.RelayServer
import P2pShare.RelayPairing
import P2pShare.RelayTransparency
import P2pShare.RelayDisconnect
import P2pShare.RelayRegistration
import P2pShare.RelayMeeting
import P2pShare.NonceReuse
import P2pShare.ControlReplay
import P2pShare.MessagePack
import P2pShare.ControlCodec
import P2pShare.ResumeRequests
import P2pShare.RelayView
import P2pShare.RelayPrivacy
import P2pShare.ResumeHistory
import P2pShare.InterruptedTransfer
import P2pShare.FullReceipt
import P2pShare.ChunkTiling
import P2pShare.ChunkStream
import P2pShare.FrameBoundary
import P2pShare.ChunkIndices
import P2pShare.ChunkBooks
import P2pShare.RelayBooks
import P2pShare.DirectBooks
import P2pShare.SharedStream
import P2pShare.RacingFutures
import P2pShare.LanDiscovery
import P2pShare.ConnectSteps
import P2pShare.LookupRace
import P2pShare.AnnounceRace
import P2pShare.SenderIdentity
import P2pShare.SharedConnection
import P2pShare.NonceSlots
import P2pShare.StunResponse
import P2pShare.Contacts
import P2pShare.Presence
import P2pShare.JsonText
import P2pShare.IdentityFile
import P2pShare.LanAccept
import P2pShare.SenderProgress
import P2pShare.SessionClose
import P2pShare.Agreement
import P2pShare.LastReport
import P2pShare.TransferCompletion
import P2pShare.DiskAtComplete
import P2pShare.WriteAccounts
import P2pShare.WritesInPlace
import P2pShare.SessionRegistry
import P2pShare.StateFileLayout
import P2pShare.ShareCodes
import P2pShare.HolePunching
import P2pShare.StunQueries
