import Decibell.Community.SyncRuns
import Decibell.Community.RoleSafety
import Decibell.Community.KeyEscrow
import Decibell.Media.SealedTransport
import Decibell.Media.CaptureLoop
import Decibell.Net.Pins
import Decibell.Community.VoiceGroups
import Decibell.Community.StreamOwners
import Decibell.Community.History
import Decibell.Community.RosterPages
import Decibell.Community.SearchPages
import Decibell.Community.SearchWorker
import Decibell.Community.UdpPath
import Decibell.Community.Deletions
import Decibell.Community.VoicePasses
import Decibell.Central.CallSafety
import Decibell.Central.Friendships
import Decibell.Central.SignOuts
import Decibell.Central.Convergence
import Decibell.E2ee.FillOnce
import Decibell.Net.Framing
import Decibell.E2ee.FillCovers
import Decibell.Central.DmHistory
import Decibell.Central.DmTruth
import Decibell.Media.VideoRestart
import Decibell.Media.FrameCompletion
import Decibell.Client.HistoryWindow
import Decibell.Central.KeyBackup
import Decibell.Central.CommunityServers
import Decibell.Central.NameReservation
import Decibell.Community.RequestBoundaries
import Decibell.Central.ProfileAgreement
import Decibell.Client.AttachmentFetch
import Decibell.Client.HotkeyMatcher
import Decibell.Media.EncodeSizing
import Decibell.Media.ParameterSets
import Decibell.Media.StreamAudioMixer
import Decibell.Media.SendQueue
import Decibell.Media.RendererFrames
import Decibell.Media.JitterRun
import Decibell.Client.CallAttempts
import Decibell.Client.ScreenShare
import Decibell.Client.ChannelEnvelope
import Decibell.Client.RichSpelling
import Decibell.Client.SendPacing
import Decibell.Client.HistoryRequests
import Decibell.Community.ReorderFaults
import Decibell.Community.RolePositions
import Decibell.Community.VisibleChannels
import Decibell.Community.OverwriteRuns
import Decibell.Community.InviteAccounts
import Decibell.Community.LegacyClaims
import Decibell.Community.AttachmentBinding
import Decibell.Community.AttachmentUploads
import Decibell.Community.SearchSyntax
import Decibell.Community.FoldStability
import Decibell.Central.AbuseLimits
import Decibell.Community.SessionPacing
import Decibell.Community.SessionWrites
import Decibell.Community.OrderRuns
import Decibell.Community.BucketRuns
import Decibell.Community.Utf8Cuts
import Decibell.Media.Stun
import Decibell.Central.StatusLines
