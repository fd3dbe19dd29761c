import Monitostr.Net.Recovery
import Monitostr.Main.ProgramRuns
import Monitostr.Ui.TypedKeys
import Monitostr.Main.Program
import Monitostr.Main.KeySecrecy
import Monitostr.Net.KeyBlind
import Monitostr.Foundations.Resemblance
import Monitostr.Main.TableRecords
import Monitostr.Net.SeedConversation
import Monitostr.Net.SeedRefinement
import Monitostr.Net.SeedDialogue
import Monitostr.Main.RelayIsolation
import Monitostr.Main.ForgottenSessions
import Monitostr.Main.SessionLives
import Monitostr.Net.Persistence
import Monitostr.Net.SecuredSends
import Monitostr.Net.Lifecycle
import Monitostr.Foundations.ChainPlace
import Monitostr.Nostr.HexDecoders
import Monitostr.Nip19.Lossless
import Monitostr.Ui.LogExport
import Monitostr.Ui.MatchCycle
import Monitostr.Main.KeySubmission
import Monitostr.Main.MessageCounts
import Monitostr.Net.RelayEncoding
import Monitostr.Net.HandledMessages
import Monitostr.Net.Endpoints
import Monitostr.Net.BootstrapOutcome
import Monitostr.Foundations.Attempts
import Monitostr.Net.SupportedNips
import Monitostr.Ui.Viewports
import Monitostr.Ui.Selection
import Monitostr.Foundations.ListWindow
import Monitostr.Ui.RelayTable
import Monitostr.Net.AuthMessage
import Monitostr.Utils.JsonText
import Monitostr.Foundations.UniqueReading
import Monitostr.Ui.LogScrolling
import Monitostr.Ui.CommandSecrets
import Monitostr.Ui.CommandHints
import Monitostr.Ui.CommandWords
import Monitostr.Utils.Words
import Monitostr.Ui.PendingKey
import Monitostr.Ui.CommandBranches
import Monitostr.Ui.InputBuffers
import Monitostr.Ui.AppSteps
import Monitostr.Foundations.Utf8
import Monitostr.Ui.App
import Monitostr.Ui.LogSearch
import Monitostr.Ui.LogPane
import Monitostr.Model.StatsLog
import Monitostr.Net.RelayAuthority
import Monitostr.Net.RelayUrl
import Monitostr.Net.RelayList
import Monitostr.Net.SessionRoster
import Monitostr.Net.CloseSafety
import Monitostr.Net.ReconnectPolicy
import Monitostr.Main.AuthCommand
import Monitostr.Main.StatsScope
import Monitostr.Net.StopSafety
import Monitostr.Net.TlsStreams
import Monitostr.Net.WriteDiscipline
import Monitostr.Nip19.TypoSafety
import Monitostr.Main.Monitoring
