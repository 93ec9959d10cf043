import Stencil.Action
import Stencil.Command
import Stencil.ConfigText
import Stencil.Session
import Stencil.Settings
import Stencil.Proofs.Rendering
import Stencil.Proofs.LineTable
import Stencil.Proofs.LineCount
import Stencil.Proofs.Frozen
import Stencil.Proofs.RecoveredFaults
import Stencil.Proofs.ExitPolicies
import Stencil.Proofs.AbortedPass
import Stencil.Proofs.LineOrder
import Stencil.Proofs.Flushing
import Stencil.Proofs.PassIsolation
import Stencil.Proofs.LexerCalls
import Stencil.Proofs.BraceNesting
import Stencil.Proofs.SourceLines
import Stencil.Proofs.FatalFaults
import Stencil.Proofs.Continuation
import Stencil.Proofs.MarkHistory
import Stencil.Proofs.TagCapture
import Stencil.Proofs.CommentBreaks
import Stencil.Proofs.WrappedScript
import Stencil.Proofs.Timing
import Stencil.Proofs.Pulling
import Stencil.Proofs.SplitText
import Stencil.Proofs.NestingDepth
import Stencil.Proofs.ResponseFamilies
import Stencil.Proofs.WrittenScalars
import Stencil.Proofs.CursorSkips
import Stencil.Proofs.SettingsLines
import Stencil.Proofs.EntrySymbols
import Stencil.Proofs.SettingsFile
import Stencil.Proofs.FlatMappings
import Stencil.Proofs.SettingValues
import Stencil.Proofs.SettingsReaders
import Stencil.Proofs.YamlSettings
import Stencil.Proofs.SettingsText
