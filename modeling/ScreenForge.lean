import ScreenForge.Json.Display
import ScreenForge.Main
import ScreenForge.Proofs.Kotlin.Formula
import ScreenForge.Proofs.Scope.Initialiser
import ScreenForge.Proofs.Layout.Legal
import ScreenForge.Proofs.Scope.Brace
import ScreenForge.Proofs.Layout.Deletion
import ScreenForge.Proofs.Layout.Depth
import ScreenForge.Proofs.Scope.Listener
import ScreenForge.Proofs.Project.Report
import ScreenForge.Proofs.Service.Agreement
import ScreenForge.Proofs.LogContext
import ScreenForge.Proofs.Conversion.Metrics
import ScreenForge.Proofs.Trace
import ScreenForge.Proofs.Scope.Hidden
import ScreenForge.Proofs.Layout.Numbering
import ScreenForge.Proofs.Scope.Argument
import ScreenForge.Proofs.Project.Media
import ScreenForge.Proofs.Block.Account
import ScreenForge.Proofs.Block.Namespace
import ScreenForge.Proofs.Project.Order
import ScreenForge.Proofs.Kotlin.Literal
import ScreenForge.Proofs.Project.Escape
import ScreenForge.Proofs.Component.Loading
import ScreenForge.Proofs.Component.Format
import ScreenForge.Proofs.Scope.Whole
import ScreenForge.Proofs.Number.Spelling
