import BrowserAgent.Action.Program
import BrowserAgent.CommandLine.Basic
import BrowserAgent.CommandLine.Invocation
import BrowserAgent.Digest
import BrowserAgent.Engine
import BrowserAgent.Proofs.CompiledDocument
import BrowserAgent.Proofs.GateCoverage
import BrowserAgent.Proofs.QueueAccount
import BrowserAgent.Proofs.RetryBound
import BrowserAgent.Settings.Storage
import BrowserAgent.Surface.Rehearsal
import BrowserAgent.Surface.Transcript
import BrowserAgent.Text.WordChar
import BrowserAgent.Proofs.Spelling
import BrowserAgent.Proofs.TokenReaders
import BrowserAgent.Proofs.AtomReaders
import BrowserAgent.Proofs.ArgumentBinding
import BrowserAgent.Proofs.CacheTransparency
import BrowserAgent.Proofs.CompletionAccount
import BrowserAgent.Proofs.GateEscapes
import BrowserAgent.Proofs.CleanRun
import BrowserAgent.Proofs.JoinedActions
import BrowserAgent.Proofs.ReplayAccount
import BrowserAgent.Proofs.TransientErrors
import BrowserAgent.Proofs.EvaluationOrder
import BrowserAgent.Proofs.PromptParts
import BrowserAgent.Proofs.FirstAttempts
import BrowserAgent.Proofs.RetryPrompts
import BrowserAgent.Proofs.ScriptFaults
import BrowserAgent.Proofs.Limits
import BrowserAgent.Proofs.SlotAssignment
import BrowserAgent.Proofs.PromptSignatures
import BrowserAgent.Proofs.WrittenCalls
import BrowserAgent.Proofs.NameScope
import BrowserAgent.Proofs.FailedLines
import BrowserAgent.Proofs.FencedCompletions
import BrowserAgent.Proofs.MovedSections
import BrowserAgent.Proofs.PlainBlocks
import BrowserAgent.Proofs.ShownDiagnostics
import BrowserAgent.Proofs.DiagnosticShape
import BrowserAgent.Proofs.DocumentPlans
import BrowserAgent.Proofs.JoinedEscapes
import BrowserAgent.Proofs.HistoryGrowth
import BrowserAgent.Proofs.SavedDocuments
import BrowserAgent.Proofs.StopCuts
import BrowserAgent.Proofs.TranscriptUrls
import BrowserAgent.Proofs.FittingArguments
import BrowserAgent.Proofs.BindableNames
import BrowserAgent.Proofs.CapturedStreams
