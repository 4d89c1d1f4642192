import BlockUpdate.Main
import BlockUpdate.Patch.Builder
import BlockUpdate.Proofs.AdapterProtocol
import BlockUpdate.Proofs.BuilderWindows
import BlockUpdate.Proofs.AgreementCommands
import BlockUpdate.Proofs.ConcurrentChecks
import BlockUpdate.Proofs.ContentAddressing
import BlockUpdate.Proofs.ControlRuns
import BlockUpdate.Proofs.Descriptors
import BlockUpdate.Proofs.DryRun
import BlockUpdate.Proofs.FinishedReplay
import BlockUpdate.Proofs.HandOver
import BlockUpdate.Proofs.ImageAccounts
import BlockUpdate.Proofs.InterruptedSaves
import BlockUpdate.Proofs.InterruptedStores
import BlockUpdate.Proofs.LastMarker
import BlockUpdate.Proofs.Leftovers
import BlockUpdate.Proofs.LongestMatch
import BlockUpdate.Proofs.MarkerProgress
import BlockUpdate.Proofs.MemberPaths
import BlockUpdate.Proofs.Overlap
import BlockUpdate.Proofs.PartitionIsolation
import BlockUpdate.Proofs.RecordLimits
import BlockUpdate.Proofs.RecordReset
import BlockUpdate.Proofs.RecordSequences
import BlockUpdate.Proofs.RespelledScripts
import BlockUpdate.Proofs.Restreaming
import BlockUpdate.Proofs.ResumeEquivalence
import BlockUpdate.Proofs.RetryRequests
import BlockUpdate.Proofs.SignedFields
import BlockUpdate.Proofs.SignedManifest
import BlockUpdate.Proofs.SourceAssembly
import BlockUpdate.Proofs.StashCounts
import BlockUpdate.Proofs.StashLimits
import BlockUpdate.Proofs.StashMap
import BlockUpdate.Proofs.VerificationPass
import BlockUpdate.Proofs.WordPatches
import BlockUpdate.Proofs.WriterCalls
import BlockUpdate.Proofs.ZeroFill
