import CallContract.EnvFile.Directory
import CallContract.Guard
import CallContract.OneCall
import CallContract.Proofs.Finding
import CallContract.Proofs.Table
import CallContract.Proofs.Checks
import CallContract.Proofs.Payload
import CallContract.Proofs.Validation
import CallContract.Proofs.Listing
import CallContract.Proofs.Compilation
import CallContract.Proofs.WellFormed
import CallContract.Proofs.CompilerGate
import CallContract.Proofs.Pairing
import CallContract.Proofs.HybridStages
import CallContract.Proofs.ConventionAgreement
import CallContract.Proofs.ErrorFamily
import CallContract.Proofs.Coherence
import CallContract.Proofs.Binding
import CallContract.Proofs.SlotAlignment
import CallContract.Proofs.GuardedCalls
import CallContract.Proofs.RequiredParameters
import CallContract.Proofs.TrailingUndefined
import CallContract.Proofs.KeywordCalls
import CallContract.Proofs.FanOut
import CallContract.Proofs.SinkIndependence
import CallContract.Proofs.SettingsLoading
import CallContract.Proofs.GuardReports
import CallContract.Proofs.ContractEdits
import CallContract.Proofs.RequiredMarker
import CallContract.Proofs.OpaqueNames
import CallContract.Proofs.GuardSinks
import CallContract.Proofs.Verdict
import CallContract.Proofs.Decision
import CallContract.Proofs.NullLaws
import CallContract.Proofs.Rearrangement
import CallContract.Proofs.HybridRefinement
import CallContract.Proofs.Presentation
import CallContract.Proofs.AdmittedSchemas
import CallContract.Proofs.MethodCalls
import CallContract.Proofs.ParameterPlaces
import CallContract.Proofs.Accounting
import CallContract.Proofs.OneCallAgreement
import CallContract.Proofs.SettingPeriods
import CallContract.Proofs.FragmentMerging
