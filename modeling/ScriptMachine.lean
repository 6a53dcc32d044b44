import ScriptMachine.CommandLine.Outcome
import ScriptMachine.Machine.Inspect
import ScriptMachine.Main
import ScriptMachine.Tree.Build
import ScriptMachine.Proofs.CallProtocol
import ScriptMachine.Proofs.CompiledScripts
import ScriptMachine.Proofs.CrowdedTables
import ScriptMachine.Proofs.DiagnosticRecords
import ScriptMachine.Proofs.Dumps
import ScriptMachine.Proofs.Expressions
import ScriptMachine.Proofs.FaultPlaces
import ScriptMachine.Proofs.GlobalBindings
import ScriptMachine.Proofs.HeapAllotments
import ScriptMachine.Proofs.HeapSessions
import ScriptMachine.Proofs.LastingChanges
import ScriptMachine.Proofs.LayoutReading
import ScriptMachine.Proofs.ListingLines
import ScriptMachine.Proofs.RelinedRuns
import ScriptMachine.Proofs.Reuse
import ScriptMachine.Proofs.Safety
import ScriptMachine.Proofs.ScriptEvaluation
import ScriptMachine.Proofs.SilentCommands
import ScriptMachine.Proofs.StrictMode
import ScriptMachine.Proofs.TerminalStyles
import ScriptMachine.Proofs.TreeRoundTrip
import ScriptMachine.Proofs.WrittenLines
