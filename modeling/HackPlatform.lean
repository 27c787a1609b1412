import HackPlatform.Text.Decimal
import HackPlatform.Symbol
import HackPlatform.Source
import HackPlatform.Diagnosis
import HackPlatform.Journal
import HackPlatform.Asm.Journal
import HackPlatform.Vm.Journal
import HackPlatform.CommandLine.Library
import HackPlatform.CommandLine.Run
import HackPlatform.Main
import HackPlatform.Proofs.Cpu
import HackPlatform.Proofs.Asm.Symbolic
import HackPlatform.Proofs.Asm.Reading
import HackPlatform.Proofs.Asm.Table
import HackPlatform.Proofs.Asm.Resolution
import HackPlatform.Proofs.Asm.Lockstep
import HackPlatform.Proofs.Vm.StackMachine
import HackPlatform.Proofs.Vm.Lowering
import HackPlatform.Proofs.Vm.Listing
import HackPlatform.Proofs.Vm.Placement
import HackPlatform.Proofs.Vm.Pieces
import HackPlatform.Proofs.Vm.Agreement
import HackPlatform.Proofs.Vm.Fragments
import HackPlatform.Proofs.Vm.Frames
import HackPlatform.Proofs.Vm.Simulation
import HackPlatform.Proofs.Vm.CallReturn
import HackPlatform.Proofs.Asm.Failure
import HackPlatform.Proofs.Vm.Acceptance
import HackPlatform.Proofs.Vm.Labels
import HackPlatform.Proofs.Vm.Linkage
import HackPlatform.Proofs.Vm.Generation
import HackPlatform.Proofs.Asm.TableRun
import HackPlatform.Proofs.Asm.Decoding
import HackPlatform.Proofs.Asm.Renaming
import HackPlatform.Proofs.Vm.Annotation
import HackPlatform.Proofs.Vm.Comparison
import HackPlatform.Proofs.CommandLine.Arguments
import HackPlatform.Proofs.CommandLine.Run
import HackPlatform.Proofs.Attempt
import HackPlatform.Proofs.Vm.Grammar
import HackPlatform.Proofs.Vm.Spelling
import HackPlatform.Proofs.Asm.Rendering
import HackPlatform.Proofs.Vm.Outcome
import HackPlatform.Proofs.Vm.Rendering
import HackPlatform.Proofs.Asm.Repetition
import HackPlatform.Proofs.Vm.Naming
import HackPlatform.Proofs.Source.Bytes
import HackPlatform.Proofs.Source.Cleaning
