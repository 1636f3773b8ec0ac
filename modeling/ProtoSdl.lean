import ProtoSdl.Main
import ProtoSdl.Proofs.OctetLiterals
import ProtoSdl.Proofs.ItemBlocks
import ProtoSdl.Proofs.Calls
import ProtoSdl.Proofs.Plans
import ProtoSdl.Proofs.Emission
import ProtoSdl.Proofs.ItemNames
import ProtoSdl.Proofs.UniqueNames
import ProtoSdl.Proofs.BlankLines
import ProtoSdl.Proofs.FirstUses
import ProtoSdl.Proofs.Refusals
import ProtoSdl.Proofs.Operations
import ProtoSdl.Proofs.Layout
import ProtoSdl.Proofs.DeclaredTypes
import ProtoSdl.Proofs.Contents
import ProtoSdl.Proofs.TypeChains
import ProtoSdl.Proofs.PrintedReferences
import ProtoSdl.Proofs.References
import ProtoSdl.Proofs.Captures
import ProtoSdl.Proofs.Growth
import ProtoSdl.Proofs.PathTexts
import ProtoSdl.Proofs.WrittenFiles
import ProtoSdl.Proofs.OutputFiles
import ProtoSdl.Proofs.Effects
import ProtoSdl.Proofs.Packages
import ProtoSdl.Proofs.Imports
import ProtoSdl.Proofs.Accounts
import ProtoSdl.Proofs.Verdict
import ProtoSdl.Proofs.OneofGroups
import ProtoSdl.Proofs.SourceOrders
import ProtoSdl.Proofs.Relocations
import ProtoSdl.Proofs.NamedFiles
import ProtoSdl.Proofs.TargetNames
import ProtoSdl.Proofs.MergedPackages
import ProtoSdl.Proofs.Faults
import ProtoSdl.Proofs.FirstOccurrences
import ProtoSdl.Proofs.DeclarationPlaces
import ProtoSdl.Proofs.DeclaredNames
import ProtoSdl.Proofs.IncludeDirectories
