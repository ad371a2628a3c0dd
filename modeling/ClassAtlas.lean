import ClassAtlas.Graph.Query
import ClassAtlas.Proofs.Text.Ascii
import ClassAtlas.Scan.Scanner
import ClassAtlas.Signature.Encode
import ClassAtlas.Proofs.Reading.Steps
import ClassAtlas.Proofs.Reading.Repetition
import ClassAtlas.Proofs.Signature.WellFormed
import ClassAtlas.Proofs.Signature.DeclarationSoundness
import ClassAtlas.Proofs.Signature.TypeCompleteness
import ClassAtlas.Proofs.Signature.DeclarationCompleteness
import ClassAtlas.Proofs.Signature.RoundTrip
import ClassAtlas.Proofs.Graph.Closure
import ClassAtlas.Proofs.Graph.Membership
import ClassAtlas.Proofs.Graph.Links
import ClassAtlas.Proofs.Graph.Hierarchy
import ClassAtlas.Proofs.Graph.Annotations
import ClassAtlas.Proofs.Reading.Sequential
import ClassAtlas.Proofs.ClassFile.Reuse
import ClassAtlas.Proofs.ClassFile.PrefixFree
import ClassAtlas.Proofs.Signature.Attaching
import ClassAtlas.Proofs.Signature.SegmentNames
import ClassAtlas.Proofs.Signature.Attached
import ClassAtlas.Proofs.Signature.Respelling
import ClassAtlas.Proofs.Signature.Notes
import ClassAtlas.Proofs.Reading.Spelling
import ClassAtlas.Proofs.ClassFile.Layout
import ClassAtlas.Proofs.ClassFile.Deposit
import ClassAtlas.Proofs.ClassFile.PassedOver
import ClassAtlas.Proofs.ClassFile.Alignment
import ClassAtlas.Proofs.Reading.Failures
import ClassAtlas.Proofs.ClassFile.Failures
import ClassAtlas.Proofs.Scan.Sources
import ClassAtlas.Proofs.Scan.Account
import ClassAtlas.Proofs.Graph.Renumbering
import ClassAtlas.Proofs.Scan.Isolation
import ClassAtlas.Proofs.Scan.Bookkeeping
import ClassAtlas.Proofs.Scan.Custody
import ClassAtlas.Proofs.Text.Order
import ClassAtlas.Proofs.Graph.Order
import ClassAtlas.Graph.Linking
import ClassAtlas.Proofs.Graph.Linking
import ClassAtlas.Proofs.Graph.Arena
import ClassAtlas.Proofs.Graph.Growth
import ClassAtlas.Proofs.Graph.Unresolved
import ClassAtlas.Proofs.Pool.ModifiedUtf8
import ClassAtlas.Proofs.Pool.Slots
import ClassAtlas.Proofs.ClassFile.Modules
import ClassAtlas.Machine.Fault
import ClassAtlas.Machine.Reading
import ClassAtlas.Machine.Signature
import ClassAtlas.Machine.Attach
import ClassAtlas.Machine.Pool
import ClassAtlas.Machine.Annotations
import ClassAtlas.Machine.Attribute
import ClassAtlas.Machine.Decode
import ClassAtlas.Proofs.Machine.Reading
import ClassAtlas.Proofs.Machine.Signature
import ClassAtlas.Proofs.Machine.Attach
import ClassAtlas.Proofs.Machine.Names
import ClassAtlas.Proofs.Machine.Settling
import ClassAtlas.Proofs.Machine.Pool
import ClassAtlas.Proofs.Machine.Annotations
import ClassAtlas.Proofs.Machine.Attribute
import ClassAtlas.Proofs.Machine.Decode
import ClassAtlas.Proofs.Scan.Cancelling
import ClassAtlas.Proofs.Reading.Deciphering
import ClassAtlas.Proofs.Annotations.Layout
import ClassAtlas.Proofs.Annotations.Deciphering
import ClassAtlas.Proofs.Annotations.TypeUses
import ClassAtlas.Graph.Search
import ClassAtlas.Proofs.Graph.Search
import ClassAtlas.Proofs.Signature.Following
import ClassAtlas.Proofs.Signature.Commuting
import ClassAtlas.Proofs.Reading.Reasons
import ClassAtlas.Proofs.ClassFile.Reasons
import ClassAtlas.Proofs.ClassFile.Parameters
import ClassAtlas.Proofs.ClassFile.MissingParameters
import ClassAtlas.Proofs.Graph.Converse
import ClassAtlas.Proofs.Graph.Chains
import ClassAtlas.Proofs.Graph.MemberAnnotations
import ClassAtlas.Proofs.Signature.Occurrences
import ClassAtlas.Proofs.Annotations.Occurrences
import ClassAtlas.Proofs.ClassFile.Referenced
import ClassAtlas.Proofs.Graph.SetAlgebra
import ClassAtlas.Proofs.Pool.TextLanguage
import ClassAtlas.Proofs.Graph.Defaults
import ClassAtlas.Proofs.Reading.Calls
import ClassAtlas.Proofs.Machine.Calls
import ClassAtlas.Proofs.Reading.Outline
import ClassAtlas.Proofs.Reading.Levels
import ClassAtlas.Proofs.Signature.Levels
import ClassAtlas.Proofs.Annotations.Levels
