import FragmentArchive.Arguments
import FragmentArchive.Artifact
import FragmentArchive.BuildConfig
import FragmentArchive.BuildMode
import FragmentArchive.BuildMode.Admission
import FragmentArchive.BuildPlan
import FragmentArchive.Bundle
import FragmentArchive.Collaborator
import FragmentArchive.Command
import FragmentArchive.Command.Execution
import FragmentArchive.Command.Help
import FragmentArchive.Device
import FragmentArchive.Device.Filter
import FragmentArchive.Device.Tier
import FragmentArchive.DirectoryArchive
import FragmentArchive.DirectoryArchive.Destination
import FragmentArchive.Error
import FragmentArchive.Fallible
import FragmentArchive.FileTree
import FragmentArchive.Fragment
import FragmentArchive.Json.Codec
import FragmentArchive.Json.Error
import FragmentArchive.Json.Numeral
import FragmentArchive.Json.Record
import FragmentArchive.Json.Text
import FragmentArchive.Json.Token
import FragmentArchive.Json.Tree
import FragmentArchive.Json.Value
import FragmentArchive.Main
import FragmentArchive.Manifest
import FragmentArchive.Names
import FragmentArchive.Naming
import FragmentArchive.Notice
import FragmentArchive.Proofs.Admission
import FragmentArchive.Proofs.Barrier
import FragmentArchive.Proofs.Bypass
import FragmentArchive.Proofs.ByteOrder
import FragmentArchive.Proofs.Canonical
import FragmentArchive.Proofs.CommitPoint
import FragmentArchive.Proofs.Comparison
import FragmentArchive.Proofs.Consultation
import FragmentArchive.Proofs.Containment
import FragmentArchive.Proofs.Deduplication
import FragmentArchive.Proofs.DefaultTier
import FragmentArchive.Proofs.Destination
import FragmentArchive.Proofs.DirectoryArchive
import FragmentArchive.Proofs.Divergence
import FragmentArchive.Proofs.Documents
import FragmentArchive.Proofs.EffectiveDevice
import FragmentArchive.Proofs.Examination
import FragmentArchive.Proofs.FailedRequests
import FragmentArchive.Proofs.FailedRun
import FragmentArchive.Proofs.FileTree
import FragmentArchive.Proofs.Files
import FragmentArchive.Proofs.Filing
import FragmentArchive.Proofs.Filtering
import FragmentArchive.Proofs.FinishedArchive
import FragmentArchive.Proofs.FragmentPhase
import FragmentArchive.Proofs.History
import FragmentArchive.Proofs.Interleaving
import FragmentArchive.Proofs.InternalErrors
import FragmentArchive.Proofs.Json.Codec
import FragmentArchive.Proofs.Json.Parsing
import FragmentArchive.Proofs.Json.Record
import FragmentArchive.Proofs.Json.Scanning
import FragmentArchive.Proofs.KeptFiles
import FragmentArchive.Proofs.KeyOrder
import FragmentArchive.Proofs.Leftovers
import FragmentArchive.Proofs.Listening
import FragmentArchive.Proofs.Lists
import FragmentArchive.Proofs.Naming
import FragmentArchive.Proofs.NamingHistory
import FragmentArchive.Proofs.Numbering
import FragmentArchive.Proofs.Obstacles
import FragmentArchive.Proofs.Pipelines
import FragmentArchive.Proofs.Preparation
import FragmentArchive.Proofs.Rebuilding
import FragmentArchive.Proofs.Renumbering
import FragmentArchive.Proofs.Replay
import FragmentArchive.Proofs.RequestErrors
import FragmentArchive.Proofs.Requests
import FragmentArchive.Proofs.Run
import FragmentArchive.Proofs.Schedule
import FragmentArchive.Proofs.Scheduling
import FragmentArchive.Proofs.SlicePhase
import FragmentArchive.Proofs.SliceSets
import FragmentArchive.Proofs.SortedMap
import FragmentArchive.Proofs.Storing
import FragmentArchive.Proofs.Survivors
import FragmentArchive.Proofs.TablePaths
import FragmentArchive.Proofs.TierNumerals
import FragmentArchive.Proofs.Version
import FragmentArchive.Proofs.WellFormed
import FragmentArchive.Route
import FragmentArchive.Run
import FragmentArchive.Schedule
import FragmentArchive.Serializer
import FragmentArchive.Sha256
import FragmentArchive.SortedMap
import FragmentArchive.TableOfContents
import FragmentArchive.TableOfContents.Summary
import FragmentArchive.Targeting
import FragmentArchive.Text.Binary64
import FragmentArchive.Text.Decimal
import FragmentArchive.Text.Printable
import FragmentArchive.Text.Quoted
import FragmentArchive.Variant.Canonical
import FragmentArchive.Variant.Numbering
import FragmentArchive.Version
