import LfsBuilder.Parsers.TopologicalSort
import LfsBuilder.Scripts.DownloadEnhanced
import LfsBuilder.Scripts.LfsBuild.Download
import LfsBuilder.Scripts.LfsBuild.Stages
import LfsBuilder.Scripts.LfsBuildFixed.Complete
import LfsBuilder.Library.Regex
import LfsBuilder.Library.Markup
import LfsBuilder.Parsers.LfsParser
import LfsBuilder.Parsers.DependencyResolver
import LfsBuilder.Parsers.BuildCommands
import LfsBuilder.Parsers.DependencyLookup
import LfsBuilder.Parsers.DependencyReadings
import LfsBuilder.Parsers.DependencyNames
import LfsBuilder.Parsers.DependencySections
import LfsBuilder.Parsers.BlockOrder
import LfsBuilder.Parsers.CommandText
import LfsBuilder.Scripts.DownloadOutcomes
import LfsBuilder.Library.Arithmetic
import LfsBuilder.Scripts.ArchValidation
import LfsBuilder.Scripts.PackageManagement
import LfsBuilder.Library.Padded
import LfsBuilder.Library.Decimal
import LfsBuilder.Scripts.ArchSupport
import LfsBuilder.Scripts.ValidationSuite
import LfsBuilder.Library.Walk
import LfsBuilder.Parsers.PackageAnalyzer
import LfsBuilder.Library.HereDocument
import LfsBuilder.Scripts.ArchBuildEnv
import LfsBuilder.Library.Sourcing
import LfsBuilder.Scripts.InstallConfiguration
import LfsBuilder.Library.Sed
import LfsBuilder.Scripts.FixLfsBuilder
import LfsBuilder.Scripts.BuildContent
import LfsBuilder.Scripts.SourceDirectories
import LfsBuilder.Library.XmlTree
import LfsBuilder.Parsers.ParseXml
import LfsBuilder.Library.Traps
import LfsBuilder.Scripts.ValidationMain
import LfsBuilder.Scripts.Validators
import LfsBuilder.Library.Frames
import LfsBuilder.Scripts.DownloadReruns
import LfsBuilder.Parsers.GrowingRequests
import LfsBuilder.Jhalfs.DependencyGraph
import LfsBuilder.Library.Errexit
import LfsBuilder.Scripts.ArchSetup
import LfsBuilder.Scripts.InstallOptions
import LfsBuilder.Scripts.Install
import LfsBuilder.Jhalfs.DependencyTree
import LfsBuilder.Scripts.LfsBuild.Clean
import LfsBuilder.Jhalfs.CleanSubgraph
import LfsBuilder.Jhalfs.BuildOrder
import LfsBuilder.Library.Make
import LfsBuilder.Jhalfs.PackageMakefile
import LfsBuilder.Scripts.SystemValidator
