import KeyReader.Sidecar.CompareAndSwap
import KeyReader.Services.Delivery
import KeyReader.Services.Failures
import KeyReader.AnnotationService.Discipline
import KeyReader.AnnotationService.Fairness
import KeyReader.Extension.FailedChanges
import KeyReader.Extension.SavedSettings
import KeyReader.Runtime.Parity
import KeyReader.Runtime.LastCaller
import KeyReader.Geometry.PageQueries
import KeyReader.Geometry.HitTest
import KeyReader.Workspace.Deltas
import KeyReader.Workspace.Priority
import KeyReader.Component.Coalescing
import KeyReader.Component.Protocol
import KeyReader.Http.Slots
import KeyReader.Viewport.Demand
import KeyReader.Package.CentralDirectory
import KeyReader.Package.Coverage
import KeyReader.Registry.Runs
import KeyReader.Extension.Dependencies
import KeyReader.Extension.Cycles
import KeyReader.Packages.Settled
import KeyReader.Workspace.HostTruth
import KeyReader.Reference.Retained
import KeyReader.Reference.Budget
import KeyReader.Reference.Awaited
import KeyReader.Reference.Rounds
import KeyReader.Opening.Guard
import KeyReader.Annotations.Queries
import KeyReader.Search.Preview
import KeyReader.Scientific.Groups
import KeyReader.Editor.SizeCheck
import KeyReader.Editor.InPlace
import KeyReader.Editor.Newline
import KeyReader.Editor.Canonical
import KeyReader.Editor.Fences
import KeyReader.Runtime.Selection
import KeyReader.Runtime.Rotation
import KeyReader.Viewport.Tiling
import KeyReader.Worker.Searches
import KeyReader.Extension.Ordering
import KeyReader.Pdfium.Breadcrumbs
import KeyReader.Viewport.Eviction
