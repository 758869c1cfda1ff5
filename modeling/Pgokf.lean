import Pgokf.Catalog.FenceLinearity
import Pgokf.Catalog.Delivery
import Pgokf.Catalog.NoFalseClear
import Pgokf.Catalog.ContractChange
import Pgokf.Sync.Idempotence
import Pgokf.Sync.PackageFreshness
import Pgokf.Web.UploadGuard
import Pgokf.Web.Recognition
import Pgokf.Mcp.PackageGuard
import Pgokf.Catalog.PublicationOrder
import Pgokf.Workspace.PluginCheck
import Pgokf.Web.ClientAddress
import Pgokf.Sync.LinkResolution
import Pgokf.Sync.Discovery
import Pgokf.Sync.Visibility
import Pgokf.Sync.SourceExport
import Pgokf.Web.ProviderClaims
import Pgokf.Web.Throttle
import Pgokf.Sync.Preimages
import Pgokf.Catalog.EmbeddingEligibility
import Pgokf.Workspace.Directories
import Pgokf.Workspace.Coinciding
import Pgokf.Workspace.SystemPrompt
import Pgokf.Web.HeadingIds
import Pgokf.Documents.HumanReviewed
import Pgokf.Documents.UnixTime
import Pgokf.Catalog.ExportTable
import Pgokf.Catalog.Generations
import Pgokf.Web.LocalImage
import Pgokf.Web.DirectoryStore
import Pgokf.Web.ProviderCache
import Pgokf.Sync.Marshalling
