import ExtensionCatalog.Proofs.NativeType.Names
import ExtensionCatalog.Proofs.Registry.Caseless
import ExtensionCatalog.Proofs.Registry.Effect
import ExtensionCatalog.Proofs.Registry.Listing
import ExtensionCatalog.Proofs.Registry.Logging
import ExtensionCatalog.Proofs.Registry.Names
import ExtensionCatalog.Proofs.Registry.OneByOne
import ExtensionCatalog.Proofs.Registry.Reload
import ExtensionCatalog.Proofs.Registry.Reports
import ExtensionCatalog.Proofs.Registry.Strictness
import ExtensionCatalog.Proofs.Settings.Written
import ExtensionCatalog.Proofs.Signature.Grouping
import ExtensionCatalog.Proofs.Signature.Operands
import ExtensionCatalog.Proofs.Signature.Refusals
import ExtensionCatalog.Proofs.Statement.Cuts
import ExtensionCatalog.Proofs.Statement.OpenQuote
import ExtensionCatalog.Proofs.Statement.OptionNames
import ExtensionCatalog.Proofs.Statement.Paths
import ExtensionCatalog.Proofs.Statement.Payload
import ExtensionCatalog.Proofs.Statement.Terminators
import ExtensionCatalog.Registry.Session
