import PuppetInventory.Main
import PuppetInventory.Proofs.Attribution
import PuppetInventory.Proofs.CallNodes
import PuppetInventory.Proofs.CsvRecords
import PuppetInventory.Proofs.JsonLines
import PuppetInventory.Proofs.RoundTrip
import PuppetInventory.Proofs.UsageTable
import PuppetInventory.Proofs.ParseReport
import PuppetInventory.Proofs.UsageRecords
import PuppetInventory.Proofs.Discovery
import PuppetInventory.Proofs.AliasSwitch
import PuppetInventory.Proofs.BareOptions
import PuppetInventory.Proofs.SourceOrder
import PuppetInventory.Proofs.OptionOrder
import PuppetInventory.Proofs.NilOptions
import PuppetInventory.Proofs.DependencyOrder
import PuppetInventory.Proofs.SelfReference
import PuppetInventory.Proofs.AliasExpansion
import PuppetInventory.Proofs.CsvLineBreaks
import PuppetInventory.Proofs.TableErrors
import PuppetInventory.Proofs.KeySpellings
import PuppetInventory.Proofs.Acceptance
import PuppetInventory.Proofs.CallRendering
import PuppetInventory.Proofs.SingleQuotes
import PuppetInventory.Proofs.LiteralSpellings
