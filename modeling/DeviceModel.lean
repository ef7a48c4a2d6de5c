import DeviceModel.Mount.Point
import DeviceModel.Session.Scenario
import DeviceModel.Proofs.Log.Emits
import DeviceModel.Proofs.Path.Normal
import DeviceModel.Proofs.Path.Relative
import DeviceModel.Proofs.Path.Spelling
import DeviceModel.Proofs.Path.Meaning
import DeviceModel.Proofs.Snapshot.Opening
import DeviceModel.Proofs.Snapshot.Reading
import DeviceModel.Proofs.Binding.FirstLink
import DeviceModel.Proofs.Ownership.Ledger
import DeviceModel.Proofs.Ownership.Loading
import DeviceModel.Proofs.Ownership.Classes
import DeviceModel.Proofs.Ownership.Held
import DeviceModel.Proofs.Session.Effect
import DeviceModel.Proofs.Graph.Building
import DeviceModel.Proofs.Session.Origin
import DeviceModel.Proofs.Session.Partners
import DeviceModel.Proofs.Ownership.Shares
import DeviceModel.Proofs.Session.Release
import DeviceModel.Proofs.Graph.Survey
import DeviceModel.Proofs.Graph.Visit
import DeviceModel.Proofs.Graph.Mirror
import DeviceModel.Proofs.Graph.Unwind
import DeviceModel.Proofs.Graph.Lookup
import DeviceModel.Proofs.Graph.Teardown
import DeviceModel.Proofs.Snapshot.Relocate
import DeviceModel.Proofs.Tree.Stored
import DeviceModel.Proofs.Tree.Way
import DeviceModel.Proofs.Tree.Answers
import DeviceModel.Proofs.Tree.Target
import DeviceModel.Proofs.Tree.Picture
import DeviceModel.Proofs.Tree.Shows
import DeviceModel.Proofs.Graph.Class
import DeviceModel.Proofs.Graph.Identity
import DeviceModel.Proofs.Graph.Members
import DeviceModel.Proofs.Tree.Entries
import DeviceModel.Proofs.Graph.Sweep
import DeviceModel.Proofs.Tree.Below
import DeviceModel.Proofs.Tree.Walk
import DeviceModel.Proofs.Snapshot.Frontier
import DeviceModel.Proofs.Tree.Announced
import DeviceModel.Proofs.Snapshot.Enumeration
import DeviceModel.Proofs.Log.Agreement
import DeviceModel.Proofs.Binding.Incomplete
import DeviceModel.Proofs.Tree.Buses
import DeviceModel.Proofs.Path.Targets
import DeviceModel.Proofs.Tree.Search
import DeviceModel.Proofs.Tree.Entered
import DeviceModel.Proofs.Text.Octets
import DeviceModel.Proofs.Mount.Escapes
import DeviceModel.Proofs.Mount.Decoding
import DeviceModel.Proofs.Mount.Records
import DeviceModel.Proofs.Snapshot.InPlace
import DeviceModel.Proofs.Tree.Disk.Spelled
import DeviceModel.Proofs.Tree.Disk.Way
import DeviceModel.Proofs.Tree.Disk.Answers
import DeviceModel.Proofs.Tree.Disk.Target
import DeviceModel.Proofs.Tree.LastName
