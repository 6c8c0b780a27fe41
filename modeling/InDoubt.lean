import InDoubt.Config
import InDoubt.Failure
import InDoubt.FileSystem.Basic
import InDoubt.FileSystem.Directories
import InDoubt.FileSystem.Error
import InDoubt.FileSystem.Files
import InDoubt.FileSystem.Outside
import InDoubt.FileSystem.Resolve
import InDoubt.Inspect
import InDoubt.Locator.Basic
import InDoubt.Locator.Error
import InDoubt.Locator.Host
import InDoubt.Locator.Ipv4
import InDoubt.Locator.Ipv6
import InDoubt.Locator.Parser
import InDoubt.Locator.Path
import InDoubt.Locator.Percent
import InDoubt.Locator.Scheme
import InDoubt.Log
import InDoubt.Main
import InDoubt.OpenSet
import InDoubt.Proofs.Acknowledged
import InDoubt.Proofs.Appending
import InDoubt.Proofs.Ascii
import InDoubt.Proofs.Backing
import InDoubt.Proofs.Basic
import InDoubt.Proofs.Claiming
import InDoubt.Proofs.Clients
import InDoubt.Proofs.Containment
import InDoubt.Proofs.Counting
import InDoubt.Proofs.CrashRecovery
import InDoubt.Proofs.Creation
import InDoubt.Proofs.Culling
import InDoubt.Proofs.Discovery
import InDoubt.Proofs.Exclusion
import InDoubt.Proofs.Faces
import InDoubt.Proofs.FileSystem.Alterations
import InDoubt.Proofs.FileSystem.Entries
import InDoubt.Proofs.FileSystem.Holding
import InDoubt.Proofs.FileSystem.Listing
import InDoubt.Proofs.FileSystem.Making
import InDoubt.Proofs.FileSystem.Opening
import InDoubt.Proofs.FileSystem.Operations
import InDoubt.Proofs.FileSystem.Paths
import InDoubt.Proofs.FileSystem.Paving
import InDoubt.Proofs.FileSystem.Pruning
import InDoubt.Proofs.FileSystem.Reachable
import InDoubt.Proofs.FileSystem.Reading
import InDoubt.Proofs.FileSystem.Sound
import InDoubt.Proofs.FileSystem.Walking
import InDoubt.Proofs.FileSystem.Writing
import InDoubt.Proofs.Finished
import InDoubt.Proofs.Frame
import InDoubt.Proofs.Gleaning
import InDoubt.Proofs.Growth
import InDoubt.Proofs.Handles
import InDoubt.Proofs.History
import InDoubt.Proofs.Identity
import InDoubt.Proofs.Incarnations
import InDoubt.Proofs.Independence
import InDoubt.Proofs.Inspection
import InDoubt.Proofs.LifeCycle
import InDoubt.Proofs.Lifetime
import InDoubt.Proofs.Locator.Addresses
import InDoubt.Proofs.Locator.Authorities
import InDoubt.Proofs.Locator.Hierarchies
import InDoubt.Proofs.Locator.Hosts
import InDoubt.Proofs.Locator.Numbers
import InDoubt.Proofs.Locator.Paths
import InDoubt.Proofs.Locator.Percent
import InDoubt.Proofs.Locator.RoundTrip
import InDoubt.Proofs.Naming
import InDoubt.Proofs.Netting
import InDoubt.Proofs.OpenSet
import InDoubt.Proofs.Operations
import InDoubt.Proofs.Orderly
import InDoubt.Proofs.Ownership
import InDoubt.Proofs.Placing
import InDoubt.Proofs.Portraits
import InDoubt.Proofs.Records
import InDoubt.Proofs.Recovering
import InDoubt.Proofs.Registrable
import InDoubt.Proofs.Relocation
import InDoubt.Proofs.Rescanning
import InDoubt.Proofs.Retention
import InDoubt.Proofs.Run
import InDoubt.Proofs.Scanning
import InDoubt.Proofs.Scenes
import InDoubt.Proofs.Serving
import InDoubt.Proofs.Sifting
import InDoubt.Proofs.Sorting
import InDoubt.Proofs.Spelling
import InDoubt.Proofs.Steps
import InDoubt.Proofs.Tearing
import InDoubt.Proofs.Terrain
import InDoubt.Proofs.Twins
import InDoubt.Proofs.Writers
import InDoubt.Record
import InDoubt.Recovery.Host
import InDoubt.Recovery.Scan
import InDoubt.Registry
import InDoubt.RegistryFile
import InDoubt.Sort
import InDoubt.Step
import InDoubt.Text.Blank
import InDoubt.Text.Hex
import InDoubt.Text.Lines
import InDoubt.Text.Printable
import InDoubt.Text.Quoted
import InDoubt.Text.Split
import InDoubt.Text.Utf8
import InDoubt.World
import InDoubt.Xid
