import RomArchive.Workspace
import RomArchive.Main
import RomArchive.Proofs.Results
import RomArchive.Proofs.Codec
import RomArchive.Proofs.Framing
import RomArchive.Proofs.EndSearch
import RomArchive.Proofs.Loading
import RomArchive.Proofs.Lookup
import RomArchive.Proofs.Readable
import RomArchive.Proofs.Packing
import RomArchive.Proofs.RoundTrip
import RomArchive.Proofs.MovedValues
import RomArchive.Proofs.Widening
import RomArchive.Proofs.Registry.Frame
import RomArchive.Proofs.Registry.Steps
import RomArchive.Proofs.Registry.Runs
import RomArchive.Proofs.Registry.OneCall
import RomArchive.Proofs.Extraction
import RomArchive.Proofs.Frozen
import RomArchive.Proofs.Readings
import RomArchive.Proofs.Files.Changes
import RomArchive.Proofs.Scratch.Names
import RomArchive.Proofs.Scratch.Writes
import RomArchive.Proofs.Scratch.Runs
import RomArchive.Proofs.Scratch.Reports
import RomArchive.Proofs.Scratch.Buffers
import RomArchive.Proofs.Extensions
import RomArchive.Proofs.Selection
import RomArchive.Proofs.Program
import RomArchive.Proofs.Bounds.Guarded
import RomArchive.Proofs.Bounds.Filling
import RomArchive.Proofs.Bounds.Loading
import RomArchive.Proofs.Bounds.ExtraArea
import RomArchive.Proofs.Bounds.Walking
import RomArchive.Proofs.Bounds.Entries
import RomArchive.Proofs.Bounds.Verified
import RomArchive.Proofs.Verified
import RomArchive.Proofs.Frames
import RomArchive.Proofs.Damage
import RomArchive.Proofs.Listings
import RomArchive.Proofs.DataSlice
import RomArchive.Proofs.Governing
import RomArchive.Proofs.Disks
import RomArchive.Proofs.Delivered
import RomArchive.Proofs.StreamEnd
import RomArchive.Proofs.Overlong
import RomArchive.Proofs.FullReads
import RomArchive.Proofs.EndCodecs
import RomArchive.Proofs.Table
