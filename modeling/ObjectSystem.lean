import ObjectSystem.Session.Run
import ObjectSystem.Sorting.Bench
import ObjectSystem.Proofs.Sorting.Ties
import ObjectSystem.Proofs.Sorting.Ready
import ObjectSystem.Proofs.Sorting.Refill
import ObjectSystem.Proofs.Sorting.Reads
import ObjectSystem.Proofs.Sorting.Assembly
import ObjectSystem.Proofs.Sorting.Whole
import ObjectSystem.Proofs.Sorting.Stable
import ObjectSystem.Proofs.Registry
import ObjectSystem.Proofs.Class.Ledger
import ObjectSystem.Proofs.Class.Settled
import ObjectSystem.Proofs.Steps
import ObjectSystem.Proofs.Class.Filling
import ObjectSystem.Proofs.Class.Completing
import ObjectSystem.Proofs.Class.Building
import ObjectSystem.Proofs.Class.Subclassing
import ObjectSystem.Proofs.Class.Dispatch
import ObjectSystem.Proofs.Class.Layout
import ObjectSystem.Proofs.Class.Marks
import ObjectSystem.Proofs.Object.Handles
import ObjectSystem.Proofs.Object.Counting
import ObjectSystem.Proofs.Object.Runs
import ObjectSystem.Proofs.Sorting.Batches
import ObjectSystem.Proofs.Sorting.Sound
import ObjectSystem.Proofs.Sorting.Losses
import ObjectSystem.Proofs.Class.Descent
import ObjectSystem.Proofs.Class.Refusal
import ObjectSystem.Proofs.Class.Creation
import ObjectSystem.Proofs.Class.Apart
import ObjectSystem.Proofs.Class.Finality
import ObjectSystem.Proofs.Parcel.Order
import ObjectSystem.Proofs.Parcel.Cycles
import ObjectSystem.Proofs.Class.Signatures
import ObjectSystem.Proofs.Sorting.Intact
import ObjectSystem.Proofs.Sorting.Phases
import ObjectSystem.Proofs.Sorting.Unmerged
import ObjectSystem.Proofs.Sorting.Strict
import ObjectSystem.Proofs.Sorting.InBounds
import ObjectSystem.Proofs.Class.Lasting
import ObjectSystem.Proofs.Class.Operations
import ObjectSystem.Proofs.Class.Programs
import ObjectSystem.Proofs.Class.Moments
import ObjectSystem.Proofs.Class.Convergence
import ObjectSystem.Proofs.Class.Chains
import ObjectSystem.Proofs.Class.Variables
import ObjectSystem.Proofs.Sorting.Room
import ObjectSystem.Proofs.Sorting.Interludes
import ObjectSystem.Proofs.Sorting.Delivery
import ObjectSystem.Proofs.Sorting.Releases
import ObjectSystem.Proofs.Sorting.Account
import ObjectSystem.Proofs.Class.Kinds
import ObjectSystem.Proofs.Class.Tiling
import ObjectSystem.Proofs.Class.Patching
import ObjectSystem.Proofs.Class.Circles
import ObjectSystem.Proofs.Class.Publishing
import ObjectSystem.Proofs.Class.Alignment
import ObjectSystem.Proofs.Object.Endings
import ObjectSystem.Proofs.Config.Discovery
import ObjectSystem.Proofs.Class.Enduring
import ObjectSystem.Proofs.Class.Forest
import ObjectSystem.Proofs.Class.Fullness
import ObjectSystem.Proofs.Class.Registering
import ObjectSystem.Proofs.Parcel.Carrying
import ObjectSystem.Proofs.Parcel.Settling
import ObjectSystem.Proofs.Sorting.Requests
import ObjectSystem.Proofs.Sorting.Growth
