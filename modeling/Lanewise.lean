import Lanewise.Kernel.Samples
import Lanewise.Main
import Lanewise.Proofs.Admission
import Lanewise.Proofs.Bytes
import Lanewise.Proofs.Calls
import Lanewise.Proofs.Checksum
import Lanewise.Proofs.CorrectNarrowing
import Lanewise.Proofs.CorrectRounding
import Lanewise.Proofs.Detection
import Lanewise.Proofs.FirstFit
import Lanewise.Proofs.Invocation
import Lanewise.Proofs.Masking
import Lanewise.Proofs.Narrowing
import Lanewise.Proofs.Nearest
import Lanewise.Proofs.Pinning
import Lanewise.Proofs.Preference
import Lanewise.Proofs.Recorded
import Lanewise.Proofs.Report
import Lanewise.Proofs.RoundTrip
import Lanewise.Proofs.Trace
import Lanewise.Proofs.Values
import Lanewise.Proofs.Wrapping
import Lanewise.Toolchain
import Lanewise.Proofs.Footprint
import Lanewise.Proofs.Lanes.Fitting
import Lanewise.Proofs.Classes
import Lanewise.Proofs.Monotone
import Lanewise.Proofs.Buffers
import Lanewise.Proofs.Coverage
import Lanewise.Proofs.Fields
import Lanewise.Proofs.Restriction
import Lanewise.Proofs.Collisions
import Lanewise.Proofs.Releases
import Lanewise.Proofs.Shifting
