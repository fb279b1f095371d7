import CoopScript.Ty.Registry
import CoopScript.Number.Shortest
import CoopScript.Text.Quoted
import CoopScript.Value.Serial
import CoopScript.Value.Registers
import CoopScript.Limits.Reader
import CoopScript.Operator
import CoopScript.Program
import CoopScript.Machine.Entry
import CoopScript.Proofs.Machine.Isolation
import CoopScript.Proofs.Machine.Liveness
import CoopScript.Proofs.Machine.Scheduling
import CoopScript.Proofs.Machine.Consistency
import CoopScript.Proofs.Machine.Resting
import CoopScript.Proofs.Machine.Limiting
import CoopScript.Proofs.Machine.Calling
import CoopScript.Proofs.Machine.Tracing
import CoopScript.Proofs.Machine.Waiting
import CoopScript.Proofs.Machine.Independence
import CoopScript.Proofs.Heap.Commands
import CoopScript.Proofs.Machine.Loopless
import CoopScript.Proofs.Machine.Homogeneous
import CoopScript.Proofs.Machine.Addressing
import CoopScript.Proofs.Machine.Bounded
import CoopScript.Proofs.Heap.Overwriting
import CoopScript.Proofs.Machine.Breaking
import CoopScript.Proofs.Machine.Rejecting
import CoopScript.Proofs.Heap.Claiming
import CoopScript.Proofs.Number.Order
import CoopScript.Proofs.Trees.Ordering
import CoopScript.Proofs.Trees.Elementwise
import CoopScript.Proofs.Actions.Inline
import CoopScript.Proofs.Trees.Stepping
import CoopScript.Proofs.Machine.Spelling
import CoopScript.Proofs.Machine.Inline
import CoopScript.Proofs.Types.Canonical
import CoopScript.Proofs.Heap.Growing
import CoopScript.Proofs.Machine.Rounds
import CoopScript.Proofs.Machine.Iterating
import CoopScript.Proofs.Heap.Copies
import CoopScript.Proofs.Trees.Rendering
import CoopScript.Proofs.Machine.Tagging
