import LiveConstraints.Config.Toml
import LiveConstraints.Config.Yaml
import LiveConstraints.Console.Notice
import LiveConstraints.Engine.Answering
import LiveConstraints.LinearForm
import LiveConstraints.Measurement
import LiveConstraints.Proofs.Coherence.Answering
import LiveConstraints.Proofs.Convergence
import LiveConstraints.Proofs.Deferral
import LiveConstraints.Proofs.Grounding
import LiveConstraints.Proofs.Quiescence.Answering
import LiveConstraints.Proofs.Refusal
import LiveConstraints.Proofs.Weights
import LiveConstraints.Proofs.Editing.Assigning
import LiveConstraints.Proofs.Interruption
import LiveConstraints.Proofs.Reselecting.Bonds
import LiveConstraints.Proofs.Reselecting.Flags
import LiveConstraints.Proofs.Reselecting.Identity
import LiveConstraints.Proofs.Algorithms.Planning
import LiveConstraints.Proofs.Algorithms.Searching
import LiveConstraints.Proofs.Algorithms.Settling
import LiveConstraints.Proofs.Ranking
import LiveConstraints.Proofs.Algorithms.Failing
import LiveConstraints.Proofs.Algorithms.Keeping
import LiveConstraints.Proofs.Algorithms.Coefficients
import LiveConstraints.Proofs.Meaning.Granting
import LiveConstraints.Proofs.Meaning.Operands
import LiveConstraints.Proofs.Meaning.Folding
import LiveConstraints.Proofs.Meaning.Occurrences
import LiveConstraints.Proofs.Unconstraining
import LiveConstraints.Proofs.Hooks
import LiveConstraints.Proofs.Incidence.Bumping
import LiveConstraints.Proofs.Incidence.Moments
