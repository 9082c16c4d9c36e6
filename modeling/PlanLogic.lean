import PlanLogic.Bindings
import PlanLogic.Evaluation.Basic
import PlanLogic.Consequents
import PlanLogic.Json
import PlanLogic.Proofs.Equivalence
import PlanLogic.Proofs.FirstOrder
import PlanLogic.Proofs.Rearrangement
import PlanLogic.Proofs.Defects
import PlanLogic.Proofs.Certificate
import PlanLogic.Proofs.Explanation
import PlanLogic.Proofs.Conclusions
import PlanLogic.Proofs.FirstDefect
import PlanLogic.Proofs.Conditionals
import PlanLogic.Proofs.Polarity
import PlanLogic.Proofs.Composition
import PlanLogic.Proofs.Grounding
import PlanLogic.Proofs.Capture
import PlanLogic.Proofs.Forgetting
import PlanLogic.Proofs.Containers
import PlanLogic.Proofs.Renaming
import PlanLogic.Proofs.Brackets
import PlanLogic.Proofs.Footprint
import PlanLogic.Proofs.Instances
import PlanLogic.Proofs.Coverage
import PlanLogic.Proofs.Universe
import PlanLogic.Proofs.Declarations
import PlanLogic.Proofs.Legibility
import PlanLogic.Proofs.RoundTrip
import PlanLogic.Proofs.Choices
import PlanLogic.Proofs.Mentions
import PlanLogic.Proofs.Cost
import PlanLogic.Proofs.Orders
import PlanLogic.Proofs.Termination
