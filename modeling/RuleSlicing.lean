import RuleSlicing.Main
import RuleSlicing.Proofs.Grouping
import RuleSlicing.Proofs.Breakpoints
import RuleSlicing.Proofs.StandIns
import RuleSlicing.Proofs.Axis
import RuleSlicing.Proofs.Buildability
import RuleSlicing.Proofs.Consistency
import RuleSlicing.Proofs.Attempts
import RuleSlicing.Proofs.Calls
import RuleSlicing.Proofs.Isolation
import RuleSlicing.Proofs.Transparency
import RuleSlicing.Proofs.Conflicts
import RuleSlicing.Proofs.Details
import RuleSlicing.Proofs.Examples
import RuleSlicing.Proofs.Limits
import RuleSlicing.Proofs.Restriction
import RuleSlicing.Proofs.Agreement
import RuleSlicing.Proofs.LeastSolution
import RuleSlicing.Proofs.Enumeration
import RuleSlicing.Proofs.Explanations
import RuleSlicing.Proofs.MergeOrder
import RuleSlicing.Proofs.Dates
import RuleSlicing.Proofs.Descriptions
import RuleSlicing.Proofs.ReadBack
import RuleSlicing.Proofs.Tiling
import RuleSlicing.Proofs.SliceSets
import RuleSlicing.Proofs.Products
import RuleSlicing.Proofs.Gaps
import RuleSlicing.Proofs.Irreducible
import RuleSlicing.Proofs.FailureConditions
import RuleSlicing.Proofs.Filing
import RuleSlicing.Proofs.Documents
import RuleSlicing.Proofs.Selections
import RuleSlicing.Proofs.CommonParts
import RuleSlicing.Proofs.FiniteMaps
import RuleSlicing.Proofs.ConstraintTexts
import RuleSlicing.Proofs.WholeSelections
import RuleSlicing.Proofs.Selectors
import RuleSlicing.Proofs.WireForms
