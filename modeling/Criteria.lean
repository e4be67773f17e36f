import Criteria.Config
import Criteria.Expr.Evaluation
import Criteria.Predicate.Builder
import Criteria.Proofs.AbsentValues
import Criteria.Proofs.Arguments
import Criteria.Proofs.Binding
import Criteria.Proofs.Blocks
import Criteria.Proofs.BoundNames
import Criteria.Proofs.Building
import Criteria.Proofs.Chaining
import Criteria.Proofs.Comparisons
import Criteria.Proofs.Complement
import Criteria.Proofs.ComposedQueries
import Criteria.Proofs.Conditions
import Criteria.Proofs.ConfiguredLimits
import Criteria.Proofs.CountedGroups
import Criteria.Proofs.Ends
import Criteria.Proofs.EvaluationFaults
import Criteria.Proofs.Fetching
import Criteria.Proofs.Invocation
import Criteria.Proofs.KeySelection
import Criteria.Proofs.Limiting
import Criteria.Proofs.LoggerCalls
import Criteria.Proofs.Logging
import Criteria.Proofs.NameClashes
import Criteria.Proofs.NamedOrder
import Criteria.Proofs.Positions
import Criteria.Proofs.RemoteReduction
import Criteria.Proofs.RemoteSelection
import Criteria.Proofs.Rendering
import Criteria.Proofs.Requests
import Criteria.Proofs.Settings
import Criteria.Proofs.Specifying
import Criteria.Proofs.Substitution
import Criteria.Proofs.TextFunctions
import Criteria.Proofs.Tiling
import Criteria.Proofs.ValueKeys
import Criteria.Proofs.ValueOrder
import Criteria.Proofs.WordArithmetic
import Criteria.Proofs.WrittenConfig
import Criteria.Query.Reader
import Criteria.Remote.Table
import Criteria.Specification
import Criteria.Value.Parser
import Criteria.Proofs.Reducing
import Criteria.Proofs.FirstFault
import Criteria.Proofs.Concatenation
import Criteria.Proofs.Insertion
import Criteria.Proofs.WordSums
