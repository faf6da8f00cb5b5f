import SemanticSql.Proofs.JoinCompleteness
import SemanticSql.Proofs.MergeClasses

/-! Names of components. Components are numbered from the largest on, and among those of one size by their first view
in the alphabet. -/
namespace SemanticSql.JoinGraph

open List

section
variable {views : NameSet} {same : String → String → Bool}

end

end SemanticSql.JoinGraph
