import SemanticSql.Proofs.TopicGraph

/-! Joins that fan out. Keys of one name join two views in both directions, and an explicit join is added with its
inverse; a join that fans out comes into the graph only if the view that it leaves allows it or declares it. -/
namespace SemanticSql.JoinGraph

open List

variable {views : List View} {u v : View} {i ia ib : Identifier} {j : Join}

end SemanticSql.JoinGraph
