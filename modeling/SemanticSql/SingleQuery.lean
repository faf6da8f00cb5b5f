import SemanticSql.FunnelQuery
import SemanticSql.RunningTotal

/-!
A request that is answered by one query: a funnel, a query with running totals, or one select over joined views.
-/
namespace SemanticSql.Scope

variable (s : Scope)

def singleQuery (nested : Nested) (r : Request) : Compile Query := do
  match r.funnel with
  | some funnel => s.funnelQuery nested r funnel
  | none =>
    let plan ← s.plan nested r
    let cumulative ← (plan.metrics.anyM s.toSession.isCumulative : Except Error Bool)
    if cumulative then s.totalsQuery plan
    else plan.query s.toSession s.topic

end SemanticSql.Scope
