import SemanticSql.Plan.Query
import SemanticSql.Proofs.CompileRuns

/-! The parts of a finished query: the select over the joined views, and the order of its rows. Filters on window
functions put the select into a table; without them it is the query itself. -/
namespace SemanticSql.Layout

structure Built (l : Layout) (q : Query) (split : Filter.Lifted) (columns : List Column) (select : Select)
    (order : List SortKey) : Prop where
  lifts : Filter.liftWindows l.plan.having = .ok split
  shows : ∃ before after, (l.columns (l.hiddenMetrics split.lifted)).Returns before columns after
  filters : ∃ before after, l.conditionsSql.Returns before select.conditions after
  groups : ∃ before after, (Filter.sqlOf l.context l.column split.kept).Returns before select.having after
  sorts : ∃ wrapped before after, (l.sortKeys columns wrapped).Returns before order after
  items : select.items = columns.map fun c => .column c.1 c.2
  whole : (∃ tables, q = .mk tables (.select select) order l.plan.limit) ∨
    ∃ tables outer, q = .mk (tables ++ [(windowResult, .ofSelect select)]) (.select outer) order l.plan.limit

theorem queryBuilt {l : Layout} {before q after} (ok : l.query.Returns before q after) :
    ∃ split columns select order, Built l q split columns select order := by
  simp only [query,Compile.returnsBind,Compile.returnsLift] at ok
  obtain ⟨_,_,⟨_,rfl⟩,split,_,⟨lifts,rfl⟩,sources,_,_,columns,_,shows,conditions,_,filters,_,_,_,
    having,_,groups,finish⟩ := ok
  split at finish
  · simp only [Compile.returnsBind,Compile.returnsPure] at finish
    obtain ⟨order,_,sorts,rfl,_⟩ := finish
    exact ⟨split,columns,_,order,lifts,⟨_,_,shows⟩,⟨_,_,filters⟩,⟨_,_,groups⟩,⟨_,_,_,sorts⟩,rfl,
      .inl ⟨_,rfl⟩⟩
  · simp only [Compile.returnsBind,Compile.returnsPure] at finish
    obtain ⟨_,_,_,order,_,sorts,rfl,_⟩ := finish
    exact ⟨split,columns,_,order,lifts,⟨_,_,shows⟩,⟨_,_,filters⟩,⟨_,_,groups⟩,⟨_,_,_,sorts⟩,rfl,
      .inr ⟨_,_,rfl⟩⟩

end SemanticSql.Layout
