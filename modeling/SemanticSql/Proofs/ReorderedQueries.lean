import SemanticSql.Plan.Query
import SemanticSql.Proofs.ReorderedExpansion

/-! The queries of plans under another order of the views: the same views are joined over the same graph, and the
columns, conditions and tables of a select are expanded field by field. -/
namespace SemanticSql

open Session

namespace Filter
variable {column other : Expand}

theorem literalSqlAlike (columns : column.Alike other) (parts : List LiteralPart) :
    Compile.Alike (literalSql column parts) (literalSql other parts) := by
  refine .lead (Compile.Alike.along.mapM (fun part => ?_) parts)
  cases part with
  | text t => exact .refl _
  | field token u => exact columns u

mutual

theorem sqlAlike (columns : column.Alike other) (c : Context) (f : Filter) :
    Compile.Alike (f.sql c column) (f.sql c other) := by
  cases f with
  | condition u predicate value =>
    rw [sql,sql]
    exact .lead (columns u)
  | group conditions connective =>
    rw [sql,sql]
    exact .lead (sqlOfAlike columns c conditions)
  | literal parts =>
    rw [sql,sql]
    exact literalSqlAlike columns parts
  | inQuery u negated table name =>
    rw [sql,sql]
    exact .lead (columns u)

theorem sqlOfAlike (columns : column.Alike other) (c : Context) (fs : List Filter) :
    Compile.Alike (sqlOf c column fs) (sqlOf c other fs) := by
  cases fs with
  | nil =>
    rw [sqlOf,sqlOf]
    exact .refl _
  | cons f rest =>
    rw [sqlOf,sqlOf]
    exact .bind (sqlAlike columns c f) fun _ => .lead (sqlOfAlike columns c rest)

end
end Filter

section Plans
variable {s : Session} {views : List View} (h : Reorders s.project.views views)
include h

theorem JoinPlan.buildSame : JoinPlan.build (s.listing views).project = JoinPlan.build s.project := by
  funext required preferred topic
  unfold build
  rw [viewSame h]
  rfl

theorem Session.viewsOfReordered (start : NameSet) (uses : List FieldUse) :
    Alike (s.viewsOf start uses) ((s.listing views).viewsOf start uses) :=
  unionOfViewsAlike (requiredViewsReordered h) start uses

theorem Plan.joinPlanReordered (topic : Option Topic) (p : Plan) :
    Alike (p.joinPlan s topic) (p.joinPlan (s.listing views) topic) := by
  refine .bind (viewsOfReordered h [] p.fields) fun required => bothBranches (.refl _) ?_
  rw [JoinPlan.buildSame h]
  exact .refl _

namespace Session

theorem windowDimensionsFromReordered (n : Nat) (u : FieldUse) :
    Alike (s.windowDimensionsFrom n u) ((s.listing views).windowDimensionsFrom n u) := by
  induction n generalizing u with
  | zero => exact .refl _
  | succ n ih =>
    rw [windowDimensionsFrom,windowDimensionsFrom]
    refine bothBranches (.refl _) (.bind (referencedFieldsReordered h u) fun references => ?_)
    exact .lead (Alike.along.mapM ih _)

theorem windowDimensionsReordered (uses : List FieldUse) :
    Alike (s.windowDimensions uses) ((s.listing views).windowDimensions uses) := by
  rw [windowDimensions,windowDimensions,fuelSame h]
  exact .lead (Alike.along.mapM (windowDimensionsFromReordered h s.fuel) uses)

theorem joinSqlReordered (windowed : List String) (j : Join) :
    Compile.Alike (s.joinSql windowed j) ((s.listing views).joinSql windowed j) := by
  rw [joinSql,joinSql,viewSame h]
  refine .bind (.refl _) fun target => .bind (.refl _) fun table => bothBranches (.refl _) ?_
  exact .bind (.refl _) fun base => .lead (expandReordered h base _ j.condition)

theorem windowTableReordered (uses : List FieldUse) :
    Compile.Alike (s.windowTable uses) ((s.listing views).windowTable uses) := by
  cases uses with
  | nil => exact .refl _
  | cons first rest =>
    have columns (u : FieldUse) := Compile.Alike.bind (.lift (windowViewsReordered h u)) fun found =>
      .bind (windowFunctionSqlReordered h u) fun sql => .refl (pure (found, SelectItem.column sql u.windowColumn))
    refine .bind (Compile.Alike.along.mapM columns (first :: rest)) fun found => .bind (.refl _) fun source => ?_
    rw [JoinPlan.buildSame h]
    refine bothBranches (.bind (.refl _) fun plan => bothBranches (.refl _) ?_) (.refl _)
    exact .lead (Compile.Alike.along.mapM (joinSqlReordered h []) plan.joins)

end Session

end Plans

namespace Layout

def listing (l : Layout) (views : List View) : Layout := { l with toSession := l.toSession.listing views }

variable {l : Layout} {views : List View} (h : Reorders l.project.views views)
include h

theorem columnReordered : Expand.Alike l.column (l.listing views).column :=
  groupedSqlReordered h l.joins.symmetric

theorem conditionsSqlReordered : Compile.Alike l.conditionsSql (l.listing views).conditionsSql :=
  Filter.sqlOfAlike (columnReordered h) l.context l.plan.conditions

theorem keptValuesReordered : Alike l.keptValues (l.listing views).keptValues := by
  refine .lead (Alike.along.foldlM (fun known u => ?_) _ _)
  exact .bind (measureLeavesReordered h u) fun _ =>
    Alike.along.foldlM (fun _ m => .lead (keptValueReordered h m)) _ known

theorem rowSqlReordered : Expand.Alike l.toSession.rowSql (l.listing views).toSession.rowSql :=
  rowSqlInReordered h []

theorem keptTableReordered (k : KeptValue) (source : String) (joins : List TableJoin) :
    Compile.Alike (l.keptTable k source joins) ((l.listing views).keptTable k source joins) := by
  refine .bind (Compile.Alike.along.mapM (fun u => .lead (rowSqlReordered h u)) _) fun grouped => ?_
  exact .bind (rowSqlReordered h k.dimension) fun _ => .lead (conditionsSqlReordered h)

theorem rowColumnReordered (u : FieldUse) : Compile.Alike (l.rowColumn u) ((l.listing views).rowColumn u) :=
  .lead (rowSqlReordered h u)

variable (columns : List Column)

theorem addRowColumnsReordered (uses : List FieldUse) :
    Compile.Alike (l.addRowColumns columns uses) ((l.listing views).addRowColumns columns uses) :=
  Compile.Alike.along.foldlM
    (fun _ u => bothBranches (.refl _) (.lead (rowColumnReordered h u))) uses columns

theorem columnsReordered (hidden : List FieldUse) :
    Compile.Alike (l.columns hidden) ((l.listing views).columns hidden) := by
  refine .bind (Compile.Alike.along.mapM (rowColumnReordered h) _) fun dimensions => bothBranches ?_ ?_
  · refine Compile.Alike.along.foldlM (fun columns u => ?_) _ _
    exact .bind (.lift (measureLeavesReordered h u)) (addRowColumnsReordered h columns)
  · exact .lead (Compile.Alike.along.mapM (fun u => .lead (columnReordered h u)) _)

theorem sortKeyReordered (wrapped : Bool) (o : SortField) :
    Compile.Alike (l.sortKey columns wrapped o) ((l.listing views).sortKey columns wrapped o) :=
  bothBranches (.refl _) (bothBranches (.refl _) (.lead (columnReordered h o.u)))

theorem sortKeysReordered (wrapped : Bool) :
    Compile.Alike (l.sortKeys columns wrapped) ((l.listing views).sortKeys columns wrapped) :=
  bothBranches (.refl _)
    (bothBranches (.refl _) (Compile.Alike.along.mapM (sortKeyReordered h columns wrapped) _))

theorem sourcesReordered : Compile.Alike l.sources (l.listing views).sources := by
  refine .bind (.lift (windowDimensionsReordered h l.plan.fields)) fun windowed => ?_
  refine .bind (Compile.Alike.along.mapM (fun entry => ?_) windowed) fun windowTables => ?_
  · exact .lead (windowTableReordered h entry.2)
  refine .bind (.refl _) fun source => ?_
  refine .bind (Compile.Alike.along.mapM (joinSqlReordered h windowed.keys) l.joins.joins) fun joins => ?_
  refine .bind (.lift (keptValuesReordered h)) fun kept => ?_
  refine .lead (Compile.Alike.along.mapM (fun k => ?_) kept)
  exact .bind (keptTableReordered h k source joins) fun _ => .bind
    (.lead (Compile.Alike.along.mapM (fun u => .lead (rowSqlReordered h u)) _)) fun _ =>
      .refl _

theorem queryReordered : Compile.Alike l.query (l.listing views).query := by
  refine .bind (.refl _) fun _ => .bind (.refl _) fun split => .bind (sourcesReordered h) fun sources => ?_
  refine .bind (columnsReordered h _) fun columns => .bind (conditionsSqlReordered h) fun conditions => ?_
  refine .bind (bothBranches (.refl _)
    (Compile.Alike.along.mapM (fun u => bothBranches (.refl _) (rowSqlReordered h u)) _)) fun groups => ?_
  refine .bind (Filter.sqlOfAlike (columnReordered h) l.context split.kept) fun having => bothBranches ?_ ?_
  · exact .lead (sortKeysReordered h columns false)
  · exact .bind (.refl _) fun _ => .lead (sortKeysReordered h columns true)

end Layout

theorem Plan.queryReordered {s : Session} {views : List View} (h : Reorders s.project.views views)
    (topic : Option Topic) (p : Plan) : Compile.Alike (p.query s topic) (p.query (s.listing views) topic) :=
  .bind (.lift (Plan.joinPlanReordered h topic p)) fun joins => Layout.queryReordered (l := ⟨s,p,joins⟩) h

end SemanticSql
