import SemanticSql.Expansion.Aggregate
import SemanticSql.Expansion.Leaves
import SemanticSql.Proofs.ViewOrder

/-! The SQL of fields under another order of the views. References are followed in the same way, with the same
fuel, and every expansion reads the fields that its references mean. -/
namespace SemanticSql

def Expand.Alike (sub other : Expand) : Prop := ∀ u, Compile.Alike (sub u) (other u)

namespace Session

def listing (s : Session) (views : List View) : Session := { s with project := s.project.listing views }

variable {s : Session} {views : List View} (h : Reorders s.project.views views)
include h

theorem fuelSame : (s.listing views).fuel = s.fuel :=
  congrArg (· + 1) (Project.fieldCountSame h)

theorem viewSame : (s.listing views).project.view = s.project.view := funext (Project.viewReordered h)

theorem referenceSame (view : View) (owner token : String) :
    (s.listing views).reference view owner token = s.reference view owner token := by
  simp only [reference,reference?,listing,Project.foundSame h]

theorem templateReferencesSame (u : FieldUse) (template : String) :
    (s.listing views).templateReferences u template = s.templateReferences u template := by
  have same : (s.listing views).reference u.view u.id = s.reference u.view u.id := funext (referenceSame h u.view u.id)
  rw [templateReferences,same]
  rfl

theorem keptValueReordered (u : FieldUse) : Alike (s.keptValue u) ((s.listing views).keptValue u) := by
  rw [keptValue,keptValue]
  cases u.field.nonAdditive with
  | none => exact .refl _
  | some definition =>
    refine .bind (Project.fieldFromReordered h u.view definition.name) fun dimension => bothBranches (.refl _) ?_
    exact .lead (Alike.along.mapM (Project.fieldFromReordered h u.view) _)

theorem referencedFieldsReordered (u : FieldUse) :
    Alike (s.referencedFields u) ((s.listing views).referencedFields u) := by
  have templates : (s.listing views).templateReferences u = s.templateReferences u :=
    funext (templateReferencesSame h u)
  rw [referencedFields,referencedFields,templates]
  refine .bind (.refl _) fun inSql => ?_
  have filtered (filter : FieldFilter) := Project.fieldFromReordered h u.view filter.field
  refine .bind (Alike.along.mapM filtered u.field.filters) fun inFilters => ?_
  refine .bind (Alike.along.mapM (Project.fieldFromReordered h u.view) _) fun totalled => ?_
  exact .lead (keptValueReordered h u)

omit h in
theorem unionOfViewsAlike {find other : FieldUse → Except Error NameSet} (each : ∀ u, Alike (find u) (other u))
    (start : NameSet) (uses : List FieldUse) : Alike (unionOfViews find start uses) (unionOfViews other start uses) :=
  Alike.along.foldlM (fun _ u => .lead (each u)) uses start

theorem requiredViewsFromReordered (n : Nat) (stack : List String) (u : FieldUse) :
    Alike (s.requiredViewsFrom n stack u) ((s.listing views).requiredViewsFrom n stack u) := by
  induction n generalizing stack u with
  | zero => exact .refl _
  | succ n ih =>
    rw [requiredViewsFrom,requiredViewsFrom]
    refine bothBranches (.refl _) (bothBranches (.refl _) ?_)
    exact .bind (referencedFieldsReordered h u) fun _ => unionOfViewsAlike (ih (u.id :: stack)) _ _

theorem requiredViewsReordered (u : FieldUse) : Alike (s.requiredViews u) ((s.listing views).requiredViews u) := by
  rw [requiredViews,requiredViews,fuelSame h]
  exact requiredViewsFromReordered h _ _ u

theorem windowViewsReordered (u : FieldUse) : Alike (s.windowViews u) ((s.listing views).windowViews u) :=
  .bind (referencedFieldsReordered h u) fun _ =>
    unionOfViewsAlike (fun r => bothBranches (.refl _) (requiredViewsReordered h r)) _ _

theorem measureLeavesFromReordered (n : Nat) (stack : List String) (u : FieldUse) :
    Alike (s.measureLeavesFrom n stack u) ((s.listing views).measureLeavesFrom n stack u) := by
  induction n generalizing stack u with
  | zero => exact .refl _
  | succ n ih =>
    rw [measureLeavesFrom,measureLeavesFrom]
    refine bothBranches (.refl _) (bothBranches (.refl _) ?_)
    refine .bind (referencedFieldsReordered h u) fun references => ?_
    exact Alike.along.foldlM (fun _ r => .lead (ih (u.id :: stack) r)) references []

theorem measureLeavesReordered (u : FieldUse) : Alike (s.measureLeaves u) ((s.listing views).measureLeaves u) := by
  rw [measureLeaves,measureLeaves,fuelSame h]
  exact measureLeavesFromReordered h _ _ u

theorem expandWithReordered {sub other : Expand} (subs : sub.Alike other) (view : View) (owner template : String) :
    Compile.Alike (s.expandWith sub view owner template) ((s.listing views).expandWith other view owner template) := by
  refine .bind (.refl _) fun rendered => .lead (Compile.Alike.along.mapM (fun part => ?_) _)
  cases part with
  | text t => exact .refl _
  | name token =>
    dsimp only
    rw [referenceSame h]
    exact bothBranches (.refl _) (.bind (.refl _) subs)

section Rows
variable {sub other : Expand} (subs : sub.Alike other)
include subs

theorem durationSqlReordered (u : FieldUse) :
    Compile.Alike (s.durationSql sub u) ((s.listing views).durationSql other u) := by
  rw [durationSql,durationSql]
  cases u.grain with
  | none => exact .refl _
  | some grain =>
    cases grain with
    | time frame => exact .refl _
    | duration interval =>
      cases u.field.sqlStart with
      | none => exact .refl _
      | some start =>
        cases u.field.sqlEnd with
        | none => exact .refl _
        | some finish =>
          refine .bind (expandWithReordered h subs u.view u.id start) fun _ => ?_
          exact .lead (expandWithReordered h subs u.view u.id finish)

theorem caseSqlReordered (u : FieldUse) (table : CaseTable) :
    Compile.Alike (s.caseSql sub u table) ((s.listing views).caseSql other u table) := by
  refine .lead (Compile.Alike.along.mapM (fun branch => ?_) _)
  exact .lead (expandWithReordered h subs u.view u.id branch.sql)

theorem dimensionSqlReordered (u : FieldUse) :
    Compile.Alike (s.dimensionSql sub u) ((s.listing views).dimensionSql other u) := by
  have template := expandWithReordered h subs u.view u.id u.template
  rw [dimensionSql,dimensionSql]
  generalize u.field.role = role, u.field.type = type
  cases role with
  | group =>
    cases type with
    | duration => exact durationSqlReordered h subs u
    | _ => exact .bind template fun _ => .refl _
  | _ =>
    refine bothBranches (.refl _) ?_
    cases u.field.cases with
    | some table => exact caseSqlReordered h subs u table
    | none => exact .bind template fun _ => .refl _

theorem measuredSqlReordered (u : FieldUse) :
    Compile.Alike (s.measuredSql sub u) ((s.listing views).measuredSql other u) := by
  rw [measuredSql,measuredSql]
  generalize u.field.type = type
  cases u.field.sql with
  | some sql =>
    have expanded := expandWithReordered h subs u.view u.id sql
    cases type with
    | cumulative => exact .refl _
    | number => exact .refl _
    | _ => exact expanded
  | none =>
    cases type with
    | count =>
      cases u.view.primaryKey? with
      | some key => exact subs _
      | none => exact .refl _
    | _ => exact .refl _

omit h in
theorem keptConditionsAlike (k : KeptValue) : Compile.Alike (keptConditions sub k) (keptConditions other k) := by
  refine .bind (subs k.dimension) fun first => ?_
  exact .lead (Compile.Alike.along.mapM (fun g => .lead (subs g)) _)

theorem measureConditionsReordered (u : FieldUse) :
    Compile.Alike (s.measureConditions sub u) ((s.listing views).measureConditions other u) := by
  have counted (filter : FieldFilter) := Compile.Alike.bind
    (.lift (Project.fieldFromReordered h u.view filter.field)) fun target =>
      .bind (subs target) fun sql => .refl (s.context.literalSql target sql filter.value)
  have rest (kept : List String) := Compile.Alike.bind (Compile.Alike.along.mapM counted u.field.filters)
    fun filters => .refl (pure (kept ++ filters))
  refine .bind (.lift (keptValueReordered h u)) fun kept => ?_
  cases kept with
  | none => exact .bind (.refl _) rest
  | some k => exact .bind (keptConditionsAlike subs k) rest

theorem measureSqlReordered (u : FieldUse) :
    Compile.Alike (s.measureSql sub u) ((s.listing views).measureSql other u) :=
  .bind (measuredSqlReordered h subs u) fun _ => .lead (measureConditionsReordered h subs u)

end Rows

theorem rowSqlFromReordered (n : Nat) (stack : List String) :
    (s.rowSqlFrom n stack).Alike ((s.listing views).rowSqlFrom n stack) := by
  induction n generalizing stack with
  | zero => exact fun u => .refl _
  | succ n ih =>
    intro u
    rw [rowSqlFrom,rowSqlFrom]
    -- Alike steps leave the same memory behind, so both runs find the same SQL remembered.
    refine .bind (.refl _) fun known => ?_
    cases known with
    | some sql => exact .refl _
    | none =>
      have measure := measureSqlReordered h (ih (u.id :: stack)) u
      have dimension := dimensionSqlReordered h (ih (u.id :: stack)) u
      refine bothBranches (.refl _) ?_
      exact bothBranches (.bind measure fun _ => .refl _) (.bind dimension fun _ => .refl _)

theorem rowSqlInReordered (stack : List String) : (s.rowSqlIn stack).Alike ((s.listing views).rowSqlIn stack) := by
  rw [rowSqlIn,rowSqlIn,fuelSame h]
  exact rowSqlFromReordered h _ stack

theorem expandReordered (view : View) (owner template : String) :
    Compile.Alike (s.expand view owner template) ((s.listing views).expand view owner template) :=
  expandWithReordered h (rowSqlInReordered h []) view owner template

theorem windowFunctionSqlReordered (u : FieldUse) :
    Compile.Alike (s.windowFunctionSql u) ((s.listing views).windowFunctionSql u) :=
  expandWithReordered h (rowSqlInReordered h [u.id]) u.view u.id u.template

section Aggregates
variable {row other : Expand} (rows : row.Alike other)
include rows

omit h in
theorem symmetricKeyReordered (u : FieldUse) :
    Compile.Alike (s.symmetricKey row u) ((s.listing views).symmetricKey other u) := by
  rw [symmetricKey,symmetricKey]
  refine bothBranches ?_ (.refl _)
  cases u.view.primaryKey? with
  | some key => exact .lead (rows _)
  | none => exact .refl _

omit h in
theorem additiveSqlReordered (symmetric : NameSet) (a : Additive) (u : FieldUse) :
    Compile.Alike (s.additiveSql symmetric row a u) ((s.listing views).additiveSql symmetric other a u) :=
  .bind (rows u) fun _ => bothBranches (.lead (symmetricKeyReordered rows u)) (.refl _)

theorem distinctSqlReordered (term : Symmetric.GroupTerm) (u : FieldUse) :
    Compile.Alike (s.distinctSql row term u) ((s.listing views).distinctSql other term u) := by
  rw [distinctSql,distinctSql]
  cases u.field.distinctKey with
  | none => exact .refl _
  | some key => exact .bind (expandWithReordered h rows u.view u.id key) fun _ => .lead (rows u)

theorem columnAggregateReordered (symmetric : NameSet) (u : FieldUse) :
    Compile.Alike (s.columnAggregate symmetric row u) ((s.listing views).columnAggregate symmetric other u) := by
  rw [columnAggregate,columnAggregate]
  cases u.field.type with
  | sum => exact additiveSqlReordered rows symmetric .sum u
  | count => exact additiveSqlReordered rows symmetric .count u
  | average => exact additiveSqlReordered rows symmetric .average u
  | sumDistinct => exact distinctSqlReordered h rows Symmetric.sum u
  | averageDistinct => exact distinctSqlReordered h rows Symmetric.average u
  | countDistinct => exact .lead (rows u)
  | max => exact .lead (rows u)
  | min => exact .lead (rows u)
  | median => exact bothBranches (.lead (rows u)) (.refl _)
  | _ => exact .refl _

end Aggregates

theorem aggregateSqlFromReordered (symmetric : NameSet) (n : Nat) (stack : List String) :
    (s.aggregateSqlFrom symmetric n stack).Alike ((s.listing views).aggregateSqlFrom symmetric n stack) := by
  induction n generalizing stack with
  | zero => exact fun u => .refl _
  | succ n ih =>
    intro u
    rw [aggregateSqlFrom,aggregateSqlFrom]
    refine bothBranches ?_ (columnAggregateReordered h (rowSqlInReordered h stack) symmetric u)
    cases u.field.sql with
    | none => exact .refl _
    | some sql =>
      -- Measures in a formula are one step nearer to the end of the fuel; dimensions have fuel of their own.
      refine bothBranches (.refl _) (expandWithReordered h (fun r => ?_) u.view u.id sql)
      exact bothBranches (.lead (ih (u.id :: stack) r)) (rowSqlInReordered h (u.id :: stack) r)

theorem groupedSqlReordered (symmetric : NameSet) :
    Expand.Alike (s.groupedSql symmetric) ((s.listing views).groupedSql symmetric) := by
  intro u
  rw [groupedSql,groupedSql,fuelSame h]
  exact bothBranches (aggregateSqlFromReordered h symmetric _ [] u) (rowSqlInReordered h [] u)

theorem formulaOverReordered {column other : FieldUse → Except Error String} (columns : ∀ u, Alike (column u) (other u))
    (u : FieldUse) : Alike (s.formulaOver column u) ((s.listing views).formulaOver other u) := by
  rw [formulaOver,formulaOver]
  cases u.field.sql with
  | none => exact .refl _
  | some sql =>
    refine .bind (.refl _) fun rendered => .lead (Alike.along.mapM (fun part => ?_) _)
    cases part with
    | text t => exact .refl _
    | name token =>
      dsimp only
      rw [referenceSame h]
      exact .bind (.refl _) columns

theorem readFromReordered (held : FieldUse → Option String) (missing : FieldUse → Error) (n : Nat) (u : FieldUse) :
    Alike (s.readFrom held missing n u) ((s.listing views).readFrom held missing n u) := by
  induction n generalizing u with
  | zero => exact .refl _
  | succ n ih =>
    rw [readFrom,readFrom]
    cases held u with
    | some column => exact .refl _
    | none => exact bothBranches (.lead (formulaOverReordered h ih u)) (.refl _)

end Session
end SemanticSql
