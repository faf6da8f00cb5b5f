import SemanticSql.Proofs.ReorderedQueries
import SemanticSql.Scope.Mapping
import SemanticSql.Scope.Planning

/-! The plans of requests under another order of the views. A failed look-up is only asked whether nothing has the
name, never which fields an ambiguous name may mean. -/
namespace SemanticSql

namespace Filter
variable {p : Project} {views : List View} (h : Reorders p.views views)
include h

theorem bindTokenReordered (token : List Char) : Alike (bindToken p token) (bindToken (p.listing views) token) := by
  refine bothBranches ((Project.fieldReordered h _).map _) (bothBranches (.refl _) ?_)
  have found := Project.fieldReordered h (String.ofList token)
  generalize p.field (String.ofList token) = a, (p.listing views).field (String.ofList token) = b at found ⊢
  cases found with
  | ok u => exact .refl _
  | error alike =>
    dsimp only
    rw [alike.access]
    exact bothBranches (.refl _) (.error alike)

theorem bindRunReordered (run : Run) : Alike (bindRun p run) (bindRun (p.listing views) run) := by
  cases run with
  | quoted cs => exact .refl _
  | plain cs =>
    refine Alike.along.mapM (fun chunk => ?_) _
    cases chunk with
    | plain cs => exact .refl _
    | token cs => exact bindTokenReordered h cs

theorem bindLiteralReordered (text : String) : Alike (bindLiteral p text) (bindLiteral (p.listing views) text) :=
  .lead (Alike.along.mapM (bindRunReordered h) _)

theorem ofAlwaysReordered (owner : View) (f : FieldFilter) :
    Alike (ofAlways p owner f) (ofAlways (p.listing views) owner f) :=
  .lead (Project.fieldFromReordered h owner f.field)

theorem ofAccessReordered (attributes : Dict String) (owner : View) (filters : List AccessFilter) :
    Alike (ofAccess p attributes owner filters) (ofAccess (p.listing views) attributes owner filters) := by
  refine Alike.along.mapM (fun found => ?_) _
  obtain ⟨field,text⟩ := found
  exact .lead (Project.fieldFromReordered h owner field)

end Filter

def Subquery.Alike (subquery other : Subquery) : Prop := ∀ value, Binding.Alike (subquery value) (other value)

namespace Filter
variable {p : Project} {views : List View} {subquery other : Subquery}

theorem bindConditionReordered (h : Reorders p.views views) (queries : subquery.Alike other)
    (field expression : String) (value : Option Value) :
    Binding.Alike (bindCondition p subquery field expression value)
      (bindCondition (p.listing views) other field expression value) := by
  refine .bind (.refl _) fun predicate => .bind (.except (Project.fieldReordered h field)) fun u => ?_
  refine bothBranches (.refl _) ?_
  cases predicate with
  | inQuery negated => exact .lead (queries _)
  | _ => exact .refl _

mutual

theorem bindSpecReordered (h : Reorders p.views views) (queries : subquery.Alike other) (f : FilterSpec) :
    Binding.Alike (bindSpec p subquery f) (bindSpec (p.listing views) other f) := by
  cases f with
  | group conditions connective =>
    rw [bindSpec,bindSpec]
    exact .lead (bindSpecsReordered h queries conditions)
  | condition field expression value =>
    rw [bindSpec,bindSpec]
    exact bindConditionReordered h queries field expression value

theorem bindSpecsReordered (h : Reorders p.views views) (queries : subquery.Alike other) (fs : List FilterSpec) :
    Binding.Alike (bindSpecs p subquery fs) (bindSpecs (p.listing views) other fs) := by
  cases fs with
  | nil =>
    rw [bindSpecs,bindSpecs]
    exact .refl _
  | cons f rest =>
    rw [bindSpecs,bindSpecs]
    exact .bind (bindSpecReordered h queries f) fun _ => .lead (bindSpecsReordered h queries rest)

end

theorem bindClauseReordered (h : Reorders p.views views) (queries : subquery.Alike other) (clause : Clause) :
    Binding.Alike (bindClause p subquery clause) (bindClause (p.listing views) other clause) := by
  cases clause with
  | text s =>
    rw [bindClause,bindClause]
    exact bothBranches (.refl _) (.lead (.except (bindLiteralReordered h s)))
  | list specs => exact bindSpecsReordered h queries specs
  | single spec => exact .lead (bindSpecReordered h queries spec)

end Filter

def Nested.Alike (nested other : Nested) : Prop := ∀ r, Compile.Alike (nested r) (other r)

namespace Scope

def listing (s : Scope) (views : List View) : Scope := { s with toSession := s.toSession.listing views }

variable {s : Scope} {views : List View} (h : Reorders s.project.views views)
include h

theorem viewSame : (s.listing views).project.view = s.project.view := Session.viewSame h

theorem fuelSame : (s.listing views).fuel = s.fuel := Session.fuelSame h

theorem fieldReordered (name : String) : Alike (s.field name) ((s.listing views).field name) :=
  .lead (Project.fieldReordered h name)

theorem fieldsReordered (names : List String) : Alike (s.fields names) ((s.listing views).fields names) :=
  Alike.along.mapM (fieldReordered h) names

theorem foundSame (names : List String) : (s.listing views).found names = s.found names :=
  congrArg (fun find => names.filterMap find) (funext fun name => (Project.fieldReordered h name).toOption.symm)

theorem sortFieldReordered (e : OrderEntry) : Alike (s.sortField e) ((s.listing views).sortField e) :=
  .lead (fieldReordered h e.field)

theorem orderReordered (r : Request) : Alike (s.order r) ((s.listing views).order r) := by
  rw [order,order]
  cases r.orderBy with
  | none => exact .refl _
  | some orderBy => exact .bind (.refl _) fun _ => Alike.along.mapM (sortFieldReordered h) _

section Names

theorem metricDatesReordered (r : Request) : Alike (s.metricDates r) ((s.listing views).metricDates r) := by
  rw [metricDates,metricDates,foundSame h]
  exact Alike.along.foldlM (fun _ metric => .lead (Project.canonDateReordered h metric)) _ []

theorem isUnknownSame (name : String) : (s.listing views).isUnknown name = s.isUnknown name := by
  have listed : (s.listing views).project = s.project.listing views := rfl
  have found := Project.fieldReordered h name
  unfold isUnknown
  rw [listed]
  generalize s.project.field name = a, (s.project.listing views).field name = b at found ⊢
  cases found with
  | ok u => rfl
  -- An ambiguous name is known, whatever the order in which its meanings are listed.
  | error alike => exact alike.access.symm

theorem addNameReordered (r : Request) (anchors : List FieldUse) (names : Names) (name : String) :
    Alike (s.addName r anchors names name) ((s.listing views).addName r anchors names name) := by
  rw [addName,addName]
  dsimp only
  rw [isUnknownSame h]
  refine bothBranches (.refl _) ?_
  generalize Text.lower (Text.trim name) = key
  cases period? key with
  | some period => exact .lead (.lead (metricDatesReordered h r))
  | none =>
    have known : (s.listing views).project.mapping? (s.listing views).model key = s.project.mapping? s.model key := rfl
    dsimp only
    rw [known]
    cases s.project.mapping? s.model key with
    | some mapping => exact .lead (.lead (Alike.along.mapM (Project.fieldReordered h) _))
    | none => exact .refl _

theorem namesReordered (r : Request) : Alike (s.names r) ((s.listing views).names r) := by
  rw [names,names,foundSame h]
  exact Alike.along.foldlM (addNameReordered h r _) _ _

theorem resolveNamesReordered (r : Request) : Alike (s.resolveNames r) ((s.listing views).resolveNames r) :=
  .lead (namesReordered h r)

end Names

theorem bindAlwaysReordered (owner : View) (filters : List FieldFilter) :
    Alike (s.bindAlways owner filters) ((s.listing views).bindAlways owner filters) :=
  Alike.along.mapM (fun f => .lead (Filter.ofAlwaysReordered h owner f)) filters

theorem fromTopicReordered {α : Type} {add more : Topic → View → Except Error (List α)}
    (adds : ∀ t v, Alike (add t v) (more t v)) : Alike (s.fromTopic add) ((s.listing views).fromTopic more) := by
  have topic : (s.listing views).topic = s.topic := rfl
  rw [fromTopic,fromTopic,viewSame h,topic]
  cases s.topic with
  | none => exact .refl _
  | some t => exact .bind (.refl _) (adds t)

theorem alwaysFiltersReordered (names : NameSet) :
    Alike (s.alwaysFilters names) ((s.listing views).alwaysFilters names) := by
  rw [alwaysFilters,alwaysFilters,viewSame h]
  refine .bind (.refl _) fun owners => ?_
  refine .bind (Alike.along.mapM (fun v => bindAlwaysReordered h v v.alwaysFilters) owners) fun ofViews => ?_
  exact .lead (fromTopicReordered h fun t base => bindAlwaysReordered h base t.alwaysFilters)

theorem accessFiltersReordered (names : NameSet) :
    Alike (s.accessFilters names) ((s.listing views).accessFilters names) := by
  rw [accessFilters,accessFilters,viewSame h]
  refine .bind (Alike.along.mapM (fun name => .bind (.refl _) fun view => ?_) _) fun ofViews => ?_
  · exact Filter.ofAccessReordered h _ view view.accessFilters
  · exact .lead (fromTopicReordered h fun t base => Filter.ofAccessReordered h _ base t.accessFilters)

section Planning

variable {nested other : Nested} (requests : nested.Alike other)
include requests

theorem subqueryReordered : (s.subquery nested).Alike ((s.listing views).subquery other) := by
  intro value
  refine .bind (.refl _) fun read => .bind (.except (fieldReordered h read.2)) fun u => ?_
  rw [subqueryColumn,subqueryColumn,foundSame h]
  exact .bind (.refl _) fun _ => .lead (.lift (requests read.1))

theorem bindReordered (clause : Clause) : Binding.Alike (s.bind nested clause) ((s.listing views).bind other clause) :=
  .lead (Filter.bindClauseReordered h (subqueryReordered h requests) clause)

theorem bindAllReordered (clauses : List Clause) :
    Binding.Alike (s.bindAll nested clauses) ((s.listing views).bindAll other clauses) := by
  induction clauses with
  | nil => exact .refl _
  | cons clause rest ih => exact .bind (bindReordered h requests clause) fun _ => .bind ih fun _ => .refl _

theorem planReordered (r : Request) : Compile.Alike (s.plan nested r) ((s.listing views).plan other r) := by
  refine .bind (.lift (fieldsReordered h r.metrics)) fun metrics => ?_
  refine .bind (.lift (fieldsReordered h r.dimensions)) fun dimensions => .bind (.refl _) fun _ => ?_
  refine .bind (bindAllReordered h requests _ []) fun bound => ?_
  refine .bind (.lift (Session.viewsOfReordered h _ _)) fun names => ?_
  refine .bind (.lift (alwaysFiltersReordered h names)) fun always => ?_
  refine .bind (.lift (accessFiltersReordered h names)) fun access => ?_
  exact .lead (.lift (orderReordered h r))

end Planning

end Scope
end SemanticSql
