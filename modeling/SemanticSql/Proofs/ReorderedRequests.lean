import SemanticSql.Proofs.GrantedRequests
import SemanticSql.Proofs.ReorderedAnswers

/-! Requests to projects that list their views in another order. Both answer with the same compiled query or with
the same error, but for the list of fields that an ambiguous name may mean. -/
namespace SemanticSql

namespace MergedQuery
variable {s : Scope} {views : List View} (h : Reorders s.project.views views)
include h

theorem readReordered (outer : Request) (item : Value) (index : Nat) :
    Alike (read s outer item index) (read (s.listing views) outer item index) := by
  refine .bind (.refl _) fun _ => .bind (.refl _) fun joinFields => .bind (.refl _) fun joinKind => ?_
  refine .bind (.refl _) fun r => .bind (Scope.resolveNamesReordered h r) fun resolved => ?_
  refine .bind (Scope.fieldsReordered h resolved.1.metrics) fun metrics => ?_
  exact .lead (Scope.fieldsReordered h resolved.1.dimensions)

theorem dimensionSame (dimensions : List FieldUse) (name : String) :
    dimension? (s.listing views) dimensions name = dimension? s dimensions name := by
  have listed : (s.listing views).project = s.project.listing views := rfl
  have found := Project.fieldReordered h name
  unfold dimension?
  rw [listed]
  generalize s.project.field name = a, (s.project.listing views).field name = b at found ⊢
  cases found with
  | ok u => rfl
  | error alike => rfl

theorem joinedSame (first : List FieldUse) (q : MergedQuery) (index : Nat) :
    joined (s.listing views) first q index = joined s first q index := by
  have same : joinDimension (s.listing views) = joinDimension s := by
    funext dimensions name query
    rw [joinDimension,joinDimension,dimensionSame h]
  rw [joined,joined,same]

end MergedQuery

namespace Scope
variable {s : Scope} {views : List View} (h : Reorders s.project.views views)
include h

theorem listedQueriesReordered (r : Request) (items : List Value) :
    Alike (s.listedQueries r items) ((s.listing views).listedQueries r items) := by
  have each (item : Value × Nat) := MergedQuery.readReordered h r item.1 item.2
  refine .bind (Alike.along.mapM each items.zipIdx) fun queries => ?_
  cases queries with
  | nil => exact .refl _
  | cons first rest =>
    refine Alike.along.mapM (fun q => ?_) _
    dsimp only
    rw [MergedQuery.joinedSame h]
    exact .refl _

section Compiling
variable {nested other : Nested} (requests : nested.Alike other)
include requests

theorem mergedQueriesReordered (r : Request) (items : List Value) :
    Compile.Alike (s.mergedQueries nested r items) ((s.listing views).mergedQueries other r items) := by
  refine .bind (.lift (listedQueriesReordered h r items)) fun queries => ?_
  have compiled (q : JoinedQuery) := Compile.Alike.bind (requests q.request) fun query => .refl (pure (q.table, query))
  refine .bind (Compile.Alike.along.mapM compiled queries) fun results => ?_
  refine .bind (bindAllReordered h requests _ []) fun bound => .bind (.refl _) fun conditions => ?_
  exact .lead (.lift (orderReordered h r))

theorem compileWithReordered (r : Request) :
    Compile.Alike (s.compileWith nested r) ((s.listing views).compileWith other r) := by
  refine .bind (.lift (resolveNamesReordered h r)) fun resolved => ?_
  obtain ⟨r,merges⟩ := resolved
  have merged := mergedResultReordered h requests r
  dsimp only
  rw [asksMerged,asksMerged,foundSame h]
  -- Whether a failed query is tried again as a merged result depends on the kind of its error only.
  refine bothBranches merged (.attempt (singleQueryReordered h requests r) (fun _ => .refl _) fun d e alike => ?_)
  dsimp only
  rw [alike.recoverable]
  exact bothBranches merged (.lift (.error alike))

end Compiling

theorem compileReordered (n : Nat) : (s.compile n).Alike ((s.listing views).compile n) := by
  induction n with
  | zero => exact fun r => .refl _
  | succ n ih => exact fun r => compileWithReordered h ih r

theorem answerReordered (r : Request) : Compile.Alike (s.answer r) ((s.listing views).answer r) := by
  refine .bind (.refl _) fun _ => ?_
  dsimp only
  cases r.mergedQueries with
  | some items => exact mergedQueriesReordered h (compileReordered h _) r items
  | none => exact compileReordered h _ r

end Scope

namespace Project
variable {p : Project} {views : List View} (h : Reorders p.views views)
include h

theorem chooseModelSame (r : Request) (topic : Option Topic) :
    (p.listing views).chooseModel r topic = p.chooseModel r topic := by
  have found (name : String) : ((p.listing views).field name).toOption = (p.field name).toOption :=
    (fieldReordered h name).toOption.symm
  simp only [chooseModel,found]
  rfl

theorem scopeForReordered (r : Request) (now : DateTime) :
    (p.listing views).scopeFor r now = (·.listing views) <$> p.scopeFor r now := by
  have models : (p.listing views).chooseModel r = p.chooseModel r := funext (chooseModelSame h r)
  rw [scopeFor,scopeFor,models]
  simp only [map_bind]
  rfl

theorem compileReordered (r : Request) (now : DateTime) :
    Alike (p.compile r now) ((p.listing views).compile r now) := by
  rw [compile,compile,scopeForReordered h]
  cases chosen : p.scopeFor r now with
  | error e => exact .refl _
  | ok s =>
    obtain ⟨project,_⟩ := scopeContext chosen
    obtain ⟨outcome,left⟩ := s.answerReordered (project ▸ h) r {}
    dsimp only [bind,Except.bind,Functor.map,Except.map]
    generalize (s.answer r).run {} = a, ((s.listing views).answer r).run {} = b at outcome left ⊢
    obtain ⟨result,progress⟩ := a
    obtain ⟨resultAgain,progressAgain⟩ := b
    cases left
    exact .bind outcome fun _ => .refl _

omit h

structure Reordered (p q : Project) : Prop where
  models : p.models = q.models
  topics : p.topics = q.topics
  connections : p.connections = q.connections
  settings : p.settings = q.settings
  userAttributes : p.userAttributes = q.userAttributes
  views : Reorders p.views q.views
  graph : p.graph = .ofViews p.views
  graphAgain : q.graph = .ofViews q.views

theorem Reordered.listed {p q : Project} (h : p.Reordered q) : q = p.listing q.views := by
  have graph : q.graph = p.graph := by rw [h.graph,h.graphAgain,h.views.graphSame]
  cases q
  cases p
  cases h.models
  cases h.topics
  cases h.connections
  cases h.settings
  cases h.userAttributes
  cases graph
  rfl

theorem viewOrderIrrelevant {p q : Project} (h : p.Reordered q) (r : Request) (now : DateTime) :
    p.compile r now = q.compile r now ∨
      ∃ name ids others, ids.Perm others ∧ p.compile r now = .error (.query (.ambiguousField name ids)) ∧
        q.compile r now = .error (.query (.ambiguousField name others)) := by
  have alike := compileReordered h.views r now
  rw [← h.listed] at alike
  generalize p.compile r now = a, q.compile r now = b at alike ⊢
  cases alike with
  | ok compiled => exact .inl rfl
  | error alike =>
    cases alike with
    | same e => exact .inl rfl
    | listed order => exact .inr ⟨_,_,_,order,rfl,rfl⟩

def branchView : View where
  name := "branches"
  tableName := some "db.branches"
  fields := [{ name := "office", sql := some "$\x7bTABLE\x7d.office" }]

def staffFirst : Project := .ofDefinitions { models := [payModel], views := [payView,branchView] }

def branchesFirst : Project := .ofDefinitions { models := [payModel], views := [branchView,payView] }

def headsRequest : Request where
  metrics := ["heads"]
  dimensions := ["staff.office"]
  dialect := some .snowflake

def bareRequest : Request where
  metrics := ["heads"]
  dimensions := ["office"]
  dialect := some .snowflake

theorem staffOrderIrrelevant :
    staffFirst.Reordered branchesFirst ∧
      (∃ compiled, staffFirst.compile headsRequest payTime = .ok compiled ∧
        branchesFirst.compile headsRequest payTime = .ok compiled) ∧
      staffFirst.compile bareRequest payTime =
        .error (.query (.ambiguousField "office" ["staff.office","branches.office"])) ∧
      branchesFirst.compile bareRequest payTime =
        .error (.query (.ambiguousField "office" ["branches.office","staff.office"])) := by
  have h : staffFirst.Reordered branchesFirst := ⟨rfl,rfl,rfl,rfl,rfl,⟨.swap _ _ _,by decide⟩,rfl,rfl⟩
  have answered : (staffFirst.compile headsRequest payTime).toOption.isSome := by decide +kernel
  obtain ⟨compiled,first⟩ := Option.isSome_iff_exists.mp answered
  have ok := exceptSome.mp first
  refine ⟨h,⟨compiled,ok,?_⟩,?_,?_⟩
  · rcases viewOrderIrrelevant h headsRequest payTime with same | ⟨name,ids,others,_,refused,_⟩
    · exact same.symm.trans ok
    · rw [refused] at ok
      cases ok
  · rfl
  · rfl

end Project
end SemanticSql
