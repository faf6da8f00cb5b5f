import SemanticSql.Proofs.CompileRuns
import SemanticSql.Scope.Planning

/-! Access filters of a plan. They are collected for the views of the metrics, the dimensions and the filters of a
request. -/
namespace SemanticSql

open SemanticSql.Filter Compile

def Session.Needs (s : Session) (u : FieldUse) (v : String) : Prop := ∃ views, s.requiredViews u = .ok views ∧ v ∈ views

theorem viewsMember {s : Session} {uses start views} (ok : s.viewsOf start uses = .ok views) (v : String) :
    v ∈ views ↔ v ∈ start ∨ ∃ u ∈ uses, s.Needs u v := by
  rw [Session.viewsOf,Session.unionOfViews] at ok
  induction uses generalizing start with
  | nil =>
    cases Except.ok.inj ok
    simp
  | cons u rest ih =>
    rw [List.foldlM_cons,exceptBind] at ok
    obtain ⟨next,first,later⟩ := ok
    obtain ⟨found,needed,same⟩ := exceptBind.mp first
    cases Except.ok.inj same
    have here : s.Needs u v ↔ v ∈ found := by simp [Session.Needs,needed]
    rw [ih later,NameSet.mem_union,or_assoc,← here]
    simp only [List.mem_cons,exists_eq_or_imp]

theorem fieldsMember {filters u} : u ∈ fieldsOf filters ↔ ∃ f ∈ filters, u ∈ f.fields := by
  induction filters with
  | nil => simp [fieldsOf]
  | cons f rest ih => simp [fieldsOf,ih]

theorem fieldsAppend (first second : List Filter) : fieldsOf (first ++ second) = fieldsOf first ++ fieldsOf second := by
  induction first with
  | nil => rfl
  | cons f rest ih => simp [fieldsOf,ih]

structure Restricts (u : FieldUse) (text : String) (f : Filter) : Prop where
  one : (attributeValues text).length ≤ 1 → f = .condition u (.compare .equal) (some (.str (Text.trim text)))
  several : 1 < (attributeValues text).length →
    f = .condition u (.oneOf false) (some (Value.strings (attributeValues text)))

theorem attributeRestricts (u : FieldUse) (text : String) : Restricts u text (ofAttribute u text) := by
  unfold ofAttribute
  split
  · rename_i v values
    exact ⟨fun _ => rfl,fun many => by simp [values] at many⟩
  · rename_i values
    exact ⟨fun _ => rfl,fun many => by simp [values] at many⟩
  · rename_i notOne notNone
    refine ⟨fun few => ?_,fun _ => rfl⟩
    match values : attributeValues text with
    | [] => exact absurd values notNone
    | [v] => exact absurd values (notOne v)
    | _ :: _ :: _ => simp [values] at few

namespace Scope

def Lifts (s : Scope) (v : String) : Prop := ∃ t, s.topic = some t ∧ t.overridesAccessFilters v

def Restricted (s : Scope) (conditions : List Filter) (v : String) : Prop :=
  ∀ view, s.project.view v = .ok view → ∀ f ∈ view.accessFilters, ∀ text,
    s.context.userAttributes.get? f.userAttribute = some text →
    ∃ u, s.project.fieldFrom view f.field = .ok u ∧ ∃ c ∈ conditions, Restricts u text c

theorem accessMember {p : Project} {attributes owner filters bound}
    (ok : ofAccess p attributes owner filters = .ok bound) {f text} (mem : f ∈ filters)
    (has : attributes.get? f.userAttribute = some text) :
    ∃ u, p.fieldFrom owner f.field = .ok u ∧ ∃ c ∈ bound, Restricts u text c := by
  have listed : (f.field, text) ∈ filters.filterMap fun f =>
      (attributes.get? f.userAttribute).map fun a => (f.field, a) :=
    List.mem_filterMap.mpr ⟨f,mem,by simp [has]⟩
  obtain ⟨c,known,made⟩ := forallMember (exceptMapM.mp ok) listed
  obtain ⟨u,look,same⟩ := exceptBind.mp made
  cases Except.ok.inj same
  exact ⟨u,look,_,known,attributeRestricts u text⟩

theorem accessRestricts {s : Scope} {views filters} (ok : s.accessFilters views = .ok filters) {v} (mem : v ∈ views)
    (kept : ¬ s.Lifts v) : s.Restricted filters v := by
  obtain ⟨ofViews,each,rest⟩ := exceptBind.mp ok
  obtain ⟨ofTopic,_,same⟩ := exceptBind.mp rest
  cases Except.ok.inj same
  obtain ⟨bound,known,made⟩ := forallMember (exceptMapM.mp each) (List.mem_filter.mpr ⟨mem,by
    cases topic : s.topic with
    | none => rfl
    | some t => simpa [Lifts,topic] using kept⟩)
  obtain ⟨owner,look,access⟩ := exceptBind.mp made
  intro view found f listed text has
  rw [found] at look
  cases Except.ok.inj look
  obtain ⟨u,field,c,inBound,restricts⟩ := accessMember access listed has
  exact ⟨u,field,c,List.mem_append_left _ (List.mem_flatten.mpr ⟨bound,known,inBound⟩),restricts⟩

structure Planned (s : Scope) (plan : Plan) (filters added access : List Filter) (views : NameSet) : Prop where
  touches : s.viewsOf [] (plan.metrics ++ plan.dimensions ++
    fieldsOf (filters.filter fun f => !f.isMeasureFilter) ++
    fieldsOf (filters.filter isMeasureFilter)) = .ok views
  restricts : s.accessFilters views = .ok access
  adds : ∀ f ∈ access, f ∈ added
  conditions : plan.conditions = added ++ filters.filter fun f => !f.isMeasureFilter
  having : plan.having = filters.filter isMeasureFilter

theorem planned {s : Scope} {nested r before plan after} (ok : (s.plan nested r).Returns before plan after) :
    ∃ filters tables bound added access views,
      ((s.bindAll nested (r.filter.toList ++ r.having.toList)).run []).Returns before (filters, tables) bound ∧
      Planned s plan filters added access views := by
  simp only [Scope.plan,returnsBind,returnsLift,returnsPure] at ok
  obtain ⟨metrics,_,⟨_,rfl⟩,dimensions,_,⟨_,rfl⟩,_,_,⟨_,rfl⟩,⟨filters,tables⟩,bound,binds,
    views,_,⟨touches,rfl⟩,always,_,⟨_,rfl⟩,access,_,⟨restricts,rfl⟩,order,_,⟨_,rfl⟩,rfl,_⟩ := ok
  exact ⟨filters,tables,_,always ++ access,access,views,binds,touches,restricts,
    fun f mem => List.mem_append_right _ mem,rfl,rfl⟩

theorem filterFields {filters : List Filter} {u} :
    (u ∈ fieldsOf (filters.filter fun f => !f.isMeasureFilter) ∨
      u ∈ fieldsOf (filters.filter isMeasureFilter)) ↔ u ∈ fieldsOf filters := by
  simp only [fieldsMember,List.mem_filter]
  constructor
  · rintro (⟨f,⟨mem,_⟩,reads⟩ | ⟨f,⟨mem,_⟩,reads⟩) <;> exact ⟨f,mem,reads⟩
  · rintro ⟨f,mem,reads⟩
    cases kind : f.isMeasureFilter with
    | false => exact .inl ⟨f,⟨mem,by simp [kind]⟩,reads⟩
    | true => exact .inr ⟨f,⟨mem,kind⟩,reads⟩

theorem restrictedMore {s : Scope} {some all v} (inside : ∀ f ∈ some, f ∈ all) (restricted : s.Restricted some v) :
    s.Restricted all v := by
  intro view look f listed text has
  obtain ⟨u,field,c,known,restricts⟩ := restricted view look f listed text has
  exact ⟨u,field,c,inside c known,restricts⟩

theorem touchedViewsRestricted {s : Scope} {nested r before plan after required}
    (ok : (s.plan nested r).Returns before plan after) (touched : plan.requiredViews s.toSession = .ok required) :
    ∃ filters tables bound added,
      ((s.bindAll nested (r.filter.toList ++ r.having.toList)).run []).Returns before (filters, tables) bound ∧
      plan.conditions = added ++ (filters.filter fun f => !f.isMeasureFilter) ∧
      plan.having = filters.filter Filter.isMeasureFilter ∧
      ∀ v ∈ required, ¬ s.Lifts v → s.Restricted plan.conditions v ∨
        (∃ u ∈ Filter.fieldsOf added ++ plan.order.map SortField.u, s.Needs u v) ∧
        ∀ u ∈ plan.metrics ++ plan.dimensions ++ Filter.fieldsOf filters, ¬ s.Needs u v := by
  obtain ⟨filters,tables,bound,added,access,views,binds,parts⟩ := planned ok
  refine ⟨filters,tables,bound,added,binds,parts.conditions,parts.having,fun v mem kept => ?_⟩
  have collected : v ∈ views ↔ ∃ u ∈ plan.metrics ++ plan.dimensions ++ Filter.fieldsOf filters, s.Needs u v := by
    rw [viewsMember parts.touches]
    simp only [List.not_mem_nil,false_or,List.append_assoc,List.mem_append,filterFields]
  by_cases inside : v ∈ views
  · left
    refine restrictedMore (fun f known => ?_) (accessRestricts parts.restricts inside kept)
    rw [parts.conditions]
    exact List.mem_append_left _ (parts.adds f known)
  · right
    have others : ∀ u ∈ plan.metrics ++ plan.dimensions ++ Filter.fieldsOf filters, ¬ s.Needs u v :=
      fun u reads needs => inside (collected.mpr ⟨u,reads,needs⟩)
    refine ⟨?_,others⟩
    rcases (viewsMember touched v).mp mem with start | ⟨u,reads,needs⟩
    · exact absurd start List.not_mem_nil
    · refine ⟨u,?_,needs⟩
      have elsewhere : u ∉ Filter.fieldsOf filters := fun bound => others u (List.mem_append_right _ bound) needs
      rw [Plan.fields,parts.conditions,parts.having,fieldsAppend] at reads
      simp only [List.mem_append] at reads ⊢
      rcases reads with ((shown | byAdded | byFilter) | byGroup) | byOrder
      · exact absurd needs (others u (by simp only [List.mem_append]; exact .inl shown))
      · exact .inl byAdded
      · exact absurd (filterFields.mp (.inl byFilter)) elsewhere
      · exact absurd (filterFields.mp (.inr byGroup)) elsewhere
      · exact .inr byOrder

/- Orders and their customers. A user of one region may only see customers of that region. -/
def salesViews : List View := [
  { name := "customers"
    tableName := some "db.customers"
    fields := [
      { name := "customer_id", sql := some "$\x7bTABLE\x7d.id", primaryKey := true },
      { name := "region", sql := some "$\x7bTABLE\x7d.region" }]
    identifiers := [.ofSql "customer_id" .primary "$\x7bcustomer_id\x7d"]
    accessFilters := [{ field := "region", userAttribute := "region" }] },
  { name := "orders"
    tableName := some "db.orders"
    fields := [
      { name := "id", sql := some "$\x7bTABLE\x7d.id", primaryKey := true },
      { name := "customer_id", sql := some "$\x7bTABLE\x7d.customer_id" },
      { name := "total", role := .measure, type := .sum, sql := some "$\x7bTABLE\x7d.amount" }]
    identifiers := [.ofSql "customer_id" .foreign "$\x7bcustomer_id\x7d"] }]

def salesScope : Scope where
  project := .ofDefinitions { views := salesViews }
  context := { dialect := .snowflake, now := ⟨⟨2024,1,1⟩,0,0,0,0⟩, userAttributes := [("region", "eu")] }

def refuseNested : Nested := fun _ => .fail (.query .noFields)

def touched (r : Request) : Compile (Plan × NameSet) := do
  let plan ← salesScope.plan refuseNested r
  return (plan, ← plan.requiredViews salesScope.toSession)

theorem touchedWith {r} {check : Plan × NameSet → Bool} (ok : (ran? (touched r)).any check) :
    ∃ plan after required, (salesScope.plan refuseNested r).Returns {} plan after ∧
      plan.requiredViews salesScope.toSession = .ok required ∧ check (plan, required) := by
  obtain ⟨result,ran,checked⟩ := (Option.any_eq_true ..).mp ok
  obtain ⟨after,returns⟩ := ranReturns ran
  simp only [touched,returnsBind,returnsLift,returnsPure] at returns
  obtain ⟨plan,_,planned,required,_,⟨views,rfl⟩,rfl,_⟩ := returns
  exact ⟨plan,_,required,planned,views,checked⟩

set_option maxRecDepth 10000 in
theorem orderedCustomersUnrestricted :
    ¬ ∀ (s : Scope) nested r before plan after required, (s.plan nested r).Returns before plan after →
      plan.requiredViews s.toSession = .ok required → ∀ v ∈ required, ¬ s.Lifts v →
      s.Restricted plan.conditions v := by
  intro all
  have checked : (Compile.ran? (touched
      { metrics := ["orders.total"], orderBy := some (.text "customers.region") })).any fun result =>
        result.1.conditions.isEmpty && result.2.contains "customers" := by decide +kernel
  obtain ⟨plan,after,required,ran,touched,check⟩ := touchedWith checked
  rw [Bool.and_eq_true,List.isEmpty_iff,List.contains_iff_mem] at check
  have restricted := all _ _ _ _ _ _ _ ran touched "customers" check.2 (by simp [Lifts,salesScope])
  rw [check.1] at restricted
  obtain ⟨u,_,c,none,_⟩ := restricted _ rfl { field := "region", userAttribute := "region" } (by decide) "eu" rfl
  exact List.not_mem_nil none

set_option maxRecDepth 10000 in
theorem shownCustomersRestricted :
    ∃ plan after,
      (salesScope.plan refuseNested { metrics := ["orders.total"], dimensions := ["customers.region"] }).Returns
        {} plan after ∧ salesScope.Restricted plan.conditions "customers" := by
  have checked : (Compile.ran? (touched
      { metrics := ["orders.total"], dimensions := ["customers.region"] })).any fun result =>
        result.2.contains "customers" && result.1.dimensions.any fun u =>
          (salesScope.requiredViews u).toOption == some ["customers"] := by decide +kernel
  obtain ⟨plan,after,required,ran,touched,check⟩ := touchedWith checked
  rw [Bool.and_eq_true,List.contains_iff_mem,List.any_eq_true] at check
  obtain ⟨inside,u,shown,needs⟩ := check
  obtain ⟨_,_,_,_,_,_,_,each⟩ := touchedViewsRestricted ran touched
  rcases each "customers" inside (by simp [Lifts,salesScope]) with restricted | ⟨_,others⟩
  · exact ⟨plan,after,ran,restricted⟩
  · refine absurd ?_ (others u (by simp [shown]))
    cases found : salesScope.requiredViews u with
    | error e => simp [found,Except.toOption] at needs
    | ok views => exact ⟨views,found,by simp_all [Except.toOption]⟩

end Scope
end SemanticSql
