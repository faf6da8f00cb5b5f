import SemanticSql.Proofs.PartFilters

/-! Fields that a query reads on behalf of a user. Names, orders and clauses are looked up in different places, and
each of these lookups asks for the grants of the field. -/
namespace SemanticSql

open List Compile
open SemanticSql.Filter (fieldsOf bindClause bindSpec bindSpecs)

def AccessGrant.Admits (g : AccessGrant) (attributes : Dict String) : Prop :=
  ∃ text, attributes.get? g.userAttribute = some text ∧ ∃ v ∈ Filter.attributeValues text, v ∈ g.allowed

theorem AccessGrant.admitsIff {g : AccessGrant} {attributes} : g.admits attributes ↔ g.Admits attributes := by
  unfold AccessGrant.admits AccessGrant.Admits
  cases attributes.get? g.userAttribute with
  | none => simp
  | some text => simp

theorem grantsAdmit {attributes model kind name grants} (ok : checkGrants attributes model kind name grants = .ok ()) :
    ∀ grant ∈ grants, ∃ m g, model = some m ∧ m.grant? grant = some g ∧ g.Admits attributes := by
  induction grants with
  | nil => exact forall_mem_nil _
  | cons grant rest ih =>
    rw [checkGrants] at ok
    split at ok
    · cases ok
    · rename_i g found
      obtain ⟨m,chosen,defined⟩ := Option.bind_eq_some_iff.mp found
      split at ok
      · rename_i admits
        exact forall_mem_cons.mpr ⟨⟨m,g,chosen,defined,AccessGrant.admitsIff.mp admits⟩,ih ok⟩
      · cases ok

mutual

def FilterSpec.Holds : FilterSpec → Request → Prop
  | .group conditions _, q => holdsOf conditions q
  | .condition _ expression value, q =>
    ∃ negated v name, Predicate.ofText expression = .ok (.inQuery negated) ∧ value = some v ∧
      Scope.readSubquery v = .ok (q, name)

def holdsOf : List FilterSpec → Request → Prop
  | [], _ => False
  | f :: rest, q => f.Holds q ∨ holdsOf rest q

end

def Clause.Holds : Clause → Request → Prop
  | .text _, _ => False
  | .list specs, q => holdsOf specs q
  | .single spec, q => spec.Holds q

def Nested.Ran (nested : Nested) (q : Request) : Prop := ∃ before query after, (nested q).Returns before query after

namespace Scope

def modelFor (s : Scope) (u : FieldUse) : Option Model := s.project.modelOf? u.view <|> s.model

def grantsFor (s : Scope) (u : FieldUse) : List String :=
  ((s.modelFor u).map Model.requiredGrants).getD [] ++ u.view.requiredGrants ++ u.field.requiredGrants

def Permitted (s : Scope) (u : FieldUse) : Prop :=
  ∀ grant ∈ s.grantsFor u, ∃ m g, s.modelFor u = some m ∧ m.grant? grant = some g ∧ g.Admits s.context.userAttributes

def Allowed (s : Scope) (name : String) : Prop := ∃ u, s.project.field name = .ok u ∧ s.Permitted u

def OrderAllowed (s : Scope) (r : Request) : Prop :=
  ∀ o, r.orderBy = some o → ∃ entries, o.entries = .ok entries ∧ ∀ e ∈ entries, s.Allowed e.field

def ClauseAllowed (s : Scope) (c : Clause) : Prop :=
  ∀ item ∈ FilterItem.ofClause c, ∃ uses, item.fields s.project = .ok uses ∧ ∀ u ∈ uses, s.Permitted u

variable {s : Scope} {nested : Nested}

theorem accessChecked {u} (ok : s.checkAccess u = .ok ()) :
    (∀ m, s.modelFor u = some m → s.requireGrants (s.modelFor u) .model m.name m.requiredGrants = .ok ()) ∧
      s.requireGrants (s.modelFor u) .view u.view.name u.view.requiredGrants = .ok () ∧
      s.requireGrants (s.modelFor u) .field u.id u.field.requiredGrants = .ok () := by
  unfold checkAccess at ok
  unfold modelFor
  cases model : (s.project.modelOf? u.view <|> s.model) with
  | none =>
    simp only [model,exceptBind] at ok
    obtain ⟨_,_,_,ofView,ofField⟩ := ok
    exact ⟨fun _ none => (Option.some_ne_none _ none.symm).elim,ofView,ofField⟩
  | some m =>
    simp only [model,exceptBind] at ok
    obtain ⟨_,ofModel,_,ofView,ofField⟩ := ok
    exact ⟨fun _ same => Option.some.inj same ▸ ofModel,ofView,ofField⟩

section
variable (restricted : s.context.userAttributes ≠ [])
include restricted

theorem requiredAdmit {model kind name grants} (ok : s.requireGrants model kind name grants = .ok ()) :
    ∀ grant ∈ grants, ∃ m g, model = some m ∧ m.grant? grant = some g ∧ g.Admits s.context.userAttributes := by
  rw [requireGrants,if_neg (by simpa using restricted)] at ok
  exact grantsAdmit ok

theorem accessPermitted {u} (ok : s.checkAccess u = .ok ()) : s.Permitted u := by
  obtain ⟨ofModel,ofView,ofField⟩ := accessChecked ok
  intro grant mem
  rcases mem_append.mp mem with mem | own
  · rcases mem_append.mp mem with mem | view
    · cases model : s.modelFor u with
      | none => simp [model] at mem
      | some m =>
        rw [← model]
        exact requiredAdmit restricted (ofModel m model) grant (by simpa [model] using mem)
    · exact requiredAdmit restricted ofView grant view
  · exact requiredAdmit restricted ofField grant own

theorem fieldAllowed {name u} (ok : s.field name = .ok u) : s.Allowed name := by
  obtain ⟨found,known,ok⟩ := exceptBind.mp ok
  obtain ⟨_,checked,_⟩ := exceptBind.mp ok
  exact ⟨found,known,accessPermitted restricted checked⟩

theorem fieldsAllowed {names uses} (ok : s.fields names = .ok uses) : ∀ name ∈ names, s.Allowed name := by
  intro name mem
  obtain ⟨u,_,found⟩ := forallMember (exceptMapM.mp ok) mem
  exact fieldAllowed restricted found

theorem orderAllowed {r order} (ok : s.order r = .ok order) : s.OrderAllowed r := by
  intro o asked
  simp only [Scope.order,asked] at ok
  obtain ⟨entries,read,each⟩ := exceptBind.mp ok
  refine ⟨entries,read,fun e mem => ?_⟩
  obtain ⟨_,_,found⟩ := forallMember (exceptMapM.mp each) mem
  obtain ⟨u,found,_⟩ := exceptBind.mp found
  exact fieldAllowed restricted found

end

theorem returnsChecked {α : Type} {x : Except Error α} {tables before out after}
    (ok : ((liftM (liftM x : Compile α) : Binding α).run tables).Returns before out after) : x = .ok out.1 := by
  simp only [StateT.run_monadLift,returnsBind,returnsPure] at ok
  obtain ⟨a,_,found,rfl,_⟩ := ok
  exact (returnsLift.mp found).1

theorem subqueryRan {value tables before out after} (ok : ((s.subquery nested value).run tables).Returns before out after)
    {q name} (read : readSubquery value = .ok (q, name)) : nested.Ran q := by
  simp only [subquery,StateT.run_bind,returnsBind] at ok
  obtain ⟨⟨found,_⟩,_,reads,⟨u,_⟩,_,_,⟨column,_⟩,_,_,⟨query,_⟩,after,compiles,_⟩ := ok
  cases read.symm.trans (returnsChecked reads)
  simp only [StateT.run_monadLift,returnsBind] at compiles
  obtain ⟨_,_,ran,_⟩ := compiles
  exact ⟨_,_,_,ran⟩

structure SpecBound (s : Scope) (nested : Nested) (names : List String) (Holds : Request → Prop) (uses : List FieldUse) :
    Prop where
  fields : List.Forall₂ (fun name u => s.project.field name = .ok u) names uses
  inner : ∀ q, Holds q → nested.Ran q

theorem conditionBound {field expression value tables before out after}
    (ok : ((Filter.bindCondition s.project (s.subquery nested) field expression value).run tables).Returns before out after) :
    s.SpecBound nested [field] (FilterSpec.condition field expression value).Holds out.1.fields := by
  simp only [Filter.bindCondition,StateT.run_bind,returnsBind] at ok
  obtain ⟨⟨predicate,_⟩,_,named,⟨u,_⟩,_,known,ok⟩ := ok
  have named : Predicate.ofText expression = .ok predicate := returnsChecked named
  have known : s.project.field field = .ok u := returnsChecked known
  split at ok
  · simp only [StateT.run_monadLift,returnsBind] at ok
    obtain ⟨_,_,failed,_⟩ := ok
    exact absurd failed returnsFail
  · split at ok
    · rename_i negated
      simp only [StateT.run_bind,StateT.run_pure,returnsBind,returnsPure] at ok
      obtain ⟨⟨found,_⟩,_,compiles,rfl,_⟩ := ok
      refine ⟨.cons known .nil,?_⟩
      rintro q ⟨_,v,name,_,rfl,read⟩
      exact subqueryRan compiles read
    · rename_i other
      simp only [StateT.run_pure,returnsPure] at ok
      obtain ⟨rfl,_⟩ := ok
      refine ⟨.cons known .nil,?_⟩
      rintro q ⟨negated,_,_,again,_⟩
      cases named.symm.trans again
      exact absurd rfl (other negated)

mutual

theorem specBound (f : FilterSpec) {tables before out after}
    (ok : ((bindSpec s.project (s.subquery nested) f).run tables).Returns before out after) :
    s.SpecBound nested f.fieldNames f.Holds out.1.fields := by
  cases f with
  | group conditions connective =>
    simp only [bindSpec,StateT.run_bind,returnsBind] at ok
    obtain ⟨⟨bound,_⟩,_,each,made⟩ := ok
    have made := returnsChecked made
    have inner := specsBound conditions each
    simp only [Filter.bindGroup] at made
    split at made
    · cases made
    · rw [← Except.ok.inj made]
      exact ⟨by simpa only [FilterSpec.fieldNames,Filter.fields] using inner.fields,
        by simpa only [FilterSpec.Holds] using inner.inner⟩
  | condition field expression value => exact conditionBound (by simpa only [bindSpec] using ok)

theorem specsBound (filters : List FilterSpec) {tables before out after}
    (ok : ((bindSpecs s.project (s.subquery nested) filters).run tables).Returns before out after) :
    s.SpecBound nested (fieldNamesOf filters) (holdsOf filters) (fieldsOf out.1) := by
  cases filters with
  | nil =>
    simp only [bindSpecs,StateT.run_pure,returnsPure] at ok
    rw [ok.1]
    exact ⟨.nil,fun q none => none.elim⟩
  | cons f rest =>
    simp only [bindSpecs,StateT.run_bind,StateT.run_pure,returnsBind,returnsPure] at ok
    obtain ⟨first,_,bound,others,_,later,rfl,_⟩ := ok
    have here := specBound f bound
    have there := specsBound rest later
    refine ⟨?_,?_⟩
    · simpa only [fieldNamesOf,fieldsOf] using rel_append here.fields there.fields
    · rintro q (held | held)
      · exact here.inner q held
      · exact there.inner q held

end

theorem namesListed {filters : List FilterSpec} {f name} (listed : f ∈ filters) (mem : name ∈ f.fieldNames) :
    name ∈ fieldNamesOf filters := by
  induction filters with
  | nil => contradiction
  | cons g rest ih =>
    rw [fieldNamesOf]
    rcases mem_cons.mp listed with rfl | later
    · exact mem_append_left _ mem
    · exact mem_append_right _ (ih later)

theorem fieldsAmong {p : Project} {names : List String} {all : List FieldUse}
    (each : ∀ name ∈ names, ∃ u ∈ all, p.field name = .ok u) :
    ∃ uses, names.mapM p.field = .ok uses ∧ ∀ u ∈ uses, u ∈ all := by
  obtain ⟨uses,found⟩ := mapReturns fun name mem => (each name mem).imp fun u known => known.2
  refine ⟨uses,found,fun u mem => ?_⟩
  obtain ⟨name,listed,known⟩ := forallMember (exceptMapM.mp found).flip mem
  obtain ⟨v,inside,again⟩ := each name listed
  cases known.symm.trans again
  exact inside

structure ClauseBound (s : Scope) (nested : Nested) (c : Clause) : Prop where
  allowed : s.ClauseAllowed c
  inner : ∀ q, c.Holds q → nested.Ran q

theorem clauseBound {c : Clause} {tables before out after}
    (ok : ((bindClause s.project (s.subquery nested) c).run tables).Returns before out after) :
    (∀ item ∈ FilterItem.ofClause c, ∃ uses, item.fields s.project = .ok uses ∧ ∀ u ∈ uses, u ∈ fieldsOf out.1) ∧
      ∀ q, c.Holds q → nested.Ran q := by
  cases c with
  | text sql =>
    refine ⟨fun item mem => ?_,fun q none => none.elim⟩
    rw [FilterItem.ofClause] at mem
    split at mem
    · cases mem
    · rename_i written
      cases mem_singleton.mp mem
      simp only [bindClause,if_neg written,StateT.run_bind,StateT.run_pure,returnsBind,
        returnsPure] at ok
      obtain ⟨⟨filter,_⟩,_,bound,rfl,_⟩ := ok
      refine ⟨filter.fields,exceptBind.mpr ⟨filter,returnsChecked bound,rfl⟩,fun u mem => ?_⟩
      simpa [fieldsOf] using mem
  | list filters =>
    have bound := specsBound filters (by simpa only [bindClause] using ok)
    refine ⟨fun item mem => ?_,bound.inner⟩
    obtain ⟨f,listed,rfl⟩ := mem_map.mp mem
    exact fieldsAmong fun name mem => forallMember bound.fields (namesListed listed mem)
  | single f =>
    simp only [bindClause,StateT.run_bind,StateT.run_pure,returnsBind,returnsPure] at ok
    obtain ⟨⟨filter,_⟩,_,bound,rfl,_⟩ := ok
    have bound := specBound f bound
    refine ⟨fun item mem => ?_,bound.inner⟩
    cases mem_singleton.mp mem
    refine ⟨filter.fields,exceptMapM.mpr bound.fields,fun u mem => ?_⟩
    simpa [fieldsOf] using mem

theorem checksEach {uses : List FieldUse} {tables before out after}
    (ok : ((uses.forM fun u => (liftM (liftM (s.checkAccess u) : Compile Unit) : Binding Unit)).run tables).Returns
      before out after) : ∀ u ∈ uses, s.checkAccess u = .ok () := by
  induction uses generalizing tables before with
  | nil => exact forall_mem_nil _
  | cons u rest ih =>
    simp only [List.forM,StateT.run_bind,returnsBind] at ok
    obtain ⟨_,_,first,later⟩ := ok
    exact forall_mem_cons.mpr ⟨returnsChecked first,ih later⟩

theorem bindBound (restricted : s.context.userAttributes ≠ []) {c : Clause} {tables before out after}
    (ok : ((s.bind nested c).run tables).Returns before out after) : s.ClauseBound nested c := by
  simp only [Scope.bind,StateT.run_bind,returnsBind] at ok
  obtain ⟨⟨filters,_⟩,_,binds,⟨_,_⟩,_,checks,_⟩ := ok
  obtain ⟨fields,inner⟩ := clauseBound binds
  refine ⟨fun item mem => ?_,inner⟩
  obtain ⟨uses,read,bound⟩ := fields item mem
  exact ⟨uses,read,fun u mem => accessPermitted restricted (checksEach checks u (bound u mem))⟩

theorem bindAllBound (restricted : s.context.userAttributes ≠ []) {clauses : List Clause} {tables before out after}
    (ok : ((s.bindAll nested clauses).run tables).Returns before out after) :
    ∀ c ∈ clauses, s.ClauseBound nested c := by
  induction clauses generalizing tables before out after with
  | nil => exact forall_mem_nil _
  | cons c rest ih =>
    simp only [bindAll,StateT.run_bind,returnsBind] at ok
    obtain ⟨_,_,first,_,_,later,_⟩ := ok
    exact forall_mem_cons.mpr ⟨bindBound restricted first,ih later⟩

end Scope
end SemanticSql
