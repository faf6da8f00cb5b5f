import SemanticSql.MergedResult
import SemanticSql.Proofs.CompileRuns

/-! The parts of a merged result. Every part is a table of the query, answered from a request of its own, and the
select joins these tables. -/
namespace SemanticSql

open Compile

def Request.filterItems (r : Request) : List FilterItem := (r.filter.map FilterItem.ofClause).getD []

namespace Scope
variable {s : Scope} {nested : Nested}

def passes (s : Scope) (item : FilterItem) : Bool :=
  (item.fields s.project).toOption.any fun fields => !fields.any FieldUse.isMeasure

theorem splitPassed {items tables before filters passed left after}
    (ok : ((s.splitItems nested items).run tables).Returns before ((filters, passed), left) after) :
    passed = items.filter s.passes ∧ (items.all s.passes → filters = []) := by
  induction items generalizing tables before filters passed left after with
  | nil =>
    simp only [splitItems,StateT.run_pure,returnsPure,Prod.mk.injEq] at ok
    exact ⟨ok.1.1.2,fun _ => ok.1.1.1⟩
  | cons first rest ih =>
    simp only [splitItems,StateT.run_bind,StateT.run_monadLift,returnsBind,returnsPure] at ok
    obtain ⟨⟨fields,_⟩,_,⟨read,_,found,same,rfl⟩,ok⟩ := ok
    cases same
    have reads : first.fields s.project = .ok fields := (returnsLift.mp found).1
    split at ok
    · rename_i measured
      simp only [StateT.run_bind,StateT.run_pure,returnsBind,returnsPure,Prod.mk.injEq] at ok
      obtain ⟨_,_,_,_,_,later,⟨⟨_,rfl⟩,_⟩,_⟩ := ok
      have kept : s.passes first = false := by simpa [passes,reads,Except.toOption] using measured
      simpa [kept] using (ih later).1
    · rename_i plain
      simp only [StateT.run_bind,StateT.run_pure,returnsBind,returnsPure,Prod.mk.injEq] at ok
      obtain ⟨_,_,later,⟨⟨rfl,rfl⟩,_⟩,_⟩ := ok
      have passes : s.passes first := by simpa [passes,reads,Except.toOption] using plain
      simpa [passes] using ih later

def groupDates (groups : Dict MergeGroup) : List String := groups.filterMap fun e => e.2.date.map FieldUse.id

structure PartOf (s : Scope) (dates : List String) (dimensions : List FieldUse) (e : String × MergeGroup)
    (part : MergePart) : Prop where
  named : part.table = e.1
  group : part.toMergeGroup = e.2
  shows : List.Forall₂ (fun u v => s.dimensionIn dates e.2 u = .ok v) dimensions part.dimensions

theorem partsPlaced {groups dimensions parts} (ok : s.mergeParts groups dimensions = .ok parts) :
    List.Forall₂ (s.PartOf (groupDates groups) dimensions) groups parts := by
  refine (exceptMapM.mp ok).imp fun e part made => ?_
  obtain ⟨shown,each,same⟩ := exceptBind.mp made
  cases same
  exact ⟨rfl,rfl,exceptMapM.mp each⟩

structure PartAnswered (s : Scope) (nested : Nested) (r : Request) (passed : List FilterItem) (part : MergePart)
    (table : String × Query) (applied : List (Option FilterItem)) : Prop where
  named : table.1 = part.table
  applies : List.Forall₂ (fun item out => s.itemIn part.toMergeGroup item = .ok out) passed applied
  answers : ∃ before after, (s.singleQuery nested (partRequest r part (applied.filterMap id))).Returns before table.2 after

theorem partAnswered {r passed part before table after}
    (ok : (s.partTable nested r passed part).Returns before table after) :
    ∃ applied, s.PartAnswered nested r passed part table applied := by
  simp only [partTable,returnsBind,returnsPure] at ok
  obtain ⟨applied,_,each,query,_,answers,rfl,_⟩ := ok
  exact ⟨applied,rfl,returnsEach each fun item _ _ _ _ made => (returnsLift.mp made).1,_,_,answers⟩

structure Merged (s : Scope) (nested : Nested) (r : Request) (q : Query) (metrics dimensions : List FieldUse)
    (passed : List FilterItem) (outer : List Filter) (groups : Dict MergeGroup) (parts : List MergePart)
    (select : Select) : Prop where
  asked : s.fields r.metrics = .ok metrics
  shown : s.fields r.dimensions = .ok dimensions
  splits : ∃ before middle after filters having tables others,
    ((s.splitItems nested r.filterItems).run []).Returns before ((filters, passed), tables) middle ∧
    ((s.bindAll nested r.having.toList).run tables).Returns middle (having, others) after ∧ outer = filters ++ having
  grouped : s.mergeGroups (metrics ++ (Filter.fieldsOf outer).filter FieldUse.isMeasure) = .ok groups
  placed : s.mergeParts groups dimensions = .ok parts
  answered : ∀ part ∈ parts, ∃ table ∈ q.tables, ∃ applied, s.PartAnswered nested r passed part table applied
  selects : ∃ before after, (s.mergedSelect parts metrics dimensions outer).Returns before select after
  body : q.body = .select select

theorem mergedPassed {r q metrics dimensions passed outer groups parts select}
    (merged : s.Merged nested r q metrics dimensions passed outer groups parts select) :
    passed = r.filterItems.filter s.passes := by
  obtain ⟨_,_,_,_,_,_,_,splits,_⟩ := merged.splits
  exact (splitPassed splits).1

theorem mergedOuter {r q metrics dimensions passed outer groups parts select}
    (merged : s.Merged nested r q metrics dimensions passed outer groups parts select)
    (all : r.filterItems.all s.passes) (having : r.having = none) : outer = [] := by
  obtain ⟨_,_,_,_,_,_,_,splits,binds,rfl⟩ := merged.splits
  rw [having] at binds
  rw [(splitPassed splits).2 all]
  exact congrArg Prod.fst (returnsPure.mp binds).1

theorem merged {r before q after} (ok : (s.mergedResult nested r).Returns before q after) :
    ∃ metrics dimensions passed outer groups parts select,
      s.Merged nested r q metrics dimensions passed outer groups parts select := by
  unfold mergedResult at ok
  split at ok
  · exact absurd ok returnsFail
  · simp only [returnsBind,returnsLift] at ok
    obtain ⟨metrics,_,⟨asked,rfl⟩,dimensions,_,⟨shown,rfl⟩,⟨⟨filters,passed⟩,tables⟩,_,splits,
      ⟨having,others⟩,_,binds,groups,_,⟨grouped,rfl⟩,ok⟩ := ok
    split at ok
    · exact absurd ok returnsFail
    · simp only [returnsBind,returnsLift,returnsPure] at ok
      obtain ⟨parts,_,⟨placed,rfl⟩,results,_,answered,_,_,⟨_,rfl⟩,select,_,selects,order,_,
        ⟨_,rfl⟩,keys,_,_,rfl,_⟩ := ok
      refine ⟨metrics,dimensions,passed,filters ++ having,groups,parts,select,asked,shown,
        ⟨_,_,_,filters,having,tables,others,splits,binds,rfl⟩,grouped,placed,fun part mem => ?_,
        ⟨_,_,selects⟩,rfl⟩
      have each := returnsEach answered fun _ _ _ _ _ made => partAnswered made
      obtain ⟨table,listed,applied⟩ := forallMember each mem
      exact ⟨table,List.mem_append_right _ listed,applied⟩

end Scope
end SemanticSql
