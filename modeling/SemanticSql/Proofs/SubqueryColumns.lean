import SemanticSql.Proofs.GroupedAggregates
import SemanticSql.Proofs.MergedColumns
import SemanticSql.Proofs.QualifiedNames

/-! Columns that membership filters compare with. A filter names a field of its query, and reads the column of the first
dimension of the query that is this field, at whatever grain that dimension has. -/
namespace SemanticSql

namespace Project
variable {p : Project} {a b : FieldUse}

/- Names of fields that spell the same id mean the same field where no view has a dot in its name. -/
theorem sameIdField (valid : p.Valid) (undotted : ∀ v ∈ p.views, '.' ∉ v.name.toList) (first : p.Defines a)
    (second : p.Defines b) (same : a.id = b.id) : a.view = b.view ∧ a.field = b.field := by
  have cut (u : FieldUse) (known : p.Defines u) : Text.cut? '.' u.id = some (u.view.name, u.field.name) :=
    Text.cutFirst (undotted u.view known.1)
  have halves : (a.view.name, a.field.name) = (b.view.name, b.field.name) := by
    rw [← Option.some.injEq,← cut a first,← cut b second,same]
  obtain ⟨views,fields⟩ := Prod.mk.inj halves
  have view := valid.views a.view first.1 b.view second.1 views
  exact ⟨view,valid.fields b.view second.1 a.field (view ▸ first.2) b.field second.2 fields⟩

theorem sameColumnGrain {spelled name} (first : p.field spelled = .ok a) (second : p.field name = .ok b)
    (field : a.field = b.field) (column : a.column = b.column) : a.grain = b.grain := by
  have here := (fieldAnswered first).1
  rw [column,field,(fieldAnswered second).1] at here
  exact (Option.some.inj here).symm

end Project

theorem Binding.runLifted {α : Type} (step : Compile α) (tables : Tables) :
    (liftM step : Binding α).run tables = step >>= fun a => pure (a, tables) := rfl

namespace Scope
variable {s : Scope} {nested : Nested} {r : Request} {u : FieldUse} {column : String}

theorem firstDimension (ok : s.subqueryColumn r u = .ok column) :
    ∃ earlier spelled later first, r.dimensions = earlier ++ spelled :: later ∧ s.project.field spelled = .ok first ∧
      first.id = u.id ∧ (∀ other ∈ s.found earlier, other.id ≠ u.id) ∧ column = first.column := by
  unfold subqueryColumn at ok
  split at ok
  · rename_i first chosen
    cases Except.ok.inj ok
    obtain ⟨same,before,after,split,others⟩ := List.find?_eq_some_iff_append.mp chosen
    obtain ⟨earlier,rest,names,ahead,behind⟩ := List.filterMap_eq_append_iff.mp split
    obtain ⟨skipped,spelled,later,more,unknown,found,_⟩ := List.filterMap_eq_cons_iff.mp behind
    refine ⟨earlier ++ skipped,spelled,later,first,?_,exceptSome.mp found,by simpa using same,?_,rfl⟩
    · rw [names,more,List.append_assoc]
    · have passed : s.found (earlier ++ skipped) = before := by
        rw [Scope.found,List.filterMap_append,List.filterMap_eq_nil_iff.mpr unknown,List.append_nil,ahead]
      intro other mem
      simpa using others other (passed ▸ mem)
  · cases ok

/- Compiling a membership filter, with the tables that are known before it and after it. -/
theorem subquerySteps (value : Value) (tables : Tables) : (s.subquery nested value).run tables = (do
    let read ← (readSubquery value : Compile _)
    let u ← (s.field read.2 : Compile _)
    let column ← (s.subqueryColumn read.1 u : Compile _)
    let query ← nested read.1
    let table := "filter_subquery_" ++ toString tables.length
    return ((table, column), tables ++ [(table, query)])) := by
  simp only [subquery,StateT.run_bind,Binding.runLifted,StateT.run_get,StateT.run_modify,StateT.run_pure,bind_assoc,
    pure_bind]

structure Compares (s : Scope) (nested : Nested) (value : Value) (before after : Progress) (tables more : Tables)
    (table column : String) (r : Request) (u : FieldUse) : Prop where
  read : ∃ name, readSubquery value = .ok (r, name) ∧ s.field name = .ok u
  compared : s.subqueryColumn r u = .ok column
  defined : ∃ q, (nested r).Returns before q after ∧ more = tables ++ [(table, q)]

theorem compares {value tables before table more after}
    (ok : ((s.subquery nested value).run tables).Returns before ((table, column), more) after) :
    ∃ r u, s.Compares nested value before after tables more table column r u := by
  simp only [subquerySteps,Compile.returnsBind,Compile.returnsLift,Compile.returnsPure,Prod.mk.injEq] at ok
  obtain ⟨⟨r,name⟩,_,⟨read,rfl⟩,u,_,⟨named,rfl⟩,_,_,⟨compared,rfl⟩,q,_,compiled,⟨⟨rfl,rfl⟩,rfl⟩,rfl⟩ := ok
  exact ⟨r,u,⟨name,read,named⟩,compared,q,compiled,rfl⟩

theorem grainCompared {value tables before table more after}
    (ok : ((s.subquery nested value).run tables).Returns before ((table, column), more) after) :
    ∃ r u, s.Compares nested value before after tables more table column r u ∧
      ∃ earlier spelled later first, r.dimensions = earlier ++ spelled :: later ∧ s.project.field spelled = .ok first ∧
        first.id = u.id ∧ (∀ other ∈ s.found earlier, other.id ≠ u.id) ∧ column = first.column ∧
        (s.project.validate = .ok () → (∀ v ∈ s.project.views, '.' ∉ v.name.toList) →
          first.view = u.view ∧ first.field = u.field ∧
            ((∃ d ∈ s.found r.dimensions, d.same u ∧ column = d.column) ↔ first.grain = u.grain)) := by
  obtain ⟨r,u,run⟩ := compares ok
  obtain ⟨earlier,spelled,later,first,names,found,id,others,rfl⟩ := firstDimension run.compared
  refine ⟨r,u,run,earlier,spelled,later,first,names,found,id,others,rfl,fun valid undotted => ?_⟩
  obtain ⟨name,_,named⟩ := run.read
  have known := fieldFound named
  obtain ⟨view,field⟩ := Project.sameIdField (Project.validated valid) undotted (Project.fieldDefined found)
    (Project.fieldDefined known) id
  refine ⟨view,field,fun ⟨d,_,same,column⟩ => ?_,fun grain => ⟨first,?_,?_,rfl⟩⟩
  · exact Project.sameColumnGrain found known field (column.trans (FieldUse.sameNames same).1)
  · exact foundMember (by simp [names]) found
  · simp [FieldUse.same,FieldUse.sameField,view,field,grain]

def monthsOf (dimensions : List String) : Value :=
  .object [
    ("field", .str "orders.placed_month"),
    ("query", .object [("dimensions", Value.strings dimensions),("metrics", Value.strings ["orders.revenue"])])]

def comparedIn (dimensions : List String) : Option (String × String) :=
  (Compile.ran? ((lineScope.subquery (lineScope.compile 1) (monthsOf dimensions)).run [])).map Prod.fst

theorem comparedRuns {dimensions table column} (ran : comparedIn dimensions = some (table, column)) : ∃ more after,
    ((lineScope.subquery (lineScope.compile 1) (monthsOf dimensions)).run []).Returns {} ((table, column), more) after := by
  obtain ⟨⟨_,more⟩,result,rfl⟩ := Option.map_eq_some_iff.mp ran
  obtain ⟨after,ok⟩ := Compile.ranReturns result
  exact ⟨more,after,ok⟩

theorem monthFirstCompared : ∃ more after r u, ∃ first : FieldUse,
    ((lineScope.subquery (lineScope.compile 1) (monthsOf [" Orders.PLACED_month","placed_date"])).run []).Returns {}
      (("filter_subquery_0", "placed_month"), more) after ∧
    lineScope.Compares (lineScope.compile 1) (monthsOf [" Orders.PLACED_month","placed_date"]) {} after [] more
      "filter_subquery_0" "placed_month" r u ∧
    "placed_month" = first.column ∧ first.view = u.view ∧ first.field = u.field ∧
      ((∃ d ∈ lineScope.found r.dimensions, d.same u ∧ "placed_month" = d.column) ↔ first.grain = u.grain) := by
  have ran : comparedIn [" Orders.PLACED_month","placed_date"] = some ("filter_subquery_0", "placed_month") := by
    decide +kernel
  obtain ⟨more,after,ok⟩ := comparedRuns ran
  obtain ⟨r,u,run,_,_,_,first,_,_,_,_,column,exact⟩ := grainCompared ok
  obtain ⟨view,field,grain⟩ := exact (exceptSome.mp (by decide +kernel)) (by decide)
  exact ⟨more,after,r,u,first,ok,run,column,view,field,grain⟩

theorem dateComparedForMonth :
    ¬ ∀ (d : Definitions) (s : Scope) value tables before table column more after r u,
      s.project = .ofDefinitions d → s.project.validate = .ok () →
      ((s.subquery (s.compile 1) value).run tables).Returns before ((table, column), more) after →
      s.Compares (s.compile 1) value before after tables more table column r u →
      ∃ d ∈ s.found r.dimensions, d.same u ∧ column = d.column := by
  intro all
  have project : lineScope.project = .ofDefinitions { views := [lineView,orderView] } := by
    rw [lineScope,← lineViewsGraph]
    rfl
  have ran : comparedIn ["placed_date","orders.placed_month"] = some ("filter_subquery_0", "placed_date") := by
    decide +kernel
  obtain ⟨more,after,ok⟩ := comparedRuns ran
  obtain ⟨r,u,run⟩ := compares ok
  obtain ⟨d,mem,same,column⟩ := all _ lineScope _ _ _ _ _ _ _ r u project (exceptSome.mp (by decide +kernel)) ok run
  obtain ⟨name,read,named⟩ := run.read
  have asked : readSubquery (monthsOf ["placed_date","orders.placed_month"]) = .ok
      ({ metrics := ["orders.revenue"], dimensions := ["placed_date","orders.placed_month"] }, "orders.placed_month") := rfl
  cases asked.symm.trans read
  have apart : (lineScope.field "orders.placed_month").toOption.any fun u =>
    (lineScope.found ["placed_date","orders.placed_month"]).all fun d => !(d.same u && d.column == "placed_date") := by
      decide +kernel
  rw [named,Except.toOption,Option.any_some] at apart
  have other := List.all_eq_true.mp apart d mem
  simp [same,← column] at other

end Scope
end SemanticSql
