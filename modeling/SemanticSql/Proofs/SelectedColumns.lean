import SemanticSql.Proofs.MergedParts

/-! Columns that queries select. A query for some fields selects the column of each of them, under its name. -/
namespace SemanticSql

open List Compile

inductive Query.Selects : Query → String → Prop
  | column {tables select order limit sql name} (mem : SelectItem.column sql name ∈ select.items) :
      Selects (.mk tables (.select select) order limit) name
  | all {tables select order limit query name} (star : SelectItem.all ∈ select.items)
      (table : (select.source, query) ∈ tables) (inner : Selects query name) :
      Selects (.mk tables (.select select) order limit) name

namespace Layout
variable {l : Layout} {columns shown : List Column} {before after : Progress}

def columnNames (columns : List Column) : List String := columns.map Prod.snd

theorem rowColumnsNamed {uses : List FieldUse} (ok : (uses.mapM l.rowColumn).Returns before columns after) :
    columnNames columns = uses.map FieldUse.column := by
  have each := returnsEach (R := fun u c => c.2 = u.column) ok fun u _ before c after made => by
    simp only [rowColumn,returnsBind,returnsPure] at made
    obtain ⟨_,_,_,rfl,_⟩ := made
    rfl
  exact (forallMap each fun u c same => same.symm).symm

theorem addedColumns {uses : List FieldUse} (ok : (l.addRowColumns columns uses).Returns before shown after) :
    (∀ name ∈ columnNames columns, name ∈ columnNames shown) ∧ ∀ u ∈ uses, u.column ∈ columnNames shown := by
  induction uses generalizing columns before with
  | nil =>
    obtain ⟨rfl,_⟩ := returnsPure.mp ok
    exact ⟨fun _ mem => mem,forall_mem_nil _⟩
  | cons u rest ih =>
    rw [addRowColumns,foldlM_cons,returnsBind] at ok
    obtain ⟨next,_,first,later⟩ := ok
    obtain ⟨kept,others⟩ := ih later
    have step : (∀ name ∈ columnNames columns, name ∈ columnNames next) ∧ u.column ∈ columnNames next := by
      split at first
      · rename_i there
        obtain ⟨rfl,_⟩ := returnsPure.mp first
        obtain ⟨c,mem,same⟩ := any_eq_true.mp there
        exact ⟨fun _ mem => mem,mem_map.mpr ⟨c,mem,eq_of_beq same⟩⟩
      · simp only [rowColumn,returnsBind,returnsPure] at first
        obtain ⟨_,_,⟨_,_,_,rfl,_⟩,rfl,_⟩ := first
        simp +contextual [columnNames]
    exact ⟨fun name mem => kept name (step.1 name mem),forall_mem_cons.mpr ⟨kept _ step.2,others⟩⟩

theorem plainLeaves {s : Session} {u : FieldUse} (plain : u.field.isFormula = false) : s.measureLeaves u = .ok [u] := by
  rw [Session.measureLeaves,Session.fuel,Session.measureLeavesFrom,plain]
  rfl

theorem leafColumns {metrics : List FieldUse} (ok : (metrics.foldlM (m := Compile) (fun columns u => do
      l.addRowColumns columns (← l.toSession.measureLeaves u)) columns).Returns before shown after) :
    (∀ name ∈ columnNames columns, name ∈ columnNames shown) ∧
      ∀ u ∈ metrics, u.field.isFormula = false → u.column ∈ columnNames shown := by
  induction metrics generalizing columns before with
  | nil =>
    obtain ⟨rfl,_⟩ := returnsPure.mp ok
    exact ⟨fun _ mem => mem,forall_mem_nil _⟩
  | cons u rest ih =>
    simp only [foldlM_cons,returnsBind,returnsLift] at ok
    obtain ⟨next,_,⟨leaves,_,⟨found,rfl⟩,added⟩,later⟩ := ok
    obtain ⟨kept,others⟩ := ih later
    obtain ⟨first,new⟩ := addedColumns added
    refine ⟨fun name mem => kept name (first name mem),forall_mem_cons.mpr ⟨fun plain => ?_,others⟩⟩
    rw [plainLeaves plain] at found
    cases found
    exact kept _ (new u (mem_singleton_self u))

theorem columnsNamed {hidden : List FieldUse} (ok : (l.columns hidden).Returns before columns after) :
    (∀ u ∈ l.plan.dimensions, u.column ∈ columnNames columns) ∧
      ∀ u ∈ l.plan.metrics, (l.plan.isUngrouped → u.field.isFormula = false) → u.column ∈ columnNames columns := by
  simp only [Layout.columns,returnsBind] at ok
  obtain ⟨dimensions,_,rows,ok⟩ := ok
  have named := rowColumnsNamed rows
  have shows : ∀ u ∈ l.plan.dimensions, u.column ∈ columnNames dimensions := fun u mem => by
    rw [named]
    exact mem_map_of_mem mem
  split at ok
  · rename_i ungrouped
    obtain ⟨kept,leaves⟩ := leafColumns ok
    exact ⟨fun u mem => kept _ (shows u mem),fun u mem plain => leaves u mem (plain ungrouped)⟩
  · simp only [returnsBind,returnsPure] at ok
    obtain ⟨measures,_,each,rfl,_⟩ := ok
    have grouped := returnsEach (R := fun u c => c.2 = u.column) each fun u _ before c after made => by
      simp only [returnsBind,returnsPure] at made
      obtain ⟨_,_,_,rfl,_⟩ := made
      rfl
    refine ⟨fun u mem => ?_,fun u mem _ => ?_⟩
    · exact mem_map.mpr ((mem_map.mp (shows u mem)).imp fun c => And.imp_left (mem_append_left _))
    · obtain ⟨c,listed,same⟩ := forallMember grouped (mem_append_left hidden mem)
      exact mem_map.mpr ⟨c,mem_append_right _ listed,same⟩

theorem querySelects {q} (ok : l.query.Returns before q after) : ∃ hidden columns start finish,
    (l.columns hidden).Returns start columns finish ∧ ∀ name ∈ columnNames columns, q.Selects name := by
  simp only [query,returnsBind,returnsLift] at ok
  obtain ⟨_,_,_,split,_,_,sources,_,_,columns,_,shows,_,_,_,_,_,_,_,_,_,finish⟩ := ok
  have listed {name} (mem : name ∈ columnNames columns) :
      ∃ sql, SelectItem.column sql name ∈ columns.map fun c => SelectItem.column c.1 c.2 := by
    obtain ⟨c,there,rfl⟩ := mem_map.mp mem
    exact ⟨c.1,mem_map.mpr ⟨c,there,rfl⟩⟩
  refine ⟨_,columns,_,_,shows,fun name mem => ?_⟩
  obtain ⟨sql,item⟩ := listed mem
  split at finish
  · simp only [returnsBind,returnsPure] at finish
    obtain ⟨_,_,_,rfl,_⟩ := finish
    exact .column item
  · simp only [returnsBind,returnsPure] at finish
    obtain ⟨_,_,_,_,_,_,rfl,_⟩ := finish
    exact .all mem_cons_self (mem_append_right _ (mem_singleton_self _)) (.column item)

end Layout

theorem Plan.querySelects {s : Session} {topic} {p : Plan} {before q after} (ok : (p.query s topic).Returns before q after) :
    (∀ u ∈ p.dimensions, q.Selects u.column) ∧
      ∀ u ∈ p.metrics, (p.isUngrouped → u.field.isFormula = false) → q.Selects u.column := by
  simp only [Plan.query,returnsBind,returnsLift] at ok
  obtain ⟨joins,_,_,ok⟩ := ok
  obtain ⟨_,_,_,_,shows,selects⟩ := Layout.querySelects ok
  obtain ⟨dimensions,metrics⟩ := Layout.columnsNamed shows
  exact ⟨fun u mem => selects _ (dimensions u mem),fun u mem plain => selects _ (metrics u mem plain)⟩

theorem TotalsPlan.selectItems {t : TotalsPlan} {s source before select after}
    (ok : (t.select s source).Returns before select after) :
    ∀ u ∈ t.plan.dimensions ++ t.plan.metrics, ∃ sql, SelectItem.column sql u.column ∈ select.items := by
  simp only [TotalsPlan.select,returnsBind,returnsPure] at ok
  obtain ⟨items,_,each,_,_,_,rfl,_⟩ := ok
  have named := returnsEach (R := fun u item => ∃ sql, item = SelectItem.column sql u.column) each
    fun u _ before item after made => by
      simp only [returnsBind,returnsPure] at made
      obtain ⟨sql,_,_,rfl,_⟩ := made
      exact ⟨sql,rfl⟩
  intro u mem
  obtain ⟨_,listed,sql,rfl⟩ := forallMember named mem
  exact ⟨sql,listed⟩

namespace Scope
variable {s : Scope} {nested : Nested} {before after : Progress}

theorem totalsSelects {p : Plan} {q} (ok : (s.totalsQuery p).Returns before q after) :
    ∀ u ∈ p.dimensions ++ p.metrics, q.Selects u.column := by
  simp only [totalsQuery,returnsBind,returnsLift] at ok
  obtain ⟨_,_,_,_,_,_,ok⟩ := ok
  cases spine : s.context.dialect.dateSpine? with
  | none =>
    simp only [spine,returnsBind] at ok
    obtain ⟨_,_,refused,_⟩ := ok
    exact absurd refused returnsFail
  | some sql =>
    simp only [spine,returnsBind,returnsPure,returnsLift] at ok
    obtain ⟨_,_,_,_,_,_,_,_,_,_,_,_,select,_,selects,_,_,_,rfl,_⟩ := ok
    intro u mem
    obtain ⟨sql,item⟩ := TotalsPlan.selectItems selects u mem
    exact .column item

theorem fieldFound {name u} (ok : s.field name = .ok u) : s.project.field name = .ok u := by
  simp only [field,exceptBind] at ok
  obtain ⟨v,found,_,_,same⟩ := ok
  cases same
  exact found

theorem fieldsFound {names uses} (ok : s.fields names = .ok uses) : s.found names = uses := by
  have each := exceptMapM.mp ok
  clear ok
  induction each with
  | nil => rfl
  | cons first _ ih => simpa [found,fieldFound first,Except.toOption] using ih

def asked (s : Scope) (r : Request) : Plan where
  metrics := s.found r.metrics
  dimensions := s.found r.dimensions
  forceGroups := r.forceGroupBy

/- A request by the primary key of its first metric is answered row by row, without groups. -/
def ShowsRows (s : Scope) (r : Request) : Prop :=
  (s.asked r).isUngrouped ∧ ∀ u ∈ s.found r.metrics, s.isCumulative u = .ok false

theorem planAsked {r : Request} {plan} (ok : (s.plan nested r).Returns before plan after) :
    plan.metrics = s.found r.metrics ∧ plan.dimensions = s.found r.dimensions ∧
      plan.isUngrouped = (s.asked r).isUngrouped := by
  simp only [Scope.plan,returnsBind,returnsLift,returnsPure] at ok
  obtain ⟨metrics,_,⟨measures,rfl⟩,dimensions,_,⟨shown,rfl⟩,_,_,_,⟨filters,tables⟩,_,_,_,_,_,_,_,_,_,_,
    _,_,_,_,rfl,_⟩ := ok
  refine ⟨(fieldsFound measures).symm,(fieldsFound shown).symm,?_⟩
  simp only [asked,fieldsFound measures,fieldsFound shown,Plan.isUngrouped]

theorem anyFalse {α : Type} {test : α → Except Error Bool} {xs : List α} (ok : xs.anyM test = .ok false) :
    ∀ x ∈ xs, test x = .ok false := by
  induction xs with
  | nil => exact forall_mem_nil _
  | cons x rest ih =>
    rw [anyM_cons] at ok
    obtain ⟨b,first,later⟩ := exceptBind.mp ok
    cases b with
    | true => cases Except.ok.inj later
    | false => exact forall_mem_cons.mpr ⟨first,ih later⟩

theorem foundMember {names : List String} {name u} (mem : name ∈ names) (known : s.project.field name = .ok u) :
    u ∈ s.found names := mem_filterMap.mpr ⟨name,mem,by rw [known]; rfl⟩

theorem singleSelects {r : Request} {q} (plain : r.funnel = none) (ok : (s.singleQuery nested r).Returns before q after)
    {name u} (mem : name ∈ r.metrics ++ r.dimensions) (known : s.project.field name = .ok u)
    (grouped : u.field.isFormula → ¬ s.ShowsRows r) : q.Selects u.column := by
  simp only [singleQuery,plain,returnsBind,returnsLift] at ok
  obtain ⟨plan,_,planned,cumulative,_,⟨tested,rfl⟩,ok⟩ := ok
  obtain ⟨metrics,dimensions,ungrouped⟩ := planAsked planned
  have listed : u ∈ plan.metrics ∨ u ∈ plan.dimensions := by
    rw [metrics,dimensions]
    exact (mem_append.mp mem).imp (foundMember · known) (foundMember · known)
  cases cumulative with
  | true => exact totalsSelects ok u (mem_append.mpr listed.symm)
  | false =>
    obtain ⟨shown,measures⟩ := Plan.querySelects ok
    rcases listed with metric | dimension
    · refine measures u metric fun single => Bool.eq_false_iff.mpr fun formula => grouped formula ⟨ungrouped ▸ single,?_⟩
      rw [← metrics]
      exact anyFalse tested
    · exact shown u dimension

end Scope
end SemanticSql
