import SemanticSql.Proofs.AccessFilters
import SemanticSql.Proofs.BaseChoice
import SemanticSql.Proofs.ReportedAggregates
import SemanticSql.SingleQuery

/-! Aggregates of a grouped query. A sum, a count or an average of a view whose rows may be repeated is symmetric
wherever a query over joined views shows, filters or orders by it, also inside of formulas. -/
namespace SemanticSql

namespace Session

theorem firstOfAppend {a b : String} {c} (first : a.toList.head? = some c) : (a ++ b).toList.head? = some c := by
  rw [String.toList_append,List.head?_append,first]
  rfl

def Additive.plainFirst : Additive → Char
  | sum => 'S'
  | count => 'C'
  | average => 'A'

def Additive.symmetricFirst : Additive → Char
  | sum => 'C'
  | count => 'N'
  | average => '('

theorem plainStart (a : Additive) (column : String) : (a.plain column).toList.head? = some a.plainFirst := by
  cases a <;> exact firstOfAppend (firstOfAppend rfl)

theorem symmetricStart (a : Additive) (arithmetic : Symmetric.Arithmetic) (value key : String) :
    (a.symmetric.sql arithmetic value key).toList.head? = some a.symmetricFirst := by
  cases a with
  | sum =>
    have start (total real : String) :
        (s!"COALESCE(CAST({total} AS {real}) / CAST(({Symmetric.factor}*1.0) AS {real}), 0)").toList.head? =
          some 'C' := by
      iterate 8 refine firstOfAppend ?_
      rfl
    exact start _ _
  | count =>
    have start : (s!"NULLIF(COUNT(DISTINCT CASE WHEN {value} IS NOT NULL THEN {key} ELSE NULL END),0)").toList.head? =
        some 'N' := by
      iterate 4 refine firstOfAppend ?_
      rfl
    exact start
  | average =>
    exact firstOfAppend (firstOfAppend (firstOfAppend (firstOfAppend rfl)))

theorem symmetricNotPlain {d : Dialect} {a : Additive} {value key sql}
    (form : Symmetric.render d a.symmetric value key = .ok sql) (column : String) : sql ≠ a.plain column := by
  rw [Symmetric.render] at form
  split at form
  · cases Except.ok.inj form
    intro same
    have first := symmetricStart a ‹_› value key
    rw [same,plainStart] at first
    cases a <;> contradiction
  · contradiction
mutual

inductive Grouped (s : Session) (repeated : NameSet) : FieldUse → String → Prop
  | symmetric {u a value key keySql sql} (additive : u.additive? = some a) (view : u.view.name ∈ repeated)
      (primary : u.view.primaryKey? = some key)
      (values : ∃ stack before after, (s.rowSqlIn stack u).Returns before value after)
      (keys : ∃ stack before after,
        (s.rowSqlIn stack { view := u.view, field := key, grain := none }).Returns before keySql after)
      (form : Symmetric.render s.context.dialect a.symmetric value keySql = .ok sql) : Grouped s repeated u sql
  | plain {u a value} (additive : u.additive? = some a) (view : u.view.name ∉ repeated)
      (values : ∃ stack before after, (s.rowSqlIn stack u).Returns before value after) :
      Grouped s repeated u (a.plain value)
  | other {u sql} (notAdditive : u.additive? = none) (notFormula : u.field.type ≠ .number) : Grouped s repeated u sql
  | formula {u template rendered texts} (number : u.field.type = .number) (sql : u.field.sql = some template)
      (renders : s.render template = .ok rendered)
      (parts : GroupedParts s repeated u (Reference.parts rendered) texts) :
      Grouped s repeated u (String.join texts)

inductive GroupedParts (s : Session) (repeated : NameSet) : FieldUse → List Reference.Part → List String → Prop
  | nil (u) : GroupedParts s repeated u [] []
  | text {u rest texts} (t : String) (next : GroupedParts s repeated u rest texts) :
      GroupedParts s repeated u (.text t :: rest) (t :: texts)
  | table {u rest texts} (next : GroupedParts s repeated u rest texts) :
      GroupedParts s repeated u (.name Reference.table :: rest) (u.view.name :: texts)
  | measure {u rest texts token r sql} (look : s.reference u.view u.id token = .ok r) (isMeasure : r.isMeasure)
      (grouped : Grouped s repeated r sql) (next : GroupedParts s repeated u rest texts) :
      GroupedParts s repeated u (.name token :: rest)
        ((if r.field.isFormula then "(" ++ sql ++ ")" else sql) :: texts)
  | row {u rest texts token r sql} (look : s.reference u.view u.id token = .ok r) (isRow : r.isMeasure = false)
      (next : GroupedParts s repeated u rest texts) : GroupedParts s repeated u (.name token :: rest) (sql :: texts)

end

section
variable {s : Session} {repeated : NameSet}

mutual

/- Where the dialect has symmetric aggregates, no aggregate that reports its measures inflates one. -/
theorem reportedGrouped (able : s.context.dialect.hasSymmetricAggregates) {warnings} :
    ∀ {u sql}, Reported s repeated warnings u sql → Grouped s repeated u sql
  | _, _, .symmetric kind view _ primary ⟨stack,before,after,value⟩ ⟨others,start,final,key⟩ form =>
    .symmetric kind view primary ⟨stack,before,after,value⟩ ⟨others,start,final,key⟩ form
  | _, _, .plain kind outside ⟨stack,before,after,value⟩ => .plain kind outside ⟨stack,before,after,value⟩
  | _, _, .inflated _ _ unable _ _ _ => absurd (unable.symm.trans able) (by decide)
  | _, _, .other notAdditive notFormula => .other notAdditive notFormula
  | _, _, .formula number sql renders parts => .formula number sql renders (reportedParts able parts)

theorem reportedParts (able : s.context.dialect.hasSymmetricAggregates) {warnings} :
    ∀ {u parts texts}, ReportedParts s repeated warnings u parts texts → GroupedParts s repeated u parts texts
  | _, _, _, .nil u => .nil u
  | _, _, _, .text t next => .text t (reportedParts able next)
  | _, _, _, .table next => .table (reportedParts able next)
  | _, _, _, .measure look isMeasure inner next =>
    .measure look isMeasure (reportedGrouped able inner) (reportedParts able next)
  | _, _, _, .row look isRow next => .row look isRow (reportedParts able next)

end

theorem groupedNotPlain {u a sql} (grouped : Grouped s repeated u sql) (additive : u.additive? = some a)
    (view : u.view.name ∈ repeated) (column : String) : sql ≠ a.plain column := by
  cases grouped with
  | symmetric kind _ _ _ _ form =>
    rw [additive] at kind
    cases Option.some.inj kind
    exact symmetricNotPlain form column
  | plain _ outside _ => exact absurd view outside
  | other none _ =>
    rw [additive] at none
    contradiction
  | formula number _ _ _ => simp [FieldUse.additive?,number] at additive

end
end Session

namespace Layout

variable {l : Layout}

def Shown (l : Layout) (u : FieldUse) (sql : String) : Prop :=
  u.isMeasure → Session.Grouped l.toSession l.joins.symmetric u sql

def ShownAs (l : Layout) (u : FieldUse) (c : Column) : Prop := c.2 = u.column ∧ l.Shown u c.1

structure Aggregates (l : Layout) (split : Filter.Lifted) (columns : List Column) (select : Select)
    (order : List SortKey) : Prop where
  measures : l.plan.isUngrouped = false → ∃ dimensions measures, columns = dimensions ++ measures ∧
    List.Forall₂ l.ShownAs (l.plan.metrics ++ l.hiddenMetrics split.lifted) measures
  having : Filter.RenderedAll l.context l.Shown split.kept select.having
  order : ∀ key ∈ order, (∃ c ∈ columns, key.key = c.2) ∨ ∃ o ∈ l.plan.order, l.Shown o.u key.key

theorem reportsShown (able : l.context.dialect.hasSymmetricAggregates) {warnings u sql} (reports : l.Reports warnings u sql) :
    l.Shown u sql :=
  fun measure => Session.reportedGrouped able (reports measure)

theorem queryAggregates (able : l.context.dialect.hasSymmetricAggregates) {before q after}
    (ok : l.query.Returns before q after) :
    ∃ split columns select order, Built l q split columns select order ∧ Aggregates l split columns select order := by
  obtain ⟨split,columns,select,order,reported⟩ := queryReported.holds before q after ok (List.Subset.refl _)
  have shown u before sql after (ok : (l.column u).Returns before sql after) : l.Shown u sql :=
    reportsShown able ((columnReports u).holds before sql after ok (List.Subset.refl _))
  obtain ⟨_,_,groups⟩ := reported.groups
  refine ⟨split,columns,select,order,reported.toBuilt,fun grouped => ?_,Filter.sqlOfRendered shown _ groups,?_⟩
  · obtain ⟨dimensions,measures,same,_,columns⟩ := reported.measures grouped
    exact ⟨dimensions,measures,same,columns.imp fun _ _ column => ⟨column.1,reportsShown able column.2⟩⟩
  · exact fun key mem => (reported.order key mem).imp_right fun ⟨o,known,reports⟩ => ⟨o,known,reportsShown able reports⟩

end Layout

theorem aggregatesSymmetric {s : Session} {topic : Option Topic} {p : Plan} {before q after}
    (able : s.context.dialect.hasSymmetricAggregates) (ok : (p.query s topic).Returns before q after) :
    ∃ joins split columns select order, p.joinPlan s topic = .ok joins ∧
      Layout.Built { toSession := s, plan := p, joins } q split columns select order ∧
      Layout.Aggregates { toSession := s, plan := p, joins } split columns select order ∧
      ∀ u sql a, Session.Grouped s joins.symmetric u sql → u.additive? = some a → u.view.name ∈ joins.symmetric →
        ∀ column, sql ≠ a.plain column := by
  simp only [Plan.query,Compile.returnsBind,Compile.returnsLift] at ok
  obtain ⟨joins,_,⟨joined,rfl⟩,ran⟩ := ok
  obtain ⟨split,columns,select,order,built,aggregates⟩ := Layout.queryAggregates able ran
  exact ⟨joins,split,columns,select,order,joined,built,aggregates,
    fun u sql a grouped additive view => Session.groupedNotPlain grouped additive view⟩

def skuField : Field := { name := "sku", sql := some "$\x7bTABLE\x7d.sku" }

def placedField : Field := { name := "placed", role := .group, type := .time, sql := some "$\x7bTABLE\x7d.placed_at" }

def revenueField : Field := { name := "revenue", role := .measure, type := .sum, sql := some "$\x7bTABLE\x7d.amount" }

def totalField : Field :=
  { name := "total_revenue", role := .measure, type := .cumulative, measure := some "revenue" }

def lineView : View where
  name := "lines"
  tableName := some "db.lines"
  fields := [{ name := "id", sql := some "$\x7bTABLE\x7d.id", primaryKey := true },skuField]
  identifiers := [.ofSql "order_id" .foreign "$\x7bTABLE\x7d.order_id"]

def orderView : View where
  name := "orders"
  tableName := some "db.orders"
  defaultDate := some "placed"
  fields := [
    { name := "id", sql := some "$\x7bTABLE\x7d.id", primaryKey := true },placedField,revenueField,totalField]
  identifiers := [.ofSql "order_id" .primary "$\x7bTABLE\x7d.id"]

def lineGraph : JoinGraph where
  views := ["lines","orders"]
  joins := [{
    base := "lines", target := "orders", relationship := .manyToOne, condition := "lines.order_id=orders.id" }]

theorem lineViewsGraph : JoinGraph.ofViews [lineView,orderView] = lineGraph :=
  (JoinGraph.ofViewsSorted (by decide)).trans (by decide +kernel)

def lineScope : Scope where
  project := { Project.ofDefinitions { views := [lineView,orderView] } with graph := lineGraph }
  context := { dialect := .snowflake, now := ⟨⟨2024,1,1⟩,0,0,0,0⟩ }

def revenueBySku : Plan where
  metrics := [⟨orderView,revenueField,none⟩]
  dimensions := [⟨lineView,skuField,none⟩]

theorem revenueSymmetric :
    ∃ q after select sql, (revenueBySku.query lineScope.toSession none).Returns {} q after ∧
      (q.body = .select select ∨ (windowResult, .ofSelect select) ∈ q.tables) ∧
      .column sql "revenue" ∈ select.items ∧ ∀ column, sql ≠ "SUM(" ++ column ++ ")" := by
  have ran : (Compile.ran? (revenueBySku.query lineScope.toSession none)).isSome := by decide +kernel
  obtain ⟨q,result⟩ := Option.isSome_iff_exists.mp ran
  obtain ⟨after,ok⟩ := Compile.ranReturns result
  obtain ⟨joins,split,columns,select,order,joined,built,aggregates,neverPlain⟩ := aggregatesSymmetric rfl ok
  have symmetric : (revenueBySku.joinPlan lineScope.toSession none).toOption.map JoinPlan.symmetric =
    some ["orders"] := by decide +kernel
  simp only [joined,Except.toOption,Option.map_some,Option.some.injEq] at symmetric
  obtain ⟨_,measures,rfl,shown⟩ := aggregates.measures rfl
  have metric : (⟨orderView,revenueField,none⟩ : FieldUse) ∈ revenueBySku.metrics := List.mem_cons_self
  obtain ⟨⟨sql,_⟩,mem,rfl,grouped⟩ := forallMember shown (List.mem_append_left _ metric)
  refine ⟨q,after,select,sql,ok,?_,?_,neverPlain _ sql .sum (grouped rfl) rfl (by rw [symmetric]; decide)⟩
  · rcases built.whole with ⟨_,rfl⟩ | ⟨_,_,rfl⟩
    · exact .inl rfl
    · exact .inr (by simp [Query.tables])
  · rw [built.items]
    exact List.mem_map.mpr ⟨_,List.mem_append_right _ mem,rfl⟩

def Query.selectOf? (q : Query) (table : String) : Option Select :=
  (q.tables.find? fun t => t.1 == table).bind fun t =>
    match t.2 with
    | .mk [] (.select select) [] none => some select
    | _ => none

theorem selectOfMember {q : Query} {table select} (found : q.selectOf? table = some select) :
    (table, .ofSelect select) ∈ q.tables := by
  obtain ⟨t,first,body⟩ := Option.bind_eq_some_iff.mp found
  have name : t.1 = table := by simpa using List.find?_some first
  split at body
  · rename_i whole
    cases Option.some.inj body
    have same : t = (table, .ofSelect select) := Prod.ext name whole
    exact same ▸ List.mem_of_find?_eq_some first
  · contradiction

def totalBySku : Request := { metrics := ["orders.total_revenue"], dimensions := ["lines.sku"] }

def totalPlan : Plan where
  metrics := [⟨orderView,totalField,none⟩]
  dimensions := [⟨lineView,skuField,none⟩]

def revenueTotal : RunningTotal where
  metric := ⟨orderView,totalField,none⟩
  measure := ⟨orderView,revenueField,none⟩
  date := ⟨orderView,placedField,some (.time .raw)⟩

theorem repeatedOrdersInflated :
    ¬ ∀ (d : Definitions) (s : Scope) nested r before q after plan planned metric (t : RunningTotal) joins select a
      column,
      s.project = .ofDefinitions d → s.context.dialect.hasSymmetricAggregates →
      (s.singleQuery nested r).Returns before q after → (s.plan nested r).Returns before plan planned →
      metric ∈ plan.metrics → RunningTotal.ofMetric s.toSession metric = .ok t → metric.field.cumulativeWhere = none →
      (t.rowsPlan plan none).joinPlan s.toSession s.topic = .ok joins → t.measure.additive? = some a →
      t.measure.view.name ∈ joins.symmetric → (t.totalsTable, .ofSelect select) ∈ q.tables →
      .column (a.plain column) t.metric.column ∉ select.items := by
  intro all
  have project : lineScope.project = .ofDefinitions { views := [lineView,orderView] } := by
    rw [lineScope,← lineViewsGraph]
    rfl
  have planned : (lineScope.plan Scope.refuseNested totalBySku).Returns {} totalPlan {} := by rfl
  have shown : ((Compile.ran? (lineScope.singleQuery Scope.refuseNested totalBySku)).bind fun q =>
      (q.selectOf? revenueTotal.totalsTable).map Select.items) = some [
        .column "subquery_orders_total_revenue.sku" "sku",
        .column "SUM(subquery_orders_total_revenue.revenue)" "total_revenue"] := by decide +kernel
  obtain ⟨q,result,found⟩ := Option.bind_eq_some_iff.mp shown
  obtain ⟨select,table,items⟩ := Option.map_eq_some_iff.mp found
  obtain ⟨after,ran⟩ := Compile.ranReturns result
  have symmetric : ((revenueTotal.rowsPlan totalPlan none).joinPlan lineScope.toSession none).toOption.map
      JoinPlan.symmetric = some ["orders"] := by decide +kernel
  cases joined : (revenueTotal.rowsPlan totalPlan none).joinPlan lineScope.toSession none with
  | error e => simp [joined,Except.toOption] at symmetric
  | ok joins =>
    simp only [joined,Except.toOption,Option.map_some,Option.some.injEq] at symmetric
    refine all _ lineScope _ _ _ _ _ _ _ _ revenueTotal joins select .sum "subquery_orders_total_revenue.revenue"
      project rfl ran planned List.mem_cons_self rfl rfl joined rfl (by rw [symmetric]; decide)
      (selectOfMember table) ?_
    rw [items]
    decide

end SemanticSql
