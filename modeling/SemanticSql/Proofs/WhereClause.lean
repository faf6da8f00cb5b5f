import SemanticSql.Proofs.AccessFilters
import SemanticSql.Proofs.FilterText
import SemanticSql.Proofs.LegibleText
import SemanticSql.Proofs.QueryParts

/-! The conditions of a select. Its rows are those that pass every filter of the plan, as long as the SQL of each
filter reads as conditions that all have to hold. -/
namespace SemanticSql

open Sql

variable {single : Prop}

theorem verbJoins {rest tokens} (cut : advance .code [] rest = (.code, [], tokens)) (inert : tokens.all Token.inert)
    {first second} (left : Legible single first) (right : Legible single second) :
    Legible single (first ++ (' ' :: rest ++ second)) :=
  legibleJoint ⟨blankSeparates,cut,inertAllBalanced inert⟩ left right

namespace Predicate

theorem signJoins (op : Comparison) {first second} (left : Legible single first) (right : Legible single second) :
    Legible single (first ++ (op.sign.toList ++ second)) := by
  cases op <;> exact legibleJoint ⟨⟨rfl,by decide⟩,rfl,inertAllBalanced (by decide)⟩ left right

theorem listLegible {d datatype v sql} (ok : listConstant d datatype v = .ok sql) : Legible single sql.toList := by
  obtain ⟨constant,made,same⟩ := exceptBind.mp ok
  have plain := legibleConstant single v made
  have inside : Legible single ("(" ++ constant ++ ")").toList := by
    have none : Legible single [] := legibleNil
    simpa using legibleParen none (legibleConstant False v made)
  cases v <;> cases Except.ok.inj same <;> first | exact plain | exact inside

theorem likeJoins (negated : Bool) {first second} (left : Legible single first) (right : Legible single second) :
    Legible single (first ++ ((if negated then " NOT LIKE " else " LIKE ").toList ++ second)) := by
  cases negated <;> exact verbJoins rfl (by decide) left right

theorem inJoins (negated : Bool) {first second} (left : Legible single first) (right : Legible single second) :
    Legible single (first ++ ((if negated then " NOT IN " else " IN ").toList ++ second)) := by
  cases negated <;> exact verbJoins rfl (by decide) left right

theorem lowerLegible {text : String} (inside : Legible False text.toList) :
    Legible single ("LOWER(" ++ text ++ ")").toList := by
  have name : Legible single "LOWER".toList := legibleWords rfl (by decide)
  simpa using legibleParen name inside

theorem sqlLegible {p : Predicate} {d datatype field value sql} (column : Legible single field.toList)
    (ok : p.sql d datatype field value = .ok sql) : Legible single sql.toList := by
  cases p with
  | compare op =>
    simp only [Predicate.sql,exceptBind] at ok
    obtain ⟨v,_,text,made,same⟩ := ok
    cases Except.ok.inj same
    simpa using signJoins op column (legibleConstant single v made)
  | like =>
    simp only [Predicate.sql,exceptBind] at ok
    obtain ⟨v,_,text,made,same⟩ := ok
    cases Except.ok.inj same
    simpa using likeJoins false column (legibleConstant single v made)
  | occurs place anyCase negated =>
    simp only [Predicate.sql,exceptBind] at ok
    obtain ⟨v,_,same⟩ := ok
    split at same
    · cases Except.ok.inj same
      have pattern : Legible False (quote (place.pattern (patternText v))).toList := legibleQuote _
      simpa only [String.toList_append,List.append_assoc] using
        likeJoins negated (lowerLegible (legibleAny column)) (lowerLegible pattern)
    · cases Except.ok.inj same
      simpa only [String.toList_append,List.append_assoc] using
        likeJoins negated column (legibleQuote (place.pattern (patternText v)))
  | isNull negated =>
    have null : Legible single "NULL".toList := legibleWords rfl (by decide)
    cases negated with
    | false =>
      cases Except.ok.inj ok
      have joined : Legible single (field.toList ++ (" IS ".toList ++ "NULL".toList)) :=
        verbJoins rfl (by decide) column null
      simpa using joined
    | true =>
      cases Except.ok.inj ok
      have joined : Legible single (field.toList ++ (" IS NOT ".toList ++ "NULL".toList)) :=
        verbJoins rfl (by decide) column null
      simpa using joined
  | oneOf negated =>
    simp only [Predicate.sql,exceptBind] at ok
    obtain ⟨v,_,text,made,same⟩ := ok
    cases Except.ok.inj same
    simpa only [String.toList_append,List.append_assoc] using inJoins negated column (listLegible made)
  | isTrue negated =>
    cases negated with
    | false => exact Except.ok.inj ok ▸ column
    | true =>
      cases Except.ok.inj ok
      have not : Legible single "NOT".toList := legibleWords rfl (by decide)
      have joined : Legible single ("NOT".toList ++ (" ".toList ++ field.toList)) := verbJoins rfl rfl not column
      simpa using joined
  | literal => simp [Predicate.sql] at ok
  | inQuery negated => simp [Predicate.sql] at ok

end Predicate

theorem andJoins (first second : List Char) (left : Legible single first) (right : Legible single second) :
    Legible single (first ++ (" AND ".toList ++ second)) := verbJoins rfl (by decide) left right

theorem orJoins (first second : List Char) (left : Legible False first) (right : Legible False second) :
    Legible False (first ++ (" OR ".toList ++ second)) :=
  legibleJoint ⟨blankSeparates,rfl,wordBalanced rfl rfl (by decide) False.elim⟩ left right

theorem Literal.sqlLegible {d clock datatype yesNo field literal sql} (column : Legible single field.toList)
    (ok : Literal.sql d clock datatype yesNo field literal = .ok sql) : Legible single sql.toList := by
  obtain ⟨conditions,_,ok⟩ := exceptBind.mp ok
  obtain ⟨rendered,each,same⟩ := exceptBind.mp ok
  cases Except.ok.inj same
  refine legibleIntercalate andJoins fun text mem => ?_
  obtain ⟨c,_,made⟩ := forallMember (exceptMapM.mp each).flip mem
  exact Predicate.sqlLegible column made

theorem Context.conditionLegible {c : Context} {u predicate value field sql} (column : Legible single field.toList)
    (ok : c.conditionSql u predicate value field = .ok sql) : Legible single sql.toList := by
  unfold Context.conditionSql at ok
  split at ok
  · split at ok
    · exact Literal.sqlLegible column ok
    · contradiction
    · contradiction
    · exact Literal.sqlLegible column ok
  · exact Predicate.sqlLegible column ok

namespace Filter

variable {c : Context} {P : FieldUse → String → Prop}

mutual

inductive Joinable (c : Context) (P : FieldUse → String → Prop) : Prop → Filter → String → Prop
  | condition {one u predicate value column sql} (shown : P u column) (reads : Reads one column)
      (applied : c.conditionSql u predicate value column = .ok sql) :
      Joinable c P one (.condition u predicate value) sql
  | group {one conditions texts} (connective : Connective) (all : AllJoinable c P False conditions texts) :
      Joinable c P one (.group conditions connective)
        ("(" ++ (" " ++ connective.name ++ " ").intercalate texts ++ ")")
  | literal {one parts texts} (each : List.Forall₂ (PartRendered P) parts texts)
      (reads : Reads one (String.join texts)) : Joinable c P one (.literal parts) (String.join texts)
  | inQuery {one u column table name} (negated : Bool) (shown : P u column) (reads : Reads one column)
      (source : Reads False table) (named : Reads False name) :
      Joinable c P one (.inQuery u negated table name)
        (column ++ (if negated then " NOT IN " else " IN ") ++ "(SELECT DISTINCT " ++ name ++ " FROM " ++ table ++ ")")

inductive AllJoinable (c : Context) (P : FieldUse → String → Prop) : Prop → List Filter → List String → Prop
  | nil {one} : AllJoinable c P one [] []
  | cons {one f rest sql texts} (first : Joinable c P one f sql) (others : AllJoinable c P one rest texts) :
      AllJoinable c P one (f :: rest) (sql :: texts)

end

theorem inQueryLegible {column table name : String} (negated : Bool) (left : Legible single column.toList)
    (source : Legible False table.toList) (shown : Legible False name.toList) :
    Legible single (column ++ (if negated then " NOT IN " else " IN ") ++ "(SELECT DISTINCT " ++ name ++ " FROM " ++
      table ++ ")").toList := by
  have words : Legible False "SELECT DISTINCT".toList := legibleWords rfl (by decide)
  have selects : Legible False ("SELECT DISTINCT".toList ++ (" ".toList ++ name.toList)) :=
    verbJoins rfl rfl words shown
  have inner : Legible False
      (("SELECT DISTINCT".toList ++ (" ".toList ++ name.toList)) ++ (" FROM ".toList ++ table.toList)) :=
    verbJoins rfl (by decide) selects source
  have none : Legible single [] := legibleNil
  simpa using Predicate.inJoins negated left (legibleParen none inner)

mutual

theorem joinableLegible (single : Prop) (f : Filter) {sql} (joinable : Joinable c P single f sql) :
    Legible single sql.toList := by
  cases joinable with
  | condition shown reads applied => exact Context.conditionLegible (readsLegible.mp reads) applied
  | group connective all =>
    have none : Legible single [] := legibleNil
    have parts := allJoinableLegible False _ all
    cases connective with
    | and => simpa [Connective.name] using legibleParen none (legibleIntercalate andJoins parts)
    | or => simpa [Connective.name] using legibleParen none (legibleIntercalate orJoins parts)
  | literal each reads => exact readsLegible.mp reads
  | inQuery negated shown reads source named =>
    exact inQueryLegible negated (readsLegible.mp reads) (readsLegible.mp source) (readsLegible.mp named)

theorem allJoinableLegible (single : Prop) (filters : List Filter) {texts}
    (joinable : AllJoinable c P single filters texts) : ∀ text ∈ texts, Legible single text.toList := by
  cases joinable with
  | nil => exact List.forall_mem_nil _
  | cons first others =>
    exact List.forall_mem_cons.mpr ⟨joinableLegible single _ first,allJoinableLegible single _ others⟩

end

end Filter

def Select.Keeps (row : List Token → Option Bool) (s : Select) : Prop :=
  ∀ text, clause "WHERE" " AND " s.conditions = " WHERE " ++ text → Passes row text

theorem Select.keepsJoined {row} {s : Select} (nonempty : s.conditions ≠ []) :
    s.Keeps row ↔ Passes row (" AND ".intercalate s.conditions) := by
  have text : clause "WHERE" " AND " s.conditions = " WHERE " ++ " AND ".intercalate s.conditions := by
    simp [clause,nonempty]
  constructor
  · exact fun keeps => keeps _ text
  · intro passes other same
    rw [text] at same
    have equal : " AND ".intercalate s.conditions = other := by simpa using same
    exact equal ▸ passes

namespace Layout

def Renders (l : Layout) (u : FieldUse) (sql : String) : Prop :=
  ∃ before after, (l.column u).Returns before sql after

theorem conditionsKeepRows {l : Layout} {before q after} (ok : l.query.Returns before q after) :
    ∃ split columns select order, Built l q split columns select order ∧
      Filter.RenderedAll l.context l.Renders l.plan.conditions select.conditions ∧
      (Filter.AllJoinable l.context l.Renders False l.plan.conditions select.conditions → select.conditions ≠ [] →
        ∃ readings, List.Forall₂ (fun text as => Sql.read text = some as) select.conditions readings ∧
          Sql.read (" AND ".intercalate select.conditions) = some (Sql.joined readings)) ∧
      (Filter.AllJoinable l.context l.Renders True l.plan.conditions select.conditions → ∀ row,
        select.Keeps row ↔ ∀ text ∈ select.conditions, Sql.Passes row text) := by
  obtain ⟨split,columns,select,order,built⟩ := queryBuilt ok
  obtain ⟨_,_,filters⟩ := built.filters
  have rendered : Filter.RenderedAll l.context l.Renders l.plan.conditions select.conditions :=
    Filter.sqlOfRendered (fun u before sql after ok => ⟨before,after,ok⟩) _ filters
  refine ⟨split,columns,select,order,built,rendered,fun joinable nonempty => ?_,fun joinable row => ?_⟩
  · have legible := Filter.allJoinableLegible False _ joinable
    obtain ⟨readings,each⟩ := Sql.readingsOf fun text mem => Sql.readsLegible.mpr (legible text mem)
    exact ⟨readings,each,Sql.readJoined each nonempty⟩
  · have legible := Filter.allJoinableLegible True _ joinable
    by_cases nonempty : select.conditions = []
    · simp [Select.Keeps,nonempty,Select.clause]
    · rw [Select.keepsJoined nonempty]
      exact Sql.joinedPasses (fun text mem => Sql.readsLegible.mpr (legible text mem)) nonempty row

def idField : Field := { name := "id", sql := some "$\x7bTABLE\x7d.id" }

def regionField : Field := { name := "region", sql := some "$\x7bTABLE\x7d.region" }

def amountField : Field := { name := "total", role := .measure, type := .sum, sql := some "$\x7bTABLE\x7d.amount" }

def regionalOrders : View where
  name := "orders"
  tableName := some "db.orders"
  fields := [idField,regionField,amountField]
  accessFilters := [{ field := "region", userAttribute := "region" }]

def regionalScope : Scope where
  project := .ofDefinitions { views := [regionalOrders] }
  context := { dialect := .snowflake, now := ⟨⟨2024,1,1⟩,0,0,0,0⟩, userAttributes := [("region", "eu")] }

def orderId : FieldUse := ⟨regionalOrders,idField,none⟩

def inRegion : Filter := .condition ⟨regionalOrders,regionField,none⟩ (.compare .equal) (some (.str "eu"))

def textRequest : Request where
  metrics := ["orders.total"]
  dimensions := ["orders.id"]
  filter := some (.text "orders.id = 1 or orders.id = 2")

def byGroup : Filter := .group
  [.condition orderId (.compare .equal) (some (.int 1)),.condition orderId (.compare .equal) (some (.int 2))] .or

def groupPlan : Plan where
  metrics := [⟨regionalOrders,amountField,none⟩]
  dimensions := [orderId]
  conditions := [inRegion,byGroup]

def conditions? : Query → Option (List String)
  | .mk [] (.select s) _ _ => some s.conditions
  | _ => none

theorem shownConditions {l : Layout} {q split columns select order texts} (built : Built l q split columns select order)
    (shown : conditions? q = some texts) : q.body = .select select ∧ select.conditions = texts := by
  rcases built.whole with ⟨tables,rfl⟩ | ⟨tables,outer,rfl⟩
  · cases tables with
    | nil => exact ⟨rfl,Option.some.inj shown⟩
    | cons t rest => contradiction
  · cases tables <;> contradiction

def textQuery : Compile Query := do
  let plan ← regionalScope.plan Scope.refuseNested textRequest
  plan.query regionalScope.toSession regionalScope.topic

def secondOrder (tokens : List Token) : Option Bool :=
  some (tokens = [.word "orders",.symbol '.',.word "id",.symbol '=',.word "2"])

theorem textAlternativeKeepsMore :
    ¬ ∀ (s : Scope) nested r before plan middle joins q after split columns select order row,
      (s.plan nested r).Returns before plan middle → plan.joinPlan s.toSession s.topic = .ok joins →
      (query { toSession := s.toSession, plan, joins }).Returns middle q after →
      Built { toSession := s.toSession, plan, joins } q split columns select order →
      (select.Keeps row ↔ ∀ text ∈ select.conditions, Passes row text) := by
  intro all
  have texts : (Compile.ran? textQuery).bind conditions? =
    some ["orders.region='eu'","orders.id = 1 or orders.id = 2"] := by decide +kernel
  obtain ⟨q,ran,shown⟩ := Option.bind_eq_some_iff.mp texts
  obtain ⟨after,ok⟩ := Compile.ranReturns ran
  simp only [textQuery,Plan.query,Compile.returnsBind,Compile.returnsLift] at ok
  obtain ⟨plan,_,planned,joins,_,⟨joined,rfl⟩,ok⟩ := ok
  obtain ⟨split,columns,select,order,built⟩ := queryBuilt ok
  have conditions := (shownConditions built shown).2
  have same := all _ _ _ _ _ _ _ _ _ _ _ _ _ secondOrder planned joined ok built
  have kept : select.Keeps secondOrder := by
    rw [Select.keepsJoined (by simp [conditions]),conditions]
    decide +kernel
  have rejected : ¬ Passes secondOrder "orders.region='eu'" := by decide +kernel
  exact rejected (same.mp kept _ (by simp [conditions]))

theorem groupedOrdersInRegion :
    ∃ q after select, (groupPlan.query regionalScope.toSession none).Returns {} q after ∧
      q.body = .select select ∧ ∀ row, select.Keeps row ↔
        Passes row "orders.region='eu'" ∧ Passes row "(orders.id=1 OR orders.id=2)" := by
  have texts : (Compile.ran? (groupPlan.query regionalScope.toSession none)).bind conditions? =
    some ["orders.region='eu'","(orders.id=1 OR orders.id=2)"] := by decide +kernel
  obtain ⟨q,ran,shown⟩ := Option.bind_eq_some_iff.mp texts
  obtain ⟨after,whole⟩ := Compile.ranReturns ran
  obtain ⟨joins,_,found,ok⟩ := Compile.returnsBind.mp whole
  obtain ⟨joined,rfl⟩ := Compile.returnsLift.mp found
  obtain ⟨split,columns,select,order,built,_,_,keeps⟩ := conditionsKeepRows ok
  obtain ⟨body,conditions⟩ := shownConditions built shown
  have symmetric : (groupPlan.joinPlan regionalScope.toSession none).toOption.map JoinPlan.symmetric =
    some [] := by decide +kernel
  simp only [joined,Except.toOption,Option.map_some,Option.some.injEq] at symmetric
  have column (u sql) (ran : Compile.ran? (regionalScope.toSession.groupedSql [] u) = some sql) :
      Renders ⟨regionalScope.toSession,groupPlan,joins⟩ u sql := by
    obtain ⟨after,ok⟩ := Compile.ranReturns ran
    exact ⟨{},after,by rw [Layout.column,symmetric]; exact ok⟩
  have region := column ⟨regionalOrders,regionField,none⟩ "orders.region" (by decide +kernel)
  have id := column orderId "orders.id" (by decide +kernel)
  have reads {single text tokens} (cut : lex .code [] text.toList = some tokens)
      (inert : tokens.all Token.inert) : Reads single text :=
    readsLegible.mpr (legibleWords cut inert)
  have group : Filter.Joinable regionalScope.context _ True byGroup
      ("(" ++ (" " ++ Connective.or.name ++ " ").intercalate ["orders.id=1","orders.id=2"] ++ ")") :=
    .group .or (.cons (.condition id (reads rfl (by decide)) rfl)
      (.cons (.condition id (reads rfl (by decide)) rfl) .nil))
  rw [conditions] at keeps
  have law := keeps (.cons (.condition region (reads rfl (by decide)) rfl) (.cons group .nil))
  exact ⟨q,after,select,whole,body,fun row => by simpa using law row⟩

end Layout

end SemanticSql
