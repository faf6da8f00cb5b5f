import SemanticSql.Proofs.FilterText
import SemanticSql.Proofs.QuotedText

/-! The constants in the SQL of a filter. Apart from those of the fields and of the names that it inserts, they are
the texts that the filter compares with, in order: no value leaves its quotes, and none adds to another. -/
namespace SemanticSql

open List Sql
open Predicate (patternText listConstant occurs)

def Predicate.texts (p : Predicate) (value : Option Value) : List String :=
  match p, value with
  | .compare _, some v => v.texts
  | .like, some v => v.texts
  | .oneOf _, some v => v.texts
  | .occurs place _ _, some v => [place.pattern (patternText v)]
  | _, _ => []

/- A filter literal compares with as many texts as the conditions that it stands for. -/
def Context.comparedTexts (c : Context) (u : FieldUse) (p : Predicate) (value : Option Value) : List (List String) :=
  match p, value with
  | .literal, some v =>
    match Literal.conditions c.clock u.isYesNo (patternText v) with
    | .ok conditions => conditions.map fun k => k.predicate.texts (some k.value)
    | .error _ => []
  | p, value => [p.texts value]

inductive Slot where
  | column (u : FieldUse)
  | name (text : String)
  | text (s : String)

def Slot.name? : Slot → Option String
  | .name s => some s
  | _ => none

namespace Filter

mutual

def isStructured : Filter → Bool
  | condition _ _ _ => true
  | group conditions _ => areStructured conditions
  | literal _ => false
  | inQuery _ _ _ _ => true

def areStructured : List Filter → Bool
  | [] => true
  | f :: rest => f.isStructured && areStructured rest

end

mutual

def slots (c : Context) : Filter → List Slot
  | condition u p value => (c.comparedTexts u p value).flatMap fun texts => .column u :: texts.map .text
  | group conditions _ => slotsOf c conditions
  | literal _ => []
  | inQuery u _ table name => [.column u,.name name,.name table]

def slotsOf (c : Context) : List Filter → List Slot
  | [] => []
  | f :: rest => f.slots c ++ slotsOf c rest

end

def names (c : Context) (f : Filter) : List String := (f.slots c).filterMap Slot.name?

end Filter

def Slot.Holds (P : FieldUse → String → Prop) : Slot → List String → Prop
  | .column u, texts => ∃ sql, P u sql ∧ quotedTexts? sql = some texts
  | .name s, texts => quotedTexts? s = some texts
  | .text s, texts => texts = [s]

def Slot.Fill (P : FieldUse → String → Prop) (slots : List Slot) (sql : String) : Prop :=
  ∃ pieces, List.Forall₂ (Slot.Holds P) slots pieces ∧ quotedTexts? sql = some pieces.flatten

namespace Sql

theorem quotesRequired {p : Predicate} {value v} (ok : p.required value = .ok v) : value = some v := by
  unfold Predicate.required at ok
  split at ok
  · contradiction
  · contradiction
  · exact congrArg some (Except.ok.inj ok)

theorem quotesList {d datatype v list} (ok : listConstant d datatype v = .ok list) : Quotes list.toList v.texts := by
  simp only [listConstant,exceptBind] at ok
  obtain ⟨constant,made,same⟩ := ok
  have inner := quotesConstant v made
  split at same
  · cases Except.ok.inj same
    exact inner
  · cases Except.ok.inj same
    exact quotesEnclosed (by decide) inner (by decide)

section
variable {field : String} {texts : List String} {p : Predicate} {d : Dialect} {datatype : Option Datatype}
  {value : Option Value} {sql : String}

theorem quotesOccurs {place anyCase negated} (shown : Quotes field.toList texts)
    (ok : (occurs place anyCase negated).sql d datatype field value = .ok sql) :
    Quotes sql.toList (texts ++ (occurs place anyCase negated).texts value) := by
  simp only [Predicate.sql,exceptBind] at ok
  obtain ⟨v,required,same⟩ := ok
  cases quotesRequired required
  have pattern := quotesQuote (place.pattern (patternText v))
  have verb : Unquoted (if negated then " NOT LIKE " else " LIKE ").toList ∧
      (if negated then " NOT LIKE " else " LIKE ").toList ≠ [] := by cases negated <;> decide
  split at same
  · cases Except.ok.inj same
    have column : Quotes ("LOWER(" ++ field ++ ")").toList texts := quotesEnclosed (by decide) shown (by decide)
    have lowered := quotesEnclosed (show Unquoted "LOWER(".toList by decide) pattern (show Unquoted ")".toList by decide)
    have whole := quotesJoined column verb.1 verb.2 lowered
    simp only [String.append_assoc] at whole ⊢
    exact whole
  · cases Except.ok.inj same
    exact quotesJoined shown verb.1 verb.2 pattern

theorem quotesPredicate (shown : Quotes field.toList texts) (ok : p.sql d datatype field value = .ok sql) :
    Quotes sql.toList (texts ++ p.texts value) := by
  cases p with
  | compare op =>
    simp only [Predicate.sql,exceptBind] at ok
    obtain ⟨v,required,constant,made,same⟩ := ok
    cases Except.ok.inj same
    cases quotesRequired required
    have sign : Unquoted op.sign.toList ∧ op.sign.toList ≠ [] := by cases op <;> decide
    exact quotesJoined shown sign.1 sign.2 (quotesConstant v made)
  | like =>
    simp only [Predicate.sql,exceptBind] at ok
    obtain ⟨v,required,constant,made,same⟩ := ok
    cases Except.ok.inj same
    cases quotesRequired required
    exact quotesJoined shown (by decide) (by decide) (quotesConstant v made)
  | occurs place anyCase negated => exact quotesOccurs shown ok
  | isNull negated =>
    have none : texts ++ Predicate.texts (.isNull negated) value = texts := append_nil texts
    rw [none]
    cases negated <;>
    · cases Except.ok.inj ok
      rw [String.toList_append]
      exact quotesBefore shown (by decide)
  | oneOf negated =>
    simp only [Predicate.sql,exceptBind] at ok
    obtain ⟨v,required,list,made,same⟩ := ok
    cases Except.ok.inj same
    cases quotesRequired required
    have verb : Unquoted (if negated then " NOT IN " else " IN ").toList ∧
        (if negated then " NOT IN " else " IN ").toList ≠ [] := by cases negated <;> decide
    exact quotesJoined shown verb.1 verb.2 (quotesList made)
  | isTrue negated =>
    have none : texts ++ Predicate.texts (.isTrue negated) value = texts := append_nil texts
    rw [none]
    cases negated with
    | false =>
      cases Except.ok.inj ok
      exact shown
    | true =>
      cases Except.ok.inj ok
      rw [String.toList_append]
      exact quotesBehind (by decide) shown
  | literal => simp [Predicate.sql] at ok
  | inQuery negated => simp [Predicate.sql] at ok

theorem quotesLiteral {clock : Clock} {yesNo : Bool} {literal : String} (shown : Quotes field.toList texts)
    (ok : Literal.sql d clock datatype yesNo field literal = .ok sql) :
    ∃ conditions, Literal.conditions clock yesNo literal = .ok conditions ∧
      Quotes sql.toList (conditions.flatMap fun k => texts ++ k.predicate.texts (some k.value)) := by
  simp only [Literal.sql,exceptBind] at ok
  obtain ⟨conditions,read,rendered,all,same⟩ := ok
  cases Except.ok.inj same
  have each : List.Forall₂ (fun text piece => Quotes text.toList piece) rendered
      (conditions.map fun k => texts ++ k.predicate.texts (some k.value)) := by
    rw [forall₂_map_right_iff]
    exact (exceptMapM.mp all).flip.imp fun _ _ made => quotesPredicate shown made
  exact ⟨conditions,read,quotesIntercalate (by decide) (by decide) each⟩

theorem literalValue {c : Context} {u : FieldUse} (ok : c.conditionSql u .literal value field = .ok sql) :
    ∃ v, value = some v ∧ c.literalSql u field (patternText v) = .ok sql := by
  unfold Context.conditionSql at ok
  rw [if_pos rfl] at ok
  cases value with
  | none => contradiction
  | some v =>
    refine ⟨v,rfl,?_⟩
    cases v with
    | null => contradiction
    | _ => exact ok

theorem quotesCondition {c : Context} {u : FieldUse} (shown : Quotes field.toList texts)
    (ok : c.conditionSql u p value field = .ok sql) :
    Quotes sql.toList ((c.comparedTexts u p value).flatMap fun compared => texts ++ compared) := by
  by_cases isLiteral : p = .literal
  · subst isLiteral
    obtain ⟨v,rfl,applied⟩ := literalValue ok
    obtain ⟨conditions,read,quotes⟩ := quotesLiteral shown applied
    simpa only [Context.comparedTexts,read,flatMap_map] using quotes
  · have single : c.comparedTexts u p value = [p.texts value] := by
      unfold Context.comparedTexts
      split
      · contradiction
      · rfl
    unfold Context.conditionSql at ok
    rw [if_neg isLiteral] at ok
    simpa [single] using quotesPredicate shown ok

end

end Sql

namespace Filter

variable {c : Context} {P : FieldUse → String → Prop}

theorem conditionFill (closed : ∀ u sql, P u sql → QuotesClosed sql) {u p value column sql} (shown : P u column)
    (applied : c.conditionSql u p value column = .ok sql) : Slot.Fill P ((condition u p value).slots c) sql := by
  obtain ⟨texts,quotes⟩ := Option.isSome_iff_exists.mp (closed u column shown)
  have whole := quotesCondition quotes applied
  refine ⟨(c.comparedTexts u p value).flatMap fun compared => texts :: compared.map fun s => [s],?_,?_⟩
  · rw [slots]
    clear whole
    induction c.comparedTexts u p value with
    | nil => exact .nil
    | cons compared rest ih =>
      simp only [flatMap_cons,cons_append]
      refine .cons ⟨column,shown,quotes⟩ (rel_append ?_ ih)
      simp [forall₂_map_left_iff,forall₂_map_right_iff,forall₂_same,Slot.Holds]
  · have same (lists : List (List String)) : (lists.flatMap fun compared => texts ++ compared) =
        (lists.flatMap fun compared => texts :: compared.map fun s => [s]).flatten := by
      induction lists with
      | nil => rfl
      | cons compared rest ih => simp [ih,← flatMap_def]
    rw [← same]
    exact whole

mutual

theorem renderedFill (closed : ∀ u sql, P u sql → QuotesClosed sql) {f : Filter} {sql} (rendered : Rendered c P f sql)
    (structured : f.isStructured) (names : ∀ text ∈ f.names c, QuotesClosed text) : Slot.Fill P (f.slots c) sql := by
  cases rendered with
  | condition shown applied => exact conditionFill closed shown applied
  | group connective all =>
    obtain ⟨groups,pieces,each,holds,same⟩ := allFill closed all (by simpa only [isStructured] using structured) names
    have joint : Unquoted (" " ++ connective.name ++ " ").toList ∧ (" " ++ connective.name ++ " ").toList ≠ [] := by
      cases connective <;> decide
    refine ⟨pieces,holds,?_⟩
    rw [← same]
    exact quotesEnclosed (by decide) (quotesIntercalate joint.1 joint.2 each) (by decide)
  | literal each => contradiction
  | @inQuery u column negated table name shown =>
    obtain ⟨texts,quotes⟩ := Option.isSome_iff_exists.mp (closed u column shown)
    obtain ⟨first,quotesName⟩ := Option.isSome_iff_exists.mp (names name (by simp [Filter.names,slots,Slot.name?]))
    obtain ⟨second,quotesTable⟩ := Option.isSome_iff_exists.mp (names table (by simp [Filter.names,slots,Slot.name?]))
    refine ⟨[texts,first,second],.cons ⟨column,shown,quotes⟩ (.cons quotesName (.cons quotesTable .nil)),?_⟩
    have joint : Unquoted ((if negated then " NOT IN " else " IN ") ++ "(SELECT DISTINCT ").toList ∧
        ((if negated then " NOT IN " else " IN ") ++ "(SELECT DISTINCT ").toList ≠ [] := by cases negated <;> decide
    have source : Quotes (name ++ " FROM " ++ table).toList (first ++ second) :=
      quotesJoined quotesName (by decide) (by decide) quotesTable
    have whole : Quotes (column ++ ((if negated then " NOT IN " else " IN ") ++ "(SELECT DISTINCT ") ++
        ("" ++ (name ++ " FROM " ++ table) ++ ")")).toList (texts ++ (first ++ second)) :=
      quotesJoined quotes joint.1 joint.2 (quotesEnclosed (by decide) source (by decide))
    simpa [String.append_assoc] using quotesOf whole

theorem allFill (closed : ∀ u sql, P u sql → QuotesClosed sql) {filters : List Filter} {texts}
    (all : RenderedAll c P filters texts) (structured : areStructured filters)
    (names : ∀ text ∈ (slotsOf c filters).filterMap Slot.name?, QuotesClosed text) :
    ∃ groups pieces, List.Forall₂ (fun text group => Quotes text.toList group) texts groups ∧
      List.Forall₂ (Slot.Holds P) (slotsOf c filters) pieces ∧ groups.flatten = pieces.flatten := by
  cases all with
  | nil => exact ⟨[],[],.nil,.nil,rfl⟩
  | cons first others =>
    simp only [areStructured,Bool.and_eq_true] at structured
    simp only [slotsOf,filterMap_append,mem_append] at names ⊢
    obtain ⟨pieces,holds,quotes⟩ := renderedFill closed first structured.1 fun text mem => names text (.inl mem)
    obtain ⟨groups,later,each,rest,same⟩ := allFill closed others structured.2 fun text mem => names text (.inr mem)
    exact ⟨pieces.flatten :: groups,pieces ++ later,.cons quotes each,rel_append holds rest,by simp [same]⟩

end

theorem valuesStayQuoted {column : FieldUse → Compile String}
    (closed : ∀ u before sql after, (column u).Returns before sql after → QuotesClosed sql) {f : Filter}
    (structured : f.isStructured) (names : ∀ text ∈ f.names c, QuotesClosed text) {before sql after}
    (ok : (f.sql c column).Returns before sql after) :
    ∃ pieces, List.Forall₂ (Slot.Holds fun u sql => ∃ before after, (column u).Returns before sql after)
      (f.slots c) pieces ∧ quotedTexts? sql = some pieces.flatten := by
  refine renderedFill ?_ (sqlRendered ?_ f ok) structured names
  · rintro u sql ⟨before,after,shown⟩
    exact closed u before sql after shown
  · exact fun u before sql after shown => ⟨before,after,shown⟩

def statusUse : FieldUse := ⟨{ name := "orders" },{ name := "status" },none⟩

def statusColumn (_ : FieldUse) : Compile String := pure "CONCAT(s, '''')"

def statusFilter : Filter :=
  .group [.condition statusUse (.occurs .anywhere false false) (some (.list [.str "'"])),
    .condition statusUse .literal (some (.str "it's, ''")),
    .inQuery statusUse true "t" "'a'"] .or

def statusContext : Context := { dialect := .bigQuery, now := ⟨⟨2024,1,1⟩,0,0,0,0⟩ }

theorem statusClosed (u before sql after) (shown : (statusColumn u).Returns before sql after) : QuotesClosed sql := by
  obtain ⟨rfl,_⟩ := Compile.returnsPure.mp shown
  decide

theorem statusStaysQuoted : ∃ sql after, (statusFilter.sql statusContext statusColumn).Returns {} sql after ∧
    quotedTexts? sql = some ["'","%[\"'\"]%","'","it's","''","'","a"] ∧
    ∃ pieces, List.Forall₂ (Slot.Holds fun u sql => ∃ before after, (statusColumn u).Returns before sql after)
      (statusFilter.slots statusContext) pieces ∧ quotedTexts? sql = some pieces.flatten := by
  have ran : (Compile.ran? (statusFilter.sql statusContext statusColumn)).bind quotedTexts? =
      some ["'","%[\"'\"]%","'","it's","''","'","a"] := by decide +kernel
  obtain ⟨sql,result,texts⟩ := Option.bind_eq_some_iff.mp ran
  obtain ⟨after,returns⟩ := Compile.ranReturns result
  exact ⟨sql,after,returns,texts,valuesStayQuoted statusClosed (by decide) (by decide +kernel) returns⟩

/- The name of a column is inserted as it is, and may end inside of a constant. -/
theorem columnNameOpensQuote : (inQuery statusUse false "cte_1" "it's").isStructured ∧
    (∀ u before sql after, (statusColumn u).Returns before sql after → QuotesClosed sql) ∧
    ((inQuery statusUse false "cte_1" "it's").sql statusContext statusColumn).Returns {}
      "CONCAT(s, '''') IN (SELECT DISTINCT it's FROM cte_1)" {} ∧
    ¬ QuotesClosed "CONCAT(s, '''') IN (SELECT DISTINCT it's FROM cte_1)" :=
  ⟨rfl,statusClosed,rfl,by decide +kernel⟩

end Filter

end SemanticSql
