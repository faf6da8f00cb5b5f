import SemanticSql.Filter.Bound
import SemanticSql.Proofs.CompileRuns

/-! The text of a filter. It is put together from the SQL of the fields that the filter reads, and from nothing
else that depends on them. -/
namespace SemanticSql.Filter

open Compile

variable {c : Context} {P : FieldUse → String → Prop}

def PartRendered (P : FieldUse → String → Prop) : LiteralPart → String → Prop
  | .text s, sql => sql = s
  | .field _ u, sql => P u sql

mutual

inductive Rendered (c : Context) (P : FieldUse → String → Prop) : Filter → String → Prop
  | condition {u predicate value column sql} (shown : P u column)
      (applied : c.conditionSql u predicate value column = .ok sql) : Rendered c P (.condition u predicate value) sql
  | group {conditions texts} (connective : Connective) (all : RenderedAll c P conditions texts) :
      Rendered c P (.group conditions connective)
        ("(" ++ (" " ++ connective.name ++ " ").intercalate texts ++ ")")
  | literal {parts texts} (each : List.Forall₂ (PartRendered P) parts texts) :
      Rendered c P (.literal parts) (String.join texts)
  | inQuery {u column} (negated : Bool) (table name : String) (shown : P u column) :
      Rendered c P (.inQuery u negated table name)
        (column ++ (if negated then " NOT IN " else " IN ") ++ "(SELECT DISTINCT " ++ name ++ " FROM " ++ table ++ ")")

inductive RenderedAll (c : Context) (P : FieldUse → String → Prop) : List Filter → List String → Prop
  | nil : RenderedAll c P [] []
  | cons {f rest sql texts} (first : Rendered c P f sql) (others : RenderedAll c P rest texts) :
      RenderedAll c P (f :: rest) (sql :: texts)

end

variable {column : FieldUse → Compile String}

theorem literalRendered
    (shown : ∀ u before sql after, (column u).Returns before sql after → P u sql) {parts before sql after}
    (ok : (literalSql column parts).Returns before sql after) : Rendered c P (.literal parts) sql := by
  simp only [literalSql,returnsBind,returnsPure] at ok
  obtain ⟨texts,_,each,rfl,_⟩ := ok
  refine .literal (returnsEach each fun part _ before sql after ok => ?_)
  cases part with
  | text s => exact (returnsPure.mp ok).1
  | field token u => exact shown u before sql after ok

mutual

theorem sqlRendered (shown : ∀ u before sql after, (column u).Returns before sql after → P u sql) (f : Filter)
    {before sql after} (ok : (f.sql c column).Returns before sql after) : Rendered c P f sql := by
  cases f with
  | condition u predicate value =>
    simp only [Filter.sql,returnsBind,returnsLift] at ok
    obtain ⟨text,_,read,applied,_⟩ := ok
    exact .condition (shown u _ _ _ read) applied
  | group conditions connective =>
    simp only [Filter.sql,returnsBind,returnsPure] at ok
    obtain ⟨texts,_,all,rfl,_⟩ := ok
    exact .group connective (sqlOfRendered shown conditions all)
  | literal parts => exact literalRendered shown (by simpa only [Filter.sql] using ok)
  | inQuery u negated table name =>
    simp only [Filter.sql,returnsBind,returnsPure] at ok
    obtain ⟨text,_,read,rfl,_⟩ := ok
    exact .inQuery negated table name (shown u _ _ _ read)

theorem sqlOfRendered (shown : ∀ u before sql after, (column u).Returns before sql after → P u sql)
    (filters : List Filter) {before texts after} (ok : (sqlOf c column filters).Returns before texts after) :
    RenderedAll c P filters texts := by
  cases filters with
  | nil =>
    simp only [sqlOf,returnsPure] at ok
    exact ok.1 ▸ .nil
  | cons f rest =>
    simp only [sqlOf,returnsBind,returnsPure] at ok
    obtain ⟨sql,_,first,others,_,later,rfl,_⟩ := ok
    exact .cons (sqlRendered shown f first) (sqlOfRendered shown rest later)

end

end SemanticSql.Filter
