import SemanticSql.MergedResult
import SemanticSql.Proofs.JoinedRows

/-! Full outer joins of tables with nullable columns. A row of the result shows for each table one of its rows or
none. -/
namespace SemanticSql

open List

structure TableColumn where
  table : String
  name : String

def TableColumn.sql (c : TableColumn) : String := c.table ++ "." ++ c.name

structure ColumnEquality where
  left : TableColumn
  right : TableColumn
  asTimes : Bool

def ColumnEquality.sql (e : ColumnEquality) : String :=
  if e.asTimes then "CAST(" ++ e.left.sql ++ " AS TIMESTAMP)=CAST(" ++ e.right.sql ++ " AS TIMESTAMP)"
  else e.left.sql ++ "=" ++ e.right.sql

abbrev ResultRow (V : Type) := String → Option V

def TableColumn.value {V : Type} (c : TableColumn) (r : JoinedRow (ResultRow V)) : Option V :=
  (r c.table).bind fun row => row c.name

structure Results (V : Type) where
  rows : String → List (ResultRow V)
  asTime : V → V
  faithful : Function.Injective asTime

namespace Results
variable {V : Type}

def alone (table : String) (row : ResultRow V) : JoinedRow (ResultRow V) :=
  Function.update (fun _ => none) table (some row)

def complete (tuple : List (Option V)) : Bool := tuple.all Option.isSome

variable [DecidableEq V] (db : Results V)

def equal (r : JoinedRow (ResultRow V)) (e : ColumnEquality) : Bool :=
  match e.left.value r, e.right.value r with
  | some a, some b => if e.asTimes then db.asTime a = db.asTime b else a = b
  | _, _ => false

def pairs (table : String) (on : List ColumnEquality) (r : JoinedRow (ResultRow V)) (row : ResultRow V) : Bool :=
  on.all (db.equal (Function.update r table (some row)))

def leftRows (join : String × List ColumnEquality) (r : JoinedRow (ResultRow V)) : List (JoinedRow (ResultRow V)) :=
  match (db.rows join.1).filter (db.pairs join.1 join.2 r) with
  | [] => [Function.update r join.1 none]
  | row :: more => (row :: more).map fun row => Function.update r join.1 (some row)

def fullJoin (all : List (JoinedRow (ResultRow V))) (join : String × List ColumnEquality) :
    List (JoinedRow (ResultRow V)) :=
  all.flatMap (db.leftRows join) ++
    ((db.rows join.1).filter fun row => !all.any fun r => db.pairs join.1 join.2 r row).map (alone join.1)

def joinAll (source : String) (joins : List (String × List ColumnEquality)) : List (JoinedRow (ResultRow V)) :=
  joins.foldl db.fullJoin ((db.rows source).map (alone source))

theorem leftRowsOne {join r} {partner : Option (ResultRow V)}
    (one : (db.rows join.1).filter (db.pairs join.1 join.2 r) = partner.toList) :
    db.leftRows join r = [Function.update r join.1 partner] := by
  unfold leftRows
  rw [one]
  cases partner with
  | none => rfl
  | some row => rfl

theorem equalSome {r : JoinedRow (ResultRow V)} {e : ColumnEquality} :
    db.equal r e ↔ ∃ a, e.left.value r = some a ∧ e.right.value r = some a := by
  unfold equal
  split
  · rename_i a b left right
    rw [left,right]
    split
    · simp [db.faithful.eq_iff,eq_comm]
    · simp [eq_comm]
  · rename_i none
    constructor
    · intro ok
      cases ok
    · rintro ⟨a,left,right⟩
      exact absurd right (none a a left)

end Results

namespace MergePart
variable {V : Type}

def tuple (part : MergePart) (row : ResultRow V) : List (Option V) := part.dimensions.map fun u => row u.column

def castsTimes (d : Dialect) (u v : FieldUse) : Bool :=
  d = .bigQuery ∧ Grain.isTime u.grain ∧ Grain.isTime v.grain ∧ u.field.datatype ≠ v.field.datatype

def keys (d : Dialect) (first part : MergePart) : List ColumnEquality :=
  List.zipWith (fun u v => ⟨⟨first.table,u.column⟩,⟨part.table,v.column⟩,castsTimes d u v⟩) first.dimensions
    part.dimensions

variable (d : Dialect)

theorem joinWithKeys (first part : MergePart) (shown : part.dimensions ≠ []) :
    first.joinWith d part = .on "FULL OUTER JOIN" part.table
      (" and ".intercalate ((keys d first part).map ColumnEquality.sql)) := by
  have text : ∀ u v, equality d (first.table ++ "." ++ u.column) u (part.table ++ "." ++ v.column) v =
      ColumnEquality.sql ⟨⟨first.table,u.column⟩,⟨part.table,v.column⟩,castsTimes d u v⟩ := by
    intro u v
    simp [equality,ColumnEquality.sql,castsTimes,TableColumn.sql,toString]
  simp [joinWith,shown,keys,map_zipWith,text]

variable [DecidableEq V]

def agree (first part : MergePart) (x y : ResultRow V) : Bool :=
  first.tuple x = part.tuple y ∧ Results.complete (first.tuple x)

variable {db : Results V} {part first : MergePart}

theorem keysAgree (width : first.dimensions.length = part.dimensions.length) {r : JoinedRow (ResultRow V)} {x y}
    (left : r first.table = some x) (right : r part.table = some y) :
    (keys d first part).all (db.equal r) = first.agree part x y := by
  rw [Bool.eq_iff_iff]
  unfold keys agree tuple Results.complete
  generalize first.dimensions = us at width
  generalize part.dimensions = vs at width
  induction us generalizing vs with
  | nil =>
    cases vs with
    | nil => simp
    | cons v vs => cases width
  | cons u us ih =>
    cases vs with
    | nil => cases width
    | cons v vs =>
      have rest := ih vs (Nat.succ.inj width)
      have head : (∃ a, x u.column = some a ∧ y v.column = some a) ↔
          x u.column = y v.column ∧ (x u.column).isSome := by
        cases x u.column <;> simp [eq_comm]
      simp only [decide_eq_true_eq] at rest
      simp only [zipWith_cons_cons,all_cons,Bool.and_eq_true,rest,Results.equalSome,TableColumn.value,left,
        right,Option.bind_some,head,map_cons,List.cons.injEq,decide_eq_true_eq]
      tauto

theorem keysNull (width : first.dimensions.length = part.dimensions.length) (shown : part.dimensions ≠ [])
    {r : JoinedRow (ResultRow V)} (left : r first.table = none) : (keys d first part).all (db.equal r) = false := by
  unfold keys
  obtain ⟨v,vs,right⟩ := exists_cons_of_ne_nil shown
  cases dimensions : first.dimensions with
  | nil => simp [dimensions,right] at width
  | cons u us =>
    have unequal : ¬ db.equal r ⟨⟨first.table,u.column⟩,⟨part.table,v.column⟩,castsTimes d u v⟩ := by
      simp [Results.equalSome,TableColumn.value,left]
    simp [right,unequal]

def Unique (db : Results V) (part : MergePart) : Prop :=
  (db.rows part.table).Pairwise fun y z => Results.complete (part.tuple y) → part.tuple y ≠ part.tuple z

def matched (db : Results V) (first part : MergePart) (x : ResultRow V) : Option (ResultRow V) :=
  (db.rows part.table).find? (first.agree part x)

def strays (db : Results V) (first part : MergePart) : List (ResultRow V) :=
  (db.rows part.table).filter fun y => !(db.rows first.table).any fun x => first.agree part x y

theorem heldOne (unique : part.Unique db) {τ : List (Option V)}
    (full : Results.complete τ) : (db.rows part.table).filter (fun y => part.tuple y = τ) =
      ((db.rows part.table).find? fun y => part.tuple y = τ).toList := by
  unfold Unique at unique
  generalize db.rows part.table = rows at unique
  induction unique with
  | nil => rfl
  | @cons y rest apart _ ih =>
    by_cases here : part.tuple y = τ
    · have only : rest.filter (fun z => part.tuple z = τ) = [] := by
        refine filter_eq_nil_iff.mpr fun z mem also => ?_
        exact apart z mem (here ▸ full) (here.trans (of_decide_eq_true also).symm)
      simp [here,only]
    · simp [here,ih]

theorem agreeTuple (first part : MergePart) {x : ResultRow V} (full : Results.complete (first.tuple x)) :
    first.agree part x = fun y => decide (part.tuple y = first.tuple x) := by
  funext y
  simp [agree,full,eq_comm]

theorem agreeOne (unique : part.Unique db) (x : ResultRow V) :
    (db.rows part.table).filter (first.agree part x) = (matched db first part x).toList := by
  unfold matched
  by_cases full : Results.complete (first.tuple x)
  · rw [agreeTuple first part full]
    exact heldOne unique full
  · have never : first.agree part x = fun _ => false := funext fun y => by simp [agree,full]
    simp [never]

section
variable (d : Dialect) {r : JoinedRow (ResultRow V)} (width : first.dimensions.length = part.dimensions.length)
  (apart : first.table ≠ part.table)
include width apart

theorem pairsShown {x} (shows : r first.table = some x) :
    db.pairs part.table (keys d first part) r = first.agree part x := by
  funext y
  refine keysAgree d width ?_ (Function.update_self ..)
  rw [Function.update_of_ne apart,shows]

theorem pairsHidden (shown : part.dimensions ≠ []) (lacks : r first.table = none) :
    db.pairs part.table (keys d first part) r = fun _ => false := by
  funext y
  refine keysNull d width shown ?_
  rw [Function.update_of_ne apart,lacks]

theorem leftRowsShown (unique : part.Unique db) {x} (shows : r first.table = some x) :
    db.leftRows (part.table, keys d first part) r = [Function.update r part.table (matched db first part x)] := by
  refine db.leftRowsOne ?_
  rw [pairsShown d width apart shows]
  exact agreeOne unique x

theorem leftRowsHidden (shown : part.dimensions ≠ []) (lacks : r first.table = none ∧ r part.table = none) :
    db.leftRows (part.table, keys d first part) r = [r] := by
  have nobody : (db.rows part.table).filter (db.pairs part.table (keys d first part) r) = Option.toList none := by
    simp [pairsHidden d width apart shown lacks.1]
  rw [db.leftRowsOne nobody,Function.update_eq_self_iff.mpr lacks.2.symm]

/- One more part: a row that shows the first part is extended, and every other row stays alone. -/
theorem fullJoinStep (unique : part.Unique db) (shown : part.dimensions ≠ [])
    {extend : ResultRow V → JoinedRow (ResultRow V)} (keeps : ∀ x, extend x first.table = some x)
    {stray : List (JoinedRow (ResultRow V))} (lacks : ∀ r ∈ stray, r first.table = none ∧ r part.table = none) :
    db.fullJoin ((db.rows first.table).map extend ++ stray) (part.table, keys d first part) =
      (db.rows first.table).map (fun x => Function.update (extend x) part.table (matched db first part x)) ++
        (stray ++ (strays db first part).map (Results.alone part.table)) := by
  have left : ((db.rows first.table).map extend ++ stray).flatMap (db.leftRows (part.table, keys d first part)) =
      (db.rows first.table).map (fun x => Function.update (extend x) part.table (matched db first part x)) ++ stray := by
    have stays : ∀ r ∈ stray, db.leftRows (part.table, keys d first part) r = [r] :=
      fun r mem => leftRowsHidden d width apart shown (lacks r mem)
    rw [flatMap_append,flatMap_map,flatMap_congr stays]
    simp [leftRowsShown d width apart unique (keeps _),← map_eq_flatMap]
  have right : ∀ y, (((db.rows first.table).map extend ++ stray).any fun r =>
      db.pairs part.table (keys d first part) r y) = (db.rows first.table).any fun x => first.agree part x y := by
    intro y
    have nobody : stray.any (fun r => db.pairs part.table (keys d first part) r y) = false := by
      simpa using fun r mem => congrFun (pairsHidden d width apart shown (lacks r mem).1) y
    rw [any_append,nobody,Bool.or_false,any_map]
    exact congrArg _ (funext fun x => congrFun (pairsShown d width apart (keeps x)) y)
  unfold Results.fullJoin strays
  simp only [left,right,append_assoc]

end

theorem fullJoins {db : Results V} {first : MergePart} {others : List MergePart} (unique : ∀ p ∈ others, p.Unique db)
    (width : ∀ p ∈ others, first.dimensions.length = p.dimensions.length) (shown : ∀ p ∈ others, p.dimensions ≠ [])
    (apart : (first :: others).Pairwise fun p q => p.table ≠ q.table) {extend : ResultRow V → JoinedRow (ResultRow V)}
    (keeps : ∀ x, extend x first.table = some x) {stray : List (JoinedRow (ResultRow V))}
    (lacks : ∀ r ∈ stray, ∀ p ∈ first :: others, r p.table = none) :
    (others.map fun p => (p.table, keys d first p)).foldl db.fullJoin ((db.rows first.table).map extend ++ stray) =
      (db.rows first.table).map (fun x =>
        others.foldl (fun r p => Function.update r p.table (matched db first p x)) (extend x)) ++
        (stray ++ others.flatMap fun p => (strays db first p).map (Results.alone p.table)) := by
  induction others generalizing extend stray with
  | nil => simp
  | cons p rest ih =>
    obtain ⟨firstApart,restApart⟩ := pairwise_cons.mp apart
    obtain ⟨partApart,laterApart⟩ := pairwise_cons.mp restApart
    have fresh : ∀ q ∈ first :: rest, q.table ≠ p.table := by
      intro q mem
      rcases mem_cons.mp mem with rfl | later
      · exact firstApart p mem_cons_self
      · exact (partApart q later).symm
    have step := fullJoinStep d (width p mem_cons_self) (fresh first mem_cons_self) (unique p mem_cons_self)
      (shown p mem_cons_self) keeps (fun r mem =>
        ⟨lacks r mem first mem_cons_self,lacks r mem p (mem_cons_of_mem _ mem_cons_self)⟩)
    rw [map_cons,foldl_cons,step,ih (fun q mem => unique q (mem_cons_of_mem p mem))
      (fun q mem => width q (mem_cons_of_mem p mem)) (fun q mem => shown q (mem_cons_of_mem p mem))
      (pairwise_cons.mpr ⟨fun q mem => firstApart q (mem_cons_of_mem p mem),laterApart⟩)]
    · simp [append_assoc]
    · intro x
      rw [Function.update_of_ne (fresh first mem_cons_self),keeps]
    · intro r mem q inside
      rcases mem_append.mp mem with old | new
      · refine lacks r old q ?_
        rcases mem_cons.mp inside with rfl | later
        · exact mem_cons_self
        · exact mem_cons_of_mem _ (mem_cons_of_mem p later)
      · obtain ⟨y,_,rfl⟩ := mem_map.mp new
        exact Function.update_of_ne (fresh q inside) _ _

end MergePart
end SemanticSql
