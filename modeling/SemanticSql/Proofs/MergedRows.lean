import SemanticSql.Proofs.OuterJoins
import SemanticSql.Proofs.PartFilters

/-! The rows of a merged result. A row shows the dimensions of the part that it comes from, and the dimensions that
the first part has are shown once. -/
namespace SemanticSql

open List Results Function

namespace MergePart
variable {V : Type}

def shownColumns (parts : List MergePart) (i : Nat) : List TableColumn :=
  parts.filterMap fun part => part.dimensions[i]?.map fun u => ⟨part.table,u.column⟩

def shownTuple (parts : List MergePart) (width : Nat) (r : JoinedRow (ResultRow V)) : List (Option V) :=
  (List.range width).map fun i => (shownColumns parts i).findSome? fun c => c.value r

theorem shownText (parts : List MergePart) (i : Nat) :
    (shownColumns parts i).map TableColumn.sql = parts.filterMap fun part => part.dimensionColumns[i]? := by
  simp [shownColumns,dimensionColumns,map_filterMap,comp_def,TableColumn.sql]

theorem firstValue {α : Type} {f : α → Option V} {xs : List α} {a : Option V} (each : ∀ x ∈ xs, f x = none ∨ f x = a)
    (found : ∃ x ∈ xs, f x = a) : xs.findSome? f = a := by
  cases a with
  | none => simpa using each
  | some b =>
    have isSome : (xs.findSome? f).isSome := by
      obtain ⟨x,mem,value⟩ := found
      exact findSome?_isSome_iff.mpr ⟨x,mem,by simp [value]⟩
    obtain ⟨c,first⟩ := Option.isSome_iff_exists.mp isSome
    obtain ⟨x,mem,value⟩ := exists_of_findSome?_eq_some first
    rcases each x mem with none | same
    · simp [none] at value
    · exact first.trans (value.symm.trans same)

variable {τ : List (Option V)} {r : JoinedRow (ResultRow V)} {others : List MergePart} {x : ResultRow V}

theorem shownOf {parts : List MergePart} (width : ∀ p ∈ parts, p.dimensions.length = τ.length)
    (same : ∀ p ∈ parts, ∀ y, r p.table = some y → p.tuple y = τ) (held : ∃ p ∈ parts, ∃ y, r p.table = some y) :
    shownTuple parts τ.length r = τ := by
  refine ext_getElem (by simp [shownTuple]) fun i _ inside => ?_
  have entry : ∀ p ∈ parts, ∀ u, p.dimensions[i]? = some u → ∀ y, r p.table = some y → y u.column = τ[i] := by
    intro p mem u dimension y shown
    cases same p mem y shown
    obtain ⟨_,rfl⟩ := List.getElem?_eq_some_iff.mp dimension
    simp [tuple]
  simp only [shownTuple,getElem_map,getElem_range]
  refine firstValue (fun c mem => ?_) ?_
  · obtain ⟨p,listed,made⟩ := mem_filterMap.mp mem
    obtain ⟨u,dimension,rfl⟩ := Option.map_eq_some_iff.mp made
    cases shown : r p.table with
    | none => simp [TableColumn.value,shown]
    | some y => exact .inr (by simp [TableColumn.value,shown,entry p listed u dimension y shown])
  · obtain ⟨p,mem,y,shown⟩ := held
    have short : i < p.dimensions.length := width p mem ▸ inside
    have dimension : p.dimensions[i]? = some p.dimensions[i] := getElem?_eq_getElem short
    refine ⟨⟨p.table,p.dimensions[i].column⟩,mem_filterMap.mpr ⟨p,mem,by simp [dimension]⟩,?_⟩
    simp [TableColumn.value,shown,entry p mem _ dimension y shown]

theorem updatesElsewhere {f : MergePart → Option (ResultRow V)} {table} (apart : ∀ p ∈ others, table ≠ p.table) :
    (others.foldl (fun r p => update r p.table (f p)) r) table = r table := by
  induction others generalizing r with
  | nil => rfl
  | cons p rest ih =>
    obtain ⟨own,later⟩ := forall_mem_cons.mp apart
    rw [foldl_cons,ih later,update_of_ne own]

theorem updatesAt {f : MergePart → Option (ResultRow V)} (apart : others.Pairwise fun p q => p.table ≠ q.table) {p}
    (mem : p ∈ others) : (others.foldl (fun r p => update r p.table (f p)) r) p.table = f p := by
  induction apart generalizing r with
  | nil => contradiction
  | cons own _ ih =>
    rw [foldl_cons]
    rcases mem_cons.mp mem with rfl | later
    · rw [updatesElsewhere own,update_self]
    · exact ih later

structure Parallel (first : MergePart) (others : List MergePart) : Prop where
  width : ∀ p ∈ others, first.dimensions.length = p.dimensions.length
  shown : ∀ p ∈ others, p.dimensions ≠ []
  apart : (first :: others).Pairwise fun p q => p.table ≠ q.table

theorem aloneShows {first : MergePart} (parallel : Parallel first others) {p} (mem : p ∈ first :: others)
    (y : ResultRow V) : shownTuple (first :: others) first.dimensions.length (alone p.table y) = p.tuple y := by
  have widths : ∀ q ∈ first :: others, q.dimensions.length = first.dimensions.length := by
    intro q inside
    rcases mem_cons.mp inside with rfl | later
    · rfl
    · exact (parallel.width q later).symm
  have width : (p.tuple y).length = first.dimensions.length := (length_map ..).trans (widths p mem)
  rw [← width]
  refine shownOf (fun q inside => (widths q inside).trans width.symm) (fun q inside z held => ?_)
    ⟨p,mem,y,update_self ..⟩
  by_cases same : q.table = p.table
  · cases inj_on_of_nodup_map (pairwise_map.mpr parallel.apart) inside mem same
    have value : y = z := by simpa [alone] using held
    rw [value]
  · simp [alone,update_of_ne same] at held

variable [DecidableEq V]

def gathered (db : Results V) (first : MergePart) (others : List MergePart) (x : ResultRow V) :
    JoinedRow (ResultRow V) :=
  others.foldl (fun r p => Function.update r p.table (matched db first p x)) (Results.alone first.table x)

def joinedParts (db : Results V) (d : Dialect) (first : MergePart) (others : List MergePart) :
    List (JoinedRow (ResultRow V)) :=
  db.joinAll first.table (others.map fun p => (p.table, keys d first p))

variable {db : Results V} {first : MergePart} {others : List MergePart} (d : Dialect)

theorem joinedPartsRows (parallel : Parallel first others) (unique : ∀ p ∈ others, p.Unique db) :
    joinedParts db d first others = (db.rows first.table).map (gathered db first others) ++
      others.flatMap fun p => (strays db first p).map (alone p.table) := by
  have start : ∀ x : ResultRow V, alone first.table x first.table = some x := fun x => update_self ..
  have joins : (others.map fun p => (p.table, keys d first p)).foldl db.fullJoin
      ((db.rows first.table).map (alone first.table) ++ []) = _ :=
    fullJoins d unique parallel.width parallel.shown parallel.apart start (by simp)
  rw [append_nil,nil_append] at joins
  exact joins

theorem gatheredShows (parallel : Parallel first others) (x : ResultRow V) :
    shownTuple (first :: others) first.dimensions.length (gathered db first others x) = first.tuple x := by
  have own : gathered db first others x first.table = some x := by
    rw [gathered,updatesElsewhere (pairwise_cons.mp parallel.apart).1]
    exact update_self ..
  have width : (first.tuple x).length = first.dimensions.length := length_map ..
  rw [← width]
  refine shownOf (fun p mem => ?_) (fun p mem y held => ?_) ⟨first,mem_cons_self,x,own⟩
  · rw [width]
    rcases mem_cons.mp mem with rfl | later
    · rfl
    · exact (parallel.width p later).symm
  · rcases mem_cons.mp mem with rfl | later
    · cases own.symm.trans held
      rfl
    · rw [gathered,updatesAt (pairwise_cons.mp parallel.apart).2 later] at held
      have agrees := find?_some held
      simp only [agree,decide_eq_true_eq] at agrees
      exact agrees.1.symm

def holders (db : Results V) (parts : List MergePart) (τ : List (Option V)) : List (String × ResultRow V) :=
  parts.flatMap fun p => ((db.rows p.table).filter fun y => p.tuple y = τ).map (Prod.mk p.table)

def rowsShowing (db : Results V) (d : Dialect) (first : MergePart) (others : List MergePart) (τ : List (Option V)) :
    List (JoinedRow (ResultRow V)) :=
  (joinedParts db d first others).filter fun r => shownTuple (first :: others) first.dimensions.length r = τ

theorem rowsShowingEq (parallel : Parallel first others) (unique : ∀ p ∈ others, p.Unique db)
    (τ : List (Option V)) : rowsShowing db d first others τ =
      ((db.rows first.table).filter fun x => first.tuple x = τ).map (gathered db first others) ++
      others.flatMap fun p => ((strays db first p).filter fun y => p.tuple y = τ).map (alone p.table) := by
  rw [rowsShowing,joinedPartsRows d parallel unique,filter_append,filter_map,filter_flatMap]
  congr 1
  · simp [comp_def,gatheredShows parallel]
  · refine flatMap_congr fun p mem => ?_
    simp [filter_map,comp_def,aloneShows parallel (mem_cons_of_mem _ mem)]

theorem straysLacking (lacks : complete τ → ∀ x ∈ db.rows first.table, first.tuple x ≠ τ)
    (part : MergePart) : ((strays db first part).filter fun y => part.tuple y = τ) =
      (db.rows part.table).filter fun y => part.tuple y = τ := by
  rw [strays,filter_filter]
  refine filter_congr fun y _ => ?_
  by_cases here : part.tuple y = τ
  · have nobody : ∀ x ∈ db.rows first.table, first.agree part x y = false := by
      intro x mem
      simp only [agree,here,decide_eq_false_iff_not]
      rintro ⟨same,full⟩
      exact lacks (same ▸ full) x mem same
    simpa [here] using nobody
  · simp [here]

theorem straysHaving (mem : x ∈ db.rows first.table) (full : complete (first.tuple x))
    (part : MergePart) : ((strays db first part).filter fun y => part.tuple y = first.tuple x) = [] := by
  refine filter_eq_nil_iff.mpr fun y stray same => ?_
  have agrees : first.agree part x y := by
    rw [agreeTuple first part full]
    exact same
  simp only [strays,mem_filter,Bool.not_eq_eq_eq_not,Bool.not_true,any_eq_false] at stray
  exact stray.2 x mem agrees

/- Dimensions of the first part are shown in one row, with the rows of all parts that have them. -/
theorem rowsGathered (parallel : Parallel first others) (unique : ∀ p ∈ first :: others, p.Unique db)
    (mem : x ∈ db.rows first.table) (full : complete (first.tuple x)) :
    ∃ row, rowsShowing db d first others (first.tuple x) = [row] ∧ ∀ p ∈ first :: others,
      row p.table = (db.rows p.table).find? fun y => p.tuple y = first.tuple x := by
  obtain ⟨ownUnique,othersUnique⟩ := forall_mem_cons.mp unique
  obtain ⟨firstApart,othersApart⟩ := pairwise_cons.mp parallel.apart
  have found : ((db.rows first.table).find? fun z => first.tuple z = first.tuple x).isSome := by
    exact find?_isSome.mpr ⟨x,mem,by simp⟩
  obtain ⟨z,sought⟩ := Option.isSome_iff_exists.mp found
  have same : first.tuple z = first.tuple x := by simpa using find?_some sought
  refine ⟨gathered db first others z,?_,fun p listed => ?_⟩
  · rw [rowsShowingEq d parallel othersUnique,heldOne ownUnique full,sought]
    simp [straysHaving mem full]
  · rcases mem_cons.mp listed with rfl | later
    · rw [sought,gathered,updatesElsewhere firstApart]
      exact update_self ..
    · rw [gathered,updatesAt othersApart later,matched,agreeTuple first p (same ▸ full),same]

theorem gatheredAlone (parallel : Parallel first others) (null : ¬ complete (first.tuple x)) :
    gathered db first others x = alone first.table x := by
  have stays : ∀ p ∈ others, alone first.table x p.table = none := fun p mem =>
    update_of_ne ((pairwise_cons.mp parallel.apart).1 p mem).symm _ _
  have never : ∀ p : MergePart, matched db first p x = none := fun p => by simp [matched,agree,null]
  unfold gathered
  clear parallel
  induction others with
  | nil => rfl
  | cons p rest ih =>
    obtain ⟨own,later⟩ := forall_mem_cons.mp stays
    rw [foldl_cons,never,update_eq_self_iff.mpr own.symm]
    exact ih later

/- Otherwise every row that has the dimensions is shown on its own. -/
theorem rowsApart (parallel : Parallel first others) (unique : ∀ p ∈ others, p.Unique db)
    (lacks : complete τ → ∀ x ∈ db.rows first.table, first.tuple x ≠ τ) :
    rowsShowing db d first others τ = (holders db (first :: others) τ).map fun e => alone e.1 e.2 := by
  have own : ((db.rows first.table).filter fun x => first.tuple x = τ).map (gathered db first others) =
      ((db.rows first.table).filter fun x => first.tuple x = τ).map (alone first.table) := by
    refine map_congr_left fun x mem => gatheredAlone parallel fun full => ?_
    obtain ⟨listed,same⟩ := mem_filter.mp mem
    have same : first.tuple x = τ := of_decide_eq_true same
    exact lacks (same ▸ full) x listed same
  rw [rowsShowingEq d parallel unique,own]
  simp [holders,straysLacking lacks,map_flatMap,comp_def]

def OneRow (db : Results V) (d : Dialect) (first : MergePart) (others : List MergePart) (τ : List (Option V)) : Prop :=
  ∃ row, rowsShowing db d first others τ = [row] ∧
    ∀ p ∈ first :: others, ∀ y ∈ db.rows p.table, p.tuple y = τ → row p.table = some y

theorem oneRowFirst (parallel : Parallel first others) (unique : ∀ p ∈ first :: others, p.Unique db) (full : complete τ)
    (has : ∃ x ∈ db.rows first.table, first.tuple x = τ) : OneRow db d first others τ := by
  obtain ⟨x,mem,rfl⟩ := has
  obtain ⟨row,only,shows⟩ := rowsGathered d parallel unique mem full
  refine ⟨row,only,fun p listed y held same => ?_⟩
  have found : y ∈ ((db.rows p.table).find? fun z => p.tuple z = first.tuple x).toList := by
    rw [← heldOne (unique p listed) full]
    exact mem_filter.mpr ⟨held,by simp [same]⟩
  rw [shows p listed]
  exact Option.mem_toList.mp found

theorem oneRowIff (parallel : Parallel first others) (unique : ∀ p ∈ first :: others, p.Unique db)
    (τ : List (Option V)) : OneRow db d first others τ ↔
      (complete τ ∧ ∃ x ∈ db.rows first.table, first.tuple x = τ) ∨
        (holders db (first :: others) τ).length = 1 := by
  by_cases has : complete τ ∧ ∃ x ∈ db.rows first.table, first.tuple x = τ
  · simp [has,oneRowFirst d parallel unique has.1 has.2]
  · have lacks : complete τ → ∀ x ∈ db.rows first.table, first.tuple x ≠ τ :=
      fun full x mem same => has ⟨full,x,mem,same⟩
    have rows := rowsApart d parallel (forall_mem_cons.mp unique).2 lacks
    constructor
    · rintro ⟨row,only,_⟩
      right
      simpa [rows] using congrArg List.length only
    · rintro (first | one)
      · exact absurd first has
      · obtain ⟨e,single⟩ := length_eq_one_iff.mp one
        refine ⟨_,by rw [rows,single,map_singleton],fun p listed y held same => ?_⟩
        have listed : (p.table, y) ∈ holders db (first :: others) τ :=
          mem_flatMap.mpr ⟨p,listed,mem_map_of_mem (mem_filter.mpr ⟨held,by simp [same]⟩)⟩
        rw [single,mem_singleton] at listed
        cases listed
        exact update_self ..

theorem oneRowTwo (parallel : Parallel first others) (unique : ∀ p ∈ first :: others, p.Unique db)
    (few : others.length ≤ 1) (full : complete τ)
    (held : holders db (first :: others) τ ≠ []) : OneRow db d first others τ := by
  by_cases has : ∃ x ∈ db.rows first.table, first.tuple x = τ
  · exact oneRowFirst d parallel unique full has
  · refine (oneRowIff d parallel unique τ).mpr (.inr ?_)
    have lacks : ((db.rows first.table).filter fun x => first.tuple x = τ) = [] := by simpa using has
    cases others with
    | nil => simp [holders,lacks] at held
    | cons p rest =>
      cases length_eq_zero_iff.mp (Nat.le_zero.mp (Nat.le_of_succ_le_succ few))
      have one := heldOne (unique p (by simp)) full
      cases found : (db.rows p.table).find? fun y => p.tuple y = τ with
      | none => simp [holders,lacks,one,found] at held
      | some y => simp [holders,lacks,one,found]

structure RowsOf (db : Results V) (d : Dialect) (first : MergePart) (others : List MergePart) (τ : List (Option V)) :
    Prop where
  one : OneRow db d first others τ ↔
    (Results.complete τ ∧ ∃ x ∈ db.rows first.table, first.tuple x = τ) ∨ (holders db (first :: others) τ).length = 1
  apart : (Results.complete τ → ∀ x ∈ db.rows first.table, first.tuple x ≠ τ) →
    rowsShowing db d first others τ = (holders db (first :: others) τ).map fun e => Results.alone e.1 e.2
  few : others.length ≤ 1 → Results.complete τ → holders db (first :: others) τ ≠ [] → OneRow db d first others τ

end MergePart

namespace Scope
variable {s : Scope} {nested : Nested}
open MergePart (Parallel)

theorem dimensionsShown {names uses} (ok : s.fields names = .ok uses) (asked : names ≠ []) : uses ≠ [] := by
  intro none
  have lengths := (exceptMapM.mp ok).length_eq
  rw [none,length_nil,length_eq_zero_iff] at lengths
  exact asked lengths

theorem partsParallel {metrics dimensions groups first others} (grouped : s.mergeGroups metrics = .ok groups)
    (placed : s.mergeParts groups dimensions = .ok (first :: others)) (shown : dimensions ≠ []) :
    Parallel first others := by
  have each := partsPlaced placed
  have width : ∀ p ∈ first :: others, p.dimensions.length = dimensions.length := by
    intro p mem
    obtain ⟨e,_,of⟩ := forallMember each.flip mem
    exact of.shows.length_eq.symm
  refine ⟨fun p mem => ?_,fun p mem => ?_,?_⟩
  · rw [width first mem_cons_self,width p (mem_cons_of_mem _ mem)]
  · intro none
    have length := width p (mem_cons_of_mem _ mem)
    rw [none,length_nil,eq_comm,length_eq_zero_iff] at length
    exact shown length
  · obtain ⟨_,inOrder,_⟩ := mergeGroupsGrouped grouped
    have names : groups.map Prod.fst = (first :: others).map MergePart.table :=
      forallMap each fun e p of => of.named.symm
    have keys : (groups.map Prod.fst).Pairwise (· ≠ ·) :=
      pairwise_map.mpr (inOrder.sorted.imp fun less => (Dict.keysApart less).symm)
    rw [names] at keys
    exact pairwise_map.mp keys

theorem metricShown {parts u sql} (ok : s.mergedColumn parts u = .ok sql) {p} (mem : p ∈ parts) {m} (inside : m ∈ p.metrics)
    (same : m.same u) :
    ∃ q ∈ parts, (∃ n ∈ q.metrics, n.same u) ∧ sql = (TableColumn.mk q.table u.column).sql := by
  have found : (parts.find? fun q => q.metrics.any fun n => n.same u).isSome :=
    find?_isSome.mpr ⟨p,mem,any_eq_true.mpr ⟨m,inside,same⟩⟩
  obtain ⟨q,first⟩ := Option.isSome_iff_exists.mp found
  simp only [mergedColumn,Session.fuel,Session.readFrom,MergePart.metricColumn?,first,Option.map_some] at ok
  cases ok
  have holds : q.metrics.any fun n => n.same u := by simpa using find?_some first
  exact ⟨q,mem_of_find?_eq_some first,any_eq_true.mp holds,rfl⟩

structure JoinsParts (s : Scope) (metrics dimensions : List FieldUse) (first : MergePart) (others : List MergePart)
    (select : Select) : Prop where
  source : select.source = first.table
  joins : select.joins = others.map fun p => .on "FULL OUTER JOIN" p.table
    (" and ".intercalate ((MergePart.keys s.context.dialect first p).map ColumnEquality.sql))
  dimensions : ∀ i u, dimensions[i]? = some u → .column (MergePart.coalesce s.context.dialect
    ((MergePart.shownColumns (first :: others) i).map TableColumn.sql)) u.column ∈ select.items
  metrics : ∀ u ∈ distinctNames [] (metrics.filter fun u => !u.field.isMergedResult), ∃ p ∈ first :: others,
    (∃ m ∈ p.metrics, m.same u) ∧ .column (TableColumn.mk p.table u.column).sql u.column ∈ select.items

theorem distinctMember {seen : List String} {uses : List FieldUse} {u} (mem : u ∈ distinctNames seen uses) : u ∈ uses := by
  induction uses generalizing seen with
  | nil => exact mem
  | cons v rest ih =>
    rw [distinctNames] at mem
    split at mem
    · exact mem_cons_of_mem v (ih mem)
    · rcases mem_cons.mp mem with rfl | later
      · exact mem_cons_self
      · exact mem_cons_of_mem v (ih later)

theorem metricHeld {metrics dimensions groups parts} (grouped : s.mergeGroups metrics = .ok groups)
    (placed : s.mergeParts groups dimensions = .ok parts) {u} (mem : u ∈ metrics)
    (plain : u.field.isMergedResult = false) : ∃ p ∈ parts, ∃ m ∈ p.metrics, m.same u := by
  obtain ⟨listed,inGroups,asked⟩ := mergeGroupsGrouped grouped
  obtain ⟨e,known,_,m,inside,same⟩ := inGroups.found u ((asked u).mpr ⟨u,mem,.plain plain⟩)
  obtain ⟨p,part,of⟩ := forallMember (partsPlaced placed) known
  exact ⟨p,part,m,of.group ▸ inside,same⟩

theorem selectJoins {metrics dimensions outer first others before select after}
    (ok : (s.mergedSelect (first :: others) metrics dimensions outer).Returns before select after)
    (shown : ∀ p ∈ others, p.dimensions ≠ [])
    (held : ∀ u ∈ metrics, u.field.isMergedResult = false → ∃ p ∈ first :: others, ∃ m ∈ p.metrics, m.same u) :
    s.JoinsParts metrics dimensions first others select := by
  simp only [mergedSelect,Compile.returnsBind,Compile.returnsLift,Compile.returnsPure] at ok
  obtain ⟨items,_,⟨made,rfl⟩,conditions,_,_,rfl,_⟩ := ok
  obtain ⟨own,each,made⟩ := exceptBind.mp made
  obtain ⟨combined,_,same⟩ := exceptBind.mp made
  cases same
  refine ⟨rfl,?_,fun i u there => ?_,fun u mem => ?_⟩
  · exact map_congr_left fun p mem => MergePart.joinWithKeys _ _ _ (shown p mem)
  · refine mem_append_left _ (mem_append_right _ ?_)
    rw [MergePart.shownText]
    exact mem_map.mpr ⟨(u, i),mem_zipIdx_iff_getElem?.mpr there,rfl⟩
  · obtain ⟨item,listed,made⟩ := forallMember (exceptMapM.mp each) mem
    obtain ⟨sql,column,same⟩ := exceptBind.mp made
    cases same
    obtain ⟨inside,plain⟩ := mem_filter.mp (distinctMember mem)
    obtain ⟨p,part,m,metric,alike⟩ := held u inside (by simpa using plain)
    obtain ⟨q,known,holds,rfl⟩ := metricShown column part metric alike
    exact ⟨q,known,holds,mem_append_left _ (mem_append_left _ listed)⟩

theorem mergedRowPerTuple {r before q after} (ok : (s.mergedResult nested r).Returns before q after)
    (asked : r.dimensions ≠ []) :
    ∃ metrics dimensions passed outer groups first others select,
      s.Merged nested r q metrics dimensions passed outer groups (first :: others) select ∧
      s.JoinsParts metrics dimensions first others select ∧
      ∀ (V : Type) [DecidableEq V] (db : Results V), (∀ p ∈ first :: others, p.Unique db) → ∀ τ : List (Option V),
        MergePart.RowsOf db s.context.dialect first others τ := by
  obtain ⟨metrics,dimensions,passed,outer,groups,parts,select,run⟩ := merged ok
  obtain ⟨before,after,selects⟩ := run.selects
  cases parts with
  | nil => exact absurd selects Compile.returnsFail
  | cons first others =>
    have parallel := partsParallel run.grouped run.placed (dimensionsShown run.shown asked)
    refine ⟨metrics,dimensions,passed,outer,groups,first,others,select,run,
      selectJoins selects parallel.shown fun u mem => ?_,fun V _ db unique τ => ⟨?_,?_,?_⟩⟩
    · exact metricHeld run.grouped run.placed (List.mem_append_left _ mem)
    · exact MergePart.oneRowIff _ parallel unique τ
    · exact MergePart.rowsApart _ parallel (List.forall_mem_cons.mp unique).2
    · exact fun few full held => MergePart.oneRowTwo _ parallel unique few full held

def daysRequest : Request where
  metrics := ["orders.revenue","orders.freight","orders.refunds"]
  dimensions := ["orders.placed_date"]

theorem daysRan : ∃ q after, (dispatchScope.mergedResult refuseNested daysRequest).Returns {} q after :=
  Compile.ranSome (by decide +kernel)

def daysTables : List String := ["orders_placed__graph_0","orders_returned__graph_0","orders_shipped__graph_0"]

theorem daysParts {q metrics dimensions passed outer groups parts select}
    (merged : dispatchScope.Merged refuseNested daysRequest q metrics dimensions passed outer groups parts select) :
    parts.map MergePart.table = daysTables ∧ ∀ p ∈ parts, p.dimensions.length = 1 := by
  have asked : dispatchScope.fields daysRequest.metrics = .ok dispatchParts := by rfl
  have shown : dispatchScope.fields daysRequest.dimensions = .ok [placedDate] := by rfl
  have check : (dispatchScope.mergeGroups dispatchParts).toOption.map (List.map Prod.fst) = some daysTables := by
    decide +kernel
  cases asked.symm.trans merged.asked
  cases shown.symm.trans merged.shown
  cases mergedOuter merged (by rfl) rfl
  have grouped : dispatchScope.mergeGroups dispatchParts = .ok groups := merged.grouped
  have each := partsPlaced merged.placed
  rw [grouped] at check
  refine ⟨?_,fun p mem => ?_⟩
  · rw [← forallMap each fun e p of => of.named.symm]
    exact Option.some.inj check
  · obtain ⟨e,_,of⟩ := forallMember each.flip mem
    exact of.shows.length_eq.symm

theorem dayTuple {p : MergePart} (width : p.dimensions.length = 1) : p.tuple (fun _ => some 1) = [some 1] := by
  obtain ⟨u,only⟩ := length_eq_one_iff.mp width
  simp [MergePart.tuple,only]

def busyDay : Results Nat where
  rows _ := [fun _ => some 1]
  asTime := id
  faithful := Function.injective_id

theorem busyDayOnce :
    ∃ q after, (dispatchScope.mergedResult refuseNested daysRequest).Returns {} q after ∧
      ∃ first others, (first :: others).map MergePart.table = daysTables ∧
        MergePart.OneRow busyDay .snowflake first others [some 1] := by
  obtain ⟨q,after,ran⟩ := daysRan
  obtain ⟨metrics,dimensions,passed,outer,groups,first,others,select,merged,_,rows⟩ :=
    mergedRowPerTuple ran (by decide)
  obtain ⟨tables,width⟩ := daysParts merged
  have day : first.tuple (fun _ => some 1) = [some 1] := dayTuple (width first List.mem_cons_self)
  refine ⟨q,after,ran,first,others,tables,(rows Nat busyDay (fun p _ => ?_) [some 1]).one.mpr (.inl ⟨rfl,?_⟩)⟩
  · exact List.pairwise_singleton _ _
  · exact ⟨_,List.mem_cons_self,day⟩

def lateDay : Results Nat where
  rows table := if table = "orders_placed__graph_0" then [] else [fun _ => some 1]
  asTime := id
  faithful := Function.injective_id

theorem lateDayUnique (p : MergePart) : p.Unique lateDay := by
  simp only [MergePart.Unique,lateDay]
  split <;> simp

theorem lateDayRepeated :
    ¬ ∀ (s : Scope) nested r before q after metrics dimensions passed outer groups first others select,
      (s.mergedResult nested r).Returns before q after → r.dimensions ≠ [] →
      s.Merged nested r q metrics dimensions passed outer groups (first :: others) select →
      ∀ (V : Type) [DecidableEq V] (db : Results V), (∀ p ∈ first :: others, p.Unique db) →
      ∀ τ : List (Option V), Results.complete τ → MergePart.holders db (first :: others) τ ≠ [] →
      MergePart.OneRow db s.context.dialect first others τ := by
  intro all
  obtain ⟨q,after,ran⟩ := daysRan
  obtain ⟨metrics,dimensions,passed,outer,groups,parts,select,merged⟩ := merged ran
  obtain ⟨tables,width⟩ := daysParts merged
  obtain ⟨first,others,rfl,placed,tables⟩ := List.map_eq_cons_iff.mp tables
  obtain ⟨returns,rest,rfl,returned,tables⟩ := List.map_eq_cons_iff.mp tables
  obtain ⟨ships,rest,rfl,shipped,tables⟩ := List.map_eq_cons_iff.mp tables
  cases List.map_eq_nil_iff.mp tables
  have held : MergePart.holders lateDay [first,returns,ships] [some 1] =
      [(returns.table, fun _ => some 1),(ships.table, fun _ => some 1)] := by
    simp [MergePart.holders,lateDay,placed,returned,shipped,dayTuple (width returns (by simp)),
      dayTuple (width ships (by simp))]
  have shown := dimensionsShown merged.shown (by decide)
  have one := all _ _ _ _ _ _ _ _ _ _ _ _ _ _ ran (by decide) merged Nat lateDay (fun p _ => lateDayUnique p) [some 1]
    (by decide) (by simp [held])
  have parallel := partsParallel merged.grouped merged.placed shown
  rcases (MergePart.oneRowIff _ parallel (fun p _ => lateDayUnique p) _).mp one with ⟨_,x,mem,_⟩ | single
  · simp [lateDay,placed] at mem
  · simp [held] at single

end Scope
end SemanticSql
