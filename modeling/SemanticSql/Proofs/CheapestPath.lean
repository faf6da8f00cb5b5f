import SemanticSql.JoinPlan.Solve
import SemanticSql.Proofs.JoinPath
import Mathlib.Data.List.Nodup
import Mathlib.Data.List.Perm.Subperm

/-! Cheapest chains of joins. A chain that passes a view twice can be cut short, so a cheapest one has fewer joins
than the graph has views, and the rounds of the table get to it. -/
namespace SemanticSql
open List Route
open JoinPlan (pathCost)

theorem costFrom (weights : List Nat) (n : Nat) : weights.foldl (· + ·) n = n + weights.foldl (· + ·) 0 :=
  (foldl_assoc : weights.foldl (· + ·) (n + 0) = n + weights.foldl (· + ·) 0)

theorem costCons (j : Join) (path : List Join) : pathCost (j :: path) = j.weight + pathCost path := by
  rw [pathCost,pathCost,map_cons,foldl_cons,costFrom,Nat.zero_add]

theorem costAppend (first second : List Join) : pathCost (first ++ second) = pathCost first + pathCost second := by
  rw [pathCost,map_append,foldl_append,costFrom]
  rfl

theorem weightPositive (j : Join) : 0 < j.weight := by
  unfold Join.weight
  cases j.relationship <;> decide

def PassesOnce (source : String) (path : List Join) : Prop := (source :: path.map Join.target).Nodup

theorem passesOnceEnd {source : String} {before after : List Join} {j : Join}
    (once : PassesOnce source (before ++ j :: after)) : PassesOnce j.target after := by
  unfold PassesOnce at once ⊢
  rw [map_append,map_cons,← cons_append] at once
  exact once.of_append_right

/- Induction on the chain. Where the shortened rest comes back to the view that the join leaves, it is enough to go on
from there. -/
theorem leadsShortened {edges source path target} (chain : Leads edges source path target) :
    ∃ short, Leads edges source short target ∧ PassesOnce source short ∧
      (short = path ∨ pathCost short < pathCost path) := by
  induction chain with
  | here view => exact ⟨[],.here view,by simp [PassesOnce],.inl rfl⟩
  | @step j rest target edge next ih =>
    obtain ⟨short,way,once,cost⟩ := ih
    have price : pathCost short ≤ pathCost rest := by
      rcases cost with rfl | less
      · exact Nat.le_refl _
      · exact Nat.le_of_lt less
    have positive := weightPositive j
    by_cases back : j.base ∈ j.target :: short.map Join.target
    · rcases mem_cons.mp back with loop | passed
      · refine ⟨short,loop ▸ way,loop ▸ once,.inr ?_⟩
        rw [costCons]
        omega
      · obtain ⟨k,known,same⟩ := mem_map.mp passed
        obtain ⟨before,after,rfl⟩ := append_of_mem known
        refine ⟨after,same ▸ (leadsSplit way).2.2,same ▸ passesOnceEnd once,.inr ?_⟩
        rw [costAppend,costCons] at price
        rw [costCons]
        omega
    · refine ⟨j :: short,.step edge way,nodup_cons.mpr ⟨back,once⟩,?_⟩
      rw [costCons,costCons]
      rcases cost with rfl | less
      · exact .inl rfl
      · exact .inr (by omega)

namespace JoinGraph

def Closed (g : JoinGraph) : Prop := ∀ j ∈ g.joins, j.base ∈ g.views ∧ j.target ∈ g.views

variable {g : JoinGraph}

theorem addClosed (closed : g.Closed) (j : Join) : (g.add j).Closed := by
  intro k mem
  have known : k ∈ g.joins ∨ k = j := by
    simp only [add] at mem
    split at mem
    · exact .inl mem
    · simpa using mem
  simp only [add,NameSet.mem_insert]
  rcases known with old | rfl
  · obtain ⟨base,target⟩ := closed k old
    exact ⟨.inr (.inr base),.inr (.inr target)⟩
  · exact ⟨.inr (.inl rfl),.inl rfl⟩

theorem addAllClosed (closed : g.Closed) (joins : List Join) : (joins.foldl add g).Closed := by
  induction joins generalizing g with
  | nil => exact closed
  | cons j rest ih => exact ih (addClosed closed j)

theorem ofJoinsClosed (views : List String) (joins : List Join) (bridges : NameSet) :
    (ofJoins views joins bridges).Closed :=
  addAllClosed (by intro j mem; contradiction) joins

theorem leadsInside (closed : g.Closed) {source path target}
    (chain : Leads g.joins source path target) : ∀ j ∈ path, j.target ∈ g.views :=
  fun j mem => (closed j (leadsEdges chain j mem)).2

theorem shortLength (closed : g.Closed) {source path target} (known : source ∈ g.views)
    (chain : Leads g.joins source path target) (once : PassesOnce source path) : path.length < g.views.length := by
  have inside : source :: path.map Join.target ⊆ g.views := by
    intro v mem
    rcases mem_cons.mp mem with rfl | passed
    · exact known
    · obtain ⟨j,member,rfl⟩ := mem_map.mp passed
      exact leadsInside closed chain j member
  have bound := (subperm_of_subset once inside).length_le
  rwa [length_cons,length_map] at bound

theorem stepMember {joins reached v} :
    v ∈ step joins reached ↔ v ∈ reached ∨ ∃ j ∈ joins, j.base ∈ reached ∧ j.target = v := by
  simp [step,NameSet.mem_union,and_assoc]

theorem withinMember {joins} (n : Nat) {reached v} :
    v ∈ within joins n reached ↔ ∃ u ∈ reached, ∃ path, Leads joins u path v ∧ path.length ≤ n := by
  induction n generalizing reached with
  | zero =>
    constructor
    · exact fun mem => ⟨v,mem,[],.here v,Nat.le_refl 0⟩
    · rintro ⟨u,mem,path,chain,short⟩
      cases chain with
      | here => exact mem
      | step => simp at short
  | succ n ih =>
    rw [within,ih]
    constructor
    · rintro ⟨u,mem,path,chain,short⟩
      rcases stepMember.mp mem with old | ⟨j,edge,start,rfl⟩
      · exact ⟨u,old,path,chain,Nat.le_succ_of_le short⟩
      · exact ⟨j.base,start,j :: path,.step edge chain,Nat.succ_le_succ short⟩
    · rintro ⟨u,mem,path,chain,short⟩
      cases chain with
      | here => exact ⟨v,stepMember.mpr (.inl mem),[],.here v,Nat.zero_le n⟩
      | @step j rest _ edge next =>
        exact ⟨j.target,stepMember.mpr (.inr ⟨j,edge,mem,rfl⟩),rest,next,Nat.le_of_succ_le_succ short⟩

theorem reachableMember (closed : g.Closed) {source v} (known : g.containsView source) :
    v ∈ g.reachable source ↔ ∃ path, Leads g.joins source path v := by
  rw [reachable,if_pos known,withinMember]
  constructor
  · rintro ⟨u,mem,path,chain,_⟩
    exact ⟨path,mem_singleton.mp mem ▸ chain⟩
  · rintro ⟨path,chain⟩
    obtain ⟨short,way,once,_⟩ := leadsShortened chain
    have bound := shortLength closed (contains_iff_mem.mp known) way once
    exact ⟨source,mem_singleton.mpr rfl,short,way,Nat.le_of_lt bound⟩

end JoinGraph

namespace Route

theorem insertTargets (r : Route) (table : List Route) :
    (insert r table).map target =
      if r.target ∈ table.map target then table.map target
      else table.map target ++ [r.target] := by
  induction table with
  | nil => simp [insert]
  | cons s rest ih =>
    by_cases same : s.target = r.target
    · have kept : (if r.cost < s.cost then r else s).target = s.target := by
        split
        · exact same.symm
        · rfl
      simp [insert,same,kept]
    · rw [insert,if_neg same,map_cons,ih]
      by_cases known : r.target ∈ rest.map target
      · simp [known]
      · simp [known,Ne.symm same]

theorem insertDistinct {table : List Route} (distinct : (table.map target).Nodup) (r : Route) :
    ((insert r table).map target).Nodup := by
  rw [insertTargets]
  split
  · exact distinct
  · rename_i fresh
    exact (nodup_append.mpr ⟨distinct,nodup_singleton _,by simpa using fresh⟩)

def AtMost (table : List Route) (target : String) (cost : Nat) : Prop :=
  ∃ r ∈ table, r.target = target ∧ r.cost ≤ cost

theorem insertNew (r : Route) (table : List Route) : AtMost (insert r table) r.target r.cost := by
  induction table with
  | nil => exact ⟨r,by simp [insert],rfl,Nat.le_refl _⟩
  | cons s rest ih =>
    rw [insert]
    split
    · rename_i same
      split
      · exact ⟨r,by simp,rfl,Nat.le_refl _⟩
      · rename_i dearer
        exact ⟨s,by simp,same,Nat.le_of_not_lt dearer⟩
    · obtain ⟨t,mem,target,cost⟩ := ih
      exact ⟨t,mem_cons_of_mem s mem,target,cost⟩

theorem insertOld {table target cost} (h : AtMost table target cost) (r : Route) :
    AtMost (insert r table) target cost := by
  obtain ⟨s,mem,aim,bound⟩ := h
  induction table with
  | nil => contradiction
  | cons t rest ih =>
    rw [insert]
    split
    · rename_i same
      rcases mem_cons.mp mem with rfl | later
      · split
        · rename_i cheaper
          exact ⟨r,by simp,same ▸ aim,Nat.le_trans (Nat.le_of_lt cheaper) bound⟩
        · exact ⟨s,by simp,aim,bound⟩
      · exact ⟨s,mem_cons_of_mem _ later,aim,bound⟩
    · rcases mem_cons.mp mem with rfl | later
      · exact ⟨s,by simp,aim,bound⟩
      · obtain ⟨u,known,aim,bound⟩ := ih later
        exact ⟨u,mem_cons_of_mem t known,aim,bound⟩

theorem insertAllOld {table target cost} (h : AtMost table target cost) (new : List Route) :
    AtMost (new.foldl (fun table r => insert r table) table) target cost := by
  induction new generalizing table with
  | nil => exact h
  | cons r rest ih => exact ih (insertOld h r)

theorem insertAllNew {new : List Route} {r : Route} (mem : r ∈ new) (table : List Route) :
    AtMost (new.foldl (fun table r => insert r table) table) r.target r.cost := by
  induction new generalizing table with
  | nil => contradiction
  | cons s rest ih =>
    rcases mem_cons.mp mem with rfl | later
    · exact insertAllOld (insertNew r table) rest
    · exact ih later (insert s table)

theorem insertAllDistinct {table : List Route} (distinct : (table.map target).Nodup) (new : List Route) :
    ((new.foldl (fun table r => insert r table) table).map target).Nodup := by
  induction new generalizing table with
  | nil => exact distinct
  | cons r rest ih => exact ih (insertDistinct distinct r)

def Covers (edges : List Join) (source : String) (n : Nat) (table : List Route) : Prop :=
  ∀ path target, Leads edges source path target → path.length ≤ n → AtMost table target (pathCost path)

theorem leadsLast {edges source path target} (chain : Leads edges source path target) (some : path ≠ []) :
    ∃ front j, path = front ++ [j] ∧ Leads edges source front j.base ∧ j ∈ edges ∧ j.target = target := by
  obtain ⟨front,j,rfl⟩ := eq_nil_or_concat path |>.resolve_left some
  rw [concat_eq_append] at chain ⊢
  obtain ⟨edge,first,last⟩ := leadsSplit chain
  have same : target = j.target := by simpa using leadsEnd last
  exact ⟨front,j,rfl,first,edge,same.symm⟩

theorem roundCovers {edges source n table} (covers : Covers edges source n table) :
    Covers edges source (n + 1) (round edges table) := by
  intro path target chain short
  by_cases old : path.length ≤ n
  · exact insertAllOld (covers path target chain old) _
  · have some : path ≠ [] := fun none => old (by simp [none])
    obtain ⟨front,j,rfl,first,edge,rfl⟩ := leadsLast chain some
    obtain ⟨r,mem,start,cost⟩ := covers front j.base first (by simpa using short)
    have extended : r.extend j ∈ table.flatMap fun r => (edges.filter fun j => j.base == r.target).map r.extend := by
      refine mem_flatMap.mpr ⟨r,mem,mem_map_of_mem (mem_filter.mpr ⟨edge,?_⟩)⟩
      simp [start]
    obtain ⟨s,known,aim,bound⟩ := insertAllNew extended table
    refine ⟨s,known,aim,Nat.le_trans bound ?_⟩
    rw [costAppend,costCons]
    simp only [extend,pathCost,map_nil,foldl_nil,Nat.add_zero]
    exact Nat.add_le_add_right cost j.weight

theorem stableCovers {edges source n table} (covers : Covers edges source n table)
    (stable : round edges table = table) (m : Nat) : Covers edges source (n + m) table := by
  induction m with
  | zero => exact covers
  | succ m ih => exact stable ▸ roundCovers ih

theorem roundsCovers {edges source} (m : Nat) {n table} (covers : Covers edges source n table) :
    Covers edges source (n + m) (rounds edges m table) := by
  induction m generalizing n table with
  | zero => exact covers
  | succ m ih =>
    simp only [rounds]
    split
    · rename_i stable
      exact stableCovers covers stable (m + 1)
    · have next := ih (roundCovers covers)
      rwa [Nat.add_assoc,Nat.add_comm 1 m] at next

structure Priced (table : List Route) : Prop where
  cost : ∀ r ∈ table, r.cost = pathCost r.joins
  distinct : (table.map target).Nodup

theorem roundPriced {edges table} (priced : Priced table) : Priced (round edges table) := by
  refine ⟨fun s mem => ?_,insertAllDistinct priced.distinct _⟩
  rcases insertAllSource mem with new | old
  · obtain ⟨r,known,extended⟩ := mem_flatMap.mp new
    obtain ⟨j,_,rfl⟩ := mem_map.mp extended
    simp [extend,priced.cost r known,pathCost]
  · exact priced.cost s old

theorem roundsPriced {edges} (n : Nat) {table} (priced : Priced table) : Priced (rounds edges n table) := by
  induction n generalizing table with
  | zero => exact priced
  | succ n ih =>
    simp only [rounds]
    split
    · exact priced
    · exact ih (roundPriced priced)

end Route

namespace JoinGraph

theorem routesPriced (g : JoinGraph) (source : String) : Priced (g.routes source) := by
  unfold routes
  split
  · refine roundsPriced _ ⟨fun r mem => ?_,by simp⟩
    cases mem_singleton.mp mem
    rfl
  · exact ⟨fun r mem => (not_mem_nil mem).elim,by simp⟩

variable {g : JoinGraph}

theorem routesCover (closed : g.Closed) {source} (known : g.containsView source) {path target}
    (chain : Leads g.joins source path target) : AtMost (g.routes source) target (pathCost path) := by
  obtain ⟨short,way,once,cost⟩ := leadsShortened chain
  have start : Covers g.joins source 0 [⟨source,0,[]⟩] := by
    intro path target chain none
    cases chain with
    | here => exact ⟨_,mem_singleton.mpr rfl,rfl,Nat.le_refl 0⟩
    | step => simp at none
  have bound := shortLength closed (contains_iff_mem.mp known) way once
  have all := roundsCovers g.views.length start
  rw [routes,if_pos known]
  obtain ⟨r,mem,aim,price⟩ := all short target way (by omega)
  refine ⟨r,mem,aim,Nat.le_trans price ?_⟩
  rcases cost with rfl | less
  · exact Nat.le_refl _
  · exact Nat.le_of_lt less

theorem pathFound (closed : g.Closed) {source target} (known : g.containsView source) {path}
    (chain : Leads g.joins source path target) : ∃ best, g.path? source target = some best := by
  obtain ⟨r,mem,aim,_⟩ := routesCover closed known chain
  have found : ((g.routes source).find? fun r => r.target == target).isSome :=
    find?_isSome.mpr ⟨r,mem,beq_iff_eq.mpr aim⟩
  obtain ⟨s,first⟩ := Option.isSome_iff_exists.mp found
  exact ⟨s.joins,by simp [path?,first]⟩

theorem pathKnown {source target path} (found : g.path? source target = some path) : g.containsView source := by
  by_contra unknown
  simp [path?,routes,unknown] at found

theorem pathCheapest (closed : g.Closed) {source target best}
    (found : g.path? source target = some best) {path} (chain : Leads g.joins source path target) :
    pathCost best ≤ pathCost path := by
  obtain ⟨r,mem,aim,price⟩ := routesCover closed (pathKnown found) chain
  obtain ⟨s,first,rfl⟩ := Option.map_eq_some_iff.mp found
  have priced := routesPriced g source
  have member := mem_of_find?_eq_some first
  have target : s.target = target := by simpa using find?_some first
  have same : s = r := inj_on_of_nodup_map priced.distinct member mem (target.trans aim.symm)
  rw [← priced.cost s member,same]
  exact price

theorem pathPassesOnce (closed : g.Closed) {source target path}
    (found : g.path? source target = some path) : PassesOnce source path := by
  obtain ⟨short,way,once,cost⟩ := leadsShortened (pathLeads found)
  rcases cost with rfl | less
  · exact once
  · exact absurd (pathCheapest closed found way) (Nat.not_le_of_lt less)

theorem pathReaches (closed : g.Closed) {source target} :
    (∃ path, g.path? source target = some path) ↔ target ∈ g.reachable source := by
  by_cases known : g.containsView source
  · rw [reachableMember closed known]
    exact ⟨fun ⟨path,found⟩ => ⟨path,pathLeads found⟩,fun ⟨_,chain⟩ => pathFound closed known chain⟩
  · simp [path?,routes,reachable,known]

end JoinGraph
end SemanticSql
