import SemanticSql.Proofs.DocumentDepth
import SemanticSql.Proofs.NameResolution
import SemanticSql.Proofs.PartFilters

/-! Requests that are contained in others. Compiling a request asks for nothing but requests that are less deep, so
the depth that a compilation allows for makes no difference once it suffices. -/
namespace SemanticSql

open SemanticSql.Filter

namespace FilterSpec
variable {R : String → String → Prop}

mutual

theorem renamedDepth (f : FilterSpec) {g} (renamed : f.Renamed R g) : g.depth = f.depth := by
  cases f with
  | group conditions connective =>
    obtain ⟨others,rfl,all⟩ := by simpa only [Renamed] using renamed
    simp only [depth,allRenamedDepth conditions all]
  | condition field expression value =>
    obtain ⟨name,rfl,_⟩ := by simpa only [Renamed] using renamed
    rfl

theorem allRenamedDepth (filters : List FilterSpec) {others} (renamed : AllRenamed R filters others) :
    depthOf others = depthOf filters := by
  cases filters with
  | nil =>
    cases (by simpa only [AllRenamed] using renamed : others = [])
    rfl
  | cons f rest =>
    obtain ⟨g,tail,rfl,first,later⟩ := by simpa only [AllRenamed] using renamed
    simp only [depthOf,renamedDepth f first,allRenamedDepth rest later]

end

end FilterSpec

namespace Renaming
variable (d : Renaming)

mutual

theorem specDepth (f : FilterSpec) : (d.spec f).depth = f.depth := by
  cases f with
  | group conditions connective => simp only [spec,FilterSpec.depth,specsDepth conditions]
  | condition field expression value => rfl

theorem specsDepth (filters : List FilterSpec) : depthOf (d.specs filters) = depthOf filters := by
  cases filters with
  | nil => rfl
  | cons f rest => simp only [specs,depthOf,specDepth f,specsDepth rest]

end

theorem clauseDepth (c : Clause) : (d.clause c).depth = c.depth := by
  cases c with
  | text sql => rfl
  | list filters => exact d.specsDepth filters
  | single f => exact d.specDepth f

theorem requestDepth (r : Request) : (d.request r).depth = r.depth := by
  have mapped : ∀ clause : Option Clause,
      (clause.map d.clause).toList.map Clause.depth = clause.toList.map Clause.depth := by
    intro clause
    cases clause with
    | none => rfl
    | some c => simp [clauseDepth]
  simp only [Request.depth,request,List.map_append,mapped]

end Renaming

def AlikeBelow (k : Nat) (nested other : Nested) : Prop := ∀ r : Request, r.depth < k → nested r = other r

namespace Scope
variable {s : Scope} {k : Nat} {nested other : Nested}

theorem subqueryDepth {value r name} (ok : readSubquery value = .ok (r, name)) : r.depth < value.depth := by
  unfold readSubquery at ok
  split at ok
  · rename_i query field held _
    have below : query.depth < value.depth := Value.getDepth (Option.filter_eq_some_iff.mp held).1
    split at ok
    · cases ok
    · rename_i inner read
      have shallow : inner.depth < value.depth := Nat.lt_trans (Document.requestDepth read) below
      cases ok
      split
      · exact shallow
      · exact shallow
  · cases ok

theorem liftedSame {α β : Type} {x : Except Error α} {f g : α → Binding β} (same : ∀ a, x = .ok a → f a = g a) :
    ((liftM (liftM x : Compile α) : Binding α) >>= f) = (liftM (liftM x : Compile α) >>= g) := by
  cases x with
  | error e => rfl
  | ok a =>
    show f a = g a
    exact same a rfl

variable {r : Request} {items : List FilterItem}

theorem itemDepth {g item out} (ok : s.itemIn g item = .ok (some out)) : out.clause.depth ≤ item.clause.depth := by
  cases item with
  | text sql =>
    obtain ⟨uses,_,ok⟩ := exceptBind.mp ok
    obtain ⟨all,_,same⟩ := exceptBind.mp ok
    cases all with
    | false => cases same
    | true =>
      cases same
      exact Nat.le_refl _
  | spec f =>
    obtain ⟨found,made,same⟩ := exceptBind.mp ok
    obtain ⟨g,rfl,rfl⟩ := Option.map_eq_some_iff.mp (Except.ok.inj same)
    exact Nat.le_of_eq (FilterSpec.renamedDepth f ((specInRenamed f made g).mp rfl))

theorem partDepth {part : MergePart} (inside : ∀ item ∈ items, item.clause.depth ≤ k) :
    (partRequest r part items).depth ≤ k := by
  refine Request.depthLe.mpr ⟨fun c held => ?_,fun c held => ?_,by simp [partRequest],by simp [partRequest]⟩
  · simp only [partRequest,FilterItem.specClause] at held
    split at held
    · cases held
    · cases held
      refine Document.depthOfLe.mpr fun f mem => ?_
      obtain ⟨item,listed,same⟩ := List.mem_filterMap.mp mem
      cases item with
      | text sql => cases same
      | spec g =>
        cases same
        exact inside _ listed
  · simp only [partRequest,FilterItem.textClause] at held
    split at held
    · cases held
    · cases held
      exact Nat.zero_le k

theorem itemsDepth (inside : r.depth ≤ k) : ∀ item ∈ r.filterItems, item.clause.depth ≤ k := by
  intro item mem
  obtain ⟨filter,_⟩ := Request.depthLe.mp inside
  unfold Request.filterItems at mem
  cases held : r.filter with
  | none => simp [held] at mem
  | some c =>
    simp only [held,Option.map_some,Option.getD_some] at mem
    cases c with
    | text sql =>
      simp only [FilterItem.ofClause] at mem
      split at mem
      · cases mem
      · cases List.mem_singleton.mp mem
        exact Nat.zero_le k
    | list filters =>
      obtain ⟨f,listed,rfl⟩ := List.mem_map.mp mem
      exact Document.depthOfLe.mp (filter _ held) f listed
    | single f =>
      cases List.mem_singleton.mp mem
      exact filter _ held

def compileResolved (s : Scope) (nested : Nested) (r : Request) (merges : Bool) : Compile Query := do
  if r.mergedResult || merges || s.asksMerged r then s.mergedResult nested r
  else
    match ← (s.singleQuery nested r).attempt with
    | .ok query => return query
    | .error e => if e.isRecoverable && !r.singleQuery then s.mergedResult nested r else .fail e

theorem compileSteps : s.compileWith nested r =
    (liftM (s.resolveNames r) : Compile _) >>= fun (resolved, merges) => s.compileResolved nested resolved merges := rfl

theorem subqueryAlike (alike : AlikeBelow k nested other) {value : Value} (inside : value.depth ≤ k) :
    s.subquery nested value = s.subquery other value := by
  refine liftedSame fun found read => ?_
  have same := alike found.1 (Nat.lt_of_lt_of_le (subqueryDepth read) inside)
  simp only [same]

theorem conditionAlike (alike : AlikeBelow k nested other) {field expression value}
    (inside : (FilterSpec.condition field expression value).depth ≤ k) :
    bindCondition s.project (s.subquery nested) field expression value =
      bindCondition s.project (s.subquery other) field expression value := by
  have shallow : (value.getD .null).depth ≤ k := by
    cases value with
    | none => exact Nat.zero_le k
    | some v => exact inside
  simp only [bindCondition,subqueryAlike alike shallow]

mutual

theorem specAlike (alike : AlikeBelow k nested other) (f : FilterSpec) (inside : f.depth ≤ k) :
    bindSpec s.project (s.subquery nested) f = bindSpec s.project (s.subquery other) f := by
  cases f with
  | group conditions connective =>
    simp only [bindSpec,specsAlike alike conditions (by simpa [FilterSpec.depth] using inside)]
  | condition field expression value => simp only [bindSpec,conditionAlike alike inside]

theorem specsAlike (alike : AlikeBelow k nested other) (filters : List FilterSpec) (inside : depthOf filters ≤ k) :
    bindSpecs s.project (s.subquery nested) filters = bindSpecs s.project (s.subquery other) filters := by
  cases filters with
  | nil => simp only [bindSpecs]
  | cons f rest =>
    obtain ⟨first,later⟩ := Nat.max_le.mp (by simpa only [depthOf] using inside)
    simp only [bindSpecs,specAlike alike f first,specsAlike alike rest later]

end

section
variable (alike : AlikeBelow k nested other)
include alike

theorem bindAlike {c : Clause} (inside : c.depth ≤ k) : s.bind nested c = s.bind other c := by
  have clauses : bindClause s.project (s.subquery nested) c = bindClause s.project (s.subquery other) c := by
    cases c with
    | text sql => simp only [bindClause]
    | list filters => simp only [bindClause,specsAlike alike filters inside]
    | single f => simp only [bindClause,specAlike alike f inside]
  simp only [bind,clauses]

theorem bindAllAlike {clauses : List Clause} (inside : ∀ c ∈ clauses, c.depth ≤ k) :
    s.bindAll nested clauses = s.bindAll other clauses := by
  induction clauses with
  | nil => simp only [bindAll]
  | cons c rest ih =>
    obtain ⟨first,later⟩ := List.forall_mem_cons.mp inside
    simp only [bindAll,bindAlike alike first,ih later]

theorem planAlike (inside : r.depth ≤ k) : s.plan nested r = s.plan other r := by
  obtain ⟨filter,having,_⟩ := Request.depthLe.mp inside
  have clauses : ∀ c ∈ r.filter.toList ++ r.having.toList, c.depth ≤ k := by
    simpa [or_imp,forall_and] using ⟨filter,having⟩
  simp only [plan,bindAllAlike alike clauses]

theorem funnelAlike (inside : r.depth ≤ k) {f : Funnel}
    (asked : r.funnel = some f) : s.funnelQuery nested r f = s.funnelQuery other r f := by
  obtain ⟨filter,having,funnel,queries⟩ := Request.depthLe.mp inside
  have rows : { r with having := none, orderBy := none, limit := none, funnel := none }.depth ≤ k :=
    Request.depthLe.mpr ⟨filter,by simp,by simp,queries⟩
  have restricted : s.bindAll nested r.having.toList = s.bindAll other r.having.toList :=
    bindAllAlike alike (by simpa using having)
  have steps : f.steps.mapM (s.bindStep nested) = f.steps.mapM (s.bindStep other) :=
    Compile.mapSame fun c mem => by simp only [bindStep,bindAlike alike (funnel f asked c mem)]
  simp only [funnelQuery,funnelPlan,planAlike alike rows,restricted,steps]

theorem singleAlike (inside : r.depth ≤ k) : s.singleQuery nested r = s.singleQuery other r := by
  unfold singleQuery
  split
  · rename_i f asked
    exact funnelAlike alike inside asked
  · rw [planAlike alike inside]

theorem splitAlike (inside : ∀ item ∈ items, item.clause.depth ≤ k) :
    s.splitItems nested items = s.splitItems other items := by
  induction items with
  | nil => simp only [splitItems]
  | cons item rest ih =>
    obtain ⟨first,later⟩ := List.forall_mem_cons.mp inside
    simp only [splitItems,bindAlike alike first,ih later]

theorem partAlike {part : MergePart} (inside : ∀ item ∈ items, item.clause.depth ≤ k) :
    s.partTable nested r items part = s.partTable other r items part := by
  refine Compile.bindSame fun before applied after each => ?_
  have arrived := Compile.returnsEach each fun item _ _ _ _ made => (Compile.returnsLift.mp made).1
  have shallow : ∀ item ∈ applied.filterMap id, item.clause.depth ≤ k := by
    intro out mem
    obtain ⟨found,listed,rfl⟩ := List.mem_filterMap.mp mem
    obtain ⟨item,known,made⟩ := forallMember arrived.flip listed
    exact Nat.le_trans (itemDepth made) (inside item known)
  rw [singleAlike alike (partDepth shallow)]

theorem mergedAlike (inside : r.depth ≤ k) : s.mergedResult nested r = s.mergedResult other r := by
  have items := itemsDepth inside
  have having : ∀ c ∈ r.having.toList, c.depth ≤ k := by simpa using (Request.depthLe.mp inside).2.1
  have splits : s.splitItems nested ((r.filter.map FilterItem.ofClause).getD []) =
    s.splitItems other ((r.filter.map FilterItem.ofClause).getD []) := splitAlike alike items
  unfold mergedResult
  rw [splits,bindAllAlike alike having]
  split
  · rfl
  · refine bind_congr fun metrics => bind_congr fun dimensions => Compile.bindSame fun before found after split => ?_
    obtain ⟨⟨filters,passed⟩,tables⟩ := found
    have listed : ∀ item ∈ passed, item.clause.depth ≤ k := by
      rw [(splitPassed split).1]
      exact fun item mem => items item (List.mem_filter.mp mem).1
    have parts : ∀ parts : List MergePart,
        parts.mapM (s.partTable nested r passed) = parts.mapM (s.partTable other r passed) :=
      fun parts => Compile.mapSame fun part _ => partAlike alike listed
    simp only [parts]

theorem resolvedAlike (inside : r.depth ≤ k) {merges : Bool} :
    s.compileResolved nested r merges = s.compileResolved other r merges := by
  simp only [compileResolved,mergedAlike alike inside,singleAlike alike inside]

theorem compileAlike (inside : r.depth ≤ k) : s.compileWith nested r = s.compileWith other r := by
  rw [compileSteps,compileSteps]
  refine Compile.bindSame fun before found after resolved => ?_
  obtain ⟨names,_,same⟩ := exceptBind.mp (Compile.returnsLift.mp resolved).1
  cases same
  exact resolvedAlike alike (by rw [Renaming.requestDepth]; exact inside)

end

theorem compileDepth {n m : Nat} (within : r.depth < n) (also : r.depth < m) : s.compile n r = s.compile m r := by
  induction n generalizing m r with
  | zero => contradiction
  | succ n ih =>
    cases m with
    | zero => contradiction
    | succ m =>
      have alike : AlikeBelow r.depth (s.compile n) (s.compile m) := fun inner below => ih (by omega) (by omega)
      exact compileAlike alike (Nat.le_refl _)

end Scope
end SemanticSql
