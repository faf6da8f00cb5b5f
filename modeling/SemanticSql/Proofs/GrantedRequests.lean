import SemanticSql.Proofs.GrantedFields
import SemanticSql.Proofs.ListedQueries

/-! Requests that are answered on behalf of a user, with the requests that they list and those that their filters hold.
Whichever way each of them is compiled, every field that it names is permitted. -/
namespace SemanticSql

open List Compile

theorem holdsMember {filters : List FilterSpec} {q} : holdsOf filters q ↔ ∃ f ∈ filters, f.Holds q := by
  induction filters with
  | nil => simp [holdsOf]
  | cons f rest ih => simp [holdsOf,ih]

namespace FilterSpec
variable {R : String → String → Prop} {q : Request}

mutual

theorem renamedHolds (f : FilterSpec) {g} (renamed : f.Renamed R g) (held : f.Holds q) : g.Holds q := by
  cases f with
  | group conditions connective =>
    obtain ⟨others,rfl,all⟩ := by simpa only [Renamed] using renamed
    simp only [Holds] at held ⊢
    exact allRenamedHolds conditions all held
  | condition field expression value =>
    obtain ⟨name,rfl,_⟩ := by simpa only [Renamed] using renamed
    exact held

theorem allRenamedHolds (filters : List FilterSpec) {others} (renamed : AllRenamed R filters others)
    (held : holdsOf filters q) : holdsOf others q := by
  cases filters with
  | nil => exact held.elim
  | cons f rest =>
    obtain ⟨g,tail,rfl,first,later⟩ := by simpa only [AllRenamed] using renamed
    rcases held with here | there
    · exact .inl (renamedHolds f first here)
    · exact .inr (allRenamedHolds rest later there)

end

end FilterSpec

namespace Renaming
variable (d : Renaming) {q : Request}

mutual

theorem specHolds (f : FilterSpec) : (d.spec f).Holds q ↔ f.Holds q := by
  cases f with
  | group conditions connective => simp only [spec,FilterSpec.Holds,specsHold conditions]
  | condition field expression value => exact Iff.rfl

theorem specsHold (filters : List FilterSpec) : holdsOf (d.specs filters) q ↔ holdsOf filters q := by
  cases filters with
  | nil => exact Iff.rfl
  | cons f rest => simp only [specs,holdsOf,specHolds f,specsHold rest]

end

theorem clauseHolds (c : Clause) : (d.clause c).Holds q ↔ c.Holds q := by
  cases c with
  | text sql => exact Iff.rfl
  | list filters => exact d.specsHold filters
  | single f => exact d.specHolds f

end Renaming

theorem returnsAttempt {α : Type} {step : Compile α} {before a after} :
    step.attempt.Returns before (.ok a) after ↔ step.Returns before a after := by
  have tried : step.attempt.run before = (.ok (step.run before).1, (step.run before).2) := rfl
  rw [Returns,Returns,tried]
  rcases step.run before with ⟨outcome,progress⟩
  simp

namespace Request

def clauses (r : Request) : List Clause := r.filter.toList ++ r.having.toList ++ (r.funnel.map Funnel.steps).getD []

def Holds (r q : Request) : Prop := ∃ c ∈ r.clauses, c.Holds q

theorem clausesMember {r : Request} {c} : c ∈ r.clauses ↔ r.filter = some c ∨ r.having = some c ∨
    c ∈ (r.funnel.map Funnel.steps).getD [] := by
  simp [clauses]

theorem renamedHolds (d : Renaming) {r q : Request} (held : r.Holds q) : (d.request r).Holds q := by
  obtain ⟨c,mem,held⟩ := held
  rcases clausesMember.mp mem with filter | having | step
  · exact ⟨d.clause c,clausesMember.mpr (.inl (by simp [Renaming.request,filter])),(d.clauseHolds c).mpr held⟩
  · exact ⟨d.clause c,clausesMember.mpr (.inr (.inl (by simp [Renaming.request,having]))),(d.clauseHolds c).mpr held⟩
  · exact ⟨c,clausesMember.mpr (.inr (.inr step)),held⟩

theorem itemHolds {r q : Request} {c : Clause} (asked : r.filter = some c) (held : c.Holds q) :
    ∃ item ∈ r.filterItems, item.clause.Holds q := by
  simp only [filterItems,asked,Option.map_some,Option.getD_some]
  cases c with
  | text sql => exact held.elim
  | list filters =>
    obtain ⟨f,mem,held⟩ := holdsMember.mp held
    exact ⟨.spec f,mem_map.mpr ⟨f,mem,rfl⟩,held⟩
  | single f => exact ⟨.spec f,mem_singleton.mpr rfl,held⟩

end Request

namespace Scope
variable {s : Scope} {nested : Nested}

structure ReadsOnly (s : Scope) (P : Clause → Prop) (r : Request) : Prop where
  names : ∀ name ∈ r.metrics ++ r.dimensions, s.Allowed name
  order : s.OrderAllowed r
  clauses : ∀ c ∈ r.clauses, P c

structure MergesOnly (s : Scope) (P : Clause → Prop) (r : Request) : Prop where
  names : ∀ name ∈ r.metrics ++ r.dimensions, s.Allowed name
  order : s.OrderAllowed r
  funnel : r.funnel = none
  having : ∀ c ∈ r.having.toList, P c
  whole : ∀ item ∈ r.filterItems, s.passes item = false → P item.clause
  parts : ∃ metrics compared dimensions groups parts,
    s.fields r.metrics = .ok metrics ∧ s.mergeGroups (metrics ++ compared) = .ok groups ∧
    s.fields r.dimensions = .ok dimensions ∧ s.mergeParts groups dimensions = .ok parts ∧
    (∀ item ∈ r.filterItems, s.passes item → ∃ part ∈ parts, ∃ out, s.itemIn part.toMergeGroup item = .ok (some out)) ∧
    ∀ part ∈ parts, ∃ applied,
      List.Forall₂ (fun item out => s.itemIn part.toMergeGroup item = .ok out) (r.filterItems.filter s.passes) applied ∧
      s.ReadsOnly P (partRequest r part (applied.filterMap id))

theorem readsMore {P Q : Clause → Prop} (more : ∀ c, P c → Q c) {r} (reads : s.ReadsOnly P r) : s.ReadsOnly Q r :=
  ⟨reads.names,reads.order,fun c mem => more c (reads.clauses c mem)⟩

theorem mergesMore {P Q : Clause → Prop} (more : ∀ c, P c → Q c) {r} (merges : s.MergesOnly P r) :
    s.MergesOnly Q r := by
  obtain ⟨metrics,compared,dimensions,groups,parts,asked,grouped,shown,placed,applied,each⟩ := merges.parts
  refine ⟨merges.names,merges.order,merges.funnel,fun c mem => more c (merges.having c mem),
    fun item mem kept => more _ (merges.whole item mem kept),
    metrics,compared,dimensions,groups,parts,asked,grouped,shown,placed,applied,fun part mem => ?_⟩
  obtain ⟨outs,arrives,reads⟩ := each part mem
  exact ⟨outs,arrives,readsMore more reads⟩

section
variable (restricted : s.context.userAttributes ≠ [])
include restricted

theorem planReads {r before plan after} (ok : (s.plan nested r).Returns before plan after) :
    (∀ name ∈ r.metrics ++ r.dimensions, s.Allowed name) ∧ s.OrderAllowed r ∧
      ∀ c ∈ r.filter.toList ++ r.having.toList, s.ClauseBound nested c := by
  simp only [Scope.plan,returnsBind,returnsLift] at ok
  obtain ⟨metrics,_,⟨asked,rfl⟩,dimensions,_,⟨shown,rfl⟩,_,_,_,_,_,binds,views,_,_,always,_,_,
    access,_,_,order,_,⟨sorts,_⟩,_⟩ := ok
  exact ⟨forall_mem_append.mpr ⟨fieldsAllowed restricted asked,fieldsAllowed restricted shown⟩,
    orderAllowed restricted sorts,bindAllBound restricted binds⟩

theorem stepReads {c : Clause} {before filters after} (ok : (s.bindStep nested c).Returns before filters after) :
    s.ClauseBound nested c := by
  simp only [bindStep,returnsBind] at ok
  obtain ⟨_,_,binds,_⟩ := ok
  exact bindBound restricted binds

theorem funnelReads {r : Request} {f : Funnel} (asked : r.funnel = some f) {before q after}
    (ok : (s.funnelQuery nested r f).Returns before q after) : s.ReadsOnly (s.ClauseBound nested) r := by
  simp only [funnelQuery,returnsBind,returnsLift] at ok
  obtain ⟨_,_,made,events,_,_,steps,_,_,counts,_,_,conditions,_,_,order,_,⟨sorts,_⟩,_⟩ := ok
  simp only [funnelPlan,returnsBind,returnsLift] at made
  obtain ⟨window,_,_,interval,_,_,plan,_,planned,made⟩ := made
  obtain ⟨names,_,filter⟩ := planReads restricted planned
  split at made
  · exact absurd made returnsFail
  · simp only [returnsBind] at made
    obtain ⟨_,_,binds,made⟩ := made
    have having := bindAllBound restricted binds
    split at made
    · exact absurd made returnsFail
    · simp only [returnsBind] at made
      obtain ⟨date,_,_,link,_,_,bound,_,each,_⟩ := made
      have steps := returnsEach each fun c _ _ _ _ ok => stepReads restricted ok
      refine ⟨names,orderAllowed restricted sorts,fun c mem => ?_⟩
      rcases Request.clausesMember.mp mem with first | second | third
      · exact filter c (by simp [first])
      · exact having c (by simp [second])
      · rw [asked] at third
        exact (forallMember steps third).elim fun _ bound => bound.2

theorem singleReads {r : Request} {before q after} (ok : (s.singleQuery nested r).Returns before q after) :
    s.ReadsOnly (s.ClauseBound nested) r := by
  unfold singleQuery at ok
  cases asked : r.funnel with
  | some f =>
    simp only [asked] at ok
    exact funnelReads restricted asked ok
  | none =>
    simp only [asked,returnsBind] at ok
    obtain ⟨plan,_,planned,_⟩ := ok
    obtain ⟨names,order,clauses⟩ := planReads restricted planned
    exact ⟨names,order,by simpa [Request.clauses,asked] using clauses⟩

theorem splitBound {items tables before out after} (ok : ((s.splitItems nested items).run tables).Returns before out after) :
    ∀ item ∈ items, s.passes item = false → s.ClauseBound nested item.clause := by
  induction items generalizing tables before out after with
  | nil => exact forall_mem_nil _
  | cons first rest ih =>
    simp only [splitItems,StateT.run_bind,returnsBind] at ok
    obtain ⟨⟨fields,_⟩,_,found,ok⟩ := ok
    have reads : first.fields s.project = .ok fields := returnsChecked found
    split at ok
    · simp only [StateT.run_bind,returnsBind] at ok
      obtain ⟨_,_,binds,_,_,later,_⟩ := ok
      exact forall_mem_cons.mpr ⟨fun _ => bindBound restricted binds,ih later⟩
    · rename_i plain
      simp only [StateT.run_bind,returnsBind] at ok
      obtain ⟨_,_,later,_⟩ := ok
      have passes : s.passes first := by simpa [passes,reads,Except.toOption] using plain
      exact forall_mem_cons.mpr ⟨fun kept => by simp [passes] at kept,ih later⟩

end

theorem appliedSome {parts : List MergePart} {items} (ok : s.checkApplied parts items = .ok ()) :
    ∀ item ∈ items, ∃ part ∈ parts, ∃ out, s.itemIn part.toMergeGroup item = .ok (some out) := by
  induction items with
  | nil => exact forall_mem_nil _
  | cons item rest ih =>
    rw [checkApplied] at ok
    obtain ⟨applied,each,ok⟩ := exceptBind.mp ok
    split at ok
    · rename_i any
      refine forall_mem_cons.mpr ⟨?_,ih ok⟩
      obtain ⟨found,mem,some⟩ := any_eq_true.mp any
      obtain ⟨out,rfl⟩ := Option.isSome_iff_exists.mp some
      obtain ⟨part,listed,made⟩ := forallMember (exceptMapM.mp each).flip mem
      exact ⟨part,listed,out,made⟩
    · obtain ⟨_,_,failed⟩ := exceptBind.mp ok
      contradiction

variable {r inner : Request}

theorem mergedReads (restricted : s.context.userAttributes ≠ []) {before q after}
    (ok : (s.mergedResult nested r).Returns before q after) : s.MergesOnly (s.ClauseBound nested) r := by
  unfold mergedResult at ok
  split at ok
  · exact absurd ok returnsFail
  · rename_i plain
    simp only [returnsBind,returnsLift] at ok
    obtain ⟨metrics,_,⟨asked,rfl⟩,dimensions,_,⟨shown,rfl⟩,⟨⟨filters,passed⟩,tables⟩,_,splits,
      ⟨having,others⟩,_,binds,groups,_,⟨grouped,rfl⟩,ok⟩ := ok
    split at ok
    · exact absurd ok returnsFail
    · simp only [returnsBind,returnsLift] at ok
      obtain ⟨parts,_,⟨placed,rfl⟩,results,_,answered,_,_,⟨applied,rfl⟩,select,_,selects,order,_,
        ⟨sorts,_⟩,_⟩ := ok
      have passes : passed = r.filterItems.filter s.passes := (splitPassed splits).1
      subst passes
      refine ⟨forall_mem_append.mpr ⟨fieldsAllowed restricted asked,fieldsAllowed restricted shown⟩,
        orderAllowed restricted sorts,by simpa using plain,bindAllBound restricted binds,
        splitBound restricted splits,metrics,_,dimensions,groups,parts,asked,grouped,shown,placed,
        fun item mem kept => ?_,fun part mem => ?_⟩
      · exact appliedSome applied item (mem_filter.mpr ⟨mem,kept⟩)
      · have each := returnsEach answered fun _ _ _ _ _ made => partAnswered made
        obtain ⟨_,_,outs,answers⟩ := forallMember each mem
        obtain ⟨_,_,single⟩ := answers.answers
        exact ⟨outs,answers.applies,singleReads restricted single⟩

theorem readsInner (reads : s.ReadsOnly (s.ClauseBound nested) r) (held : r.Holds inner) : nested.Ran inner := by
  obtain ⟨c,mem,held⟩ := held
  exact (reads.clauses c mem).inner inner held

theorem arrivedHolds {g item out inner} (ok : s.itemIn g item = .ok (some out)) (held : item.clause.Holds inner) :
    out.clause.Holds inner := by
  cases item with
  | text sql => exact held.elim
  | spec f =>
    obtain ⟨found,made,same⟩ := exceptBind.mp ok
    obtain ⟨f',rfl,rfl⟩ := Option.map_eq_some_iff.mp (Except.ok.inj same)
    exact FilterSpec.renamedHolds f ((specInRenamed f made f').mp rfl) held

theorem partHolds {part : MergePart} {items : List FilterItem} {item} (mem : item ∈ items)
    (held : item.clause.Holds inner) : (partRequest r part items).Holds inner := by
  cases item with
  | text sql => exact held.elim
  | spec f =>
    have listed : f ∈ items.filterMap FilterItem.spec? := mem_filterMap.mpr ⟨.spec f,mem,rfl⟩
    have clause : FilterItem.specClause items = some (.list (items.filterMap FilterItem.spec?)) := by
      unfold FilterItem.specClause
      split
      · rename_i none
        simp [none] at listed
      · rfl
    exact ⟨_,Request.clausesMember.mpr (.inl clause),holdsMember.mpr ⟨f,listed,held⟩⟩

theorem mergesInner (merges : s.MergesOnly (s.ClauseBound nested) r) (held : r.Holds inner) : nested.Ran inner := by
  obtain ⟨c,mem,held⟩ := held
  rcases Request.clausesMember.mp mem with filter | having | step
  · obtain ⟨item,listed,held⟩ := Request.itemHolds filter held
    cases kept : s.passes item with
    | false => exact (merges.whole item listed kept).inner inner held
    | true =>
      obtain ⟨_,_,_,_,parts,_,_,_,_,applied,each⟩ := merges.parts
      obtain ⟨part,known,out,arrives⟩ := applied item listed kept
      obtain ⟨outs,all,reads⟩ := each part known
      obtain ⟨found,mem,again⟩ := forallMember all (mem_filter.mpr ⟨listed,kept⟩)
      cases arrives.symm.trans again
      exact readsInner reads (partHolds (mem_filterMap.mpr ⟨_,mem,rfl⟩) (arrivedHolds arrives held))
  · exact (merges.having c (by simp [having])).inner inner held
  · simp [merges.funnel] at step

def CompiledReads (s : Scope) (nested : Nested) (P : Clause → Prop) (q : Request) : Prop :=
  ∃ resolved merges, s.resolveNames q = .ok (resolved, merges) ∧
    (Nested.Ran (s.singleQuery nested) resolved ∧ s.ReadsOnly P resolved ∨
      Nested.Ran (s.mergedResult nested) resolved ∧ s.MergesOnly P resolved)

theorem compiledReads (restricted : s.context.userAttributes ≠ []) {q : Request} {before query after}
    (ok : (s.compileWith nested q).Returns before query after) : s.CompiledReads nested (s.ClauseBound nested) q := by
  rw [compileSteps] at ok
  simp only [returnsBind,returnsLift] at ok
  obtain ⟨⟨resolved,merges⟩,_,⟨found,rfl⟩,ok⟩ := ok
  refine ⟨resolved,merges,found,?_⟩
  have merged {before query after} (ok : (s.mergedResult nested resolved).Returns before query after) :
      Nested.Ran (s.mergedResult nested) resolved ∧ s.MergesOnly (s.ClauseBound nested) resolved :=
    ⟨⟨_,_,_,ok⟩,mergedReads restricted ok⟩
  unfold compileResolved at ok
  split at ok
  · exact .inr (merged ok)
  · simp only [returnsBind] at ok
    obtain ⟨outcome,_,tried,ok⟩ := ok
    cases outcome with
    | ok query =>
      have single := returnsAttempt.mp tried
      exact .inl ⟨⟨_,_,_,single⟩,singleReads restricted single⟩
    | error e =>
      simp only at ok
      split at ok
      · exact .inr (merged ok)
      · exact absurd ok returnsFail

theorem compiledInner {q : Request} (reads : s.CompiledReads nested (s.ClauseBound nested) q) (held : q.Holds inner) :
    nested.Ran inner := by
  obtain ⟨resolved,merges,found,reads⟩ := reads
  obtain ⟨names,_,same⟩ := exceptBind.mp found
  cases same
  have held := Request.renamedHolds names.targets held
  rcases reads with ⟨_,reads⟩ | ⟨_,merges⟩
  · exact readsInner reads held
  · exact mergesInner merges held

inductive Compiles (s : Scope) (r : Request) : Request → Prop
  | whole (alone : r.mergedQueries = none) : Compiles s r r
  | item {items item q resolved merges} (listed : r.mergedQueries = some items) (mem : item ∈ items)
      (read : MergedQuery.readRequest r item = .ok q) (found : s.resolveNames q = .ok (resolved, merges)) :
      Compiles s r resolved
  | outer {items c q} (listed : r.mergedQueries = some items) (mem : c ∈ r.filter.toList ++ r.having.toList)
      (held : c.Holds q) : Compiles s r q
  | inner {outer q} (around : Compiles s r outer) (held : outer.Holds q) : Compiles s r q

section
variable (restricted : s.context.userAttributes ≠ []) {r : Request} {before : Progress} {query : Query} {after : Progress}
  (ok : (s.answer r).Returns before query after)
include restricted ok

theorem listedReads {items} (listed : r.mergedQueries = some items) :
    s.OrderAllowed r ∧ ∀ c ∈ r.filter.toList ++ r.having.toList, s.ClauseBound (s.compile (r.depth + 1)) c := by
  simp only [answer,listed,mergedQueries,returnsBind,returnsLift] at ok
  obtain ⟨_,_,_,queries,_,_,results,_,_,_,_,binds,conditions,_,_,order,_,⟨sorts,_⟩,_⟩ := ok
  exact ⟨orderAllowed restricted sorts,bindAllBound restricted binds⟩

theorem compilesRan {q} (compiles : s.Compiles r q) : ∃ n, (s.compile n).Ran q := by
  induction compiles with
  | whole alone =>
    simp only [answer,alone,returnsBind] at ok
    obtain ⟨_,_,_,ran⟩ := ok
    exact ⟨_,_,_,_,ran⟩
  | @item items item q resolved merges listed mem read found =>
    obtain ⟨queries,results,_,_,known,ran,_⟩ := answerListed listed ok
    obtain ⟨requests,reads,resolves,_⟩ := queriesListed known
    obtain ⟨request,inside,again⟩ := forallMember reads mem
    cases read.symm.trans again
    obtain ⟨joined,among,_,named⟩ := forallMember resolves inside
    cases found.symm.trans named
    have each : List.Forall₂ (fun (j : JoinedQuery) _ => (s.compile (r.depth + 1)).Ran j.request) queries results :=
      returnsEach ran fun j _ _ _ _ made => by
        obtain ⟨_,_,compiled,_⟩ := returnsBind.mp made
        exact ⟨_,_,_,compiled⟩
    obtain ⟨_,_,compiled⟩ := forallMember each among
    exact ⟨_,compiled⟩
  | @outer items c q listed mem held => exact ⟨_,((listedReads restricted ok listed).2 c mem).inner q held⟩
  | inner _ held ih =>
    obtain ⟨n,_,_,_,ran⟩ := ih
    cases n with
    | zero => exact absurd ran returnsFail
    | succ n => exact ⟨n,compiledInner (compiledReads restricted ran) held⟩

theorem compilesReads {q} (compiles : s.Compiles r q) : ∃ n, s.CompiledReads (s.compile n) s.ClauseAllowed q := by
  obtain ⟨n,_,_,_,ran⟩ := compilesRan restricted ok compiles
  cases n with
  | zero => exact absurd ran returnsFail
  | succ n =>
    obtain ⟨resolved,merges,found,reads⟩ := compiledReads restricted ran
    have allowed (c : Clause) (bound : s.ClauseBound (s.compile n) c) : s.ClauseAllowed c := bound.allowed
    exact ⟨n,resolved,merges,found,
      reads.imp (fun single => ⟨single.1,readsMore allowed single.2⟩) fun merged => ⟨merged.1,mergesMore allowed merged.2⟩⟩

end

end Scope

namespace Project

theorem scopeContext {p : Project} {r now s} (ok : p.scopeFor r now = .ok s) :
    s.project = p ∧ s.context.userAttributes = p.attributesFor r := by
  iterate 3 obtain ⟨_,_,ok⟩ := exceptBind.mp ok
  obtain ⟨context,made,same⟩ := exceptBind.mp ok
  cases same
  obtain ⟨time,_,same⟩ := exceptBind.mp made
  cases same
  exact ⟨rfl,rfl⟩

/- A user with attributes gets an answer only if every field that is named on the way is permitted. -/
theorem namedFieldsPermitted {p : Project} {r : Request} {now compiled} (ok : p.compile r now = .ok compiled)
    (restricted : p.attributesFor r ≠ []) :
    ∃ s, p.scopeFor r now = .ok s ∧ s.project = p ∧ s.context.userAttributes = p.attributesFor r ∧
      (∀ q, s.Compiles r q → ∃ n, s.CompiledReads (s.compile n) s.ClauseAllowed q) ∧
      (r.mergedQueries.isSome → s.OrderAllowed r ∧ ∀ c ∈ r.filter.toList ++ r.having.toList, s.ClauseAllowed c) := by
  obtain ⟨s,chosen,ok⟩ := exceptBind.mp ok
  obtain ⟨same,attributes⟩ := scopeContext chosen
  obtain ⟨query,answered,_⟩ := exceptBind.mp ok
  have known : s.context.userAttributes ≠ [] := attributes ▸ restricted
  have returns : (s.answer r).Returns {} query ((s.answer r).run {}).2 := Prod.ext answered rfl
  refine ⟨s,chosen,same,attributes,fun q compiles => Scope.compilesReads known returns compiles,fun listed => ?_⟩
  obtain ⟨items,listed⟩ := Option.isSome_iff_exists.mp listed
  obtain ⟨order,bound⟩ := Scope.listedReads known returns listed
  exact ⟨order,fun c mem => (bound c mem).allowed⟩

def payModel : Model where
  name := "pay"
  grants := [{ name := "salaries", userAttribute := "team", allowed := ["finance"] }]

def payView : View where
  name := "staff"
  tableName := some "db.staff"
  fields := [
    { name := "office", sql := some "$\x7bTABLE\x7d.office" },
    { name := "heads", role := .measure, type := .count },
    { name := "salary", role := .measure, type := .sum, sql := some "$\x7bTABLE\x7d.salary", requiredGrants := ["salaries"] }]

def payProject : Project := .ofDefinitions { models := [payModel], views := [payView] }

def payTime : DateTime := ⟨⟨2024,1,1⟩,0,0,0,0⟩

def officeRequest : Request where
  metrics := ["staff.salary"]
  filter := some (.single (.condition "staff.office" "is_in_query" (some (.object [
    ("field", .str "staff.office"),
    ("query", .object [("dimensions", .list [.str "staff.office"]),("metrics", .list [.str "staff.salary"])])]))))
  dialect := some .snowflake
  userAttributes := [("team", "finance")]

def listedRequest : Request where
  metrics := ["staff.salary"]
  mergedQueries := some [.object [("dimensions", .list []),("metrics", .list [.str "staff.heads"])]]
  dialect := some .snowflake
  userAttributes := [("team", "sales")]

theorem payCompiles {r} (ok : (payProject.compile r payTime).toOption.isSome) :
    ∃ compiled, payProject.compile r payTime = .ok compiled := by
  obtain ⟨compiled,some⟩ := Option.isSome_iff_exists.mp ok
  exact ⟨compiled,exceptSome.mp some⟩

set_option maxRecDepth 10000 in
theorem officeSalariesPermitted : ∃ compiled, payProject.compile officeRequest payTime = .ok compiled ∧
    payProject.attributesFor officeRequest ≠ [] ∧
    ∃ s, payProject.scopeFor officeRequest payTime = .ok s ∧ s.project = payProject ∧
      s.context.userAttributes = payProject.attributesFor officeRequest ∧
      (∀ q, s.Compiles officeRequest q → ∃ n, s.CompiledReads (s.compile n) s.ClauseAllowed q) ∧
      (officeRequest.mergedQueries.isSome → s.OrderAllowed officeRequest ∧
        ∀ c ∈ officeRequest.filter.toList ++ officeRequest.having.toList, s.ClauseAllowed c) := by
  obtain ⟨compiled,ok⟩ := payCompiles (by decide +kernel : (payProject.compile officeRequest payTime).toOption.isSome)
  have restricted : payProject.attributesFor officeRequest ≠ [] := by decide
  exact ⟨compiled,ok,restricted,namedFieldsPermitted ok restricted⟩

set_option maxRecDepth 10000 in
theorem listedMetricUnchecked :
    ¬ ∀ (p : Project) r now compiled, p.compile r now = .ok compiled → p.attributesFor r ≠ [] →
      ∃ s, p.scopeFor r now = .ok s ∧ ∀ name ∈ r.metrics, s.Allowed name := by
  intro all
  obtain ⟨compiled,ok⟩ := payCompiles (by decide +kernel : (payProject.compile listedRequest payTime).toOption.isSome)
  obtain ⟨s,chosen,allowed⟩ := all payProject listedRequest payTime compiled ok (by decide)
  obtain ⟨same,attributes⟩ := scopeContext chosen
  obtain ⟨u,found,permitted⟩ := allowed "staff.salary" List.mem_cons_self
  rw [same] at found
  have salary : payProject.field "staff.salary" = .ok ⟨payView,payView.fields.getLast (by decide),none⟩ := rfl
  cases salary.symm.trans found
  obtain ⟨m,g,model,defined,text,has,v,listed,admitted⟩ :=
    permitted "salaries" (List.mem_append_right _ List.mem_cons_self)
  have pay : s.modelFor ⟨payView,payView.fields.getLast (by decide),none⟩ = some payModel := by
    rw [Scope.modelFor,same]
    rfl
  cases pay.symm.trans model
  cases Option.some.inj (show payModel.grants.head? = some g from defined)
  rw [attributes] at has
  cases Option.some.inj (show some "sales" = some text from has)
  have values : Filter.attributeValues "sales" = ["sales"] := by decide
  simp_all

end Project
end SemanticSql
