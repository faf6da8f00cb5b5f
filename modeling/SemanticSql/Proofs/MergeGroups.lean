import SemanticSql.Proofs.BaseChoice
import SemanticSql.Proofs.MergeClasses
import SemanticSql.Proofs.MergedMetrics
import SemanticSql.Proofs.SortedDict

/-! The groups of a merged result. A metric is placed under the name of a table, which is put together from the name
of its date and the name of its merge group. -/
namespace SemanticSql

open List MergeGroup JoinGraph

namespace MergeGroup

/- A text that ends with digits behind an underscore can be taken apart in one way. -/
theorem digitsBehind {a b p q : List Char} (digitsP : ∀ c ∈ p, c.isDigit) (digitsQ : ∀ c ∈ q, c.isDigit)
    (h : a ++ '_' :: p = b ++ '_' :: q) : a = b ∧ p = q := by
  have tail : ∀ (a p : List Char), (∀ c ∈ p, c.isDigit) →
      ((a ++ '_' :: p).reverse.takeWhile Char.isDigit).reverse = p := by
    intro a p digits
    have stops : Char.isDigit '_' = false := by decide
    rw [reverse_append,reverse_cons,append_assoc,takeWhile_append_of_pos (by simpa using digits)]
    simp [stops]
  have same : p = q := by rw [← tail a p digitsP,h,tail b q digitsQ]
  subst same
  exact ⟨append_cancel_right h,rfl⟩

theorem numberDigits (n : Nat) : ∀ c ∈ (toString n).toList, c.isDigit := by
  intro c mem
  rw [Nat.toString_eq_ofList_toDigits,String.toList_ofList] at mem
  exact Nat.isDigit_of_mem_toDigits (by decide) (by decide) mem

def datesAlike : Option FieldUse → Option FieldUse → Bool
  | some d, some e => Text.replace '.' "_" d.id == Text.replace '.' "_" e.id
  | none, none => true
  | _, _ => false

def datesSame : Option FieldUse → Option FieldUse → Bool
  | some d, some e => d.sameField e
  | none, none => true
  | _, _ => false

theorem datesSameAlike {d e} (same : datesSame d e) : datesAlike d e := by
  unfold datesSame at same
  split at same
  · simp only [FieldUse.sameField,Bool.and_eq_true,beq_iff_eq] at same
    simp [datesAlike,FieldUse.id,same]
  · rfl
  · cases same

def tableLead : Option FieldUse → List Char
  | some date => (Text.replace '.' "_" date.id).toList ++ "__graph".toList
  | none => "graph".toList

theorem tableNameLead (date : Option FieldUse) (i : Nat) :
    (tableName ("graph_" ++ toString i) date).toList = tableLead date ++ '_' :: (toString i).toList := by
  cases date <;> simp [tableName,tableLead]

theorem tableLeadAlike {d e : Option FieldUse} : tableLead d = tableLead e ↔ datesAlike d e := by
  have longer : ∀ cs : List Char, "graph".toList ≠ cs ++ "__graph".toList := fun cs same => by
    have lengths := congrArg List.length same
    simp at lengths
  cases d with
  | none =>
    cases e with
    | none => simp [datesAlike]
    | some e => simpa [tableLead,datesAlike] using longer _
  | some d =>
    cases e with
    | none => simpa [tableLead,datesAlike] using (longer _).symm
    | some e => simp [tableLead,datesAlike,String.toList_inj]

theorem tableNameAlike {d e : Option FieldUse} {i j : Nat} :
    tableName ("graph_" ++ toString i) d = tableName ("graph_" ++ toString j) e ↔ i = j ∧ datesAlike d e := by
  rw [← String.toList_inj,tableNameLead,tableNameLead,← tableLeadAlike]
  constructor
  · intro same
    obtain ⟨leads,digits⟩ := digitsBehind (numberDigits i) (numberDigits j) same
    exact ⟨digitsInjective (String.toList_inj.mp digits),leads⟩
  · rintro ⟨rfl,leads⟩
    rw [leads]

def Holds (groups : Dict MergeGroup) (table : String) (m : FieldUse) : Prop :=
  ∃ g, (table, g) ∈ groups ∧ ∃ n ∈ g.metrics, n.same m

end MergeGroup

theorem FieldUse.sameSelf (u : FieldUse) : u.same u := by simp [FieldUse.same,FieldUse.sameField]

theorem FieldUse.sameTrans {u v w : FieldUse} (first : u.same v) (second : v.same w) : u.same w := by
  simp only [FieldUse.same,FieldUse.sameField,Bool.and_eq_true,beq_iff_eq] at first second ⊢
  exact ⟨⟨first.1.1.trans second.1.1,first.1.2.trans second.1.2⟩,first.2.trans second.2⟩

namespace Session

variable {uses : List FieldUse}

theorem addUseMember {u v} (mem : v ∈ addUse uses u) : v ∈ uses ∨ v = u := by
  unfold addUse at mem
  split at mem
  · exact .inl mem
  · simpa using mem

theorem addUseSame (uses : List FieldUse) (u : FieldUse) : ∃ v ∈ addUse uses u, v.same u := by
  unfold addUse
  split
  · rename_i there
    exact any_eq_true.mp there
  · exact ⟨u,by simp,u.sameSelf⟩

theorem addUseKeeps {u v} (mem : v ∈ uses) : v ∈ addUse uses u := by
  unfold addUse
  split
  · exact mem
  · exact mem_append_left _ mem

theorem addUseOnce {u} (once : uses.Pairwise fun a b => a.same b = false) :
    (addUse uses u).Pairwise fun a b => a.same b = false := by
  unfold addUse
  split
  · exact once
  · rename_i fresh
    refine pairwise_append.mpr ⟨once,pairwise_singleton _ _,fun a mem b last => ?_⟩
    rw [mem_singleton.mp last]
    exact Bool.eq_false_iff.mpr fun same => fresh (any_eq_true.mpr ⟨a,mem,same⟩)

end Session

namespace Scope
variable {s : Scope}
open Relation (ReflTransGen TransGen)

def Belongs (s : Scope) (m : FieldUse) (table : String) : Prop :=
  ∃ date, s.project.canonDate m = .ok date ∧ table = tableName (s.mergeGroupOf m.view.name) date

theorem belongsOnce {m table other} (first : s.Belongs m table) (second : s.Belongs m other) : table = other := by
  obtain ⟨date,found,rfl⟩ := first
  obtain ⟨again,same,rfl⟩ := second
  cases found.symm.trans same
  rfl

structure Grouped (s : Scope) (placed : List FieldUse) (groups : Dict MergeGroup) : Prop where
  sorted : groups.Sorted
  own : ∀ e ∈ groups, ∀ m ∈ e.2.metrics, m ∈ placed ∧ s.Belongs m e.1
  once : ∀ e ∈ groups, e.2.metrics.Pairwise fun a b => a.same b = false
  found : ∀ m ∈ placed, ∃ e ∈ groups, s.Belongs m e.1 ∧ ∃ n ∈ e.2.metrics, n.same m

theorem addMetricGrouped {placed groups m next} (grouped : s.Grouped placed groups)
    (ok : s.addMetric groups m = .ok next) : s.Grouped (placed ++ [m]) next := by
  obtain ⟨date,dated,same⟩ := exceptBind.mp ok
  cases same
  let table := tableName (s.mergeGroupOf m.view.name) date
  let group := (groups.get? table).getD { views := s.mergeGroupOf m.view.name, date, metrics := [] }
  have belongs : s.Belongs m table := ⟨date,dated,rfl⟩
  have held : (∀ n ∈ group.metrics, n ∈ placed ∧ s.Belongs n table) ∧
      group.metrics.Pairwise fun a b => a.same b = false := by
    cases there : groups.get? table with
    | none => simp [group,there]
    | some g =>
      have mem := (Dict.getMember grouped.sorted).mp there
      simpa [group,there] using ⟨grouped.own _ mem,grouped.once _ mem⟩
  have members : ∀ {e}, e ∈ groups.insert table { group with metrics := Session.addUse group.metrics m } ↔
      e = (table, { group with metrics := Session.addUse group.metrics m }) ∨ e.1 ≠ table ∧ e ∈ groups :=
    Dict.insertMember grouped.sorted
  refine ⟨Dict.insertSorted grouped.sorted _ _,fun e mem n inside => ?_,fun e mem => ?_,fun n mem => ?_⟩
  · rcases members.mp mem with rfl | ⟨_,old⟩
    · rcases Session.addUseMember inside with before | rfl
      · exact ⟨mem_append_left _ (held.1 n before).1,(held.1 n before).2⟩
      · exact ⟨by simp,belongs⟩
    · exact ⟨mem_append_left _ (grouped.own e old n inside).1,(grouped.own e old n inside).2⟩
  · rcases members.mp mem with rfl | ⟨_,old⟩
    · exact Session.addUseOnce held.2
    · exact grouped.once e old
  · rcases mem_append.mp mem with before | last
    · obtain ⟨e,old,here,k,inside,alike⟩ := grouped.found n before
      by_cases same : e.1 = table
      · have there : groups.get? table = some e.2 := (Dict.getMember grouped.sorted).mpr (same ▸ old)
        refine ⟨_,members.mpr (.inl rfl),same ▸ here,k,Session.addUseKeeps ?_,alike⟩
        simpa [group,there] using inside
      · exact ⟨e,members.mpr (.inr ⟨same,old⟩),here,k,inside,alike⟩
    · cases mem_singleton.mp last
      exact ⟨_,members.mpr (.inl rfl),belongs,Session.addUseSame _ _⟩

theorem placedGrouped {placed more groups final} (grouped : s.Grouped placed groups)
    (ok : more.foldlM s.addMetric groups = .ok final) : s.Grouped (placed ++ more) final := by
  induction more generalizing placed groups with
  | nil =>
    cases ok
    simpa using grouped
  | cons m rest ih =>
    rw [foldlM_cons] at ok
    obtain ⟨next,first,later⟩ := exceptBind.mp ok
    simpa using ih (addMetricGrouped grouped first) later

theorem mergedGrouped {placed metrics groups final} (grouped : s.Grouped placed groups)
    (ok : metrics.foldlM (fun groups u => do (← s.mergedFrom s.toSession.fuel u).foldlM s.addMetric groups) groups =
      .ok final) : ∃ more, s.Grouped (placed ++ more) final ∧ ∀ m, m ∈ more ↔ s.Asked metrics m := by
  induction metrics generalizing placed groups with
  | nil =>
    cases ok
    exact ⟨[],by simpa using grouped,by simp [Asked]⟩
  | cons u rest ih =>
    rw [foldlM_cons] at ok
    obtain ⟨next,first,later⟩ := exceptBind.mp ok
    obtain ⟨found,merged,placing⟩ := exceptBind.mp first
    obtain ⟨more,done,asked⟩ := ih (placedGrouped grouped placing) later
    refine ⟨found ++ more,by simpa using done,fun m => ?_⟩
    simp [mergedFromMember merged,asked,Asked]

theorem mergeGroupsGrouped {metrics groups} (ok : s.mergeGroups metrics = .ok groups) :
    ∃ placed, s.Grouped placed groups ∧ ∀ m, m ∈ placed ↔ s.Asked metrics m := by
  have start : s.Grouped [] [] := ⟨.nil,by simp,by simp,by simp⟩
  simpa using mergedGrouped start ok

structure Resolves (s : Scope) (metrics : List FieldUse) : Prop where
  references : ∀ u ∈ metrics, ∀ v, ReflTransGen s.Refers u v → v.field.isMergedResult →
    ∃ references, s.referencedFields v = .ok references
  dates : ∀ m, s.Asked metrics m → ∃ date, s.project.canonDate m = .ok date
  acyclic : ∀ u ∈ metrics, ∀ v, ReflTransGen s.Refers u v → ¬ TransGen s.Refers v v

theorem mergeGroupsReturn {metrics} (known : ∀ u ∈ metrics, s.project.Defines u) (resolves : s.Resolves metrics) :
    ∃ groups, s.mergeGroups metrics = .ok groups := by
  refine foldReturns [] fun u mem groups => ?_
  obtain ⟨found,merged⟩ := mergedFromReturns (n := s.toSession.fuel) [] (known u mem)
    (resolves.references u mem) (resolves.acyclic u mem) (by simp [Visited]) .nil (by simp [Session.fuel])
  have each : ∀ m ∈ found, ∀ groups, ∃ next, s.addMetric groups m = .ok next := fun m inside groups => by
    obtain ⟨date,dated⟩ := resolves.dates m ⟨u,mem,(mergedFromMember merged m).mp inside⟩
    exact ⟨_,exceptBind.mpr ⟨date,dated,rfl⟩⟩
  obtain ⟨next,placed⟩ := foldReturns groups each
  exact ⟨next,exceptBind.mpr ⟨found,merged,placed⟩⟩

def DatesBy (s : Scope) (alike : Option FieldUse → Option FieldUse → Bool) (m n : FieldUse) : Prop :=
  ∃ d e, s.project.canonDate m = .ok d ∧ s.project.canonDate n = .ok e ∧ alike d e

instance (s : Scope) (alike m n) : Decidable (s.DatesBy alike m n) :=
  decidable_of_iff
    ((s.project.canonDate m).toOption.any fun d => (s.project.canonDate n).toOption.any fun e => alike d e) (by
    cases datedM : s.project.canonDate m <;> cases datedN : s.project.canonDate n <;>
      simp [DatesBy,datedM,datedN,Except.toOption])

abbrev SameDate (s : Scope) (m n : FieldUse) : Prop := s.DatesBy datesSame m n

abbrev AlikeDate (s : Scope) (m n : FieldUse) : Prop := s.DatesBy datesAlike m n

def Together (s : Scope) (m n : FieldUse) : Prop :=
  s.project.graph.mergeGroup? m.view.name = s.project.graph.mergeGroup? n.view.name

def NamesApart (s : Scope) (metrics : List FieldUse) : Prop :=
  ∀ m n, s.Asked metrics m → s.Asked metrics n → s.Together m n → m.same n ∨ s.AlikeDate m n → s.SameDate m n

theorem belongsTogether {m n table} (built : s.project.graph = .ofViews s.project.views) (knownM : s.project.Defines m)
    (knownN : s.project.Defines n) (here : s.Belongs m table) : s.Belongs n table ↔ s.Together m n ∧ s.AlikeDate m n := by
  have named : ∀ u, s.project.Defines u →
      ∃ i : Nat, s.project.graph.mergeGroup? u.view.name = some ("graph_" ++ toString i) := by
    intro u known
    rw [built]
    exact mergeGroupNamed (ofViewsClosed _)
      (contains_iff_mem.mp (ofViewsKnown (mem_map_of_mem known.1)))
  obtain ⟨i,groupM⟩ := named m knownM
  obtain ⟨j,groupN⟩ := named n knownN
  obtain ⟨d,dated,rfl⟩ := here
  have numbers : s.Together m n ↔ i = j := by
    rw [Together,groupM,groupN,Option.some.injEq]
    exact ⟨fun same => digitsInjective (by simpa using same),fun same => same ▸ rfl⟩
  simp only [Belongs,DatesBy,mergeGroupOf,groupM,groupN,numbers,Option.getD_some]
  constructor
  · rintro ⟨e,again,same⟩
    obtain ⟨number,alike⟩ := tableNameAlike.mp same
    exact ⟨number,d,e,dated,again,alike⟩
  · rintro ⟨number,d',e,again,other,alike⟩
    cases dated.symm.trans again
    exact ⟨e,other,tableNameAlike.mpr ⟨number,alike⟩⟩

/- The metrics of a table belong there by name, and every metric is found under its name. -/
structure GroupedByName (s : Scope) (metrics : List FieldUse) (groups : Dict MergeGroup) : Prop where
  own : ∀ e ∈ groups, ∀ m ∈ e.2.metrics, s.Asked metrics m ∧ s.Belongs m e.1
  once : ∀ e ∈ groups, e.2.metrics.Pairwise fun a b => a.same b = false
  found : ∀ m, s.Asked metrics m → ∃ table, s.Belongs m table ∧ Holds groups table m
  shared : ∀ m n, s.Asked metrics m → s.Asked metrics n →
    ((∃ table, s.Belongs m table ∧ s.Belongs n table) ↔ s.AlikeDate m n ∧ s.Together m n)
  together : ∀ m n, s.Asked metrics m → s.Asked metrics n →
    (s.Together m n ↔ s.project.graph.Linked m.view.name n.view.name)

structure GroupedExactly (s : Scope) (metrics : List FieldUse) (groups : Dict MergeGroup) : Prop where
  one : ∀ m, s.Asked metrics m → ∃! table, Holds groups table m
  shared : ∀ m n, s.Asked metrics m → s.Asked metrics n →
    ((∃ table, Holds groups table m ∧ Holds groups table n) ↔ s.SameDate m n ∧ s.Together m n)

section
variable {metrics placed : List FieldUse} {groups : Dict MergeGroup}

theorem holdsBelongs (built : s.project.graph = .ofViews s.project.views) (known : ∀ u ∈ metrics, s.project.Defines u)
    (grouped : s.Grouped placed groups) (asked : ∀ m, m ∈ placed ↔ s.Asked metrics m) (apart : s.NamesApart metrics)
    {m} (wanted : s.Asked metrics m) (table : String) : Holds groups table m ↔ s.Belongs m table := by
  constructor
  · rintro ⟨g,listed,n,inside,same⟩
    obtain ⟨mem,belongs⟩ := grouped.own _ listed n inside
    have knownN := askedDefined known ((asked n).mp mem)
    have names : n.view.name = m.view.name := by
      simp only [FieldUse.same,FieldUse.sameField,Bool.and_eq_true,beq_iff_eq] at same
      exact same.1.1
    have together : s.Together n m := by rw [Together,names]
    obtain ⟨d,e,datedN,datedM,dates⟩ := apart n m ((asked n).mp mem) wanted together (.inl same)
    exact (belongsTogether built knownN (askedDefined known wanted) belongs).mpr
      ⟨together,d,e,datedN,datedM,datesSameAlike dates⟩
  · intro belongs
    obtain ⟨e,listed,here,n,inside,same⟩ := grouped.found m ((asked m).mpr wanted)
    exact ⟨e.2,belongsOnce here belongs ▸ listed,n,inside,same⟩

theorem placedByName (built : s.project.graph = .ofViews s.project.views) (known : ∀ u ∈ metrics, s.project.Defines u)
    (grouped : s.Grouped placed groups) (asked : ∀ m, m ∈ placed ↔ s.Asked metrics m) :
    s.GroupedByName metrics groups where
  own e listed m inside := ⟨(asked m).mp (grouped.own e listed m inside).1,(grouped.own e listed m inside).2⟩
  once := grouped.once
  found m wanted := by
    obtain ⟨e,listed,belongs,held⟩ := grouped.found m ((asked m).mpr wanted)
    exact ⟨e.1,belongs,e.2,listed,held⟩
  shared m n wantedM wantedN := by
    have knownM := askedDefined known wantedM
    have knownN := askedDefined known wantedN
    obtain ⟨e,_,belongs,_⟩ := grouped.found m ((asked m).mpr wantedM)
    have same := belongsTogether built knownM knownN belongs
    constructor
    · rintro ⟨table,first,second⟩
      exact ((belongsTogether built knownM knownN first).mp second).symm
    · exact fun both => ⟨e.1,belongs,same.mpr both.symm⟩
  together m n wantedM wantedN := by
    have inGraph : ∀ u, s.Asked metrics u → u.view.name ∈ s.project.graph.views := by
      intro u wanted
      rw [built]
      exact contains_iff_mem.mp
        (ofViewsKnown (mem_map_of_mem (askedDefined known wanted).1))
    have closed : s.project.graph.Closed := built ▸ ofViewsClosed _
    exact mergeGroupLinked closed (inGraph m wantedM) (inGraph n wantedN)

theorem exactlyNamed (built : s.project.graph = .ofViews s.project.views) (known : ∀ u ∈ metrics, s.project.Defines u)
    (grouped : s.Grouped placed groups) (asked : ∀ m, m ∈ placed ↔ s.Asked metrics m) :
    s.GroupedExactly metrics groups ↔ s.NamesApart metrics := by
  have byName := placedByName built known grouped asked
  constructor
  · intro exact m n wantedM wantedN together reason
    refine ((exact.shared m n wantedM wantedN).mp ?_).1
    obtain ⟨table,belongs,g,listed,k,inside,same⟩ := byName.found m wantedM
    refine ⟨table,⟨g,listed,k,inside,same⟩,?_⟩
    rcases reason with samename | alike
    · exact ⟨g,listed,k,inside,FieldUse.sameTrans same samename⟩
    · obtain ⟨other,belongsN,holds⟩ := byName.found n wantedN
      have here := (belongsTogether built (askedDefined known wantedM) (askedDefined known wantedN) belongs).mpr
        ⟨together,alike⟩
      exact belongsOnce belongsN here ▸ holds
  · intro apart
    have held := fun {m} (wanted : s.Asked metrics m) => holdsBelongs built known grouped asked apart wanted
    refine ⟨fun m wanted => ?_,fun m n wantedM wantedN => ?_⟩
    · obtain ⟨table,belongs,holds⟩ := byName.found m wanted
      exact ⟨table,holds,fun other again => belongsOnce ((held wanted other).mp again) belongs⟩
    · simp only [held wantedM,held wantedN,byName.shared m n wantedM wantedN]
      constructor
      · exact fun ⟨alike,together⟩ => ⟨apart m n wantedM wantedN together (.inr alike),together⟩
      · rintro ⟨⟨d,e,datedM,datedN,same⟩,together⟩
        exact ⟨⟨d,e,datedM,datedN,datesSameAlike same⟩,together⟩

theorem mergeGroupsExact (built : s.project.graph = .ofViews s.project.views) (known : ∀ u ∈ metrics, s.project.Defines u) :
    (s.Resolves metrics → ∃ groups, s.mergeGroups metrics = .ok groups) ∧
    ∀ groups, s.mergeGroups metrics = .ok groups →
      s.GroupedByName metrics groups ∧ (s.GroupedExactly metrics groups ↔ s.NamesApart metrics) := by
  refine ⟨mergeGroupsReturn known,fun groups ok => ?_⟩
  obtain ⟨placed,grouped,asked⟩ := mergeGroupsGrouped ok
  exact ⟨placedByName built known grouped asked,exactlyNamed built known grouped asked⟩

end

/- The margin takes revenue by the day of placing and freight by the day of shipping. -/
def placedField : Field := .timeGroup "placed" "$\x7bTABLE\x7d.placed_at" [.raw,.date]

def shippedField : Field := .timeGroup "shipped" "$\x7bTABLE\x7d.shipped_at" [.raw,.date]

def returnedField : Field := .timeGroup "returned" "$\x7bTABLE\x7d.returned_at" [.raw,.date]

def revenueField : Field := .ofAggregate "revenue" .sum "$\x7bTABLE\x7d.revenue"

def freightField : Field :=
  { Field.ofAggregate "freight" .sum "$\x7bTABLE\x7d.freight" with canonDate := some "shipped" }

def refundsField : Field :=
  { Field.ofAggregate "refunds" .sum "$\x7bTABLE\x7d.refunds" with canonDate := some "returned" }

def marginField : Field :=
  { Field.ofAggregate "margin" .number "$\x7brevenue\x7d - $\x7bfreight\x7d" with isMergedResult := true }

def dispatchView : View where
  name := "orders"
  tableName := some "db.orders"
  defaultDate := some "placed"
  fields := [placedField,shippedField,returnedField,revenueField,freightField,refundsField,marginField]

def dispatchScope : Scope where
  project := .ofDefinitions { views := [dispatchView] }
  context := { dialect := .snowflake, now := ⟨⟨2024,1,1⟩,0,0,0,0⟩ }

def marginUse : FieldUse := ⟨dispatchView,marginField,none⟩

def dispatchParts : List FieldUse :=
  [⟨dispatchView,revenueField,none⟩,⟨dispatchView,freightField,none⟩,⟨dispatchView,refundsField,none⟩]

def dispatchMetrics : List FieldUse := [marginUse,⟨dispatchView,refundsField,none⟩]

theorem dispatchPlain : ∀ m ∈ dispatchParts, m.field.isMergedResult = false := by decide

theorem dispatchReferences : dispatchScope.referencedFields marginUse =
    .ok [⟨dispatchView,revenueField,none⟩,⟨dispatchView,freightField,none⟩] := by rfl

theorem dispatchListed {u} (mem : u ∈ dispatchMetrics) : u = marginUse ∨ u ∈ dispatchParts := by
  rcases mem_cons.mp mem with margin | refunds
  · exact .inl margin
  · exact .inr (mem_append_right [_,_] refunds)

theorem dispatchReaches {u v} (mem : u ∈ dispatchMetrics) (way : ReflTransGen dispatchScope.Refers u v) :
    v = marginUse ∨ v ∈ dispatchParts := by
  induction way with
  | refl => exact dispatchListed mem
  | tail _ step ih =>
    obtain ⟨merged,references,refers,inside⟩ := step
    rcases ih with rfl | part
    · cases dispatchReferences.symm.trans refers
      exact .inr (mem_append_left [_] inside)
    · simp [dispatchPlain _ part] at merged

theorem dispatchAsked {m} (asked : dispatchScope.Asked dispatchMetrics m) : m ∈ dispatchParts := by
  obtain ⟨u,mem,stands⟩ := asked
  have reached : ReflTransGen dispatchScope.Refers u m ∧ m.field.isMergedResult = false := by
    clear mem
    induction stands with
    | plain plain => exact ⟨.refl,plain⟩
    | merged merged refers inside _ ih => exact ⟨.head ⟨merged,_,refers,inside⟩ ih.1,ih.2⟩
  rcases dispatchReaches mem reached.1 with rfl | part
  · exact absurd reached.2 (by decide)
  · exact part

theorem dispatchResolves : dispatchScope.Resolves dispatchMetrics where
  references u mem v way merged := by
    rcases dispatchReaches mem way with rfl | part
    · exact ⟨_,dispatchReferences⟩
    · simp [dispatchPlain v part] at merged
  dates m asked := by
    have dated : ∀ m ∈ dispatchParts, dispatchScope.SameDate m m := by decide +kernel
    obtain ⟨date,_,found,_⟩ := dated m (dispatchAsked asked)
    exact ⟨date,found⟩
  acyclic u mem v way round := by
    -- only the margin refers to others, and nothing refers to the margin
    obtain ⟨w,back,merged,references,refers,inside⟩ := TransGen.tail'_iff.mp round
    have start := dispatchReaches mem (way.trans back)
    obtain ⟨x,⟨mergedV,_⟩,_⟩ := TransGen.head'_iff.mp round
    rcases start with rfl | part
    · cases dispatchReferences.symm.trans refers
      simp [dispatchPlain v (mem_append_left [_] inside)] at mergedV
    · simp [dispatchPlain w part] at merged

theorem dispatchGroupsExact :
    dispatchScope.Resolves dispatchMetrics ∧ ∃ groups, dispatchScope.mergeGroups dispatchMetrics = .ok groups ∧
      dispatchScope.GroupedExactly dispatchMetrics groups := by
  have known : ∀ u ∈ dispatchMetrics, dispatchScope.project.Defines u := by
    intro u mem
    refine ⟨?_,?_⟩ <;> revert u <;> simp [dispatchMetrics,marginUse,dispatchView,dispatchScope,Project.ofDefinitions]
  have apart : dispatchScope.NamesApart dispatchMetrics := by
    have pairs : ∀ m ∈ dispatchParts, ∀ n ∈ dispatchParts,
        m.same n ∨ dispatchScope.AlikeDate m n → dispatchScope.SameDate m n := by decide +kernel
    exact fun m n askedM askedN _ => pairs m (dispatchAsked askedM) n (dispatchAsked askedN)
  obtain ⟨returns,named⟩ := mergeGroupsExact (s := dispatchScope) rfl known
  obtain ⟨groups,made⟩ := returns dispatchResolves
  exact ⟨dispatchResolves,groups,made,(named groups made).2.mpr apart⟩

def webView : View where
  name := "web"
  tableName := some "db.web"
  defaultDate := some "visit_start"
  fields := [
    { name := "id", sql := some "$\x7bTABLE\x7d.id", primaryKey := true },
    .timeGroup "visit_start" "$\x7bTABLE\x7d.visit_start_at" [.raw,.date],
    .ofAggregate "hits" .sum "$\x7bTABLE\x7d.hits"]
  identifiers := [.ofSql "visit" .primary "$\x7bid\x7d"]

def webVisitView : View where
  name := "web_visit"
  tableName := some "db.web_visit"
  defaultDate := some "start"
  fields := [
    { name := "id", sql := some "$\x7bTABLE\x7d.id", primaryKey := true },
    .timeGroup "start" "$\x7bTABLE\x7d.start_at" [.raw,.date],
    .ofAggregate "seconds" .sum "$\x7bTABLE\x7d.seconds"]
  identifiers := [.ofSql "visit" .primary "$\x7bid\x7d"]

def visitGraph : JoinGraph where
  views := ["web","web_visit"]
  joins := [
    { base := "web", target := "web_visit", relationship := .oneToOne,
      condition := "$\x7bweb.id\x7d=$\x7bweb_visit.id\x7d" },
    { base := "web_visit", target := "web", relationship := .oneToOne,
      condition := "$\x7bweb_visit.id\x7d=$\x7bweb.id\x7d" }]

theorem visitViewsGraph : ofViews [webView,webVisitView] = visitGraph :=
  (ofViewsSorted (by decide)).trans (by decide +kernel)

def visitScope : Scope where
  project := { Project.ofDefinitions { views := [webView,webVisitView] } with graph := visitGraph }
  context := { dialect := .snowflake, now := ⟨⟨2024,1,1⟩,0,0,0,0⟩ }

def visitMetrics : List FieldUse :=
  [⟨webView,.ofAggregate "hits" .sum "$\x7bTABLE\x7d.hits",none⟩,
   ⟨webVisitView,.ofAggregate "seconds" .sum "$\x7bTABLE\x7d.seconds",none⟩]

theorem visitDatesRunTogether :
    visitScope.project.graph = .ofViews visitScope.project.views ∧ (∀ u ∈ visitMetrics, visitScope.project.Defines u) ∧
      ∃ group, visitScope.mergeGroups visitMetrics = .ok [group] ∧
        ¬ visitScope.GroupedExactly visitMetrics [group] := by
  have known : ∀ u ∈ visitMetrics, visitScope.project.Defines u := by
    intro u mem
    rcases List.mem_cons.mp mem with rfl | last
    · exact ⟨List.mem_cons_self,by simp [webView]⟩
    · cases List.mem_singleton.mp last
      exact ⟨List.mem_cons_of_mem _ List.mem_cons_self,by simp [webVisitView]⟩
  refine ⟨visitViewsGraph.symm,known,?_⟩
  have single : (visitScope.mergeGroups visitMetrics).toOption.map List.length = some 1 := by decide +kernel
  have apart : ¬ ∀ m ∈ visitMetrics, ∀ n ∈ visitMetrics, visitScope.SameDate m n := by decide +kernel
  cases made : visitScope.mergeGroups visitMetrics with
  | error e => simp [made,Except.toOption] at single
  | ok groups =>
    simp only [made,Except.toOption,Option.map_some,Option.some.injEq] at single
    obtain ⟨group,rfl⟩ := List.length_eq_one_iff.mp single
    obtain ⟨placed,grouped,asked⟩ := mergeGroupsGrouped made
    refine ⟨group,rfl,fun exact => apart fun m memM n memN => ?_⟩
    have wanted : ∀ u ∈ visitMetrics, visitScope.Asked visitMetrics u := by
      intro u mem
      refine ⟨u,mem,.plain ?_⟩
      revert u
      decide
    have held : ∀ u ∈ visitMetrics, MergeGroup.Holds [group] group.1 u := by
      intro u mem
      obtain ⟨e,listed,_,inside⟩ := grouped.found u ((asked u).mpr (wanted u mem))
      exact ⟨e.2,List.mem_singleton.mp listed ▸ listed,inside⟩
    exact ((exact.shared m n (wanted m memM) (wanted n memN)).mp ⟨group.1,held m memM,held n memN⟩).1

end Scope
end SemanticSql
