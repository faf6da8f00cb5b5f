import SemanticSql.Proofs.AccessFilters
import SemanticSql.Proofs.MergeGroups
import SemanticSql.Proofs.MergedParts

/-! Filters of a merged result. A part shows a dimension as the field that its group has for it, and it applies a
filter to the fields that its group has for them. -/
namespace SemanticSql

namespace FilterSpec
variable {R Q : String → String → Prop}

mutual

def Renamed (R : String → String → Prop) : FilterSpec → FilterSpec → Prop
  | .group conditions connective, f => ∃ others, f = .group others connective ∧ AllRenamed R conditions others
  | .condition field expression value, f => ∃ other, f = .condition other expression value ∧ R field other

def AllRenamed (R : String → String → Prop) : List FilterSpec → List FilterSpec → Prop
  | [], filters => filters = []
  | f :: rest, filters => ∃ g others, filters = g :: others ∧ Renamed R f g ∧ AllRenamed R rest others

end

mutual

theorem renamedExists (f : FilterSpec) : (∃ g, f.Renamed R g) ↔ ∀ name ∈ f.fieldNames, ∃ other, R name other := by
  cases f with
  | group conditions connective => simp [Renamed,fieldNames,← allRenamedExists conditions]
  | condition field expression value => simp [Renamed,fieldNames]

theorem allRenamedExists (filters : List FilterSpec) :
    (∃ others, AllRenamed R filters others) ↔ ∀ name ∈ fieldNamesOf filters, ∃ other, R name other := by
  cases filters with
  | nil => simp [AllRenamed,fieldNamesOf]
  | cons f rest =>
    simp only [AllRenamed,fieldNamesOf,List.forall_mem_append,← renamedExists f,← allRenamedExists rest]
    constructor
    · rintro ⟨_,g,others,rfl,first,later⟩
      exact ⟨⟨g,first⟩,others,later⟩
    · rintro ⟨⟨g,first⟩,others,later⟩
      exact ⟨_,g,others,rfl,first,later⟩

end

mutual

theorem renamedBoth (f : FilterSpec) {g} : f.Renamed (fun a b => R a b ∧ Q a b) g ↔ f.Renamed R g ∧ f.Renamed Q g := by
  cases f with
  | group conditions connective =>
    simp only [Renamed,allRenamedBoth conditions]
    constructor
    · rintro ⟨others,rfl,first,second⟩
      exact ⟨⟨others,rfl,first⟩,others,rfl,second⟩
    · rintro ⟨⟨others,rfl,first⟩,_,same,second⟩
      cases same
      exact ⟨others,rfl,first,second⟩
  | condition field expression value =>
    simp only [Renamed]
    constructor
    · rintro ⟨other,rfl,first,second⟩
      exact ⟨⟨other,rfl,first⟩,other,rfl,second⟩
    · rintro ⟨⟨other,rfl,first⟩,_,same,second⟩
      cases same
      exact ⟨other,rfl,first,second⟩

theorem allRenamedBoth (filters : List FilterSpec) {others} :
    AllRenamed (fun a b => R a b ∧ Q a b) filters others ↔ AllRenamed R filters others ∧ AllRenamed Q filters others := by
  cases filters with
  | nil => simp [AllRenamed]
  | cons f rest =>
    simp only [AllRenamed,renamedBoth f,allRenamedBoth rest]
    constructor
    · rintro ⟨g,tail,rfl,⟨first,second⟩,later,last⟩
      exact ⟨⟨g,tail,rfl,first,later⟩,g,tail,rfl,second,last⟩
    · rintro ⟨⟨g,tail,rfl,first,later⟩,_,_,same,second,last⟩
      cases same
      exact ⟨g,tail,rfl,⟨first,second⟩,later,last⟩

end

end FilterSpec

namespace Scope
variable {s : Scope}

def ShownAs (s : Scope) (dates : List String) (g : MergeGroup) (name other : String) : Prop :=
  ∃ u v, s.project.field name = .ok u ∧ s.dimensionIn dates g u = .ok v ∧ other = v.qualifiedName

def FilteredAs (s : Scope) (g : MergeGroup) (name other : String) : Prop :=
  ∃ u v, s.project.field name = .ok u ∧ s.inGroup? g u = .ok (some v) ∧ other = v.qualifiedName

mutual

theorem specInRenamed {g} (f : FilterSpec) {out} (ok : s.specIn g f = .ok out) (f' : FilterSpec) :
    out = some f' ↔ f.Renamed (s.FilteredAs g) f' := by
  cases f with
  | group conditions connective =>
    rw [specIn] at ok
    obtain ⟨found,each,same⟩ := exceptBind.mp ok
    cases same
    simp [FilterSpec.Renamed,← specsInRenamed conditions each,eq_comm,and_comm]
  | condition field expression value =>
    rw [specIn] at ok
    obtain ⟨u,known,rest⟩ := exceptBind.mp ok
    obtain ⟨found,here,same⟩ := exceptBind.mp rest
    cases same
    simp only [FilterSpec.Renamed,FilteredAs,Option.map_eq_some_iff]
    constructor
    · rintro ⟨v,rfl,rfl⟩
      exact ⟨_,rfl,u,v,known,here,rfl⟩
    · rintro ⟨_,rfl,_,v,again,there,rfl⟩
      cases known.symm.trans again
      cases here.symm.trans there
      exact ⟨v,rfl,rfl⟩

theorem specsInRenamed {g} (filters : List FilterSpec) {out} (ok : s.specsIn g filters = .ok out)
    (others : List FilterSpec) : out = some others ↔ FilterSpec.AllRenamed (s.FilteredAs g) filters others := by
  cases filters with
  | nil =>
    cases ok
    simp [FilterSpec.AllRenamed,eq_comm]
  | cons f rest =>
    rw [specsIn] at ok
    obtain ⟨first,made,ok⟩ := exceptBind.mp ok
    simp only [FilterSpec.AllRenamed,← specInRenamed f made]
    split at ok
    · cases ok
      simp
    · obtain ⟨later,each,same⟩ := exceptBind.mp ok
      cases same
      simp [← specsInRenamed rest each,eq_comm,and_comm]

end

/- A group that is placed by a date shows it in the place of every date by which a group is placed. -/
def Dated (dates : List String) (g : MergeGroup) (u : FieldUse) : Prop :=
  g.date.isSome ∧ dates.contains u.id ∧ Grain.isTime u.grain

theorem shownUndated {dates g u v} (undated : ¬ Dated dates g u) :
    s.dimensionIn dates g u = .ok v ↔ s.inGroup? g u = .ok (some v) := by
  unfold dimensionIn
  split
  · rename_i dated period
    simp only [Bool.and_eq_true] at period
    exact absurd ⟨by simp [dated],period.1,period.2⟩ undated
  · rw [exceptBind]
    constructor
    · rintro ⟨found,here,ok⟩
      split at ok
      · cases ok
        exact here
      · cases ok
    · exact fun here => ⟨some v,here,rfl⟩

def ReadAsShown (s : Scope) (dates : List String) (g : MergeGroup) (name : String) : Prop :=
  ∃ u v, s.project.field name = .ok u ∧ s.dimensionIn dates g u = .ok v ∧
    (Dated dates g u → ∃ w, s.inGroup? g u = .ok (some w) ∧ w.qualifiedName = v.qualifiedName)

theorem readAsShown {dates g name} :
    s.ReadAsShown dates g name ↔ ∃ other, s.ShownAs dates g name other ∧ s.FilteredAs g name other := by
  constructor
  · rintro ⟨u,v,known,shown,dated⟩
    refine ⟨v.qualifiedName,⟨u,v,known,shown,rfl⟩,?_⟩
    by_cases period : Dated dates g u
    · obtain ⟨w,here,same⟩ := dated period
      exact ⟨u,w,known,here,same.symm⟩
    · exact ⟨u,v,known,(shownUndated period).mp shown,rfl⟩
  · rintro ⟨_,⟨u,v,known,shown,rfl⟩,_,w,again,here,same⟩
    cases known.symm.trans again
    exact ⟨u,v,known,shown,fun _ => ⟨w,here,same.symm⟩⟩

theorem appliedAsShown {dates g f out} (ok : s.specIn g f = .ok out) :
    (∃ f', out = some f' ∧ f.Renamed (s.ShownAs dates g) f') ↔ ∀ name ∈ f.fieldNames, s.ReadAsShown dates g name := by
  simp only [readAsShown,← FilterSpec.renamedExists,FilterSpec.renamedBoth,specInRenamed f ok,and_comm]

theorem allInSame {g uses all} (ok : s.allIn g uses = .ok all) :
    all ↔ ∀ u ∈ uses, ∃ v, s.inGroup? g u = .ok (some v) ∧ v.same u := by
  induction uses with
  | nil =>
    cases ok
    simp
  | cons u rest ih =>
    rw [allIn] at ok
    obtain ⟨found,here,ok⟩ := exceptBind.mp ok
    rw [List.forall_mem_cons,here]
    split at ok
    · split at ok
      · rename_i same
        simp [ih ok,same]
      · rename_i other
        cases ok
        simp [other]
    · cases ok
      simp

def Arrives (s : Scope) (dates : List String) (g : MergeGroup) : FilterItem → Option FilterItem → Prop
  | .spec f, out =>
    (∀ item, out = some item ↔ ∃ f', item = .spec f' ∧ f.Renamed (s.FilteredAs g) f') ∧
    ((∃ f', out = some (.spec f') ∧ f.Renamed (s.ShownAs dates g) f') ↔
      ∀ name ∈ f.fieldNames, s.ReadAsShown dates g name)
  | .text sql, out =>
    ∃ uses, (FilterItem.text sql).fields s.project = .ok uses ∧
      ∀ item, out = some item ↔ item = .text sql ∧ ∀ u ∈ uses, ∃ v, s.inGroup? g u = .ok (some v) ∧ v.same u

theorem itemArrives {dates g item out} (ok : s.itemIn g item = .ok out) : s.Arrives dates g item out := by
  cases item with
  | spec f =>
    obtain ⟨found,made,same⟩ := exceptBind.mp ok
    cases same
    refine ⟨fun item => ?_,?_⟩
    · simp [← specInRenamed f made,eq_comm,and_comm]
    · simpa using appliedAsShown made
  | text sql =>
    obtain ⟨uses,read,ok⟩ := exceptBind.mp ok
    obtain ⟨all,inside,same⟩ := exceptBind.mp ok
    cases same
    refine ⟨uses,read,fun item => ?_⟩
    rw [← allInSame inside]
    cases all <;> simp [eq_comm]

theorem filtersFollowDimensions {nested r before q after} (ok : (s.mergedResult nested r).Returns before q after) :
    ∃ metrics dimensions outer groups parts select,
      s.Merged nested r q metrics dimensions (r.filterItems.filter s.passes) outer groups parts select ∧
      ∀ part ∈ parts,
        List.Forall₂ (fun u v => s.dimensionIn (groupDates groups) part.toMergeGroup u = .ok v) dimensions
          part.dimensions ∧
        ∃ table ∈ q.tables, ∃ applied,
          s.PartAnswered nested r (r.filterItems.filter s.passes) part table applied ∧
          List.Forall₂ (s.Arrives (groupDates groups) part.toMergeGroup) (r.filterItems.filter s.passes) applied := by
  obtain ⟨metrics,dimensions,passed,outer,groups,parts,select,merged⟩ := merged ok
  cases mergedPassed merged
  refine ⟨metrics,dimensions,outer,groups,parts,select,merged,fun part mem => ?_⟩
  obtain ⟨e,_,of⟩ := forallMember (partsPlaced merged.placed).flip mem
  obtain ⟨table,listed,applied,answered⟩ := merged.answered part mem
  exact ⟨of.group ▸ of.shows,table,listed,applied,answered,
    answered.applies.imp fun item out made => itemArrives made⟩

def placedAfter : FilterSpec := .condition "orders.placed_date" "greater_than" (some (.str "2024-01-01"))

def datedRequest : Request where
  metrics := ["orders.revenue","orders.freight"]
  dimensions := ["orders.placed_date"]
  filter := some (.single placedAfter)

def placedDate : FieldUse := ⟨dispatchView,placedField,some (.time .date)⟩

def datedMetrics : List FieldUse := [⟨dispatchView,revenueField,none⟩,⟨dispatchView,freightField,none⟩]

theorem datedRan : ∃ q after, (dispatchScope.mergedResult refuseNested datedRequest).Returns {} q after :=
  Compile.ranSome (by decide +kernel)

theorem datedMerged {q metrics dimensions passed outer groups parts select}
    (merged : dispatchScope.Merged refuseNested datedRequest q metrics dimensions passed outer groups parts select) :
    dimensions = [placedDate] ∧ passed = [.spec placedAfter] ∧ dispatchScope.mergeGroups datedMetrics = .ok groups := by
  have asked : dispatchScope.fields datedRequest.metrics = .ok datedMetrics := by rfl
  have shown : dispatchScope.fields datedRequest.dimensions = .ok [placedDate] := by rfl
  have passes : datedRequest.filterItems.filter dispatchScope.passes = [.spec placedAfter] := by rfl
  cases asked.symm.trans merged.asked
  cases shown.symm.trans merged.shown
  cases mergedOuter merged (by rfl) rfl
  exact ⟨rfl,(mergedPassed merged).trans passes,merged.grouped⟩

def showsAndFilters (shown filtered : String) (groups : Dict MergeGroup) : Bool :=
  (dispatchScope.mergeParts groups [placedDate]).toOption.any fun parts => parts.any fun part =>
    (dispatchScope.dimensionIn (groupDates groups) part.toMergeGroup placedDate).toOption.any
      (fun v => v.qualifiedName == shown) &&
    (dispatchScope.inGroup? part.toMergeGroup placedDate).toOption.any fun found =>
      found.any fun w => w.qualifiedName == filtered

theorem datedPart {shown filtered groups parts} (check : showsAndFilters shown filtered groups)
    (placed : dispatchScope.mergeParts groups [placedDate] = .ok parts) :
    ∃ part ∈ parts, ∃ v w, dispatchScope.dimensionIn (groupDates groups) part.toMergeGroup placedDate = .ok v ∧
      v.qualifiedName = shown ∧ dispatchScope.inGroup? part.toMergeGroup placedDate = .ok (some w) ∧
      w.qualifiedName = filtered := by
  simp only [showsAndFilters,Option.any_eq_true,exceptSome,List.any_eq_true,Bool.and_eq_true,beq_iff_eq] at check
  obtain ⟨_,again,part,mem,⟨v,shown,first⟩,_,found,w,rfl,second⟩ := check
  cases placed.symm.trans again
  exact ⟨part,mem,v,w,shown,first,found,second⟩

theorem freightFilteredByPlacement :
    ¬ ∀ (s : Scope) nested r before q after metrics dimensions passed outer groups parts select,
      (s.mergedResult nested r).Returns before q after →
      s.Merged nested r q metrics dimensions passed outer groups parts select →
      ∀ part ∈ parts, ∀ table applied, s.PartAnswered nested r passed part table applied →
      ∀ u ∈ dimensions, ∀ v name expression value, s.project.field name = .ok u →
      s.dimensionIn (groupDates groups) part.toMergeGroup u = .ok v →
      .spec (.condition name expression value) ∈ passed →
      some (.spec (.condition v.qualifiedName expression value)) ∈ applied := by
  intro all
  obtain ⟨q,after,ran⟩ := datedRan
  obtain ⟨metrics,dimensions,passed,outer,groups,parts,select,merged⟩ := merged ran
  obtain ⟨rfl,rfl,grouped⟩ := datedMerged merged
  have check : (dispatchScope.mergeGroups datedMetrics).toOption.any
    (showsAndFilters "orders.shipped_date" "orders.placed_date") := by decide +kernel
  obtain ⟨_,again,dated⟩ := (Option.any_eq_true ..).mp check
  cases grouped.symm.trans (exceptSome.mp again)
  obtain ⟨part,mem,v,w,shown,shipped,found,placed⟩ := datedPart dated merged.placed
  obtain ⟨table,listed,applied,answered⟩ := merged.answered part mem
  have field : dispatchScope.project.field "orders.placed_date" = .ok placedDate := by rfl
  have pushed := all _ _ _ _ _ _ _ _ _ _ _ _ _ ran merged part mem table applied answered placedDate
    List.mem_cons_self v _ _ _ field shown List.mem_cons_self
  obtain ⟨item,only,made⟩ := forallMember answered.applies.flip pushed
  cases List.mem_singleton.mp only
  obtain ⟨_,spec,same⟩ := exceptBind.mp made
  obtain ⟨_,rfl,renamed⟩ := Option.map_eq_some_iff.mp (Except.ok.inj same)
  cases renamed
  obtain ⟨_,whole,_,w',known,found',names⟩ := (specInRenamed placedAfter spec _).mp rfl
  cases whole
  cases field.symm.trans known
  cases found.symm.trans found'
  rw [shipped,placed] at names
  exact absurd names (by decide)

theorem revenueFilteredByPlacement :
    ∃ q after, (dispatchScope.mergedResult refuseNested datedRequest).Returns {} q after ∧
      ∃ part table, dispatchScope.PartAnswered refuseNested datedRequest [.spec placedAfter] part table
        [some (.spec placedAfter)] ∧ table ∈ q.tables ∧
      part.dimensions.map FieldUse.qualifiedName = ["orders.placed_date"] := by
  obtain ⟨q,after,ran⟩ := datedRan
  obtain ⟨metrics,dimensions,outer,groups,parts,select,merged,each⟩ := filtersFollowDimensions ran
  obtain ⟨rfl,kept,grouped⟩ := datedMerged merged
  rw [kept] at each
  have check : (dispatchScope.mergeGroups datedMetrics).toOption.any
    (showsAndFilters "orders.placed_date" "orders.placed_date") := by decide +kernel
  obtain ⟨_,again,dated⟩ := (Option.any_eq_true ..).mp check
  cases grouped.symm.trans (exceptSome.mp again)
  obtain ⟨part,mem,v,w,shown,placed,found,same⟩ := datedPart dated merged.placed
  obtain ⟨shows,table,listed,applied,answered,arrives⟩ := each part mem
  have field : dispatchScope.project.field "orders.placed_date" = .ok placedDate := by rfl
  have read : ∀ name ∈ placedAfter.fieldNames, dispatchScope.ReadAsShown (groupDates groups) part.toMergeGroup name := by
    intro name only
    cases List.mem_singleton.mp only
    exact ⟨placedDate,v,field,shown,fun _ => ⟨w,found,same.trans placed.symm⟩⟩
  obtain ⟨out,_,first,none,rfl⟩ := List.forall₂_cons_left_iff.mp arrives
  cases List.forall₂_nil_left_iff.mp none
  obtain ⟨_,rfl,other,rfl,_,v',known,shown',rfl⟩ := first.2.mpr read
  cases field.symm.trans known
  cases shown.symm.trans shown'
  obtain ⟨_,_,here,none,dimensions⟩ := List.forall₂_cons_left_iff.mp shows
  cases List.forall₂_nil_left_iff.mp none
  cases shown.symm.trans here
  refine ⟨q,after,ran,part,table,?_,listed,by simp [dimensions,placed]⟩
  simpa [placedAfter,placed] using answered

end Scope
end SemanticSql
