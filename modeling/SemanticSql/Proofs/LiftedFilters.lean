import SemanticSql.Plan.WindowFilter
import SemanticSql.Proofs.CompileRuns
import SemanticSql.Proofs.ConditionText

/-! Filters on window functions, taken out of the filters on groups. -/
namespace SemanticSql.Filter

open List

inductive Mentions : Filter → FieldUse → Prop
  | condition {u predicate value} : Mentions (.condition u predicate value) u
  | group {c conditions connective u} (mem : c ∈ conditions) (inner : Mentions c u) :
      Mentions (.group conditions connective) u
  | literal {token u parts} (mem : LiteralPart.field token u ∈ parts) : Mentions (.literal parts) u
  | inQuery {u negated table column} : Mentions (.inQuery u negated table column) u

def OnWindow (f : Filter) : Prop := ∃ u, f.Mentions u ∧ u.isWindowMeasure

/- A group that does not come apart: a window measure stands in a group inside of it, or right under OR. -/
def Entangled : Filter → Prop
  | group conditions connective =>
    (∃ c ∈ conditions, c.isGroup ∧ c.OnWindow) ∨
      connective = .or ∧ ∃ c ∈ conditions, c.isGroup = false ∧ c.OnWindow
  | _ => False

mutual

/- The truth of a filter, given that of the conditions that it is made of; either may be unknown. -/
def truth (leaf : Filter → Option Bool) : Filter → Option Bool
  | condition u predicate value => leaf (.condition u predicate value)
  | group conditions .and => everyTruth leaf conditions
  | group conditions .or => someTruth leaf conditions
  | literal parts => leaf (.literal parts)
  | inQuery u negated table column => leaf (.inQuery u negated table column)

def everyTruth (leaf : Filter → Option Bool) : List Filter → Option Bool
  | [] => some true
  | f :: rest => Sql.both (f.truth leaf) (everyTruth leaf rest)

def someTruth (leaf : Filter → Option Bool) : List Filter → Option Bool
  | [] => some false
  | f :: rest => Sql.either (f.truth leaf) (someTruth leaf rest)

end

def AllTrue (leaf : Filter → Option Bool) (filters : List Filter) : Prop := ∀ f ∈ filters, f.truth leaf = some true

theorem everyTrue {leaf filters} : everyTruth leaf filters = some true ↔ AllTrue leaf filters := by
  unfold AllTrue
  induction filters with
  | nil => simp [everyTruth]
  | cons f rest ih => simp [everyTruth,Sql.bothTrue,ih]

theorem literalMentions {parts u} : u ∈ parts.filterMap LiteralPart.field? ↔ (literal parts).Mentions u := by
  constructor
  · intro mem
    obtain ⟨part,inside,field⟩ := mem_filterMap.mp mem
    cases part with
    | text s => cases field
    | field token v =>
      cases Option.some.inj field
      exact .literal inside
  · intro mentions
    cases mentions with
    | literal mem => exact mem_filterMap.mpr ⟨_,mem,rfl⟩

mutual

theorem fieldMentioned (f : Filter) {u} : u ∈ f.fields ↔ f.Mentions u := by
  cases f with
  | condition v predicate value =>
    rw [fields,mem_singleton]
    exact ⟨fun same => same ▸ .condition,fun mentions => by cases mentions; rfl⟩
  | group conditions connective =>
    rw [fields,fieldsMentioned conditions]
    constructor
    · rintro ⟨c,mem,inner⟩
      exact .group mem inner
    · intro mentions
      cases mentions with
      | group mem inner => exact ⟨_,mem,inner⟩
  | literal parts =>
    rw [fields]
    exact literalMentions
  | inQuery v negated table column =>
    rw [fields,mem_singleton]
    exact ⟨fun same => same ▸ .inQuery,fun mentions => by cases mentions; rfl⟩

theorem fieldsMentioned (filters : List Filter) {u} : u ∈ fieldsOf filters ↔ ∃ f ∈ filters, f.Mentions u := by
  cases filters with
  | nil => simp [fieldsOf]
  | cons f rest => simp [fieldsOf,fieldMentioned f,fieldsMentioned rest]

end

variable {f : Filter}

theorem readsWindowMeasure : f.readsWindow ↔ f.OnWindow := by
  simp only [readsWindow,any_eq_true,fieldMentioned,OnWindow]

theorem noWindowMeasure : f.windowMeasure? = none ↔ ¬ f.OnWindow := by
  rw [← readsWindowMeasure,readsWindow,windowMeasure?,find?_eq_none,any_eq_true]
  simp

theorem noNestedMeasure {conditions : List Filter} :
    (fieldsOf (conditions.filter isGroup)).find? FieldUse.isWindowMeasure = none ↔
      ¬ ∃ c ∈ conditions, c.isGroup ∧ c.OnWindow := by
  rw [find?_eq_none]
  constructor
  · rintro none ⟨c,mem,group,u,mentions,window⟩
    exact none u ((fieldsMentioned _).mpr ⟨c,mem_filter.mpr ⟨mem,group⟩,mentions⟩) window
  · intro plain u listed window
    obtain ⟨c,kept,mentions⟩ := (fieldsMentioned _).mp listed
    obtain ⟨mem,group⟩ := mem_filter.mp kept
    exact plain ⟨c,mem,group,u,mentions,window⟩

theorem groupOnWindow {conditions connective} :
    (group conditions connective).OnWindow ↔ ∃ c ∈ conditions, c.OnWindow := by
  constructor
  · rintro ⟨u,mentions,window⟩
    cases mentions with
    | group mem inner => exact ⟨_,mem,u,inner,window⟩
  · rintro ⟨c,mem,u,mentions,window⟩
    exact ⟨u,.group mem mentions,window⟩

theorem entangledOnWindow (entangled : f.Entangled) : f.OnWindow := by
  cases f with
  | group conditions connective =>
    rcases entangled with ⟨c,mem,_,window⟩ | ⟨_,c,mem,_,window⟩ <;> exact groupOnWindow.mpr ⟨c,mem,window⟩
  | condition u predicate value => exact entangled.elim
  | literal parts => exact entangled.elim
  | inQuery u negated table column => exact entangled.elim

structure Sorts (filters : List Filter) (split : Lifted) : Prop where
  kept : ∀ f ∈ split.kept, ¬ f.OnWindow
  lifted : ∀ f ∈ split.lifted, f.OnWindow
  truth : ∀ leaf, AllTrue leaf filters ↔ AllTrue leaf split.kept ∧ AllTrue leaf split.lifted

/- A conjunction holds if its parts do, so that they may be told apart. -/
theorem sortsConjunction (conditions : List Filter) : Sorts [.group conditions .and]
    { kept := conditions.filter fun c => !c.readsWindow, lifted := conditions.filter readsWindow } where
  kept f mem := by
    have plain := (mem_filter.mp mem).2
    rw [← readsWindowMeasure]
    simpa using plain
  lifted f mem := readsWindowMeasure.mp (mem_filter.mp mem).2
  truth leaf := by
    have whole : AllTrue leaf [.group conditions .and] ↔ AllTrue leaf conditions := by
      simp [AllTrue,truth,everyTrue]
    rw [whole]
    constructor
    · intro all
      exact ⟨fun f mem => all f (mem_of_mem_filter mem),fun f mem => all f (mem_of_mem_filter mem)⟩
    · rintro ⟨plain,window⟩ f mem
      cases reads : f.readsWindow with
      | false => exact plain f (mem_filter.mpr ⟨mem,by simp [reads]⟩)
      | true => exact window f (mem_filter.mpr ⟨mem,reads⟩)

theorem sortsAppend {first rest : List Filter} {a b : Lifted} (left : Sorts first a) (right : Sorts rest b) :
    Sorts (first ++ rest) (a.append b) where
  kept := forall_mem_append.mpr ⟨left.kept,right.kept⟩
  lifted := forall_mem_append.mpr ⟨left.lifted,right.lifted⟩
  truth leaf := by
    have whole : AllTrue leaf (first ++ rest) ↔ AllTrue leaf first ∧ AllTrue leaf rest := forall_mem_append
    have kept : AllTrue leaf (a.append b).kept ↔ AllTrue leaf a.kept ∧ AllTrue leaf b.kept := forall_mem_append
    have lifted : AllTrue leaf (a.append b).lifted ↔ AllTrue leaf a.lifted ∧ AllTrue leaf b.lifted :=
      forall_mem_append
    rw [whole,kept,lifted,left.truth,right.truth]
    exact and_and_and_comm

theorem liftOneCases (f : Filter) :
    (f.Entangled ∧ ∃ e, liftOne f = .error e) ∨ ¬ f.Entangled ∧ ∃ split, liftOne f = .ok split ∧ Sorts [f] split := by
  unfold liftOne
  split
  · rename_i none
    have plain := noWindowMeasure.mp none
    exact .inr ⟨fun entangled => plain (entangledOnWindow entangled),_,rfl,
      forall_mem_singleton.mpr plain,forall_mem_nil _,fun leaf => by simp [AllTrue]⟩
  · rename_i u found
    have window : f.OnWindow := by
      by_contra plain
      rw [noWindowMeasure.mpr plain] at found
      cases found
    split
    · rename_i conditions connective
      split
      · rename_i nested found
        refine .inl ⟨.inl ?_,_,rfl⟩
        by_contra plain
        rw [noNestedMeasure.mpr plain] at found
        cases found
      · rename_i none
        have flat := noNestedMeasure.mp none
        cases connective with
        | or =>
          obtain ⟨c,mem,inner⟩ := groupOnWindow.mp window
          refine .inl ⟨.inr ⟨rfl,c,mem,?_,inner⟩,_,if_pos rfl⟩
          exact Bool.eq_false_iff.mpr fun group => flat ⟨c,mem,group,inner⟩
        | and =>
          refine .inr ⟨?_,_,if_neg (by decide),sortsConjunction conditions⟩
          rintro (nested | ⟨same,_⟩)
          · exact flat nested
          · cases same
    · rename_i other
      refine .inr ⟨?_,_,rfl,forall_mem_nil _,forall_mem_singleton.mpr window,fun leaf => by simp [AllTrue]⟩
      cases f with
      | group conditions connective => exact absurd rfl (other conditions connective)
      | condition u predicate value => exact id
      | literal parts => exact id
      | inQuery u negated table column => exact id

theorem liftWindowsCases (filters : List Filter) :
    (∃ f ∈ filters, f.Entangled) ∧ (∃ e, liftWindows filters = .error e) ∨
      (¬ ∃ f ∈ filters, f.Entangled) ∧ ∃ split, liftWindows filters = .ok split ∧ Sorts filters split := by
  induction filters with
  | nil => exact .inr ⟨by simp,_,rfl,by simp,by simp,by simp [AllTrue]⟩
  | cons f rest ih =>
    rcases liftOneCases f with ⟨entangled,e,failed⟩ | ⟨free,first,made,sorts⟩
    · exact .inl ⟨⟨f,mem_cons_self,entangled⟩,e,by simp [liftWindows,failed,bind,Except.bind]⟩
    · rcases ih with ⟨⟨g,mem,entangled⟩,e,failed⟩ | ⟨others,later,rests,more⟩
      · refine .inl ⟨⟨g,mem_cons_of_mem f mem,entangled⟩,e,?_⟩
        simp [liftWindows,made,failed,bind,Except.bind]
      · refine .inr ⟨by simpa [free] using others,first.append later,?_,sortsAppend sorts more⟩
        simp [liftWindows,made,rests,bind,Except.bind]

theorem liftingKeepsMeaning (filters : List Filter) :
    ((∃ e, liftWindows filters = .error e) ↔ ∃ f ∈ filters, f.Entangled) ∧
      ∀ split, liftWindows filters = .ok split →
        (∀ f ∈ split.kept, ¬ f.OnWindow) ∧ (∀ f ∈ split.lifted, f.OnWindow) ∧
          ∀ leaf, everyTruth leaf filters = some true ↔
            (∀ f ∈ split.kept, f.truth leaf = some true) ∧ ∀ f ∈ split.lifted, f.truth leaf = some true := by
  rcases liftWindowsCases filters with ⟨entangled,e,failed⟩ | ⟨free,sorted,made,sorts⟩
  · refine ⟨iff_of_true ⟨e,failed⟩ entangled,fun split ok => ?_⟩
    rw [failed] at ok
    cases ok
  · refine ⟨iff_of_false (fun ⟨e,failed⟩ => ?_) free,fun split ok => ?_⟩
    · rw [made] at failed
      cases failed
    · rw [made] at ok
      cases ok
      exact ⟨sorts.kept,sorts.lifted,fun leaf => everyTrue.trans (sorts.truth leaf)⟩

def rankField : Field :=
  { name := "rank", role := .measure, type := .number, sql := some "rank() over (order by $\x7brevenue\x7d)" }

def salesField : Field := { name := "revenue", role := .measure, type := .sum, sql := some "$\x7bTABLE\x7d.amount" }

def salesView : View := { name := "orders", tableName := some "db.orders", fields := [rankField,salesField] }

def topRank : Filter := .condition ⟨salesView,rankField,none⟩ (.compare .less) (some (.int 4))

def bigRevenue : Filter := .condition ⟨salesView,salesField,none⟩ (.compare .greater) (some (.int 100))

theorem topRankLifted :
    (∃ e, liftWindows [bigRevenue,.group [topRank,bigRevenue] .or] = .error e) ∧
      liftWindows [bigRevenue,.group [topRank,bigRevenue] .and] = .ok ⟨[bigRevenue,bigRevenue],[topRank]⟩ ∧
      topRank.OnWindow ∧ ¬ bigRevenue.OnWindow ∧
      ∀ leaf, everyTruth leaf [bigRevenue,.group [topRank,bigRevenue] .and] = some true ↔
        bigRevenue.truth leaf = some true ∧ topRank.truth leaf = some true := by
  have window : topRank.OnWindow := ⟨_,.condition,by decide +kernel⟩
  have made : liftWindows [bigRevenue,.group [topRank,bigRevenue] .and] =
    .ok ⟨[bigRevenue,bigRevenue],[topRank]⟩ := by rfl
  obtain ⟨kept,lifted,same⟩ := (liftingKeepsMeaning _).2 _ made
  have entangled : (group [topRank,bigRevenue] .or).Entangled := .inr ⟨rfl,topRank,by simp,rfl,window⟩
  refine ⟨(liftingKeepsMeaning _).1.mpr ⟨_,by simp,entangled⟩,made,window,kept bigRevenue List.mem_cons_self,
    fun leaf => ?_⟩
  rw [same]
  simp

end SemanticSql.Filter
