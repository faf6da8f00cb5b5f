import Mathlib.Data.Option.Basic
import SemanticSql.JoinPlan
import SemanticSql.Proofs.JoinCompleteness

/-! The base of a plan without a topic. The required views are tried in a fixed order, once for joins inside
the required set and once for any joins. -/
namespace SemanticSql

open List

namespace JoinGraph

theorem addViews {g : JoinGraph} {v} (mem : v ∈ g.views) (joins : List Join) : v ∈ (joins.foldl add g).views := by
  induction joins generalizing g with
  | nil => exact mem
  | cons j rest ih =>
    refine ih ?_
    simp only [add,NameSet.mem_insert]
    exact .inr (.inr mem)

theorem ofViewsClosed (views : List View) : (ofViews views).Closed := ofJoinsClosed _ _ _

theorem ofViewsKnown {views : List View} {v} (mem : v ∈ views.map View.name) : (ofViews views).containsView v := by
  refine contains_iff_mem.mpr (addViews (NameSet.mem_ofList.mpr ?_) _)
  obtain ⟨view,known,rfl⟩ := mem_map.mp mem
  exact mem_map_of_mem (mem_mergeSort.mpr known)

theorem ofViewsSorted {views : List View} (sorted : views.Pairwise fun a b => decide (a.name ≤ b.name)) :
    ofViews views = ofJoins (views.map View.name) (explicitJoins views ++ identifierJoins views)
      (NameSet.ofList ((views.filter View.hasCompositeKey).map View.name)) := by
  rw [ofViews,mergeSort_of_pairwise sorted]

end JoinGraph

namespace JoinPlan

theorem firstDistinct {q : String → Bool} (names : List String) : names.eraseDups.find? q = names.find? q := by
  induction h : names.length using Nat.strongRecOn generalizing names with
  | _ n ih =>
    cases names with
    | nil => rfl
    | cons a rest =>
      have shorter : (rest.filter fun b => !b == a).length < n := by
        have := length_filter_le (fun b => !b == a) rest
        simp at h
        omega
      rw [eraseDups_cons,find?_cons,find?_cons,ih _ shorter _ rfl,find?_filter]
      cases holds : q a with
      | true => rfl
      | false =>
        -- A repeated name fails the test again.
        have same : (fun b => decide ((!b == a) = true ∧ q b = true)) = q := by
          funext b
          by_cases equal : b = a <;> simp [equal,holds]
        rw [same]

theorem candidatesFirst {q : String → Bool} (preferred : List String) (required : NameSet) :
    (candidates preferred required).find? q = (preferred ++ required).find? fun b => required.contains b && q b := by
  rw [candidates,firstDistinct,find?_filter]
  simp only [Bool.decide_and,Bool.decide_eq_true]

theorem candidatesMember {preferred v} {required : NameSet} : v ∈ candidates preferred required ↔ v ∈ required := by
  simp only [candidates,mem_eraseDups,mem_filter,mem_append,contains_iff_mem]
  constructor
  · exact And.right
  · exact fun mem => ⟨.inr mem,mem⟩

section
variable {g : JoinGraph} {required : NameSet}

def ReachesAll (g : JoinGraph) (required : NameSet) (base : String) : Prop := ∀ v ∈ required, v ∈ g.reachable base

instance (g required base) : Decidable (ReachesAll g required base) := by unfold ReachesAll; infer_instance

def chosenBase? (g : JoinGraph) (required : NameSet) (order : List String) : Option String :=
  (order.find? fun b => required.contains b && (induced? g b required).isSome) <|>
    order.find? fun b => required.contains b && decide (ReachesAll g required b)

theorem chosenCandidate (g : JoinGraph) (required : NameSet) (preferred : List String) :
    chosenBase? g required (preferred ++ required) =
      (((candidates preferred required).find? fun b => (induced? g b required).isSome) <|>
        (candidates preferred required).find? fun b => ReachesAll g required b) := by
  rw [candidatesFirst,candidatesFirst,chosenBase?]

theorem inducedFirst (tried : List String) :
    (inducedBase? g required tried).map Prod.fst = tried.find? fun b => (induced? g b required).isSome := by
  induction tried with
  | nil => rfl
  | cons b rest ih =>
    rw [inducedBase?,findSome?_cons,find?_cons]
    cases found : induced? g b required with
    | some joins => rfl
    | none => exact ih

theorem solveFirstChoice (closed : g.Closed) (sorted : required.Pairwise (· < ·)) {tried : List String}
    (known : ∀ b ∈ tried, g.containsView b ∧ b ∈ required) (failure : Option Error) :
    (∀ b, (tried.find? fun b => ReachesAll g required b) = some b →
      ∃ joins, solveFirst g required failure tried = .ok (b, joins)) ∧
    ((tried.find? fun b => ReachesAll g required b) = none →
      ∃ e, solveFirst g required failure tried = .error e) := by
  induction tried generalizing failure with
  | nil => exact ⟨fun b none => by simp at none,fun _ => ⟨failure,rfl⟩⟩
  | cons first rest ih =>
    obtain ⟨inGraph,needed⟩ := known first mem_cons_self
    have exactly := solvesExactly closed inGraph needed sorted
    rw [find?_cons,solveFirst]
    cases solved : solve g first required with
    | ok joins =>
      have all : ReachesAll g required first := exactly.succeeds.mp ⟨joins,solved⟩
      simp only [all,decide_true]
      exact ⟨fun b same => ⟨joins,by rw [Option.some.inj same]⟩,fun none => by simp at none⟩
    | error e =>
      have short : ¬ ReachesAll g required first := by
        intro all
        obtain ⟨joins,ok⟩ := exactly.succeeds.mpr all
        rw [ok] at solved
        contradiction
      simp only [short,decide_false,(exactly.fails e solved).1,if_true]
      exact ih (fun b mem => known b (mem_cons_of_mem first mem)) _

theorem inducedAlone (g : JoinGraph) (v : String) : induced? g v [v] = some [] := by
  have alone : ∀ leaving : List Join, leaving.foldl (fun (acc : List String × List Join) j =>
      if [v].contains j.target && !acc.1.contains j.target then (j.target :: acc.1, acc.2 ++ [j]) else acc)
      ([v], []) = ([v], []) := by
    intro leaving
    induction leaving with
    | nil => rfl
    | cons j rest ih =>
      rw [foldl_cons]
      by_cases same : j.target = v <;> simpa [same] using ih
  have tree : searchTree g [v] 2 [v] [v] [] = [] := by
    simp only [searchTree,alone]
    rfl
  simp only [induced?,length_singleton,Nat.reduceAdd,tree]
  simp [order?,orderFrom,clean,cleanFrom]

theorem chosenReaches (closed : g.Closed) (known : ∀ v ∈ required, g.containsView v) {order b}
    (chosen : chosenBase? g required order = some b) : b ∈ required ∧ ReachesAll g required b := by
  rcases (Option.orElse_eq_some _ _ _).mp chosen with found | ⟨_,found⟩
  · have holds := find?_some found
    simp only [Bool.and_eq_true,contains_iff_mem] at holds
    obtain ⟨joins,induced⟩ := Option.isSome_iff_exists.mp holds.2
    exact ⟨holds.1,unreachedNone.mp (spansReachable closed (known b holds.1) (inducedSpans induced))⟩
  · simpa using find?_some found

theorem reachesChosen {order b} (mem : b ∈ order) (needed : b ∈ required) (all : ReachesAll g required b) :
    chosenBase? g required order ≠ none := by
  intro nothing
  have second := ((Option.orElse_eq_none _ _).mp nothing).2
  exact find?_eq_none.mp second b mem (by simp [needed,all])

theorem solveAnyChoice (closed : g.Closed) (sorted : required.Pairwise (· < ·))
    (known : ∀ v ∈ required, g.containsView v) (filled : required ≠ []) (preferred : List String) :
    (∀ b, chosenBase? g required (preferred ++ required) = some b →
      ∃ joins, solveAny g required (candidates preferred required) = .ok (b, joins)) ∧
    (chosenBase? g required (preferred ++ required) = none →
      ∃ e, solveAny g required (candidates preferred required) = .error e) := by
  rw [chosenCandidate]
  have members : ∀ b ∈ candidates preferred required, b ∈ required := fun b => candidatesMember.mp
  obtain ⟨v,inside⟩ := exists_mem_of_ne_nil _ filled
  have tried : v ∈ candidates preferred required := candidatesMember.mpr inside
  rw [solveAny.eq_def]
  generalize candidates preferred required = order at members tried
  cases order with
  | nil => simp at tried
  | cons first rest =>
    simp only
    split
    · rename_i one
      obtain ⟨only,rfl⟩ := length_eq_one_iff.mp one
      have same : first = only := mem_singleton.mp (members first mem_cons_self)
      simp [same,inducedAlone]
    · have firstInduced : (inducedBase? g required (first :: rest)).map Prod.fst = _ := inducedFirst (first :: rest)
      cases found : inducedBase? g required (first :: rest) with
      | some choice =>
        rw [found] at firstInduced
        rw [← firstInduced]
        exact ⟨fun b same => ⟨choice.2,by rw [← Option.some.inj same]⟩,fun none => by simp at none⟩
      | none =>
        rw [found] at firstInduced
        rw [← firstInduced]
        obtain ⟨chosen,nowhere⟩ := solveFirstChoice closed sorted
          (fun b mem => ⟨known b (members b mem),members b mem⟩) none
        constructor
        · intro b same
          obtain ⟨joins,ok⟩ := chosen b same
          exact ⟨joins,by rw [ok]⟩
        · intro nothing
          obtain ⟨e,error⟩ := nowhere nothing
          exact ⟨_,by rw [error]⟩

end

theorem viewFound {p : Project} {name} (known : name ∈ p.views.map View.name) :
    ∃ view, p.view name = .ok view ∧ view.name = name := by
  obtain ⟨v,mem,rfl⟩ := mem_map.mp known
  have found : (p.view? v.name).isSome := find?_isSome.mpr ⟨v,mem,beq_self_eq_true _⟩
  obtain ⟨view,same⟩ := Option.isSome_iff_exists.mp found
  refine ⟨view,by rw [Project.view,same],?_⟩
  simpa using find?_some same

structure PlansExactly (p : Project) (required : NameSet) (preferred : List String) : Prop where
  succeeds : (∃ plan, build p required preferred none = .ok plan) ↔
    ∃ b ∈ required, ∀ v ∈ required, v ∈ p.graph.reachable b
  base : ∀ plan, build p required preferred none = .ok plan →
    chosenBase? p.graph required (preferred ++ required) = some plan.base.name

theorem plansExactly {p : Project} (declared : p.graph = .ofViews p.views) {required : NameSet}
    (sorted : required.Pairwise (· < ·)) (filled : required ≠ []) (known : ∀ v ∈ required, v ∈ p.views.map View.name)
    (preferred : List String) : PlansExactly p required preferred := by
  have closed : p.graph.Closed := declared ▸ JoinGraph.ofViewsClosed p.views
  have inGraph : ∀ v ∈ required, p.graph.containsView v := fun v mem => by
    rw [declared]
    exact JoinGraph.ofViewsKnown (known v mem)
  obtain ⟨found,failed⟩ := solveAnyChoice closed sorted inGraph filled preferred
  cases chosen : chosenBase? p.graph required (preferred ++ required) with
  | none =>
    obtain ⟨e,error⟩ := failed chosen
    have fails : ∀ plan, build p required preferred none ≠ .ok plan := by
      intro plan ok
      simp only [build,error] at ok
      contradiction
    refine ⟨⟨fun ⟨plan,ok⟩ => absurd ok (fails plan),?_⟩,fun plan ok => absurd ok (fails plan)⟩
    rintro ⟨b,needed,all⟩
    exact absurd chosen (reachesChosen (mem_append_right _ needed) needed all)
  | some b =>
    obtain ⟨joins,ok⟩ := found b chosen
    obtain ⟨needed,all⟩ := chosenReaches closed inGraph chosen
    obtain ⟨view,look,same⟩ := viewFound (known b needed)
    have built : build p required preferred none = .ok (ofJoins view joins) := by
      simp only [build,ok]
      show (p.view b >>= fun view => Except.ok (ofJoins view joins)) = _
      rw [look]
      rfl
    refine ⟨⟨fun _ => ⟨b,needed,all⟩,fun _ => ⟨_,built⟩⟩,fun plan again => ?_⟩
    rw [built] at again
    rw [chosen,← Except.ok.inj again,← same]
    rfl

theorem joinPlanningComplete :
    (∀ (views : List String) (joins : List Join) (bridges : NameSet) (base : String) (names : List String),
      (JoinGraph.ofJoins views joins bridges).containsView base → base ∈ names →
      SolvesExactly (.ofJoins views joins bridges) base (.ofList names)) ∧
    ∀ (p : Project) (preferred names : List String), p.graph = .ofViews p.views → names ≠ [] →
      (∀ v ∈ names, v ∈ p.views.map View.name) → PlansExactly p (.ofList names) preferred := by
  constructor
  · intro views joins bridges base names known root
    exact solvesExactly (JoinGraph.ofJoinsClosed views joins bridges) known (NameSet.mem_ofList.mpr root)
      (NameSet.ofListSorted names)
  · intro p preferred names declared filled known
    obtain ⟨v,mem⟩ := List.exists_mem_of_ne_nil names filled
    have some : NameSet.ofList names ≠ [] := List.ne_nil_of_mem (NameSet.mem_ofList.mpr mem)
    exact plansExactly declared (NameSet.ofListSorted names) some (fun v mem => known v (NameSet.mem_ofList.mp mem))
      preferred

def bookShop : Project :=
  .ofDefinitions {
    views := [
      { name := "customers", identifiers := [.ofSql "customer_id" .primary "$\x7bid\x7d"] },
      { name := "orders", identifiers := [.ofSql "customer_id" .foreign "$\x7bcustomer_id\x7d"] }] }

def bookGraph : JoinGraph where
  views := ["customers","orders"]
  joins := [{
    base := "orders", target := "customers", relationship := .manyToOne,
    condition := "$\x7borders.customer_id\x7d=$\x7bcustomers.id\x7d" }]

theorem bookShopGraph : bookShop.graph = bookGraph :=
  (JoinGraph.ofViewsSorted (by decide)).trans (by decide +kernel)

theorem bookShopBase : chosenBase? bookGraph ["customers","orders"] ["customers","customers","orders"] =
    some "orders" := by
  have customers : induced? bookGraph "customers" ["customers","orders"] = none := by decide +kernel
  have orders : induced? bookGraph "orders" ["customers","orders"] = some bookGraph.joins := by decide +kernel
  simp [chosenBase?,customers,orders]

theorem shopPlanningComplete :
    (∃ joins, solve shopGraph "lines" ["customers","lines","payments"] = .ok joins) ∧
      (¬ ∃ joins, solve shopGraph "customers" ["customers","lines","payments"] = .ok joins) ∧
      ∃ plan, build bookShop ["customers","orders"] ["customers"] none = .ok plan ∧ plan.base.name = "orders" := by
  obtain ⟨graphs,projects⟩ := joinPlanningComplete
  have solves := fun base => graphs ["customers","lines","orders","payments"]
    [keyJoin "lines" "orders" .manyToOne,keyJoin "orders" "customers" .manyToOne,
      keyJoin "orders" "payments" .oneToMany] [] base ["customers","lines","payments"]
  have plans := projects bookShop ["customers"] ["customers","orders"] rfl (by decide) (by decide)
  refine ⟨(solves "lines" (by decide) (by decide)).succeeds.mpr (by decide),fun solved => ?_,?_⟩
  · exact absurd ((solves "customers" (by decide) (by decide)).succeeds.mp solved) (by decide)
  · obtain ⟨plan,ok⟩ := plans.succeeds.mpr (by rw [bookShopGraph]; decide)
    have chosen := plans.base plan ok
    rw [bookShopGraph] at chosen
    exact ⟨plan,ok,(Option.some.inj (bookShopBase.symm.trans chosen)).symm⟩

end JoinPlan
end SemanticSql
