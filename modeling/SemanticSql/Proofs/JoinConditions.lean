import SemanticSql.Proofs.BaseChoice

/-! The views that a join condition mentions besides its two ends. -/
namespace SemanticSql.JoinPlan

open List

def DependenciesJoined (base : String) (joins : List Join) : Prop :=
  ∀ before j after, joins = before ++ j :: after → ∀ v ∈ j.dependencies, v = base ∨ v ∈ before.map Join.target

theorem supportedGrowing {edges joined joins} (supported : Supported edges joined joins)
    (distinct : (joins.map Join.target).Nodup) (fresh : ∀ j ∈ joins, j.target ∉ joined) : Grows edges joined joins := by
  induction supported with
  | nil joined => exact .nil joined
  | @cons joined j rest edge rooted next ih =>
    obtain ⟨apart,later⟩ := nodup_cons.mp distinct
    refine .cons edge rooted (fresh j mem_cons_self) (ih later fun k mem known => ?_)
    rcases mem_cons.mp known with same | old
    · exact apart (same ▸ mem_map_of_mem mem)
    · exact fresh k (mem_cons_of_mem j mem) old

theorem sortedGrows {edges base tree out} (grown : Grows edges [base] tree) (ok : order? tree = some out) :
    Grows edges [base] out := by
  obtain ⟨perm,supported⟩ := sortedSupported grown ok
  refine supportedGrowing supported ((perm.map Join.target).nodup_iff.mpr (growsTargets grown)) fun j mem => ?_
  exact growsFresh grown j (perm.mem_iff.mp mem)

theorem dependencyNotTarget {j : Join} {v} (mem : v ∈ j.dependencies) : v ≠ j.target := by
  have apart := (mem_filter.mp mem).2
  simp only [Bool.and_eq_true,bne_iff_ne] at apart
  exact apart.2

/- A dependency is visited by the search, so it is the base or the target of a join, and the order puts that
join first. -/
theorem sortedDependencies {base tree out} (perm : out.Perm tree)
    (ordered : out.Pairwise fun before after => mustPrecede after before = false)
    (visited : ∀ j ∈ tree, ∀ v ∈ j.dependencies, v = base ∨ v ∈ tree.map Join.target) :
    DependenciesJoined base out := by
  rintro before j after rfl v mentioned
  rcases visited j (perm.mem_iff.mp (by simp)) v mentioned with root | reached
  · exact .inl root
  · obtain ⟨k,known,rfl⟩ := mem_map.mp reached
    rcases mem_append.mp (perm.mem_iff.mpr known) with earlier | rest
    · exact .inr (mem_map_of_mem earlier)
    · rcases mem_cons.mp rest with rfl | later
      · exact absurd rfl (dependencyNotTarget mentioned)
      · have free := (pairwise_cons.mp (pairwise_append.mp ordered).2.1).1 k later
        simp [mustPrecede,mentioned] at free

theorem inducedDependencies {g base required joins} (ok : induced? g base required = some joins) :
    DependenciesJoined base joins := by
  simp only [induced?] at ok
  split at ok
  · rename_i reached
    obtain ⟨out,sorted,rfl⟩ := Option.map_eq_some_iff.mp ok
    rw [clean,cleanKeeps (sortedGrows (searchedGrows g base required) sorted)]
    obtain ⟨perm,ordered⟩ := sortedOrder sorted
    refine sortedDependencies perm ordered fun j mem v mentioned => ?_
    have all := all_eq_true.mp (Bool.and_eq_true_iff.mp reached).2 j mem
    exact mem_cons.mp (contains_iff_mem.mp (all_eq_true.mp all v mentioned))
  · contradiction

def JoinsInside (p : Project) (required : NameSet) : Option Topic → Prop
  | none => ∃ b ∈ required, (induced? p.graph b required).isSome
  | some topic =>
    let inside := p.graph.restrict (NameSet.ofList topic.viewNames) topic.joins
    (induced? inside topic.baseView (NameSet.insert topic.baseView required)).isSome

theorem noDependencies (base : String) : DependenciesJoined base [] := by
  intro before j after empty
  simp at empty

theorem solveInduced {g base required joins found} (induced : induced? g base required = some found)
    (ok : solve g base required = .ok joins) : DependenciesJoined base joins := by
  rw [solve] at ok
  split at ok
  · cases Except.ok.inj ok
    exact noDependencies base
  · rw [induced] at ok
    cases Except.ok.inj ok
    exact inducedDependencies induced

theorem inducedBaseDependencies {g required order base joins}
    (found : inducedBase? g required order = some (base, joins)) : DependenciesJoined base joins := by
  obtain ⟨b,_,choice⟩ := exists_of_findSome?_eq_some found
  obtain ⟨inside,induced,same⟩ := Option.map_eq_some_iff.mp choice
  cases same
  exact inducedDependencies induced

variable {p : Project}

theorem solveAnyDependencies {required preferred base joins} (inside : JoinsInside p required none)
    (ok : solveAny p.graph required (candidates preferred required) = .ok (base, joins)) :
    DependenciesJoined base joins := by
  obtain ⟨b,needed,induced⟩ := inside
  have tried : b ∈ candidates preferred required := candidatesMember.mpr needed
  rw [solveAny.eq_def] at ok
  split at ok
  · contradiction
  · split at ok
    · cases Except.ok.inj ok
      exact noDependencies base
    · have some : (candidates preferred required).find? (fun b => (induced? p.graph b required).isSome) ≠ none :=
        fun nothing => find?_eq_none.mp nothing b tried induced
      split at ok
      · rename_i found choice
        cases Except.ok.inj ok
        exact inducedBaseDependencies choice
      · rename_i nothing
        rw [← inducedFirst,nothing] at some
        exact absurd rfl some

theorem solveInTopicDependencies {required topic base joins} (inside : JoinsInside p required (some topic))
    (ok : solveInTopic p.graph topic required = .ok (base, joins)) : DependenciesJoined base joins := by
  obtain ⟨found,induced⟩ := Option.isSome_iff_exists.mp inside
  simp only [solveInTopic] at ok
  split at ok
  · contradiction
  · split at ok
    · rename_i solved
      cases Except.ok.inj ok
      exact solveInduced induced solved
    · contradiction

theorem viewNamed {name view} (ok : p.view name = .ok view) : view.name = name := by
  rw [Project.view] at ok
  split at ok
  · rename_i found
    cases Except.ok.inj ok
    simpa using find?_some found
  · contradiction

theorem builtFrom {choice : Except Error (String × List Join)} {plan}
    (ok : (do let (base, joins) ← choice; .ok (ofJoins (← p.view base) joins)) = Except.ok plan) :
    choice = .ok (plan.base.name, plan.joins) := by
  cases choice with
  | error e => contradiction
  | ok found =>
    cases look : p.view found.1 with
    | error e => simp [bind,Except.bind,look] at ok
    | ok view =>
      simp only [bind,Except.bind,look] at ok
      rw [← Except.ok.inj ok]
      show _ = Except.ok (view.name, found.2)
      rw [viewNamed look]

theorem joinConditionsJoined {p required preferred topic plan} (inside : JoinsInside p required topic)
    (ok : build p required preferred topic = .ok plan) : DependenciesJoined plan.base.name plan.joins := by
  cases topic with
  | none => exact solveAnyDependencies inside (builtFrom ok)
  | some topic => exact solveInTopicDependencies inside (builtFrom ok)

def storeViews : List View := [
  { name := "customers" },
  { name := "orders"
    identifiers := [
      .ofJoin "customer" "customers" .manyToOne
        "$\x7borders.customer_id\x7d=$\x7bcustomers.id\x7d and $\x7bstores.open\x7d",
      .ofJoin "store" "stores" .manyToOne "$\x7borders.store_id\x7d=$\x7bstores.id\x7d"] },
  { name := "stores" }]

def customerJoin : Join where
  base := "orders"
  target := "customers"
  relationship := .manyToOne
  condition := "$\x7borders.customer_id\x7d=$\x7bcustomers.id\x7d and $\x7bstores.open\x7d"

def storeJoin : Join where
  base := "orders"
  target := "stores"
  relationship := .manyToOne
  condition := "$\x7borders.store_id\x7d=$\x7bstores.id\x7d"

def storeGraph : JoinGraph where
  views := ["customers","orders","stores"]
  joins := [customerJoin,storeJoin]

def storeProject : Project := .ofDefinitions { views := storeViews }

theorem storeProjectGraph : storeProject.graph = storeGraph :=
  (JoinGraph.ofViewsSorted (by decide)).trans (by decide +kernel)

theorem storePlan {required : NameSet} {joins}
    (solved : solveAny storeGraph required (candidates ["orders"] required) = .ok ("orders", joins)) :
    ∃ view, view.name = "orders" ∧ build storeProject required ["orders"] none = .ok (ofJoins view joins) := by
  have known : "orders" ∈ storeProject.views.map View.name := by decide
  obtain ⟨view,look,name⟩ := viewFound known
  refine ⟨view,name,?_⟩
  rw [← storeProjectGraph] at solved
  simp only [build,solved,bind,Except.bind,look]

theorem storesNeverJoined :
    ¬ ∀ (d : Definitions) required preferred topic plan, build (.ofDefinitions d) required preferred topic = .ok plan →
      DependenciesJoined plan.base.name plan.joins := by
  intro all
  have solved : solveAny storeGraph ["customers","orders"] (candidates ["orders"] ["customers","orders"]) =
      .ok ("orders", [customerJoin]) := by cbv
  obtain ⟨view,name,ok⟩ := storePlan solved
  have joined := all { views := storeViews } _ _ _ _ ok [] customerJoin [] rfl "stores" (by decide)
  simp [ofJoins,name] at joined

theorem storesJoinedFirst :
    ∃ plan, build storeProject ["customers","orders","stores"] ["orders"] none = .ok plan ∧
      plan.joins = [storeJoin,customerJoin] ∧ DependenciesJoined plan.base.name plan.joins := by
  have induced : induced? storeGraph "orders" ["customers","orders","stores"] = some [storeJoin,customerJoin] := by
    cbv
  have solved : solveAny storeGraph ["customers","orders","stores"]
      (candidates ["orders"] ["customers","orders","stores"]) = .ok ("orders", [storeJoin,customerJoin]) := by
    cbv
  obtain ⟨view,name,ok⟩ := storePlan solved
  have inside : JoinsInside storeProject ["customers","orders","stores"] none :=
    ⟨"orders",by decide,by rw [storeProjectGraph,induced]; rfl⟩
  exact ⟨_,ok,rfl,joinConditionsJoined inside ok⟩

end SemanticSql.JoinPlan
