import SemanticSql.Proofs.JoinConditions

/-! The graph of a topic. Joins that the topic declares come first, with those of their inverses that do not fan out;
of the joins of the project only those stay that touch no target of a declared join. -/
namespace SemanticSql

open List

namespace JoinGraph
variable {g : JoinGraph} {u v : String}

def connects (u v : String) (j : Join) : Bool := j.base == u && j.target == v

theorem connectsIff {j : Join} : connects u v j = true ↔ j.base = u ∧ j.target = v := by simp [connects]

theorem addedFirst (joins : List Join) : (joins.foldl add g).join? u v = (g.joins ++ joins).find? (connects u v) := by
  induction joins generalizing g with
  | nil => rw [append_nil]; rfl
  | cons j rest ih =>
    rw [foldl_cons,ih,add,find?_append,find?_append]
    split
    · rename_i known
      by_cases same : connects u v j = true
      · obtain ⟨rfl,rfl⟩ := connectsIff.mp same
        obtain ⟨old,found⟩ := Option.isSome_iff_exists.mp known
        have first : g.joins.find? (connects j.base j.target) = some old := found
        rw [first]
        rfl
      · rw [find?_cons_of_neg same]
    · rw [find?_append,Option.or_assoc,← find?_append,singleton_append]

theorem ofJoinsFirst (views : List String) (joins : List Join) (bridges : NameSet) :
    (ofJoins views joins bridges).join? u v = joins.find? (connects u v) := addedFirst joins

theorem addedSource {joins : List Join} {j} (mem : j ∈ (joins.foldl add g).joins) : j ∈ g.joins ∨ j ∈ joins := by
  induction joins generalizing g with
  | nil => exact .inl mem
  | cons k rest ih =>
    rcases ih mem with known | later
    · simp only [add] at known
      split at known
      · exact .inl known
      · rcases mem_append.mp known with old | same
        · exact .inl old
        · exact .inr (mem_singleton.mp same ▸ mem_cons_self)
    · exact .inr (mem_cons_of_mem k later)

def endsOrdered (a b : Join) : Bool := a.base < b.base || (a.base == b.base && a.target ≤ b.target)

theorem endsOrderedIff {a b : Join} :
    endsOrdered a b ↔ Prod.Lex (· < ·) (· ≤ ·) (a.base, a.target) (b.base, b.target) := by
  simp [endsOrdered,Prod.lex_def]

theorem endsTrans (a b c : Join) (first : endsOrdered a b) (second : endsOrdered b c) : endsOrdered a c := by
  rw [endsOrderedIff] at first second ⊢
  exact first.trans second

theorem endsTotal (a b : Join) : endsOrdered a b || endsOrdered b a := by
  rw [Bool.or_eq_true,endsOrderedIff,endsOrderedIff]
  exact total_of _ _ _

/- Joins between the same views are equal in the order, and sorting keeps equals as they stand. -/
theorem sortedFirst (g : JoinGraph) (u v : String) : g.sortedJoins.find? (connects u v) = g.join? u v := by
  have equals : (g.joins.filter (connects u v)).Pairwise fun a b => endsOrdered a b = true := by
    refine pairwise_of_forall_mem_list fun a inA b inB => ?_
    have endsA := connectsIff.mp (mem_filter.mp inA).2
    have endsB := connectsIff.mp (mem_filter.mp inB).2
    simp [endsOrdered,endsA.1,endsA.2,endsB.1,endsB.2]
  have sorted : (g.joins.filter (connects u v)).Sublist (g.joins.mergeSort endsOrdered) :=
    sublist_mergeSort endsTrans endsTotal equals filter_sublist
  have kept : (g.joins.filter (connects u v)).Sublist (g.sortedJoins.filter (connects u v)) := by
    have ordered : g.sortedJoins = g.joins.mergeSort endsOrdered := rfl
    rw [ordered]
    simpa using sorted.filter (connects u v)
  have listed : g.sortedJoins.Perm g.joins := mergeSort_perm _ _
  have same := kept.eq_of_length (listed.filter (connects u v)).length_eq.symm
  rw [← head?_filter,← same,head?_filter]
  rfl

def declaredBy (overrides : List Join) : List Join :=
  overrides.flatMap fun j => if j.inverted.relationship.isFanout then [j] else [j,j.inverted]

theorem declaredSource {overrides : List Join} {j} (mem : j ∈ declaredBy overrides) :
    ∃ o ∈ overrides, j = o ∨ j = o.inverted := by
  obtain ⟨o,known,made⟩ := mem_flatMap.mp mem
  refine ⟨o,known,?_⟩
  split at made
  · exact .inl (mem_singleton.mp made)
  · simpa using made

theorem restrictedJoin (g : JoinGraph) (views : NameSet) (overrides : List Join) (u v : String) :
    (g.restrict views overrides).join? u v =
      ((declaredBy overrides).find? (connects u v)).or
        (if u ∈ views ∧ v ∈ views ∧ v ∉ overrides.map Join.target ∧ u ∉ overrides.map Join.target
          then g.join? u v else none) := by
  rw [restrict,ofJoinsFirst,find?_append,← sortedFirst,find?_filter]
  congr 1
  split
  · rename_i free
    congr 1
    funext j
    by_cases ends : connects u v j = true
    · obtain ⟨rfl,rfl⟩ := connectsIff.mp ends
      simpa [ends,and_assoc] using free
    · simp [ends]
  · rename_i touched
    refine find?_eq_none.mpr fun j _ kept => touched ?_
    obtain ⟨inside,ends⟩ := of_decide_eq_true kept
    obtain ⟨rfl,rfl⟩ := connectsIff.mp ends
    simpa [and_assoc] using inside

theorem restrictedSource {views : NameSet} {overrides : List Join} {j} (mem : j ∈ (g.restrict views overrides).joins) :
    j ∈ declaredBy overrides ∨ j.base ∈ views ∧ j.target ∈ views := by
  rcases addedSource mem with none | listed
  · cases none
  · rcases mem_append.mp listed with declared | kept
    · exact .inl declared
    · have inside := (mem_filter.mp kept).2
      simp only [Bool.and_eq_true,contains_iff_mem] at inside
      exact .inr inside.1.1

/- The joins of the project between views of the set that no override leads to or declares. -/
theorem overriddenTargetsCutOff {g : JoinGraph} {views : NameSet} {overrides : List Join} {u v : String} {j : Join}
    (known : g.join? u v = some j) (inside : u ∈ views ∧ v ∈ views)
    (target : ∀ o ∈ overrides, o.target ≠ v)
    (undeclared : ∀ o ∈ declaredBy overrides, ¬ (o.base = u ∧ o.target = v)) :
    (g.restrict views overrides).join? u v = if ∃ o ∈ overrides, o.target = u then none else some j := by
  have silent : (declaredBy overrides).find? (connects u v) = none :=
    List.find?_eq_none.mpr fun o mem ends => undeclared o mem (connectsIff.mp ends)
  have free : v ∉ overrides.map Join.target := by
    intro mem
    obtain ⟨o,listed,same⟩ := List.mem_map.mp mem
    exact target o listed same
  rw [restrictedJoin,silent,Option.none_or,known]
  simp only [inside,free,List.mem_map,not_false_eq_true,true_and]
  by_cases overridden : ∃ o ∈ overrides, o.target = u
  · rw [if_pos overridden,if_neg (not_not.mpr overridden)]
  · rw [if_neg overridden,if_pos overridden]

def regionGraph : JoinGraph :=
  .ofJoins ["customers","orders","regions","stores"]
    [JoinPlan.keyJoin "orders" "customers" .manyToOne,JoinPlan.keyJoin "customers" "regions" .manyToOne,
      JoinPlan.keyJoin "orders" "stores" .manyToOne] []

def buyerJoin : Join where
  base := "orders"
  target := "customers"
  relationship := .manyToOne
  condition := "$\x7borders.buyer_id\x7d=$\x7bcustomers.id\x7d"

theorem regionsCutOff :
    ¬ ∀ (names : List String) (joins : List Join) (bridges views : NameSet) (overrides : List Join) (u v : String)
      (j : Join), (∀ o ∈ overrides, o.base ∈ views ∧ o.target ∈ views) →
      (ofJoins names joins bridges).join? u v = some j → u ∈ views → v ∈ views → (∀ o ∈ overrides, o.target ≠ v) →
      (∀ o ∈ declaredBy overrides, ¬ (o.base = u ∧ o.target = v)) →
      ((ofJoins names joins bridges).restrict views overrides).join? u v = some j := by
  intro all
  have kept := all ["customers","orders","regions","stores"]
    [JoinPlan.keyJoin "orders" "customers" .manyToOne,JoinPlan.keyJoin "customers" "regions" .manyToOne,
      JoinPlan.keyJoin "orders" "stores" .manyToOne] [] ["customers","orders","regions","stores"] [buyerJoin]
    "customers" "regions" (JoinPlan.keyJoin "customers" "regions" .manyToOne)
    (by decide) (by decide) (by decide) (by decide) (by decide) (by decide)
  have silent : (declaredBy [buyerJoin]).find? (connects "customers" "regions") = none := by decide
  rw [restrictedJoin,silent,if_neg (by decide)] at kept
  cases kept

theorem storesKeptRegionsLost :
    (regionGraph.restrict ["customers","orders","regions","stores"] [buyerJoin]).join? "orders" "stores" =
        some (JoinPlan.keyJoin "orders" "stores" .manyToOne) ∧
      (regionGraph.restrict ["customers","orders","regions","stores"] [buyerJoin]).join? "customers" "regions" =
        none := by
  constructor
  · exact (overriddenTargetsCutOff (by decide : _ = some (JoinPlan.keyJoin "orders" "stores" .manyToOne))
      (by decide) (by decide) (by decide)).trans (if_neg (by decide))
  · exact (overriddenTargetsCutOff (by decide : _ = some (JoinPlan.keyJoin "customers" "regions" .manyToOne))
      (by decide) (by decide) (by decide)).trans (if_pos (by decide))

end JoinGraph

namespace Topic
variable {t : Topic}

theorem keyContained {v : String} {views : Dict TopicView} : v ∈ views.keys ↔ views.contains v = true := by
  rw [Dict.contains,Dict.get?,Option.isSome_map,find?_isSome,Dict.keys,mem_map]
  simp only [beq_iff_eq]

theorem containsIff {v : String} : t.containsView v = true ↔ v ∈ NameSet.ofList t.viewNames := by
  rw [NameSet.mem_ofList,viewNames,containsView,Bool.or_eq_true,beq_iff_eq,← keyContained,mem_cons,
    mem_filter,bne_iff_ne]
  by_cases base : v = t.baseView <;> simp [base]

def SelfContained (t : Topic) : Prop := ∀ j ∈ t.joins, ∀ v ∈ j.mentionedViews, t.containsView v = true

instance (t : Topic) : Decidable t.SelfContained := by unfold SelfContained; infer_instance

theorem declaredInside (closed : t.SelfContained) {j} (mem : j ∈ t.joins) :
    t.containsView j.base = true ∧ t.containsView j.target = true := by
  have mentioned := closed j mem
  obtain ⟨⟨name,view⟩,listed,made⟩ := mem_filterMap.mp mem
  obtain ⟨join,_,rfl⟩ := Option.map_eq_some_iff.mp made
  constructor
  · cases first : (Join.mentionedViews ⟨"",name,join.relationship,join.kind,join.condition⟩).find?
        (fun v => v != name) with
    | none => simp [first,containsView]
    | some v =>
      simp only [first,Option.getD_some]
      exact mentioned v (mem_of_find?_eq_some first)
  · have known : name ∈ t.views.keys := mem_map_of_mem listed
    rw [containsView,keyContained.mp known,Bool.or_true]

theorem restrictedInside (closed : t.SelfContained) {g : JoinGraph} {j}
    (mem : j ∈ (g.restrict (NameSet.ofList t.viewNames) t.joins).joins) :
    t.containsView j.base = true ∧ t.containsView j.target = true := by
  rcases JoinGraph.restrictedSource mem with declared | kept
  · obtain ⟨o,listed,rfl | rfl⟩ := JoinGraph.declaredSource declared
    · exact declaredInside closed listed
    · exact (declaredInside closed listed).symm
  · exact ⟨containsIff.mpr kept.1,containsIff.mpr kept.2⟩

end Topic

namespace JoinPlan
variable {p : Project} {topic : Topic} {required : NameSet} {preferred : List String}

theorem topicFailure {e} (failed : build p required preferred (some topic) = .error e) : e.isRecoverable = false := by
  simp only [build] at failed
  cases solved : solveInTopic p.graph topic required with
  | error cause =>
    rw [solved] at failed
    cases failed
    simp only [solveInTopic] at solved
    split at solved
    · cases solved
      rfl
    · split at solved
      · cases solved
      · cases solved
        exact Error.isRecoverable_inTopic _
  | ok found =>
    rw [solved] at failed
    cases look : p.view found.1 with
    | error cause =>
      simp only [bind,Except.bind,look] at failed
      cases failed
      simp only [Project.view] at look
      split at look
      · cases look
      · cases look
        rfl
    | ok view =>
      simp only [bind,Except.bind,look] at failed
      cases failed

theorem outsideRefused {v} (needed : v ∈ required) (outside : topic.containsView v = false) :
    ∃ w ∈ required, topic.containsView w = false ∧
      build p required preferred (some topic) = .error (.join (.outsideTopic w topic.name) .topic) := by
  have some : (required.find? fun v => !topic.containsView v).isSome :=
    find?_isSome.mpr ⟨v,needed,by simp [outside]⟩
  obtain ⟨w,found⟩ := Option.isSome_iff_exists.mp some
  refine ⟨w,mem_of_find?_eq_some found,by simpa using find?_some found,?_⟩
  simp only [build,solveInTopic,found]
  rfl

theorem topicJoins {base joins} (closed : topic.SelfContained)
    (ok : solveInTopic p.graph topic required = .ok (base, joins)) :
    base = topic.baseView ∧ ∀ j ∈ joins, topic.containsView j.base = true ∧ topic.containsView j.target = true := by
  simp only [solveInTopic] at ok
  split at ok
  · cases ok
  · split at ok
    · rename_i solved
      cases ok
      exact ⟨rfl,fun j mem => Topic.restrictedInside closed (growsEdge (solveSpans solved).1 mem)⟩
    · cases ok

theorem topicPlansStayInside (p : Project) (topic : Topic) (required : NameSet) (preferred : List String)
    (closed : topic.SelfContained) :
    (∀ e, build p required preferred (some topic) = .error e → e.isRecoverable = false) ∧
      (∀ v ∈ required, topic.containsView v = false → ∃ w ∈ required, topic.containsView w = false ∧
        build p required preferred (some topic) = .error (.join (.outsideTopic w topic.name) .topic)) ∧
      ∀ plan, build p required preferred (some topic) = .ok plan → plan.base.name = topic.baseView ∧
        ∀ j ∈ plan.joins, topic.containsView j.base = true ∧ topic.containsView j.target = true :=
  ⟨fun _ => topicFailure,fun _ => outsideRefused,fun _ ok => topicJoins closed (builtFrom ok)⟩

def buyerTopic : Topic where
  name := "buyers"
  baseView := "orders"
  views := [("customers", { join := some { condition := "$\x7borders.buyer_id\x7d=$\x7bcustomers.id\x7d" } })]

theorem buyersStayInside :
    buyerTopic.SelfContained ∧
      (∃ plan, build bookShop ["customers","orders"] ["customers"] (some buyerTopic) = .ok plan ∧
        plan.base.name = "orders" ∧ plan.joins = [JoinGraph.buyerJoin] ∧
        ∀ j ∈ plan.joins, buyerTopic.containsView j.base = true ∧ buyerTopic.containsView j.target = true) ∧
      ∃ w ∈ ["customers","stores"], buyerTopic.containsView w = false ∧
        build bookShop ["customers","stores"] ["customers"] (some buyerTopic) =
          .error (.join (.outsideTopic w "buyers") .topic) := by
  have closed : buyerTopic.SelfContained := by decide +kernel
  have solved : solveInTopic bookShop.graph buyerTopic ["customers","orders"] =
      .ok ("orders", [JoinGraph.buyerJoin]) := by
    rw [bookShopGraph]
    decide +kernel
  obtain ⟨view,look,name⟩ := viewFound (by decide : "orders" ∈ bookShop.views.map View.name)
  have ok : build bookShop ["customers","orders"] ["customers"] (some buyerTopic) =
      .ok (ofJoins view [JoinGraph.buyerJoin]) := by
    simp only [build,solved,bind,Except.bind,look]
  obtain ⟨_,_,inside⟩ := topicPlansStayInside bookShop buyerTopic ["customers","orders"] ["customers"] closed
  obtain ⟨_,refused,_⟩ := topicPlansStayInside bookShop buyerTopic ["customers","stores"] ["customers"] closed
  obtain ⟨base,joins⟩ := inside _ ok
  exact ⟨closed,⟨_,ok,base,rfl,joins⟩,refused "stores" (by decide) (by decide)⟩

end JoinPlan
end SemanticSql
