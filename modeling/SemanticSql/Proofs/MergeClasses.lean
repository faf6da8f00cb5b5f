import SemanticSql.JoinGraph.Component
import SemanticSql.Proofs.CheapestPath

/-! Merge groups of views. Two views share a group exactly when joins connect them, in whatever direction. -/
namespace SemanticSql

open List

theorem digitsInjective {i j : Nat} (h : toString i = toString j) : i = j := by
  have digits : Nat.toDigits 10 i = Nat.toDigits 10 j := by
    simpa [Nat.toString_eq_ofList_toDigits] using congrArg String.toList h
  simpa using congrArg (Nat.ofDigitChars 10 · 0) digits

namespace JoinGraph

structure Alike (views : NameSet) (same : String → String → Bool) : Prop where
  refl : ∀ v ∈ views, same v v
  symm : ∀ v ∈ views, ∀ w ∈ views, same v w → same w v
  trans : ∀ v ∈ views, ∀ w ∈ views, ∀ x ∈ views, same v w → same w x → same v x

section
variable {views : NameSet} {same : String → String → Bool}

theorem classesListed : classes views same = views.filterMap fun v =>
    if (views.filter (same v)).head? = some v then some (views.filter (same v)) else none := by
  have paired : (views.map fun v => views.filter (same v)).zip views =
      views.map fun v => (views.filter (same v), v) := by
    simpa using zip_map' (f := fun v => views.filter (same v)) (g := id) (l := views)
  rw [classes,paired,filterMap_map]
  rfl

theorem classesMember {members} :
    members ∈ classes views same ↔ ∃ v ∈ views, members = views.filter (same v) ∧ members.head? = some v := by
  simp only [classesListed,mem_filterMap,Option.ite_none_right_eq_some,Option.some.injEq]
  constructor
  · rintro ⟨v,mem,first,rfl⟩
    exact ⟨v,mem,rfl,first⟩
  · rintro ⟨v,mem,rfl,first⟩
    exact ⟨v,mem,first,rfl⟩

theorem classShape (alike : Alike views same) {v w} (memV : v ∈ views) (memW : w ∈ views) (linked : same v w) :
    views.filter (same v) = views.filter (same w) := by
  refine filter_congr fun x here => Bool.eq_iff_iff.mpr ⟨fun reach => ?_,fun reach => ?_⟩
  · exact alike.trans w memW v memV x here (alike.symm v memV w memW linked) reach
  · exact alike.trans v memV w memW x here linked reach

theorem classOf (alike : Alike views same) {v} (mem : v ∈ views) : ∃ members ∈ classes views same, v ∈ members := by
  have inside : v ∈ views.filter (same v) := mem_filter.mpr ⟨mem,alike.refl v mem⟩
  obtain ⟨first,rest,shape⟩ := exists_cons_of_ne_nil (ne_nil_of_mem inside)
  have member : first ∈ views.filter (same v) := shape ▸ mem_cons_self
  obtain ⟨known,linked⟩ := mem_filter.mp member
  have shared : views.filter (same first) = views.filter (same v) := (classShape alike mem known linked).symm
  exact ⟨_,classesMember.mpr ⟨first,known,rfl,by rw [shared,shape]; rfl⟩,shared ▸ inside⟩

theorem classShared (alike : Alike views same) {v w} (memV : v ∈ views) (memW : w ∈ views) (linked : same v w)
    {members} (listed : members ∈ classes views same) (inside : v ∈ members) : w ∈ members := by
  obtain ⟨x,memX,rfl,_⟩ := classesMember.mp listed
  exact mem_filter.mpr ⟨memW,alike.trans x memX v memV w memW (mem_filter.mp inside).2 linked⟩

theorem classIndexSome (alike : Alike views same) {v} (mem : v ∈ views) :
    (classIndex? (classes views same) v).isSome := by
  obtain ⟨members,listed,inside⟩ := classOf alike mem
  rw [classIndex?,findIdx?_isSome,any_eq_true]
  exact ⟨members,mem_mergeSort.mpr listed,contains_iff_mem.mpr inside⟩

theorem classIndexAlike (alike : Alike views same) {v w} (memV : v ∈ views) (memW : w ∈ views) :
    classIndex? (classes views same) v = classIndex? (classes views same) w ↔ same v w := by
  obtain ⟨i,found⟩ := Option.isSome_iff_exists.mp (classIndexSome alike memV)
  obtain ⟨inRange,holds,before⟩ := findIdx?_eq_some_iff_getElem.mp found
  have listed : ∀ {j : Nat} (h : j < ((classes views same).mergeSort classOrder).length),
      ((classes views same).mergeSort classOrder)[j] ∈ classes views same :=
    fun h => mem_mergeSort.mp (getElem_mem h)
  constructor
  · intro equal
    obtain ⟨_,holdsW,_⟩ := findIdx?_eq_some_iff_getElem.mp (equal ▸ found)
    obtain ⟨x,memX,shape,_⟩ := classesMember.mp (listed inRange)
    rw [shape,contains_iff_mem,mem_filter] at holds holdsW
    exact alike.trans v memV x memX w memW (alike.symm x memX v memV holds.2) holdsW.2
  · intro linked
    rw [found]
    refine (findIdx?_eq_some_iff_getElem.mpr ⟨inRange,?_,fun j less inside => before j less ?_⟩).symm
    · exact contains_iff_mem.mpr
        (classShared alike memV memW linked (listed inRange) (contains_iff_mem.mp holds))
    · exact contains_iff_mem.mpr
        (classShared alike memW memV (alike.symm v memV w memW linked) (listed (Nat.lt_trans less inRange))
          (contains_iff_mem.mp inside))

end

def Linked (g : JoinGraph) (v w : String) : Prop := ∃ path, Leads (g.joins ++ g.joins.map Join.inverted) v path w

variable {g : JoinGraph}

theorem linkedSymm {v w} (linked : g.Linked v w) : g.Linked w v := by
  obtain ⟨path,chain⟩ := linked
  induction chain with
  | here view => exact ⟨[],.here view⟩
  | @step j rest target edge next ih =>
    obtain ⟨back,chain⟩ := ih
    rcases mem_append.mp edge with declared | turned
    · exact ⟨_,leadsAppend chain (.step (j := j.inverted)
        (mem_append_right _ (mem_map_of_mem declared)) (.here j.base))⟩
    · obtain ⟨k,declared,rfl⟩ := mem_map.mp turned
      exact ⟨_,leadsAppend chain (.step (j := k) (mem_append_left _ declared) (.here k.target))⟩

theorem linkedTrans {v w x} (first : g.Linked v w) (second : g.Linked w x) : g.Linked v x := by
  obtain ⟨_,chain⟩ := first
  obtain ⟨_,next⟩ := second
  exact ⟨_,leadsAppend chain next⟩

theorem withinLinked (closed : g.Closed) {v w} (mem : v ∈ g.views) :
    w ∈ within (g.joins ++ g.joins.map Join.inverted) g.views.length [v] ↔ g.Linked v w := by
  let both : JoinGraph := { g with joins := g.joins ++ g.joins.map Join.inverted }
  have closedBoth : both.Closed := by
    intro j edge
    rcases mem_append.mp edge with declared | turned
    · exact closed j declared
    · obtain ⟨k,declared,rfl⟩ := mem_map.mp turned
      exact (closed k declared).symm
  have known : both.containsView v := contains_iff_mem.mpr mem
  have reached := reachableMember closedBoth (v := w) known
  rwa [reachable,if_pos known] at reached

theorem tabulated {α : Type} {f : String → α} {views : List String} {v} (mem : v ∈ views) :
    Dict.get? (views.map fun v => (v, f v)) v = some (f v) := by
  induction views with
  | nil => contradiction
  | cons w rest ih =>
    by_cases same : w = v
    · simp [Dict.get?,same]
    · have later := ih ((mem_cons.mp mem).resolve_left (Ne.symm same))
      simpa [Dict.get?,same] using later

def weaklyReaches (g : JoinGraph) (v w : String) : Bool :=
  ((Dict.get? (g.views.map fun v => (v, within (g.joins ++ g.joins.map Join.inverted) g.views.length [v]))
    v).getD []).contains w

theorem weaklyLinked (closed : g.Closed) {v w} (mem : v ∈ g.views) : g.weaklyReaches v w ↔ g.Linked v w := by
  rw [weaklyReaches,tabulated mem,Option.getD_some,contains_iff_mem,withinLinked closed mem]

theorem weaklyAlike (closed : g.Closed) : Alike g.views g.weaklyReaches where
  refl v mem := (weaklyLinked closed mem).mpr ⟨[],.here v⟩
  symm _ memV _ memW linked := (weaklyLinked closed memW).mpr (linkedSymm ((weaklyLinked closed memV).mp linked))
  trans _ memV _ memW _ _ first second := (weaklyLinked closed memV).mpr
    (linkedTrans ((weaklyLinked closed memV).mp first) ((weaklyLinked closed memW).mp second))

theorem weakClassesReached (g : JoinGraph) : g.weakClasses = classes g.views g.weaklyReaches := rfl

theorem mergeGroupNamed (closed : g.Closed) {v} (mem : v ∈ g.views) :
    ∃ i : Nat, g.mergeGroup? v = some ("graph_" ++ toString i) := by
  obtain ⟨i,found⟩ := Option.isSome_iff_exists.mp (classIndexSome (weaklyAlike closed) mem)
  exact ⟨i,by rw [mergeGroup?,weakClassesReached,found]; rfl⟩

theorem mergeGroupLinked (closed : g.Closed) {v w} (memV : v ∈ g.views) (memW : w ∈ g.views) :
    g.mergeGroup? v = g.mergeGroup? w ↔ g.Linked v w := by
  have named : Function.Injective fun i : Nat => "graph_" ++ toString i := fun i j h =>
    digitsInjective (by simpa using h)
  rw [mergeGroup?,mergeGroup?,(Option.map_injective named).eq_iff,weakClassesReached,
    classIndexAlike (weaklyAlike closed) memV memW,weaklyLinked closed memV]

end JoinGraph
end SemanticSql
