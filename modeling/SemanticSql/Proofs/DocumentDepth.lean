import SemanticSql.Compiler

/-! How deep a request is that is read from a document. What is read from a member of a record is no deeper than the
member, so a request is less deep than the value that holds it. -/
namespace SemanticSql

open List
open Option (bind_eq_some_iff map_eq_some_iff)

namespace Value

theorem itemDepth {items : List Value} {v} (mem : v ∈ items) : v.depth ≤ depthItems items := by
  induction items with
  | nil => contradiction
  | cons first rest ih =>
    rw [depthItems]
    rcases mem_cons.mp mem with rfl | later
    · exact Nat.le_max_left _ _
    · exact Nat.le_trans (ih later) (Nat.le_max_right _ _)

theorem entryDepth {entries : List (String × Value)} {e} (mem : e ∈ entries) : e.2.depth ≤ depthEntries entries := by
  induction entries with
  | nil => contradiction
  | cons first rest ih =>
    rw [depthEntries]
    rcases mem_cons.mp mem with rfl | later
    · exact Nat.le_max_left _ _
    · exact Nat.le_trans (ih later) (Nat.le_max_right _ _)

theorem pairDepth {entries : List (Value × Value)} {e} (mem : e ∈ entries) : e.2.depth ≤ depthPairs entries := by
  induction entries with
  | nil => contradiction
  | cons first rest ih =>
    rw [depthPairs]
    rcases mem_cons.mp mem with rfl | later
    · exact Nat.le_trans (Nat.le_max_right _ _) (Nat.le_max_left _ _)
    · exact Nat.le_trans (ih later) (Nat.le_max_right _ _)

theorem getDepth {v w : Value} {key} (found : v.get? key = some w) : w.depth < v.depth := by
  unfold get? at found
  split at found
  · obtain ⟨e,first,rfl⟩ := map_eq_some_iff.mp found
    exact Nat.lt_succ_of_le (entryDepth (mem_of_find?_eq_some first))
  · obtain ⟨e,first,rfl⟩ := map_eq_some_iff.mp found
    exact Nat.lt_succ_of_le (pairDepth (mem_of_find?_eq_some first))
  · cases found

end Value

namespace Document

def Source.depth : Source → Nat
  | .members entries => Value.depthEntries entries
  | .items vs => Value.depthItems vs
  | .keyed entries => Value.depthPairs entries

theorem slotDepth {s : Source} {position key v} (found : s.slot? position key = some v) :
    v.depth ≤ s.depth ∨ v = Source.unreadable := by
  unfold Source.slot? at found
  split at found
  · obtain ⟨e,first,rfl⟩ := map_eq_some_iff.mp found
    exact .inl (Value.entryDepth (mem_of_find?_eq_some first))
  · exact .inl (Value.itemDepth (mem_of_getElem? found))
  · split at found
    · cases found
    · rename_i e only
      cases found
      exact .inl (Value.pairDepth (mem_filter.mp (only ▸ mem_singleton_self e)).1)
    · cases found
      exact .inr rfl

variable {α : Type} {read : Value → Option α} {Within : α → Nat → Prop}

structure Bounds (read : Value → Option α) (Within : α → Nat → Prop) : Prop where
  reads : ∀ v a, read v = some a → Within a v.depth
  refuses : read Source.unreadable = none
  grows : ∀ a k m, Within a k → k ≤ m → Within a m

theorem slotWithin (bounds : Bounds read Within) {s : Source} {position key v a} (found : s.slot? position key = some v)
    (ok : read v = some a) : Within a s.depth := by
  rcases slotDepth found with inside | rfl
  · exact bounds.grows _ _ _ (bounds.reads v a ok) inside
  · cases bounds.refuses.symm.trans ok

theorem openWithin (bounds : Bounds read Within) {s : Source} {position key a}
    (ok : s.open? position key read = some (some a)) : Within a s.depth := by
  unfold Source.open? at ok
  split at ok
  · cases ok
  · rename_i v found
    unfold Source.orNull at ok
    split at ok
    · cases ok
    · obtain ⟨b,value,same⟩ := map_eq_some_iff.mp ok
      cases same
      exact slotWithin bounds found value

theorem recordDepth {count : Nat} {read : Source → Option α} {v a} (ok : record .refused count read v = some a) :
    ∃ s, read s = some a ∧ s.depth < v.depth := by
  unfold record at ok
  split at ok
  · exact ⟨_,ok,Nat.lt_succ_self _⟩
  · split at ok
    · exact ⟨_,ok,Nat.lt_succ_self _⟩
    · cases ok
  · split at ok
    · exact ⟨_,ok,Nat.lt_succ_self _⟩
    · cases ok
  · simp at ok
  · cases ok

theorem readAllMember {items : List Value} {found} (ok : readAll read items = some found) {a} (mem : a ∈ found) :
    ∃ v ∈ items, read v = some a := by
  induction items generalizing found with
  | nil =>
    cases ok
    contradiction
  | cons v rest ih =>
    simp only [readAll,bind,bind_eq_some_iff] at ok
    obtain ⟨first,head,others,tail,same⟩ := ok
    cases same
    rcases mem_cons.mp mem with rfl | later
    · exact ⟨v,mem_cons_self,head⟩
    · obtain ⟨w,listed,made⟩ := ih tail later
      exact ⟨w,mem_cons_of_mem v listed,made⟩

theorem optionalDepth {entries : Dict Value} {position key w}
    (ok : (Source.members entries).optional position key some = some (some w)) : w.depth ≤ Value.depthEntries entries := by
  unfold Source.optional at ok
  split at ok
  · simp [Source.isNamed] at ok
  · rename_i v found
    unfold Source.orNull at ok
    split at ok
    · cases ok
    · cases ok
      obtain ⟨e,first,rfl⟩ := map_eq_some_iff.mp found
      exact Value.entryDepth (mem_of_find?_eq_some first)

theorem listDepth {v : Value} {found : List α} (ok : listOf .refused read v = some found) {a} (mem : a ∈ found) :
    ∃ w, w.depth < v.depth ∧ read w = some a := by
  unfold listOf at ok
  split at ok
  · obtain ⟨w,listed,made⟩ := readAllMember ok mem
    exact ⟨w,Nat.lt_succ_of_le (Value.itemDepth listed),made⟩
  · simp at ok
  · cases ok

theorem depthOfLe {filters : List FilterSpec} {k : Nat} : depthOf filters ≤ k ↔ ∀ f ∈ filters, f.depth ≤ k := by
  induction filters with
  | nil => simp [depthOf]
  | cons f rest ih => simp only [depthOf,Nat.max_le,ih,forall_mem_cons]

theorem specDepth {n : Nat} {v : Value} {f} (ok : readSpecTo n v = some f) : f.depth < v.depth := by
  induction n generalizing v f with
  | zero => cases ok
  | succ n ih =>
    unfold readSpecTo at ok
    split at ok
    · rename_i entries
      have member : ∀ {position key w}, (Source.members entries).slot? position key = some w →
          w.depth < (Value.object entries).depth := fun found => Value.getDepth (v := .object entries) found
      simp only [Option.orElse_eq_orElse,Option.orElse_eq_or,Option.or_eq_some_iff] at ok
      rcases ok with group | ⟨_,condition⟩
      · simp only [bind,bind_eq_some_iff] at group
        obtain ⟨conditions,read,connective,_,same⟩ := group
        cases same
        obtain ⟨w,found,listed⟩ := bind_eq_some_iff.mp read
        refine Nat.lt_of_le_of_lt (depthOfLe.mpr fun g mem => ?_) (member found)
        obtain ⟨u,inside,made⟩ := listDepth listed mem
        exact Nat.le_of_lt (Nat.lt_trans (ih made) inside)
      · simp only [bind,bind_eq_some_iff] at condition
        obtain ⟨field,_,expression,_,value,read,same⟩ := condition
        cases same
        cases value with
        | none => exact Nat.succ_pos _
        | some w => exact Nat.lt_succ_of_le (optionalDepth read)
    · cases ok

theorem listBounds (bounds : Bounds read Within) : Bounds (listOf .refused read) fun found k => ∀ a ∈ found, Within a k where
  reads v found ok a mem := by
    obtain ⟨w,inside,made⟩ := listDepth ok mem
    exact bounds.grows _ _ _ (bounds.reads w a made) (Nat.le_of_lt inside)
  refuses := rfl
  grows found k m within more a mem := bounds.grows a k m (within a mem) more

theorem clauseBounds : Bounds readClause fun c k => c.depth ≤ k where
  reads v c ok := by
    unfold readClause at ok
    split at ok
    · cases ok
      exact Nat.zero_le _
    · obtain ⟨filters,all,rfl⟩ := map_eq_some_iff.mp ok
      refine depthOfLe.mpr fun f mem => ?_
      obtain ⟨w,listed,made⟩ := readAllMember all mem
      exact Nat.le_trans (Nat.le_of_lt (specDepth made)) (Nat.le_succ_of_le (Value.itemDepth listed))
    · obtain ⟨f,made,rfl⟩ := map_eq_some_iff.mp ok
      exact Nat.le_of_lt (specDepth made)
  refuses := rfl
  grows c k m within more := Nat.le_trans within more

theorem funnelBounds : Bounds readFunnel fun f k => ∀ c ∈ f.steps, c.depth ≤ k where
  reads v f ok c mem := by
    obtain ⟨s,read,inside⟩ := recordDepth ok
    simp only [bind,bind_eq_some_iff] at read
    obtain ⟨steps,listed,within,_,same⟩ := read
    cases same
    unfold Source.withDefault at listed
    split at listed
    · cases listed
      contradiction
    · rename_i w found
      exact Nat.le_trans (slotWithin (listBounds clauseBounds) found listed c mem) (Nat.le_of_lt inside)
  refuses := rfl
  grows f k m within more c mem := Nat.le_trans (within c mem) more

theorem valueBounds : Bounds (listOf .refused some) fun vs k => ∀ v ∈ vs, v.depth ≤ k where
  reads v found ok w mem := by
    obtain ⟨u,inside,same⟩ := listDepth ok mem
    cases same
    exact Nat.le_of_lt inside
  refuses := rfl
  grows found k m within more v mem := Nat.le_trans (within v mem) more

end Document

theorem Request.depthLe {r : Request} {k : Nat} : r.depth ≤ k ↔
    (∀ c, r.filter = some c → c.depth ≤ k) ∧ (∀ c, r.having = some c → c.depth ≤ k) ∧
    (∀ f, r.funnel = some f → ∀ c ∈ f.steps, c.depth ≤ k) ∧ ∀ vs, r.mergedQueries = some vs → ∀ v ∈ vs, v.depth ≤ k := by
  have folded : ∀ (ns : List Nat) (start : Nat), ns.foldl max start ≤ k ↔ start ≤ k ∧ ∀ n ∈ ns, n ≤ k := by
    intro ns
    induction ns with
    | nil => simp
    | cons n rest ih =>
      intro start
      simp only [foldl_cons,ih,Nat.max_le,forall_mem_cons,and_assoc]
  simp only [depth,folded,Nat.zero_le,true_and,forall_mem_append,forall_mem_map,Option.mem_toList,and_assoc]
  cases r.funnel <;> cases r.mergedQueries <;> simp

theorem Document.requestDepth {v : Value} {r : Request} (ok : readRequest v = some r) : r.depth < v.depth := by
  obtain ⟨s,read,inside⟩ := recordDepth ok
  refine Nat.lt_of_le_of_lt (Request.depthLe.mpr ?_) inside
  iterate 2 obtain ⟨_,_,read⟩ := bind_eq_some_iff.mp read
  obtain ⟨filter,filters,read⟩ := bind_eq_some_iff.mp read
  obtain ⟨having,restricts,read⟩ := bind_eq_some_iff.mp read
  obtain ⟨_,_,read⟩ := bind_eq_some_iff.mp read
  obtain ⟨funnel,funnels,read⟩ := bind_eq_some_iff.mp read
  obtain ⟨queries,lists,read⟩ := bind_eq_some_iff.mp read
  iterate 8 obtain ⟨_,_,read⟩ := bind_eq_some_iff.mp read
  cases read
  refine ⟨fun c found => ?_,fun c found => ?_,fun f found => ?_,fun vs found => ?_⟩
  · exact openWithin clauseBounds (filters.trans (congrArg some found))
  · exact openWithin clauseBounds (restricts.trans (congrArg some found))
  · exact openWithin funnelBounds (funnels.trans (congrArg some found))
  · exact openWithin valueBounds (lists.trans (congrArg some found))

end SemanticSql
