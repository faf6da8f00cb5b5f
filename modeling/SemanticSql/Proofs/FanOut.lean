import SemanticSql.Proofs.JoinedRows
import SemanticSql.Proofs.KeyRule

/-! Plain aggregates under joins. A view that needs no symmetric aggregate has to occur at most once in the joined
rows. -/
namespace SemanticSql
open List JoinPlan FunctionalKey Database

theorem grainJoined {edges joined joins} (grows : Grows edges joined joins) {kept} (inside : ∀ v ∈ kept, v ∈ joined) :
    ∀ v ∈ joins.foldl grainStep kept, v ∈ joined ∨ v ∈ joins.map Join.target := by
  induction grows generalizing kept with
  | nil => exact fun v mem => .inl (inside v mem)
  | @cons joined j rest edge rooted fresh next ih =>
    intro v mem
    have step : ∀ v ∈ grainStep kept j, v ∈ j.target :: joined := by
      intro w known
      rcases grainStepMember known with ⟨rfl,_⟩ | ⟨old,_⟩
      · exact mem_cons_self
      · exact mem_cons_of_mem _ (inside w old)
    rcases ih step v mem with old | later
    · rcases mem_cons.mp old with rfl | old
      · exact .inr mem_cons_self
      · exact .inl old
    · exact .inr (mem_cons_of_mem _ later)

/- A view that is joined already stays in the grain until the next fan-out, and it never comes back. -/
theorem grainSurvives {edges joined joins} (grows : Grows edges joined joins) {kept v} (known : v ∈ joined) :
    v ∈ joins.foldl grainStep kept ↔ v ∈ kept ∧ ∀ j ∈ joins, j.relationship.isFanout = false := by
  induction grows generalizing kept with
  | nil => simp
  | @cons joined j rest edge rooted fresh next ih =>
    have other : v ≠ j.target := fun same => fresh (same ▸ known)
    rw [foldl_cons,ih (mem_cons_of_mem _ known),forall_mem_cons]
    constructor
    · rintro ⟨mem,later⟩
      rcases grainStepMember mem with ⟨same,_⟩ | ⟨old,narrow⟩
      · exact absurd same other
      · exact ⟨old,narrow,later⟩
    · rintro ⟨old,narrow,later⟩
      refine ⟨?_,later⟩
      cases shape : j.relationship with
      | oneToOne =>
        simp only [grainStep,shape]
        split
        · exact mem_cons_of_mem _ old
        · exact old
      | manyToOne => simpa only [grainStep,shape] using old
      | oneToMany => simp [shape,Relationship.isFanout] at narrow
      | manyToMany => simp [shape,Relationship.isFanout] at narrow

theorem grainLinked {edges base joins j} (grows : Grows edges [base] joins) (mem : j ∈ joins)
    (single : j.relationship = .oneToOne) :
    j.base ∈ joins.foldl grainStep [base] ↔ j.target ∈ joins.foldl grainStep [base] := by
  obtain ⟨before,after,rfl⟩ := append_of_mem mem
  obtain ⟨_,rooted,fresh⟩ := growsAt grows
  have rest := growsBack grows
  rw [foldl_append,foldl_cons]
  cases rest with
  | cons _ _ _ next =>
    rw [grainSurvives next (mem_cons_of_mem _ rooted),grainSurvives next mem_cons_self]
    have absent : j.target ∉ before.foldl grainStep [base] := by
      intro known
      rcases grainJoined (growsFront grows) (fun v mem => mem) _ known with old | old
      · exact fresh (mem_append_right _ old)
      · exact fresh (mem_append_left _ old)
    have step : j.base ∈ grainStep (before.foldl grainStep [base]) j ↔
        j.target ∈ grainStep (before.foldl grainStep [base]) j := by
      simp only [grainStep,single]
      split
      · rename_i known
        simp [known]
      · rename_i unknown
        simp [unknown,absent]
    rw [step]

variable {linked : NameSet}

theorem linkStepClosed {joins} {S : String → Prop}
    (closed : ∀ j ∈ joins, j.relationship = .oneToOne → (S j.base ↔ S j.target))
    (inside : ∀ v ∈ linked, S v) : ∀ v ∈ linkStep joins linked, S v := by
  intro v mem
  rcases NameSet.mem_union.mp mem with old | new
  · exact inside v old
  · obtain ⟨j,kept,ends⟩ := mem_flatMap.mp new
    obtain ⟨known,single⟩ := mem_filter.mp kept
    have link := closed j known (beq_iff_eq.mp single)
    rcases mem_append.mp ends with forward | backward
    · split at forward
      · rename_i found
        cases mem_singleton.mp forward
        exact link.mp (inside _ (contains_iff_mem.mp found))
      · contradiction
    · split at backward
      · rename_i found
        cases mem_singleton.mp backward
        exact link.mpr (inside _ (contains_iff_mem.mp found))
      · contradiction

theorem linkedClosed {joins} (n : Nat) {S : String → Prop}
    (closed : ∀ j ∈ joins, j.relationship = .oneToOne → (S j.base ↔ S j.target))
    (inside : ∀ v ∈ linked, S v) : ∀ v ∈ linkedViews joins n linked, S v := by
  induction n generalizing linked with
  | zero => exact inside
  | succ n ih => exact ih (linkStepClosed closed inside)

theorem linkedKeeps (joins : List Join) (n : Nat) {v} (mem : v ∈ linked) : v ∈ linkedViews joins n linked := by
  induction n generalizing linked with
  | zero => exact mem
  | succ n ih => exact ih (NameSet.mem_union.mpr (.inl mem))

def fanoutJoins (joins : List Join) : List Join := joins.filter fun j => j.relationship == .oneToMany

def FansOutBehind (base : String) (joins : List Join) : Prop :=
  ∃ path ∈ rootPaths base [] joins, [Relationship.manyToOne,.oneToMany].Sublist (path.map Join.relationship)

theorem fanoutUnique {joins f k} (few : (fanoutJoins joins).length ≤ 1) (mem : f ∈ joins) (other : k ∈ joins)
    (many : f.relationship = .oneToMany) (manyK : k.relationship = .oneToMany) : k = f := by
  have first : f ∈ fanoutJoins joins := mem_filter.mpr ⟨mem,beq_iff_eq.mpr many⟩
  have second : k ∈ fanoutJoins joins := mem_filter.mpr ⟨other,beq_iff_eq.mpr manyK⟩
  obtain ⟨a,single⟩ : ∃ a, fanoutJoins joins = [a] :=
    length_eq_one_iff.mp (Nat.le_antisymm few (length_pos_of_mem first))
  rw [single,mem_singleton] at first second
  rw [first,second]

theorem notSymmetric {base joins v key} (joined : v ∈ joinedViews base joins) :
    v ∉ symmetricViews base joins key ↔
      ∃ grain, key = .view grain ∧ (fanoutJoins joins).length ≤ 1 ∧ v ∈ linkedViews joins joins.length [grain] := by
  cases key with
  | absent => simp [symmetricViews,joined]
  | view grain =>
    simp only [symmetricViews,view.injEq,exists_eq_left']
    split
    · rename_i few
      simp [joined,few,fanoutJoins]
    · rename_i several
      simp [joined,several,fanoutJoins]

theorem narrowOf {r : Relationship} (many : r ≠ .oneToMany) (both : r ≠ .manyToMany) : r.isFanout = false := by
  cases r with
  | oneToOne => rfl
  | manyToOne => rfl
  | oneToMany => exact absurd rfl many
  | manyToMany => exact absurd rfl both

theorem leadsWithin {edges source path target} (chain : Leads edges source path target) {inner : List Join}
    (inside : ∀ j ∈ path, j ∈ inner) : Leads inner source path target := by
  induction chain with
  | here view => exact .here view
  | step edge next ih =>
    obtain ⟨first,rest⟩ := forall_mem_cons.mp inside
    exact .step first (ih rest)

/- No join leaves the view that is joined last, so a path uses the last join at its end or not at all. -/
theorem lastUsed {edges base joins k u path v} (grows : Grows edges [base] (joins ++ [k]))
    (chain : Leads (joins ++ [k]) u path v) (used : k ∈ path) :
    ∃ front, path = front ++ [k] ∧ v = k.target ∧ k ∉ front := by
  induction chain with
  | here => contradiction
  | @step j rest target edge next ih =>
    by_cases here : j = k
    · subst here
      cases rest with
      | nil => exact ⟨[],rfl,by simpa using leadsEnd next,not_mem_nil⟩
      | cons i rest =>
        have split : Leads (joins ++ [j]) j.target ([] ++ i :: rest) target := next
        obtain ⟨member,start,_⟩ := leadsSplit split
        have leaves : i.base = j.target := by simpa using leadsEnd start
        rcases mem_append.mp member with before | last
        · refine absurd ?_ (growsAt grows).2.2
          rw [← leaves]
          rcases growsRooted (growsFront grows) before with root | ⟨h,known,same⟩
          · exact mem_append_right _ root
          · exact mem_append_left _ (same ▸ mem_map_of_mem known)
        · cases mem_singleton.mp last
          exact absurd leaves (growsNotLoop grows member)
    · obtain ⟨front,rfl,same,absent⟩ := ih ((mem_cons.mp used).resolve_left (Ne.symm here))
      refine ⟨j :: front,rfl,same,fun mem => ?_⟩
      rcases mem_cons.mp mem with first | later
      · exact here first.symm
      · exact absent later

/- A view stays in the grain if the joins that lead to it coarsen nothing and no other join fans out. -/
theorem pathKept {edges base joins path v} (grows : Grows edges [base] joins) (chain : Leads joins base path v)
    (fine : ∀ j ∈ path, j.relationship = .oneToOne ∨ j.relationship = .oneToMany)
    (along : ∀ j ∈ joins, j.relationship.isFanout → j ∈ path) : v ∈ joins.foldl grainStep [base] := by
  induction joins using List.reverseRecOn generalizing path v with
  | nil =>
    cases chain with
    | here => exact mem_singleton_self base
    | step edge _ => contradiction
  | append_singleton joins k ih =>
    have other : ∀ j ∈ joins, j ≠ k := by
      rintro j mem rfl
      exact (growsAt grows).2.2 (mem_append_left _ (mem_map_of_mem mem))
    have within : ∀ {front u}, Leads (joins ++ [k]) base front u → k ∉ front → Leads joins base front u := by
      intro front u chain unused
      refine leadsWithin chain fun j mem => (mem_append.mp (leadsEdges chain j mem)).resolve_right fun last => ?_
      exact unused (mem_singleton.mp last ▸ mem)
    rw [foldl_append]
    by_cases used : k ∈ path
    · obtain ⟨front,rfl,rfl,unused⟩ := lastUsed grows chain used
      have leaves : k.base ∈ joins.foldl grainStep [base] := by
        refine ih (growsFront grows) (within (leadsSplit chain).2.1 unused)
          (fun j mem => fine j (mem_append_left _ mem)) fun j mem fans => ?_
        rcases mem_append.mp (along j (mem_append_left _ mem) fans) with before | last
        · exact before
        · exact absurd (mem_singleton.mp last) (other j mem)
      rcases fine k used with single | many
      · simp [grainStep,single,leaves]
      · simp [grainStep,many,leaves]
    · have chain := within chain used
      have kept := ih (growsFront grows) chain fine fun j mem => along j (mem_append_left _ mem)
      have narrow : k.relationship.isFanout = false := by
        by_contra fans
        exact used (along k (by simp) (by simpa using fans))
      have joined : v ∈ joins.map Join.target ++ [base] := by
        rcases leadsEnd chain with root | reached
        · simp [root]
        · obtain ⟨j,mem,same⟩ := mem_map.mp reached
          exact mem_append_left _ (same ▸ mem_map_of_mem (leadsEdges chain j mem))
      exact (grainSurvives (growsBack grows) joined).mpr ⟨kept,by simpa using narrow⟩

theorem grainKept {edges base joins grain} (grows : Grows edges [base] joins) (ok : of base joins = .view grain)
    (straight : ¬ FansOutBehind base joins) : grain ∈ joins.foldl grainStep [base] := by
  have tree := grownRooted grows
  obtain ⟨narrow,_,ends⟩ := (keyEnds tree).mp ok
  rcases ends with ⟨rfl,none⟩ | ⟨f,mem,rfl,many,all⟩
  · exact (grainSurvives grows mem_cons_self).mpr
      ⟨mem_cons_self,fun j mem => narrowOf (none j mem) (narrow j mem)⟩
  · obtain ⟨path,way⟩ := pathExists tree mem
    refine pathKept grows (pathLeads way) (fun j inside => ?_) fun k memK fans => ?_
    · cases shape : j.relationship with
      | oneToOne => exact .inl rfl
      | oneToMany => exact .inr rfl
      | manyToMany => exact absurd shape (narrow j (pathMembers way j inside))
      | manyToOne =>
        -- A join to coarser rows is not the fan-out at the end, so it stands before it.
        refine absurd ⟨path,(listedPath tree).mpr ⟨f,way⟩,?_⟩ straight
        obtain ⟨_,front,rfl⟩ := pathEnds way
        rcases mem_append.mp inside with before | last
        · rw [map_append]
          refine List.Sublist.append (singleton_sublist.mpr ?_) (singleton_sublist.mpr ?_)
          · exact shape ▸ mem_map_of_mem before
          · simp [many]
        · cases mem_singleton.mp last
          rw [many] at shape
          cases shape
    · have manyK : k.relationship = .oneToMany := by
        by_contra other
        simp [narrowOf other (narrow k memK)] at fans
      obtain ⟨again,way',inside⟩ := all k memK manyK
      exact pathUnique tree way' way ▸ inside

theorem plainOnce {Row : Type} {db : Database Row} {edges base joins} (grows : Grows edges [base] joins)
    (h : ∀ j ∈ joins, db.Respects j)
    (straight : ∀ grain, of base joins = .view grain → (fanoutJoins joins).length ≤ 1 →
      ¬ FansOutBehind base joins) {v} (joined : v ∈ joinedViews base joins)
    (plain : v ∉ symmetricViews base joins (of base joins)) :
    OccursOnce v (db.joinAll base joins) := by
  obtain ⟨grain,key,few,linked⟩ := (notSymmetric joined).mp plain
  have root := grainKept grows key (straight grain key few)
  refine joinedOnce grows h v (linkedClosed _ (S := (· ∈ joins.foldl grainStep [base])) ?_ ?_ v linked)
  · exact fun j mem single => grainLinked grows mem single
  · intro w mem
    cases mem_singleton.mp mem
    exact root

/- The database against a plan that joins coarser rows before its fan-out. Every view has two rows. -/
def merging (m : Join) : Database Bool where
  rows _ := [false,true]
  distinct _ := by decide
  matched j x y := if j = m then y else x == y

namespace Merging

def image (m j : Join) (x : Bool) : Bool := if j = m then true else x

def follow (m : Join) (r : JoinedRow Bool) (j : Join) : JoinedRow Bool :=
  Function.update r j.target ((r j.base).map (image m j))

theorem respects {m : Join} (coarse : m.relationship = .manyToOne) (j : Join) : (merging m).Respects j := by
  by_cases same : j = m
  · subst same
    simp only [Respects,coarse]
    intro x _ y _ z _ left right
    simp only [merging,if_true] at left right
    rw [left,right]
  · have target : (merging m).OneTarget j := by
      intro x _ y _ z _ left right
      simp only [merging,same,if_false,beq_iff_eq] at left right
      exact left.symm.trans right
    have base : (merging m).OneBase j := by
      intro y _ x _ z _ left right
      simp only [merging,same,if_false,beq_iff_eq] at left right
      exact left.trans right.symm
    unfold Respects
    split
    · exact ⟨target,base⟩
    · exact target
    · exact base
    · trivial

variable {r : JoinedRow Bool}

theorem leftJoinFollows (m j : Join) {x} (shown : r j.base = some x) : (merging m).leftJoin j r = [follow m r j] := by
  have partner : (merging m).partners j r = [image m j x] := by
    simp only [partners,shown,merging,image]
    split <;> cases x <;> rfl
  simp only [leftJoin,partner,map_cons,map_nil,follow,shown,Option.map_some]

variable (m : Join)

theorem followShown {joined : List String} {j} (rooted : j.base ∈ joined)
    (shown : ∀ v ∈ joined, (r v).isSome) : ∀ v ∈ j.target :: joined, (follow m r j v).isSome := by
  intro v mem
  by_cases same : v = j.target
  · subst same
    simpa [follow] using shown _ rooted
  · rw [follow,Function.update_of_ne same]
    exact shown v ((mem_cons.mp mem).resolve_left same)

theorem joinFollows {edges joined joins} (grows : Grows edges joined joins) {all}
    (shown : ∀ r ∈ all, ∀ v ∈ joined, (r v).isSome) :
    (merging m).joinMore all joins = all.map fun r => joins.foldl (follow m) r := by
  induction grows generalizing all with
  | nil => simp [joinMore]
  | @cons joined j rest edge rooted fresh next ih =>
    have single : all.flatMap ((merging m).leftJoin j) = all.map fun r => follow m r j := by
      rw [map_eq_flatMap]
      refine flatMap_congr fun r mem => ?_
      obtain ⟨x,value⟩ := Option.isSome_iff_exists.mp (shown r mem _ rooted)
      exact leftJoinFollows m j value
    have step : ∀ r ∈ all.map (fun r => follow m r j), ∀ v ∈ j.target :: joined, (r v).isSome := by
      intro r mem
      obtain ⟨s,known,rfl⟩ := mem_map.mp mem
      exact followShown m rooted (shown s known)
    rw [joinMore,foldl_cons,single,← joinMore,ih step,map_map]
    rfl

/- What a row shows does not change once a view is joined, so the finished row satisfies the equation of every
join. -/
theorem followKeeps {edges joined joins} (grows : Grows edges joined joins) {v}
    (known : v ∈ joined) : joins.foldl (follow m) r v = r v := by
  induction grows generalizing r with
  | nil => rfl
  | @cons joined j rest edge rooted fresh next ih =>
    have other : v ≠ j.target := fun same => fresh (same ▸ known)
    rw [foldl_cons,ih (mem_cons_of_mem _ known),follow,Function.update_of_ne other]

theorem followTarget {edges joined joins j} (grows : Grows edges joined joins) (mem : j ∈ joins) (r : JoinedRow Bool) :
    joins.foldl (follow m) r j.target = (joins.foldl (follow m) r j.base).map (image m j) := by
  obtain ⟨before,after,rfl⟩ := append_of_mem mem
  obtain ⟨_,rooted,fresh⟩ := growsAt grows
  rw [foldl_append,foldl_cons]
  cases growsBack grows with
  | cons _ _ _ next =>
    have other : j.base ≠ j.target := fun same => fresh (same ▸ rooted)
    rw [followKeeps m next mem_cons_self,followKeeps m next (mem_cons_of_mem _ rooted),follow,
      Function.update_self,Function.update_of_ne other]

theorem followChain {edges joined joins} (grows : Grows edges joined joins) {P : Option Bool → Prop}
    (step : ∀ j x, P x → P (x.map (image m j))) {u path v} (chain : Leads joins u path v)
    (start : P (joins.foldl (follow m) r u)) : P (joins.foldl (follow m) r v) := by
  induction chain with
  | here => exact start
  | @step j rest target edge next ih =>
    refine ih ?_
    rw [followTarget m grows edge]
    exact step j _ start

theorem merged {edges base joins before after v} (grows : Grows edges [base] joins) (mem : m ∈ joins)
    (toBase : Leads joins base before m.base) (fromTarget : Leads joins m.target after v) (x : Bool) :
    joins.foldl (follow m) (Function.update (fun _ => none) base (some x)) v = some true := by
  have first : (joins.foldl (follow m) (Function.update (fun _ => none) base (some x)) base).isSome := by
    rw [followKeeps m grows mem_cons_self,Function.update_self]
    rfl
  have left := followChain m grows (P := fun y => y.isSome) (fun j y some => by simpa using some) toBase first
  obtain ⟨y,value⟩ := Option.isSome_iff_exists.mp left
  refine followChain m grows (P := fun y => y = some true) (fun j y same => ?_) fromTarget ?_
  · simp [same,image]
  · rw [followTarget m grows mem,value]
    simp [image]

end Merging

theorem behindParts {edges base joins} (grows : Grows edges [base] joins) (behind : FansOutBehind base joins) :
    ∃ m ∈ joins, ∃ f ∈ joins, m.relationship = .manyToOne ∧ f.relationship = .oneToMany ∧
      ∃ before after, Leads joins base before m.base ∧ Leads joins m.target after f.target := by
  obtain ⟨path,known,sub⟩ := behind
  obtain ⟨front,j,rfl,last,chain⟩ := pathChain grows known
  have whole := leadsExtend chain last
  obtain ⟨pair,inside,shape⟩ := sublist_map_iff.mp sub
  obtain ⟨m,f,rfl⟩ : ∃ m f, pair = [m,f] := length_eq_two.mp (by simpa using (congrArg List.length shape).symm)
  obtain ⟨left,right,parts,memM,rest⟩ := cons_sublist_iff.mp inside
  obtain ⟨a,b,rfl⟩ := append_of_mem memM
  obtain ⟨c,d,rfl⟩ := append_of_mem (singleton_sublist.mp rest)
  rw [parts,append_assoc,cons_append] at whole
  obtain ⟨edgeM,toBase,onward⟩ := leadsSplit whole
  rw [← append_assoc] at onward
  obtain ⟨edgeF,between,_⟩ := leadsSplit onward
  simp only [map_cons,map_nil,List.cons.injEq,and_true] at shape
  exact ⟨m,edgeM,f,edgeF,shape.1.symm,shape.2.symm,a,b ++ c ++ [f],toBase,leadsExtend between edgeF⟩

theorem repeatedBehind {edges base joins m before after v} (grows : Grows edges [base] joins) (mem : m ∈ joins)
    (coarse : m.relationship = .manyToOne) (toBase : Leads joins base before m.base)
    (onward : Leads joins m.target after v) :
    ∃ db : Database Bool, (∀ j ∈ joins, db.Respects j) ∧ ¬ OccursOnce v (db.joinAll base joins) := by
  refine ⟨merging m,fun j _ => Merging.respects coarse j,fun once => ?_⟩
  have shown : ∀ r ∈ (merging m).start base, ∀ v ∈ [base], (r v).isSome := by
    intro r mem v root
    obtain ⟨x,_,rfl⟩ := mem_map.mp mem
    cases mem_singleton.mp root
    simp
  rw [joinAll,Merging.joinFollows m grows shown] at once
  have twice := Merging.merged m grows mem toBase onward
  simp only [start,merging,map_cons,map_nil] at once
  exact (pairwise_cons.mp once).1 _ mem_cons_self true (twice false) (twice true)

theorem inflatedGrain {edges base joins grain} (grows : Grows edges [base] joins) (ok : of base joins = .view grain)
    (few : (fanoutJoins joins).length ≤ 1) (behind : FansOutBehind base joins) :
    ∃ db : Database Bool, (∀ j ∈ joins, db.Respects j) ∧ ¬ OccursOnce grain (db.joinAll base joins) := by
  obtain ⟨m,memM,f,memF,coarse,many,before,after,toBase,onward⟩ := behindParts grows behind
  rw [grainOfFanout grows ok memF many fun j other => fanoutUnique few memF other many]
  exact repeatedBehind grows memM coarse toBase onward

theorem plainAggregatesCountOnce {g base required joins} (ok : solve g base required = .ok joins) :
    (∀ (Row : Type) (db : Database Row), (∀ j ∈ joins, db.Respects j) → ∀ v ∈ joinedViews base joins,
        v ∉ symmetricViews base joins (FunctionalKey.of base joins) →
          Database.OccursOnce v (db.joinAll base joins)) ↔
      ∀ grain, FunctionalKey.of base joins = .view grain → (fanoutJoins joins).length ≤ 1 →
        ¬ FansOutBehind base joins := by
  have grows := (solveSpans ok).1
  constructor
  · intro law grain key few behind
    obtain ⟨db,h,twice⟩ := inflatedGrain grows key few behind
    obtain ⟨_,_,f,memF,_,many,_⟩ := behindParts grows behind
    have target := grainOfFanout grows key memF many fun j other => fanoutUnique few memF other many
    have joined : grain ∈ joinedViews base joins :=
      joinedMember.mpr (.inr (target ▸ List.mem_map_of_mem memF))
    have plain := (notSymmetric joined).mpr ⟨grain,key,few,linkedKeeps joins _ List.mem_cons_self⟩
    exact twice (law Bool db h grain joined plain)
  · intro straight Row db h v joined plain
    exact plainOnce grows h straight joined plain

def stockGraph : JoinGraph :=
  .ofJoins ["customers","lines","orders"]
    [keyJoin "orders" "customers" .manyToOne,keyJoin "orders" "lines" .oneToMany] []

theorem stockLinesCountOnce :
    ∃ joins, solve stockGraph "orders" ["customers","lines","orders"] = .ok joins ∧
      "lines" ∉ symmetricViews "orders" joins (FunctionalKey.of "orders" joins) ∧
      ∀ (Row : Type) (db : Database Row), (∀ j ∈ joins, db.Respects j) →
        Database.OccursOnce "lines" (db.joinAll "orders" joins) := by
  have ok : solve stockGraph "orders" ["customers","lines","orders"] =
      .ok [keyJoin "orders" "customers" .manyToOne,keyJoin "orders" "lines" .oneToMany] := by cbv
  refine ⟨_,ok,by decide +kernel,fun Row db h => ?_⟩
  refine (plainAggregatesCountOnce ok).mpr (fun _ _ _ => ?_) Row db h "lines" (by decide +kernel) (by decide +kernel)
  unfold FansOutBehind
  decide +kernel

def visitGraph : JoinGraph :=
  .ofJoins ["accounts","invoices","users","visits"]
    [keyJoin "accounts" "invoices" .oneToMany,keyJoin "accounts" "users" .oneToOne,
      keyJoin "invoices" "accounts" .manyToOne,keyJoin "users" "accounts" .oneToOne,
      keyJoin "visits" "users" .manyToOne] []

/- Visits join users and users their account, one row each; an account has several invoices. -/
theorem visitsRepeatInvoices :
    ∃ joins, solve visitGraph "visits" ["accounts","invoices","users","visits"] = .ok joins ∧
      "invoices" ∈ joinedViews "visits" joins ∧
      "invoices" ∉ symmetricViews "visits" joins (FunctionalKey.of "visits" joins) ∧
      ∃ db : Database Bool, (∀ j ∈ joins, db.Respects j) ∧
        ¬ Database.OccursOnce "invoices" (db.joinAll "visits" joins) := by
  have ok : solve visitGraph "visits" ["accounts","invoices","users","visits"] =
      .ok [keyJoin "visits" "users" .manyToOne,keyJoin "users" "accounts" .oneToOne,
        keyJoin "accounts" "invoices" .oneToMany] := by cbv
  refine ⟨_,ok,by decide +kernel,by decide +kernel,?_⟩
  refine inflatedGrain (solveSpans ok).1 (by decide +kernel) (by decide +kernel) ?_
  unfold FansOutBehind
  decide +kernel

end SemanticSql
