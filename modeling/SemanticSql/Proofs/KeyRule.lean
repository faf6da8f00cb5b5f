import SemanticSql.Proofs.FunctionalKey
import SemanticSql.Proofs.JoinCover

/-! The functional key read off the tree of joins. -/
namespace SemanticSql.FunctionalKey
open List JoinPlan FunctionalKey

structure Rooted (base : String) (joins : List Join) : Prop where
  distinct : (joins.map Join.target).Nodup
  apart : ∀ j ∈ joins, j.target ≠ base
  grounded : ∀ before j after, joins = before ++ j :: after → j.base = base ∨ j.base ∈ before.map Join.target

inductive RootPath (base : String) (joins : List Join) : Join → List Join → Prop where
  | first {j} (mem : j ∈ joins) (root : j.base = base) : RootPath base joins j [j]
  | next {k j path} (before : RootPath base joins k path) (mem : j ∈ joins) (parent : k.target = j.base) :
      RootPath base joins j (path ++ [j])

def OnPath (base : String) (joins : List Join) (k j : Join) : Prop := ∃ path, RootPath base joins j path ∧ k ∈ path

def Deeper (base : String) (joins : List Join) (j k : Join) : Prop :=
  ∃ path other, RootPath base joins j path ∧ RootPath base joins k other ∧ other.length < path.length

def fans (path : List Join) : List String := (path.filter fun j => j.relationship == .oneToMany).map Join.target

section
variable {base : String} {joins : List Join}

theorem rootedBehind (tree : Rooted base joins) (done rest : List Join) (split : joins = done ++ rest) :
    Grows joins (done.map Join.target ++ [base]) rest := by
  induction rest generalizing done with
  | nil => exact .nil _
  | cons j rest ih =>
    have member : j ∈ joins := by simp [split]
    have next := ih (done ++ [j]) (by simp [split])
    refine .cons member ?_ ?_ (growsCongr next fun v => ?_)
    · rcases tree.grounded done j rest split with root | known
      · exact mem_append_right _ (mem_singleton.mpr root)
      · exact mem_append_left _ known
    · intro known
      rcases mem_append.mp known with earlier | root
      · have distinct := tree.distinct
        rw [split,map_append,map_cons] at distinct
        exact (nodup_append.mp distinct).2.2 _ earlier _ mem_cons_self rfl
      · exact tree.apart j member (mem_singleton.mp root)
    · simp only [map_append,map_cons,map_nil,mem_append,mem_cons,not_mem_nil,
        or_false]
      exact or_right_comm.trans or_comm

theorem rootedGrows (tree : Rooted base joins) : Grows joins [base] joins :=
  rootedBehind tree [] joins (nil_append _).symm

theorem grownRooted {edges} (grows : Grows edges [base] joins) : Rooted base joins where
  distinct := growsTargets grows
  apart j mem same := growsFresh grows j mem (mem_singleton.mpr same)
  grounded := by
    rintro before j after rfl
    rcases mem_append.mp (growsAt grows).2.1 with known | first
    · exact .inr known
    · exact .inl (mem_singleton.mp first)

theorem pathEnds {j path} (way : RootPath base joins j path) : j ∈ joins ∧ ∃ front, path = front ++ [j] := by
  cases way with
  | first mem root => exact ⟨mem,[],rfl⟩
  | next before mem parent => exact ⟨mem,_,rfl⟩

theorem pathMembers {j path} (way : RootPath base joins j path) : ∀ k ∈ path, k ∈ joins := by
  induction way with
  | first mem root => simpa using mem
  | next before mem parent ih =>
    intro i inside
    rcases mem_append.mp inside with earlier | last
    · exact ih i earlier
    · exact mem_singleton.mp last ▸ mem

theorem pathLeads {j path} (way : RootPath base joins j path) : Leads joins base path j.target := by
  induction way with
  | first mem root => exact root ▸ .step mem (.here _)
  | @next k j path before mem parent ih =>
    rw [parent] at ih
    exact leadsExtend ih mem

theorem sameTarget (tree : Rooted base joins) {j k} (memJ : j ∈ joins) (memK : k ∈ joins)
    (same : j.target = k.target) : j = k := inj_on_of_nodup_map tree.distinct memJ memK same

theorem pathUnique (tree : Rooted base joins) {j path other} (way : RootPath base joins j path)
    (again : RootPath base joins j other) : path = other := by
  induction way generalizing other with
  | @first j mem root =>
    cases again with
    | first => rfl
    | @next k _ _ before _ parent => exact absurd (parent.trans root) (tree.apart k (pathEnds before).1)
  | @next k j path before mem parent ih =>
    cases again with
    | first _ root => exact absurd (parent.trans root) (tree.apart k (pathEnds before).1)
    | @next i _ _ before' _ parent' =>
      have same := sameTarget tree (pathEnds before).1 (pathEnds before').1 (parent.trans parent'.symm)
      subst same
      rw [ih before']

theorem chainPath {front j} (chain : Leads joins base front j.base) (mem : j ∈ joins) :
    RootPath base joins j (front ++ [j]) := by
  induction front using List.reverseRecOn generalizing j with
  | nil =>
    cases chain
    exact .first mem rfl
  | append_singleton front k ih =>
    obtain ⟨edge,start,stop⟩ := leadsSplit chain
    have parent : k.target = j.base := by simpa [eq_comm] using leadsEnd stop
    exact .next (ih start edge) mem parent

theorem listedPath (tree : Rooted base joins) {path} :
    path ∈ rootPaths base [] joins ↔ ∃ j, RootPath base joins j path := by
  have grows := rootedGrows tree
  constructor
  · intro mem
    obtain ⟨front,j,rfl,known,chain⟩ := pathChain grows mem
    exact ⟨j,chainPath chain known⟩
  · rintro ⟨j,way⟩
    obtain ⟨before,after,split⟩ := append_of_mem (pathEnds way).1
    obtain ⟨front,listed,chain⟩ := joinPath (split ▸ grows)
    have wide : Leads joins base front j.base := leadsMono chain fun e mem => by simp [split,mem]
    rw [pathUnique tree way (chainPath wide (pathEnds way).1),split]
    exact listed

theorem pathExists (tree : Rooted base joins) {j} (mem : j ∈ joins) : ∃ path, RootPath base joins j path := by
  obtain ⟨before,after,split⟩ := append_of_mem mem
  obtain ⟨front,_,chain⟩ := joinPath (split ▸ rootedGrows tree)
  exact ⟨_,chainPath (leadsMono chain fun e known => by simp [split,known]) mem⟩

theorem pathFront {j path k} (way : RootPath base joins j path) (inside : k ∈ path) :
    ∃ front, RootPath base joins k front ∧ front <+: path := by
  induction way with
  | first mem root =>
    cases mem_singleton.mp inside
    exact ⟨_,.first mem root,prefix_rfl⟩
  | @next i j path before mem parent ih =>
    rcases mem_append.mp inside with earlier | last
    · obtain ⟨front,way,short⟩ := ih earlier
      exact ⟨front,way,short.trans (prefix_append _ _)⟩
    · cases mem_singleton.mp last
      exact ⟨_,.next before mem parent,prefix_rfl⟩

theorem onOwnPath (tree : Rooted base joins) {j} (mem : j ∈ joins) : OnPath base joins j j := by
  obtain ⟨path,way⟩ := pathExists tree mem
  obtain ⟨_,front,rfl⟩ := pathEnds way
  exact ⟨_,way,by simp⟩

theorem onOnePath (tree : Rooted base joins) {i k j} (first : OnPath base joins i j) (second : OnPath base joins k j) :
    OnPath base joins i k ∨ OnPath base joins k i := by
  obtain ⟨path,way,insideI⟩ := first
  obtain ⟨again,way',insideK⟩ := second
  cases pathUnique tree way way'
  obtain ⟨frontI,wayI,shortI⟩ := pathFront way insideI
  obtain ⟨frontK,wayK,shortK⟩ := pathFront way insideK
  obtain ⟨_,_,endI⟩ := pathEnds wayI
  obtain ⟨_,_,endK⟩ := pathEnds wayK
  rcases prefix_or_prefix_of_prefix shortI shortK with shorter | shorter
  · exact .inl ⟨frontK,wayK,shorter.subset (by simp [endI])⟩
  · exact .inr ⟨frontI,wayI,shorter.subset (by simp [endK])⟩

theorem onPathNotDeeper (tree : Rooted base joins) {k j} (on : OnPath base joins k j) : ¬ Deeper base joins k j := by
  rintro ⟨path,other,wayK,wayJ,longer⟩
  obtain ⟨again,way,inside⟩ := on
  cases pathUnique tree way wayJ
  obtain ⟨front,wayK',short⟩ := pathFront wayJ inside
  cases pathUnique tree wayK' wayK
  exact absurd short.length_le (Nat.not_le_of_lt longer)

theorem fansAppend (path : List Join) (j : Join) :
    fans (path ++ [j]) = fans path ++ if j.relationship = .oneToMany then [j.target] else [] := by
  by_cases many : j.relationship = .oneToMany <;> simp [fans,many]

theorem fansSource {path : List Join} {v} (mem : v ∈ fans path) :
    ∃ f ∈ path, f.relationship = .oneToMany ∧ f.target = v := by
  obtain ⟨f,kept,same⟩ := mem_map.mp mem
  obtain ⟨inside,many⟩ := mem_filter.mp kept
  exact ⟨f,inside,beq_iff_eq.mp many,same⟩

theorem lastFan {j path} (way : RootPath base joins j path) (some : fans path ≠ []) :
    ∃ f front, f.relationship = .oneToMany ∧ RootPath base joins f front ∧ fans path = fans front := by
  induction way with
  | @first j mem root =>
    by_cases many : j.relationship = .oneToMany
    · exact ⟨j,_,many,.first mem root,rfl⟩
    · exact absurd (by simp [fans,many]) some
  | @next k j path before mem parent ih =>
    by_cases many : j.relationship = .oneToMany
    · exact ⟨j,_,many,.next before mem parent,rfl⟩
    · have same : fans (path ++ [j]) = fans path := by simp [fansAppend,many]
      rw [same] at some ⊢
      exact ih some

theorem fanLast {f front} (way : RootPath base joins f front) (many : f.relationship = .oneToMany) :
    (fans front).getLast? = some f.target := by
  obtain ⟨_,path,rfl⟩ := pathEnds way
  simp [fansAppend,many]

/- A fan-out lies on the root path of another one exactly if its own fan-outs come first among those of the
other. -/
theorem fanOnPath (tree : Rooted base joins) {f g front path} (wayF : RootPath base joins f front)
    (wayG : RootPath base joins g path) (many : f.relationship = .oneToMany) :
    OnPath base joins f g ↔ fans front <+: fans path := by
  constructor
  · rintro ⟨again,way,inside⟩
    cases pathUnique tree way wayG
    obtain ⟨start,own,short⟩ := pathFront wayG inside
    cases pathUnique tree own wayF
    exact (short.filter _).map _
  · intro short
    have listed : f.target ∈ fans path := short.subset (mem_of_getLast? (fanLast wayF many))
    obtain ⟨k,inside,_,same⟩ := fansSource listed
    cases sameTarget tree (pathMembers wayG k inside) (pathEnds wayF).1 same
    exact ⟨path,wayG,inside⟩

theorem fanoutsNone {previous : Option Relationship} {j : Join} {rest : List Join} :
    fanouts? previous (j :: rest) = none ↔ fanouts? (some j.relationship) rest = none ∨
      (j.relationship = .oneToMany ∧ previous = some .manyToOne) := by
  rw [fanouts?]
  cases fanouts? (some j.relationship) rest with
  | none => simp
  | some others =>
    by_cases many : j.relationship = .oneToMany <;> by_cases coarse : previous = some .manyToOne <;> simp [many,coarse]

theorem fanoutsNext {previous : Option Relationship} {front : List Join} {k j : Join} :
    fanouts? previous (front ++ [k] ++ [j]) = none ↔
      fanouts? previous (front ++ [k]) = none ∨ (j.relationship = .oneToMany ∧ k.relationship = .manyToOne) := by
  induction front generalizing previous with
  | nil =>
    have empty : ∀ before : Option Relationship, fanouts? before [] ≠ none := fun before => by simp [fanouts?]
    simp only [nil_append,singleton_append,fanoutsNone,empty,false_or,Option.some.injEq]
    exact or_comm
  | cons i front ih =>
    simp only [cons_append,fanoutsNone,ih]
    exact or_right_comm

/- A path has no list of fan-outs exactly if one of them leaves the target of a join to a coarser view. -/
theorem turnsBack (tree : Rooted base joins) {j path} (way : RootPath base joins j path) :
    fanouts? none path = none ↔ ∃ f ∈ path, f.relationship = .oneToMany ∧
      ∃ k ∈ joins, k.target = f.base ∧ k.relationship = .manyToOne := by
  induction way with
  | @first j mem root =>
    constructor
    · intro nothing
      rcases fanoutsNone.mp nothing with empty | ⟨_,before⟩
      · cases empty
      · cases before
    · rintro ⟨f,inside,_,k,known,parent,_⟩
      cases mem_singleton.mp inside
      exact absurd (parent.trans root) (tree.apart k known)
  | @next k j path before mem parent ih =>
    obtain ⟨known,front,rfl⟩ := pathEnds before
    rw [fanoutsNext,ih]
    constructor
    · rintro (⟨f,inside,turn⟩ | ⟨many,coarse⟩)
      · exact ⟨f,mem_append_left _ inside,turn⟩
      · exact ⟨j,by simp,many,k,known,parent,coarse⟩
    · rintro ⟨f,inside,many,i,other,before,coarse⟩
      rcases mem_append.mp inside with earlier | last
      · exact .inl ⟨f,earlier,many,i,other,before,coarse⟩
      · cases mem_singleton.mp last
        cases sameTarget tree other known (before.trans parent.symm)
        exact .inr ⟨many,coarse⟩

def Turns (joins : List Join) : Prop :=
  ∃ j ∈ joins, j.relationship = .oneToMany ∧ ∃ k ∈ joins, k.target = j.base ∧ k.relationship = .manyToOne

def Forks (base : String) (joins : List Join) : Prop :=
  ∃ j ∈ joins, ∃ k ∈ joins, j.relationship = .oneToMany ∧ k.relationship = .oneToMany ∧
    ¬ OnPath base joins j k ∧ ¬ OnPath base joins k j

structure EndsAt (base : String) (joins : List Join) (v : String) : Prop where
  narrow : ∀ j ∈ joins, j.relationship ≠ .manyToMany
  straight : ¬ Turns joins
  last : v = base ∧ (∀ j ∈ joins, j.relationship ≠ .oneToMany) ∨
    ∃ j ∈ joins, v = j.target ∧ j.relationship = .oneToMany ∧
      ∀ k ∈ joins, k.relationship = .oneToMany → OnPath base joins k j

theorem wideAbsent {j} (mem : j ∈ joins) (wide : j.relationship = .manyToMany) : of base joins = .absent := by
  have some : (joins.any fun j => j.relationship == .manyToMany) = true :=
    any_eq_true.mpr ⟨j,mem,beq_iff_eq.mpr wide⟩
  rw [of,if_pos some]

variable (tree : Rooted base joins)
include tree

theorem turnedAbsent (turns : Turns joins) : of base joins = .absent := by
  obtain ⟨j,mem,turn⟩ := turns
  obtain ⟨path,way⟩ := pathExists tree mem
  obtain ⟨_,front,rfl⟩ := pathEnds way
  have nothing : fanouts? none (front ++ [j]) = none := (turnsBack tree way).mpr ⟨j,by simp,turn⟩
  have uncollected : (rootPaths base [] joins).mapM (fanouts? none) = none := by
    refine Option.eq_none_iff_forall_ne_some.mpr fun sequences ok => ?_
    obtain ⟨_,_,found⟩ := mem_map.mp (collectedIff.mp ok ▸ mem_map_of_mem ((listedPath tree).mpr ⟨j,way⟩))
    cases found.trans nothing
  unfold of
  split
  · rfl
  · rw [uncollected]

theorem straightKey (straight : ¬ Turns joins) (narrow : ∀ j ∈ joins, j.relationship ≠ .manyToMany) :
    of base joins =
      let sequences := (rootPaths base [] joins).map fans
      if ∀ s ∈ sequences, s <+: longest sequences then .view ((longest sequences).getLast?.getD base) else .absent := by
  have collected : (rootPaths base [] joins).mapM (fanouts? none) = some ((rootPaths base [] joins).map fans) := by
    rw [collectedIff,map_map]
    refine map_congr_left fun path listed => ?_
    obtain ⟨j,way⟩ := (listedPath tree).mp listed
    cases found : fanouts? none path with
    | none =>
      obtain ⟨f,inside,turn⟩ := (turnsBack tree way).mp found
      exact absurd ⟨f,pathMembers way f inside,turn⟩ straight
    | some s => rw [fanoutsOf found]; rfl
  have few : (joins.any fun j => j.relationship == .manyToMany) = false := by
    simpa using narrow
  simp only [of,few,collected,Bool.false_eq_true,if_false,all_eq_true,
    isPrefixOf_iff_prefix]

theorem longestFan {s} (listed : s ∈ (rootPaths base [] joins).map fans) (some : s ≠ []) :
    ∃ g front, g.relationship = .oneToMany ∧ RootPath base joins g front ∧
      longest ((rootPaths base [] joins).map fans) = fans front ∧ s.length ≤ (fans front).length := by
  obtain ⟨member,bound⟩ := longestMember listed
  obtain ⟨path,known,same⟩ := mem_map.mp member
  obtain ⟨j,way⟩ := (listedPath tree).mp known
  have filled : fans path ≠ [] := by
    intro empty
    rw [← same,empty] at bound
    exact some (eq_nil_of_length_eq_zero (Nat.le_zero.mp bound))
  obtain ⟨g,front,many,own,equal⟩ := lastFan way filled
  exact ⟨g,front,many,own,same ▸ equal,by rw [← equal,same]; exact bound⟩

theorem unforked :
    (∀ s ∈ (rootPaths base [] joins).map fans, s <+: longest ((rootPaths base [] joins).map fans)) ↔
      ¬ Forks base joins := by
  constructor
  · rintro all ⟨j,memJ,k,memK,manyJ,manyK,apartJ,apartK⟩
    obtain ⟨pathJ,wayJ⟩ := pathExists tree memJ
    obtain ⟨pathK,wayK⟩ := pathExists tree memK
    have shortJ := all _ (mem_map_of_mem ((listedPath tree).mpr ⟨j,wayJ⟩))
    have shortK := all _ (mem_map_of_mem ((listedPath tree).mpr ⟨k,wayK⟩))
    rcases prefix_or_prefix_of_prefix shortJ shortK with first | first
    · exact apartJ ((fanOnPath tree wayJ wayK manyJ).mpr first)
    · exact apartK ((fanOnPath tree wayK wayJ manyK).mpr first)
  · intro line s listed
    by_cases empty : s = []
    · exact empty ▸ nil_prefix
    · obtain ⟨g,front,manyG,wayG,best,bound⟩ := longestFan tree listed empty
      obtain ⟨path,known,rfl⟩ := mem_map.mp listed
      obtain ⟨j,way⟩ := (listedPath tree).mp known
      obtain ⟨f,start,manyF,wayF,same⟩ := lastFan way empty
      rw [best,same]
      rw [same] at bound
      by_cases before : OnPath base joins f g
      · exact (fanOnPath tree wayF wayG manyF).mp before
      · by_cases behind : OnPath base joins g f
        · have longer := (fanOnPath tree wayG wayF manyG).mp behind
          exact (longer.eq_of_length_le bound) ▸ prefix_rfl
        · exact absurd ⟨f,(pathEnds wayF).1,g,(pathEnds wayG).1,manyF,manyG,before,behind⟩ line

theorem deeperFan (line : ¬ Forks base joins) {g k front path} (wayG : RootPath base joins g front)
    (wayK : RootPath base joins k path) (manyG : g.relationship = .oneToMany) (manyK : k.relationship = .oneToMany)
    (bound : (fans path).length ≤ (fans front).length) (other : k ≠ g) : Deeper base joins g k := by
  have memG := (pathEnds wayG).1
  have memK := (pathEnds wayK).1
  have notBehind : ¬ OnPath base joins g k := by
    intro behind
    have same := ((fanOnPath tree wayG wayK manyG).mp behind).eq_of_length_le bound
    have last := fanLast wayK manyK
    rw [← same,fanLast wayG manyG] at last
    exact other (sameTarget tree memK memG (Option.some.inj last).symm)
  have before : OnPath base joins k g := by
    by_contra apart
    exact line ⟨k,memK,g,memG,manyK,manyG,apart,notBehind⟩
  obtain ⟨again,way,inside⟩ := before
  cases pathUnique tree way wayG
  obtain ⟨start,own,short⟩ := pathFront wayG inside
  cases pathUnique tree own wayK
  refine ⟨front,path,wayG,wayK,Nat.lt_of_le_of_ne short.length_le fun equal => other ?_⟩
  have same := short.eq_of_length equal
  obtain ⟨_,frontK,rfl⟩ := pathEnds wayK
  obtain ⟨_,frontG,rfl⟩ := pathEnds wayG
  simpa using (append_inj' same rfl).2

theorem straightCases (straight : ¬ Turns joins) (narrow : ∀ j ∈ joins, j.relationship ≠ .manyToMany) :
    (Forks base joins → of base joins = .absent) ∧
      (¬ Forks base joins → of base joins =
        .view ((longest ((rootPaths base [] joins).map fans)).getLast?.getD base)) := by
  rw [straightKey tree straight narrow]
  exact ⟨fun forks => if_neg fun all => (unforked tree).mp all forks,fun line => if_pos ((unforked tree).mpr line)⟩

theorem absentExactly : of base joins = .absent ↔
    (∃ j ∈ joins, j.relationship = .manyToMany) ∨ Turns joins ∨ Forks base joins := by
  by_cases wide : ∃ j ∈ joins, j.relationship = .manyToMany
  · obtain ⟨j,mem,many⟩ := wide
    exact iff_of_true (wideAbsent mem many) (.inl ⟨j,mem,many⟩)
  · by_cases turns : Turns joins
    · exact iff_of_true (turnedAbsent tree turns) (.inr (.inl turns))
    · have narrow : ∀ j ∈ joins, j.relationship ≠ .manyToMany := fun j mem many => wide ⟨j,mem,many⟩
      obtain ⟨forked,grained⟩ := straightCases tree turns narrow
      simp only [wide,turns,false_or]
      refine ⟨fun absent => ?_,forked⟩
      by_contra line
      rw [grained line] at absent
      cases absent

theorem grainPresent {grain} (ok : of base joins = .view grain) :
    (∀ j ∈ joins, j.relationship ≠ .manyToMany) ∧ ¬ Turns joins ∧ ¬ Forks base joins := by
  have present : ¬ ((∃ j ∈ joins, j.relationship = .manyToMany) ∨ Turns joins ∨ Forks base joins) := by
    rw [← absentExactly tree,ok]
    intro same
    cases same
  simp only [not_or] at present
  exact ⟨fun j mem many => present.1 ⟨j,mem,many⟩,present.2⟩

theorem grainDeepest {grain} (ok : of base joins = .view grain) :
    (∀ j ∈ joins, j.relationship ≠ .oneToMany) ∧ grain = base ∨
      ∃ j ∈ joins, j.relationship = .oneToMany ∧ grain = j.target ∧
        ∀ k ∈ joins, k.relationship = .oneToMany → k ≠ j → Deeper base joins j k := by
  by_cases fanned : ∃ j ∈ joins, j.relationship = .oneToMany
  · right
    obtain ⟨narrow,straight,line⟩ := grainPresent tree ok
    rw [(straightCases tree straight narrow).2 line] at ok
    have grained := (view.inj ok).symm
    have listed : ∀ j path, RootPath base joins j path → fans path ∈ (rootPaths base [] joins).map fans :=
      fun j path way => mem_map_of_mem ((listedPath tree).mpr ⟨j,way⟩)
    obtain ⟨j,mem,many⟩ := fanned
    obtain ⟨path,way⟩ := pathExists tree mem
    have some : fans path ≠ [] := ne_nil_of_mem (mem_of_getLast? (fanLast way many))
    obtain ⟨g,front,manyG,wayG,best,_⟩ := longestFan tree (listed j path way) some
    rw [best,fanLast wayG manyG] at grained
    refine ⟨g,(pathEnds wayG).1,manyG,grained,fun k memK manyK other => ?_⟩
    obtain ⟨pathK,wayK⟩ := pathExists tree memK
    have bound := (longestMember (listed k pathK wayK)).2
    exact deeperFan tree line wayG wayK manyG manyK (best ▸ bound) other
  · have none : ∀ j ∈ joins, j.relationship ≠ .oneToMany := fun j mem many => fanned ⟨j,mem,many⟩
    exact .inl ⟨none,grainWithoutFanout (rootedGrows tree) ok none⟩

/- The rows of the joined views are no finer than those of a view. -/
theorem endsUnforked {v} (ends : EndsAt base joins v) : ¬ Forks base joins := by
  rintro ⟨i,memI,k,memK,manyI,manyK,apartI,apartK⟩
  rcases ends.last with ⟨_,none⟩ | ⟨j,_,_,_,all⟩
  · exact none i memI manyI
  · rcases onOnePath tree (all i memI manyI) (all k memK manyK) with before | behind
    · exact apartI before
    · exact apartK behind

theorem keyEnds {v} : of base joins = .view v ↔ EndsAt base joins v := by
  constructor
  · intro ok
    obtain ⟨narrow,straight,line⟩ := grainPresent tree ok
    refine ⟨narrow,straight,?_⟩
    rcases grainDeepest tree ok with ⟨none,same⟩ | ⟨j,mem,many,same,deepest⟩
    · exact .inl ⟨same,none⟩
    · refine .inr ⟨j,mem,same,many,fun k memK manyK => ?_⟩
      by_cases self : k = j
      · cases self
        exact onOwnPath tree mem
      · by_contra apart
        have behind : ¬ OnPath base joins j k := fun on => onPathNotDeeper tree on (deepest k memK manyK self)
        exact line ⟨k,memK,j,mem,manyK,many,apart,behind⟩
  · intro ends
    have grained := (straightCases tree ends.straight ends.narrow).2 (endsUnforked tree ends)
    rw [grained]
    rcases ends.last with ⟨rfl,none⟩ | ⟨j,mem,rfl,many,all⟩
    · rcases grainDeepest tree grained with ⟨_,same⟩ | ⟨j,mem,many,_⟩
      · rw [same]
      · exact absurd many (none j mem)
    · rcases grainDeepest tree grained with ⟨none,_⟩ | ⟨k,memK,manyK,same,deepest⟩
      · exact absurd many (none j mem)
      · rw [same]
        by_cases self : j = k
        · rw [self]
        · exact absurd (deepest j mem many self) (onPathNotDeeper tree (all k memK manyK))

end

theorem functionalKeyRule {base : String} {joins : List Join} (tree : Rooted base joins) :
    (FunctionalKey.of base joins = .absent ↔
      (∃ j ∈ joins, j.relationship = .manyToMany) ∨
      (∃ j ∈ joins, j.relationship = .oneToMany ∧ ∃ k ∈ joins, k.target = j.base ∧ k.relationship = .manyToOne) ∨
      ∃ j ∈ joins, ∃ k ∈ joins, j.relationship = .oneToMany ∧ k.relationship = .oneToMany ∧
        ¬ OnPath base joins j k ∧ ¬ OnPath base joins k j) ∧
    ∀ grain, FunctionalKey.of base joins = .view grain →
      (∀ j ∈ joins, j.relationship ≠ .oneToMany) ∧ grain = base ∨
      ∃ j ∈ joins, j.relationship = .oneToMany ∧ grain = j.target ∧
        ∀ k ∈ joins, k.relationship = .oneToMany → k ≠ j → Deeper base joins j k :=
  ⟨absentExactly tree,fun _ => grainDeepest tree⟩

def partJoins : List Join :=
  [keyJoin "orders" "customers" .manyToOne,keyJoin "orders" "lines" .oneToMany,keyJoin "lines" "parts" .oneToMany]

theorem partJoinsRooted : Rooted "orders" partJoins where
  distinct := by decide
  apart := by decide
  grounded := by
    intro before j after split
    rcases before with _ | ⟨a,_ | ⟨b,_ | ⟨c,rest⟩⟩⟩
    · cases split
      exact .inl rfl
    · cases split
      exact .inl rfl
    · cases split
      exact .inr (by decide)
    · simp [partJoins] at split

theorem partsDeepest :
    FunctionalKey.of "orders" partJoins = .view "parts" ∧
      ∃ j ∈ partJoins, j.relationship = .oneToMany ∧ "parts" = j.target ∧
        ∀ k ∈ partJoins, k.relationship = .oneToMany → k ≠ j → Deeper "orders" partJoins j k := by
  have grain : FunctionalKey.of "orders" partJoins = .view "parts" := by decide
  refine ⟨grain,((functionalKeyRule partJoinsRooted).2 "parts" grain).resolve_left ?_⟩
  exact fun none => none.1 (keyJoin "orders" "lines" .oneToMany) (by decide) rfl

end SemanticSql.FunctionalKey
