import Mathlib.Data.Fintype.Card
import Mathlib.Data.Set.Finite.Basic
import Mathlib.Order.WellFounded
import SemanticSql.Proofs.DeclaredReferences
import SemanticSql.Proofs.ReferenceTrails

/-! The search for circles of references. Settling fields round by round leaves exactly those from which references
lead into a circle. -/
namespace SemanticSql

open List Relation

namespace Dependency

section
variable {r : String → String → Prop}

def Circular (r : String → String → Prop) (a : String) : Prop := ∃ b, ReflTransGen r a b ∧ TransGen r b b

theorem circularStep {a b} (step : r a b) (circular : Circular r b) : Circular r a := by
  obtain ⟨c,leads,circle⟩ := circular
  exact ⟨c,.head step leads,circle⟩

theorem circularNext {a} (circular : Circular r a) : ∃ b, r a b ∧ Circular r b := by
  obtain ⟨c,leads,circle⟩ := circular
  rcases ReflTransGen.cases_head leads with rfl | ⟨b,step,later⟩
  · obtain ⟨b,step,later⟩ := TransGen.head'_iff.mp circle
    exact ⟨b,step,a,later,circle⟩
  · exact ⟨b,step,c,later,circle⟩

theorem circularMono {s : String → String → Prop} (wider : ∀ a b, r a b → s a b) {a} (circular : Circular r a) :
    Circular s a := by
  obtain ⟨b,leads,circle⟩ := circular
  exact ⟨b,ReflTransGen.mono wider a b leads,TransGen.mono wider b b circle⟩

theorem groundedStraight {a} (grounded : Acc (fun b a => r a b) a) : ¬ Circular r a := by
  induction grounded with
  | intro a _ ih =>
    intro circular
    obtain ⟨b,step,later⟩ := circularNext circular
    exact ih b step later

theorem straightGrounded {a} (finite : {b | ReflTransGen r a b}.Finite) (straight : ¬ Circular r a) :
    Acc (fun b a => r a b) a := by
  let Reached := {b // ReflTransGen r a b}
  let After : Reached → Reached → Prop := fun x y => TransGen r y.1 x.1
  have few : Finite Reached := finite.to_subtype
  have transitive : IsTrans Reached After := ⟨fun _ _ _ later first => TransGen.trans first later⟩
  have irreflexive : Std.Irrefl After := ⟨fun x circle => straight ⟨x.1,x.2,circle⟩⟩
  have ends : WellFounded After := Finite.wellFounded_of_trans_of_irrefl After
  suffices all : ∀ x : Reached, Acc (fun b a => r a b) x.1 from all ⟨a,.refl⟩
  intro x
  induction x using ends.induction with
  | _ x ih => exact Acc.intro x.1 fun b step => ih ⟨b,x.2.tail step⟩ (.single step)

def First (p : String → Prop) : List String → Option String → Prop
  | [], answer => answer = none
  | id :: rest, answer => p id ∧ answer = some id ∨ ¬ p id ∧ First p rest answer

variable {p q : String → Prop} {ids : List String}

theorem firstOnly {x y} (first : First p ids x) (second : First p ids y) : x = y := by
  induction ids with
  | nil => exact first.trans second.symm
  | cons id rest ih =>
    rcases first with ⟨holds,rfl⟩ | ⟨fails,later⟩
    · exact (second.resolve_right fun other => other.1 holds).2.symm
    · exact ih later (second.resolve_left fun other => fails other.1).2

theorem firstTested {test : String → Bool} (means : ∀ id ∈ ids, test id ↔ p id) : First p ids (ids.find? test) := by
  induction ids with
  | nil => rfl
  | cons id rest ih =>
    obtain ⟨here,later⟩ := forall_mem_cons.mp means
    by_cases holds : test id
    · exact .inl ⟨here.mp holds,by simp [holds]⟩
    · refine .inr ⟨fun other => holds (here.mpr other),?_⟩
      rw [find?_cons_of_neg holds]
      exact ih later

theorem firstNone (first : First p ids none) : ∀ id ∈ ids, ¬ p id := by
  induction ids with
  | nil => exact forall_mem_nil _
  | cons id rest ih =>
    rcases first with ⟨_,none⟩ | ⟨fails,later⟩
    · cases none
    · exact forall_mem_cons.mpr ⟨fails,ih later⟩

theorem firstSome {id} (first : First p ids (some id)) : p id := by
  induction ids with
  | nil => cases first
  | cons _ rest ih =>
    rcases first with ⟨holds,same⟩ | ⟨_,later⟩
    · cases same
      exact holds
    · exact ih later

end

/- Visiting the fields of a list depth first. -/
inductive Scan (next : String → List String) : List String → List String → List String → Bool → List String → Prop
  | done {visited stack} : Scan next visited stack [] false visited
  | pass {visited stack id rest found after} (old : id ∈ visited) (off : id ∉ stack)
      (later : Scan next visited stack rest found after) : Scan next visited stack (id :: rest) found after
  | back {visited stack id rest} (old : id ∈ visited) (on : id ∈ stack) :
      Scan next visited stack (id :: rest) true visited
  | found {visited stack id rest order after} (new : id ∉ visited) (same : order.Perm (next id))
      (inner : Scan next (id :: visited) (id :: stack) order true after) :
      Scan next visited stack (id :: rest) true after
  | clear {visited stack id rest order middle found after} (new : id ∉ visited) (same : order.Perm (next id))
      (inner : Scan next (id :: visited) (id :: stack) order false middle)
      (later : Scan next middle stack rest found after) : Scan next visited stack (id :: rest) found after

inductive Search (next : String → List String) : List String → List String → Option String → Prop
  | none {visited} : Search next visited [] none
  | seen {visited id rest answer} (old : id ∈ visited) (later : Search next visited rest answer) :
      Search next visited (id :: rest) answer
  | found {visited id rest after} (new : id ∉ visited) (inner : Scan next visited [] [id] true after) :
      Search next visited (id :: rest) (some id)
  | clear {visited id rest middle answer} (new : id ∉ visited) (inner : Scan next visited [] [id] false middle)
      (later : Search next middle rest answer) : Search next visited (id :: rest) answer

section
variable {next : String → List String} {visited stack todo after : List String}

theorem scanKeeps {found} (scan : Scan next visited stack todo found after) : visited ⊆ after := by
  induction scan with
  | done => exact List.Subset.refl _
  | pass _ _ _ ih => exact ih
  | back => exact List.Subset.refl _
  | found _ _ _ ih => exact List.Subset.trans (subset_cons_self _ _) ih
  | clear _ _ _ _ inner later => exact List.Subset.trans (List.Subset.trans (subset_cons_self _ _) inner) later

/- Fields that are visited and no longer on the way lead into no circle. -/
def Clear (next : String → List String) (visited stack : List String) : Prop :=
  ∀ x ∈ visited, x ∉ stack → ¬ Circular (fun a b => b ∈ next a) x

theorem scanClear {found} (scan : Scan next visited stack todo found after) (nothing : found = false)
    (clear : Clear next visited stack) : Clear next after stack ∧ ∀ t ∈ todo, ¬ Circular (fun a b => b ∈ next a) t := by
  induction scan with
  | done => exact ⟨clear,forall_mem_nil _⟩
  | pass old off _ ih =>
    obtain ⟨still,rest⟩ := ih nothing clear
    exact ⟨still,forall_mem_cons.mpr ⟨clear _ old off,rest⟩⟩
  | back => cases nothing
  | found => cases nothing
  | @clear visited stack id _ order middle _ _ _ same _ _ inner later =>
    have entered : Clear next (id :: visited) (id :: stack) := by
      intro x mem off
      obtain ⟨other,off⟩ := not_or.mp (mem_cons.not.mp off)
      exact clear x ((mem_cons.mp mem).resolve_left other) off
    obtain ⟨left,below⟩ := inner rfl entered
    have straight : ¬ Circular (fun a b => b ∈ next a) id := by
      intro circular
      obtain ⟨b,step,later⟩ := circularNext circular
      exact below b (same.mem_iff.mpr step) later
    have passed : Clear next middle stack := by
      intro x mem off
      by_cases own : x = id
      · exact own ▸ straight
      · exact left x mem (by simp [own,off])
    obtain ⟨still,rest⟩ := later nothing passed
    exact ⟨still,forall_mem_cons.mpr ⟨straight,rest⟩⟩

/- Each field on the way leads to those that are gone to next. -/
theorem scanFound {found} (scan : Scan next visited stack todo found after) (circle : found = true)
    (leads : ∀ x ∈ stack, ∀ t ∈ todo, TransGen (fun a b => b ∈ next a) x t) :
    ∃ t ∈ todo, Circular (fun a b => b ∈ next a) t := by
  induction scan with
  | done => cases circle
  | pass _ _ _ ih =>
    obtain ⟨t,mem,circular⟩ := ih circle fun x on t mem => leads x on t (mem_cons_of_mem _ mem)
    exact ⟨t,mem_cons_of_mem _ mem,circular⟩
  | @back _ _ id _ _ on => exact ⟨id,mem_cons_self,id,.refl,leads id on id mem_cons_self⟩
  | @found _ _ id _ order _ _ same _ ih =>
    obtain ⟨t,mem,circular⟩ := ih rfl fun x on t mem => by
      have step : t ∈ next id := same.mem_iff.mp mem
      rcases mem_cons.mp on with rfl | below
      · exact .single step
      · exact (leads x below id mem_cons_self).tail step
    exact ⟨id,mem_cons_self,circularStep (r := fun a b => b ∈ next a) (same.mem_iff.mp mem) circular⟩
  | clear _ _ _ _ _ later =>
    obtain ⟨t,mem,circular⟩ := later circle fun x on t mem => leads x on t (mem_cons_of_mem _ mem)
    exact ⟨t,mem_cons_of_mem _ mem,circular⟩

theorem searchFirst {roots answer} (search : Search next visited roots answer) (clear : Clear next visited []) :
    First (Circular fun a b => b ∈ next a) roots answer := by
  induction search with
  | none => rfl
  | seen old _ ih => exact .inr ⟨clear _ old not_mem_nil,ih clear⟩
  | found _ inner =>
    obtain ⟨t,mem,circular⟩ := scanFound inner rfl (forall_mem_nil _)
    cases mem_singleton.mp mem
    exact .inl ⟨circular,rfl⟩
  | clear _ inner _ ih =>
    obtain ⟨still,straight⟩ := scanClear inner rfl clear
    exact .inr ⟨straight _ (mem_singleton_self _),ih still⟩

/- The search ends, as each field is gone into once. -/
theorem scanEnds {ids : List String} (closed : ∀ id ∈ ids, next id ⊆ ids) (n : Nat) (visited stack todo : List String)
    (inside : todo ⊆ ids) (left : unseen ids visited ≤ n) : ∃ found after, Scan next visited stack todo found after := by
  induction n using Nat.strong_induction_on generalizing visited stack todo with
  | _ n deeper =>
    induction todo generalizing visited with
    | nil => exact ⟨false,visited,.done⟩
    | cons id rest ih =>
      obtain ⟨known,others⟩ := cons_subset.mp inside
      by_cases old : id ∈ visited
      · by_cases on : id ∈ stack
        · exact ⟨true,visited,.back old on⟩
        · obtain ⟨found,after,later⟩ := ih visited others left
          exact ⟨found,after,.pass old on later⟩
      · have fewer : unseen ids (id :: visited) < n := Nat.lt_of_lt_of_le (unseenLess known old) left
        obtain ⟨found,middle,inner⟩ :=
          deeper _ fewer (id :: visited) (id :: stack) (next id) (closed id known) (Nat.le_refl _)
        cases found with
        | true => exact ⟨true,middle,.found old (.refl _) inner⟩
        | false =>
          have kept : visited ⊆ middle := List.Subset.trans (subset_cons_self _ _) (scanKeeps inner)
          obtain ⟨found,after,later⟩ := ih middle others (Nat.le_trans (unseenMono kept) left)
          exact ⟨found,after,.clear old (.refl _) inner later⟩

theorem searchEnds {ids : List String} (closed : ∀ id ∈ ids, next id ⊆ ids) (visited : List String) {roots : List String}
    (inside : roots ⊆ ids) : ∃ answer, Search next visited roots answer := by
  induction roots generalizing visited with
  | nil => exact ⟨none,.none⟩
  | cons id rest ih =>
    obtain ⟨known,others⟩ := cons_subset.mp inside
    by_cases old : id ∈ visited
    · obtain ⟨answer,later⟩ := ih visited others
      exact ⟨answer,.seen old later⟩
    · obtain ⟨found,middle,inner⟩ := scanEnds closed _ visited [] [id] (by simpa using known) (Nat.le_refl _)
      cases found with
      | true => exact ⟨some id,.found old inner⟩
      | false =>
        obtain ⟨answer,later⟩ := ih middle others
        exact ⟨answer,.clear old inner later⟩

end

variable {references : Dict NameSet} {settled : List String} {views : List View}

theorem settleStepMember {a} : a ∈ settleStep references settled ↔
    ∃ named, (a, named) ∈ references ∧ ∀ b ∈ named, b ∈ settled := by
  simp [settleStep,all_eq_true]

theorem settleStepMono {more : List String} (inside : settled ⊆ more) :
    (settleStep references settled).Sublist (settleStep references more) := by
  refine (monotone_filter_right references fun e all => ?_).map Prod.fst
  simp only [all_eq_true,contains_iff_mem] at all ⊢
  exact fun b mem => inside (all b mem)

/- Every round settles some field or is the last one. -/
theorem settleStays (n : Nat) (grows : settled.Sublist (settleStep references settled))
    (enough : references.length ≤ n + settled.length) :
    settleStep references (settle references n settled) = settle references n settled := by
  induction n generalizing settled with
  | zero =>
    have all : (settleStep references settled).length ≤ references.length := by
      rw [settleStep,length_map]
      exact length_filter_le _ _
    exact (grows.eq_of_length (Nat.le_antisymm grows.length_le (Nat.le_trans all (by simpa using enough)))).symm
  | succ n ih =>
    simp only [settle]
    split
    · rename_i same
      exact (grows.eq_of_length same.symm).symm
    · rename_i other
      refine ih (settleStepMono grows.subset) ?_
      have longer := Nat.lt_of_le_of_ne grows.length_le (Ne.symm other)
      omega

def ids (views : List View) : List String := (declared views).map Prod.fst

theorem resolvedDeclared {owner : View} {name id} (known : owner ∈ views) (found : resolve? views owner name = some id) :
    id ∈ ids views := by
  have listed {view : View} {rest field grain} (known : view ∈ views) (read : view.field? rest = some (field, grain)) :
      view.name ++ "." ++ field.name ∈ ids views := by
    have member : field ∈ view.fields := View.fieldMember read
    exact mem_map.mpr ⟨_,mem_flatMap.mpr ⟨view,known,mem_map.mpr ⟨field,member,rfl⟩⟩,rfl⟩
  unfold resolve? at found
  split at found
  · obtain ⟨_,look,rest⟩ := Option.bind_eq_some_iff.mp found
    obtain ⟨view,last,same⟩ := Option.map_eq_some_iff.mp look
    cases same
    obtain ⟨_,read,made⟩ := Option.bind_eq_some_iff.mp rest
    cases made
    exact listed (mem_reverse.mp (mem_of_find?_eq_some last)) read
  · obtain ⟨_,look,rest⟩ := Option.bind_eq_some_iff.mp found
    cases look
    obtain ⟨_,read,made⟩ := Option.bind_eq_some_iff.mp rest
    cases made
    exact listed known read

def Refers (views : List View) (a b : String) : Prop := ∃ named, (a, named) ∈ declared views ∧ b ∈ named

theorem refersDeclared {a b} (refers : Refers views a b) : a ∈ ids views ∧ b ∈ ids views := by
  obtain ⟨named,declares,mem⟩ := refers
  refine ⟨mem_map.mpr ⟨_,declares,rfl⟩,?_⟩
  obtain ⟨view,known,inside⟩ := mem_flatMap.mp declares
  obtain ⟨field,_,same⟩ := mem_map.mp inside
  cases same
  obtain ⟨name,_,found⟩ := mem_filterMap.mp (NameSet.mem_ofList.mp mem)
  exact resolvedDeclared known found

theorem namesRefers {a b} (names : Names views a b) : Refers views a b := by
  obtain ⟨named,found,mem⟩ := names
  exact ⟨named,Dict.ofListMember ((Dict.getMember (Dict.ofListSorted _)).mp found),mem⟩

theorem refersNames (apart : (ids views).Nodup) {a b} (refers : Refers views a b) : Names views a b := by
  obtain ⟨named,declares,mem⟩ := refers
  refine ⟨named,Dict.ofListGet declares fun e other same => ?_,mem⟩
  exact congrArg Prod.snd (inj_on_of_nodup_map apart other declares same)

theorem namesFinite {a} (known : a ∈ ids views) : {b | ReflTransGen (Names views) a b}.Finite := by
  refine (finite_toSet (ids views)).subset fun b leads => ?_
  rcases ReflTransGen.cases_tail leads with rfl | ⟨_,_,step⟩
  · exact known
  · exact (refersDeclared (namesRefers step)).2

theorem settledStraight {a} (known : a ∈ ids views) :
    a ∈ settle (all views) (all views).length [] ↔ ¬ Circular (Names views) a := by
  constructor
  · exact fun mem => groundedStraight (settledGrounded (Dict.ofListSorted _) (forall_mem_nil _) a mem)
  · intro straight
    have grounded := straightGrounded (namesFinite known) straight
    induction grounded with
    | intro a _ ih =>
      obtain ⟨named,found⟩ := Option.isSome_iff_exists.mp (Dict.fillKnown (d := []) (.inl known))
      rw [← settleStays _ (nil_sublist _) (Nat.le_refl _),settleStepMember]
      refine ⟨named,(Dict.getMember (Dict.ofListSorted _)).mp found,fun b mem => ?_⟩
      have names : Names views a b := ⟨named,found,mem⟩
      exact ih b names (refersDeclared (namesRefers names)).2 fun later => straight (circularStep names later)

theorem cyclicFirst : First (Circular (Names views)) (ids views) (cyclic? views) := by
  refine firstTested fun id mem => ?_
  rw [Bool.not_eq_true',← Bool.not_eq_true,contains_iff_mem,settledStraight mem,not_not]

def namedBy (views : List View) (id : String) : List String := ((all views).get? id).getD []

theorem namedNames {a b} : b ∈ namedBy views a ↔ Names views a b := by
  unfold namedBy Names
  cases (all views).get? a with
  | none => simp
  | some named => simp

theorem firstStraight {r : String → String → Prop} {answer} (inside : ∀ a b, r a b → a ∈ ids views)
    (first : First (Circular r) (ids views) answer) : answer = none ↔ ¬ ∃ a, TransGen r a a := by
  constructor
  · rintro rfl ⟨a,circle⟩
    obtain ⟨b,step,_⟩ := TransGen.head'_iff.mp circle
    exact firstNone first a (inside a b step) ⟨a,.refl,circle⟩
  · intro none
    cases answer with
    | none => rfl
    | some id =>
      obtain ⟨b,_,circle⟩ := firstSome first
      exact absurd ⟨b,circle⟩ none

/-- Every search for a circle ends with the same answer: the first declared field from which the references of last
declarations lead into a circle. -/
theorem circlesSearched (views : List View) :
    (∃ answer, Search (namedBy views) [] (ids views) answer) ∧
    ∀ answer, Search (namedBy views) [] (ids views) answer →
      answer = cyclic? views ∧ First (Circular (Names views)) (ids views) answer ∧
      (∀ id, answer = some id → Circular (Refers views) id) ∧
      ((ids views).Nodup → First (Circular (Refers views)) (ids views) answer ∧
        (answer = none ↔ ¬ ∃ a, TransGen (Refers views) a a)) := by
  have closed : ∀ id ∈ ids views, namedBy views id ⊆ ids views := fun id _ b mem =>
    (refersDeclared (namesRefers (namedNames.mp mem))).2
  refine ⟨searchEnds closed [] (List.Subset.refl _),fun answer search => ?_⟩
  have same : (fun a b => b ∈ namedBy views a) = Names views := by
    funext a b
    exact propext namedNames
  have first : First (Circular (Names views)) (ids views) answer := same ▸ searchFirst search (List.forall_mem_nil _)
  refine ⟨firstOnly first cyclicFirst,first,fun id found => ?_,fun apart => ?_⟩
  · subst found
    exact circularMono (fun _ _ => namesRefers) (firstSome first)
  · have whole : Names views = Refers views := by
      funext a b
      exact propext ⟨namesRefers,refersNames apart⟩
    rw [whole] at first
    exact ⟨first,firstStraight (fun _ _ refers => (refersDeclared refers).1) first⟩

def pricedView : View := {
  name := "orders"
  fields := [.dimension "id" "$\x7bTABLE\x7d.id",.dimension "shown" "$\x7bnet\x7d",
    .dimension "net" "$\x7bgross\x7d - 1",.dimension "gross" "$\x7bnet\x7d + 1"] }

theorem pricesSearched : ∃ answer, Search (namedBy [pricedView]) [] (ids [pricedView]) answer ∧
    answer = some "orders.shown" ∧ First (Circular (Refers [pricedView])) (ids [pricedView]) answer := by
  obtain ⟨⟨answer,search⟩,every⟩ := circlesSearched [pricedView]
  obtain ⟨same,_,_,whole⟩ := every answer search
  exact ⟨answer,search,same.trans (by decide +kernel),(whole (by decide +kernel)).1⟩

def regionView : View := {
  name := "sales.eu"
  fields := [.dimension "net" "$\x7bgross\x7d - 1",.dimension "gross" "$\x7bnet\x7d + 1"] }

def salesView : View := { name := "sales", fields := [.dimension "eu.net" "$\x7bTABLE\x7d.net"] }

/- The second declaration of `sales.eu.net` hides the first, and with it the circle. -/
theorem hiddenCircleMissed :
    ([regionView,salesView].map View.name).Nodup ∧
    (∀ v ∈ [regionView,salesView], (v.fields.map Field.name).Nodup) ∧
    TransGen (Refers [regionView,salesView]) "sales.eu.net" "sales.eu.net" ∧
    cyclic? [regionView,salesView] = none := by
  refine ⟨by decide,by decide,?_,by decide +kernel⟩
  have there : Refers [regionView,salesView] "sales.eu.net" "sales.eu.gross" :=
    ⟨["sales.eu.gross"],by decide +kernel,by decide⟩
  have back : Refers [regionView,salesView] "sales.eu.gross" "sales.eu.net" :=
    ⟨["sales.eu.net"],by decide +kernel,by decide⟩
  exact .tail (.single there) back

end Dependency
end SemanticSql
