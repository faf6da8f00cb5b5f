import SemanticSql.Proofs.AccessFilters
import SemanticSql.Proofs.ElapsedUnits
import SemanticSql.Proofs.SelectRows
import Mathlib.Data.List.FinRange
import Mathlib.Data.List.Pairwise

/-! The rows of the steps of a funnel. A trail is a list of events of one customer, one for each step so far and in
the order of time, each of which passes its step. -/
namespace SemanticSql

open List TableColumn Function Compile

namespace Funnel

theorem stepTablesApart {m n : Nat} (same : stepTable m = stepTable n) : m = n := by
  have digits : Nat.toDigits 10 m = Nat.toDigits 10 n := by
    simpa [stepTable,Nat.toString_eq_ofList_toDigits] using congrArg String.toList same
  simpa using congrArg (Nat.ofDigitChars 10 · 0) digits

theorem eventsApart (n : Nat) : stepTable n ≠ eventsTable := by
  intro same
  have letters := congrArg (fun s => s.toList.head?) same
  simp [stepTable,eventsTable] at letters

def named (n : Nat) : List Select → List (String × Select)
  | [] => []
  | s :: rest => (stepTable n, s) :: named (n + 1) rest

def extensions {k : Nat} (follows : Fin k → List (Fin k) → Bool) (trails : List (List (Fin k))) : List (List (Fin k)) :=
  (List.finRange k).flatMap fun e => (trails.filter (follows e)).map (e :: ·)

theorem extensionsDistinct {k : Nat} (follows : Fin k → List (Fin k) → Bool) {trails : List (List (Fin k))}
    (distinct : trails.Nodup) : (extensions follows trails).Nodup := by
  refine nodup_flatMap.mpr ⟨fun e _ => ?_,(nodup_finRange k).imp fun apart => ?_⟩
  · exact (distinct.filter _).map fun t u same => (List.cons.inj same).2
  · intro t left right
    obtain ⟨_,_,rfl⟩ := mem_map.mp left
    obtain ⟨_,_,same⟩ := mem_map.mp right
    exact apart (List.cons.inj same).1.symm

theorem extensionsMember {k : Nat} {follows : Fin k → List (Fin k) → Bool} {trails : List (List (Fin k))} {t} :
    t ∈ extensions follows trails ↔ ∃ e before, t = e :: before ∧ before ∈ trails ∧ follows e before := by
  simp only [extensions,mem_flatMap,mem_finRange,true_and,mem_map,mem_filter]
  constructor
  · rintro ⟨e,before,⟨listed,next⟩,rfl⟩
    exact ⟨e,before,rfl,listed,next⟩
  · rintro ⟨e,before,rfl,listed,next⟩
    exact ⟨e,before,⟨listed,next⟩,rfl⟩

end Funnel

variable {f : FunnelPlan}

namespace FunnelPlan
open Funnel

def followSql (f : FunnelPlan) (n : Nat) : String :=
  eventColumn f.link ++ "=" ++ stepTable n ++ "." ++ f.link.column ++ " and " ++ stepTable n ++ "." ++ f.date.column ++
    "<" ++ eventColumn f.date

structure StepBehind (f : FunnelPlan) (n : Nat) (s : Select) : Prop where
  source : s.source = eventsTable
  joins : s.joins = if n = 0 then [] else [.on "JOIN" (stepTable n) (f.followSql n)]
  items : s.items = [.allOf eventsTable,.column (if n = 0 then eventColumn f.date else startOf n) startColumn]

variable {n : Nat}

theorem stepShape {c : Context} {filters before select after}
    (ok : (f.step c (n + 1) filters).Returns before select after) : f.StepBehind n select := by
  obtain ⟨conditions,middle,_,made⟩ := returnsBind.mp ok
  cases n with
  | zero =>
    rw [if_pos rfl,returnsPure] at made
    rw [made.1]
    exact ⟨rfl,rfl,rfl⟩
  | succ n =>
    rw [if_neg (by omega),returnsPure] at made
    rw [made.1]
    exact ⟨rfl,rfl,rfl⟩

theorem stepsNamed {c : Context} {clauses before tables after}
    (ok : (f.stepTables c n clauses).Returns before tables after) :
    ∃ selects, tables = (named n selects).map (fun t => (t.1, Query.ofSelect t.2)) ∧
      List.Forall₂ (fun e s => ∃ before after, (f.step c e.2 e.1).Returns before s after) (clauses.zipIdx n) selects := by
  induction clauses generalizing n before tables after with
  | nil =>
    cases (returnsPure.mp ok).1
    exact ⟨[],rfl,.nil⟩
  | cons filters rest ih =>
    simp only [stepTables,returnsBind,returnsPure] at ok
    obtain ⟨s,_,step,others,_,later,rfl,_⟩ := ok
    obtain ⟨selects,rfl,each⟩ := ih later
    exact ⟨s :: selects,rfl,.cons ⟨_,_,step⟩ each⟩

section
variable {V : Type}

def beside (n : Nat) (event row : ResultRow V) : JoinedRow (ResultRow V) :=
  Function.update (Results.alone eventsTable event) (stepTable n) (some row)

/- The latest event comes first in the list. -/
def trailRow (f : FunnelPlan) (base : List (ResultRow V)) : List (Fin base.length) → ResultRow V
  | [] => fun _ => none
  | e :: before =>
    Function.update (base.get e) startColumn (base.get ((e :: before).getLast (cons_ne_nil _ _)) f.date.column)

theorem eventsListed {content : Contents V} {base : List (ResultRow V)} (events : content eventsTable = base) :
    content eventsTable = (List.finRange base.length).map base.get := by
  rw [events,map_get_finRange]

theorem trailStart {base : List (ResultRow V)} {e : Fin base.length} {t : List (Fin base.length)} (nonempty : t ≠ []) :
    update (base.get e) startColumn (f.trailRow base t startColumn) = f.trailRow base (e :: t) := by
  obtain ⟨p,before,rfl⟩ := exists_cons_of_ne_nil nonempty
  rw [trailRow,trailRow,update_self,getLast_cons (cons_ne_nil p before)]

theorem besideEvent (n : Nat) (event row : ResultRow V) : beside n event row eventsTable = some event := by
  simp [beside,update_of_ne (eventsApart n).symm,Results.alone]

theorem besideRow (n : Nat) (event row : ResultRow V) : beside n event row (stepTable n) = some row :=
  update_self ..

theorem stepShown {db : Engine V} {s : Select} (step : f.StepBehind n s)
    {r : JoinedRow (ResultRow V)} {event : ResultRow V} {time : Option V} (here : r eventsTable = some event)
    (start : db.value (if n = 0 then eventColumn f.date else startOf n) r = time) :
    db.shown s r = update event startColumn time := by
  funext name
  by_cases same : name = startColumn
  · have found : s.items.findSome? (SelectItem.sqlAs? name) = some (if n = 0 then eventColumn f.date else startOf n) := by
      simp [step.items,List.findSome?,SelectItem.sqlAs?,same]
    rw [Engine.shown,found,Option.elim_some,start,same,update_self]
  · have other : s.items.findSome? (SelectItem.sqlAs? name) = none := by
      simp [step.items,List.findSome?,SelectItem.sqlAs?,Ne.symm same]
    have whole : s.items.filterMap (SelectItem.table? s.source) = [eventsTable] := by
      simp [step.items,SelectItem.table?]
    rw [Engine.shown,other,Option.elim_none,whole,update_of_ne same]
    cases value : event name <;> simp [List.findSome?,here,value]

end

section
variable {V : Type} [LT V]

structure ReadBy (f : FunnelPlan) (db : Engine V) : Prop where
  date : ∀ r, db.value (eventColumn f.date) r = value ⟨eventsTable,f.date.column⟩ r
  start : ∀ n, n + 1 < f.steps.length → ∀ r,
    db.value (startOf (n + 1)) r = value ⟨stepTable (n + 1),startColumn⟩ r
  follows : ∀ n, n + 1 < f.steps.length → ∀ r, db.holds (f.followSql (n + 1)) r ↔
    (∃ x, value ⟨eventsTable,f.link.column⟩ r = some x ∧
      value ⟨stepTable (n + 1),f.link.column⟩ r = some x) ∧
    ∃ x y, value ⟨stepTable (n + 1),f.date.column⟩ r = some x ∧
      value ⟨eventsTable,f.date.column⟩ r = some y ∧ x < y

/- Events of one customer in the order of time; the event at each step passes the conditions of that step. -/
inductive Trail (f : FunnelPlan) (db : Engine V) (base : List (ResultRow V)) (selects : List Select) :
    List (Fin base.length) → Prop
  | start {s e} (select : selects[0]? = some s) (passes : db.passes s (Results.alone eventsTable (base.get e))) :
      Trail f db base selects [e]
  | next {s e p before} (trail : Trail f db base selects (p :: before))
      (select : selects[before.length + 1]? = some s)
      (customer : ∃ x, base.get e f.link.column = some x ∧ f.trailRow base (p :: before) f.link.column = some x)
      (later : ∃ x y, f.trailRow base (p :: before) f.date.column = some x ∧ base.get e f.date.column = some y ∧ x < y)
      (passes : db.passes s (beside (before.length + 1) (base.get e) (f.trailRow base (p :: before)))) :
      Trail f db base selects (e :: p :: before)

structure RowPerTrail (f : FunnelPlan) (db : Engine V) (base : List (ResultRow V)) (selects : List Select) (n : Nat)
    (rows : List (ResultRow V)) (trails : List (List (Fin base.length))) : Prop where
  distinct : trails.Nodup
  exact : ∀ t, t ∈ trails ↔ t.length = n + 1 ∧ f.Trail db base selects t
  rows : rows = trails.map (f.trailRow base)

variable {f : FunnelPlan} {db : Engine V} {base : List (ResultRow V)} {selects : List Select}

theorem rowsFirst (reads : f.ReadBy db) {s : Select} (step : f.StepBehind 0 s) (select : selects[0]? = some s)
    {content : Contents V} (events : content eventsTable = base) :
    ∃ rows trails, db.kept? content s = some rows ∧
      f.RowPerTrail db base selects 0 (rows.map (db.shown s)) trails := by
  have single : s.joins = [] := by rw [step.joins,if_pos rfl]
  have shows (e : Fin base.length) : db.shown s (Results.alone eventsTable (base.get e)) = f.trailRow base [e] :=
    stepShown step (update_self ..) (by rw [if_pos rfl,reads.date]; simp [value,Results.alone])
  refine ⟨_,((List.finRange base.length).filter fun e => db.passes s (Results.alone eventsTable (base.get e))).map
    fun e => [e],Engine.keptAlone single,?_,fun t => ?_,?_⟩
  · exact ((nodup_finRange _).filter _).map fun d e same => by simpa using same
  · constructor
    · intro mem
      obtain ⟨e,kept,rfl⟩ := mem_map.mp mem
      exact ⟨rfl,.start select (mem_filter.mp kept).2⟩
    · rintro ⟨one,trail⟩
      cases trail with
      | start listed passes =>
        cases select.symm.trans listed
        exact mem_map_of_mem (mem_filter.mpr ⟨mem_finRange _,passes⟩)
      | next => simp at one
  · rw [step.source,eventsListed events]
    simp only [filter_map,map_map,comp_def,shows]

theorem rowsNext (reads : f.ReadBy db) (known : n + 1 < f.steps.length) {s : Select} (step : f.StepBehind (n + 1) s)
    (select : selects[n + 1]? = some s) {content : Contents V} (events : content eventsTable = base) {trails}
    (before : f.RowPerTrail db base selects n (content (stepTable (n + 1))) trails) :
    ∃ rows trails, db.kept? content s = some rows ∧
      f.RowPerTrail db base selects (n + 1) (rows.map (db.shown s)) trails := by
  have one : s.joins = [.on "JOIN" (stepTable (n + 1)) (f.followSql (n + 1))] := by rw [step.joins,if_neg (by omega)]
  let pair (e : Fin base.length) (t : List (Fin base.length)) := beside (n + 1) (base.get e) (f.trailRow base t)
  have nonempty {t} (mem : t ∈ trails) : t ≠ [] := by
    rintro rfl
    simpa using ((before.exact []).mp mem).1
  have shows (e) {t} (mem : t ∈ trails) : db.shown s (pair e t) = f.trailRow base (e :: t) := by
    rw [← trailStart (nonempty mem)]
    refine stepShown step (besideEvent ..) ?_
    rw [if_neg (by omega),reads.start n known]
    simp [value,pair,besideRow]
  have follows (e t) : db.holds (f.followSql (n + 1)) (pair e t) ↔
      (∃ x, base.get e f.link.column = some x ∧ f.trailRow base t f.link.column = some x) ∧
      ∃ x y, f.trailRow base t f.date.column = some x ∧ base.get e f.date.column = some y ∧ x < y := by
    rw [reads.follows n known]
    simp [value,pair,besideRow,besideEvent]
  refine ⟨_,extensions (fun e t => db.passes s (pair e t) && db.holds (f.followSql (n + 1)) (pair e t)) trails,
    Engine.keptJoined one,extensionsDistinct _ before.distinct,fun t => ?_,?_⟩
  · rw [extensionsMember]
    constructor
    · rintro ⟨e,t,rfl,listed,next⟩
      obtain ⟨passes,joins⟩ := Bool.and_eq_true_iff.mp next
      obtain ⟨length,trail⟩ := (before.exact t).mp listed
      obtain ⟨p,rest,rfl⟩ := exists_cons_of_ne_nil (nonempty listed)
      cases Nat.succ.inj length
      obtain ⟨customer,later⟩ := (follows e _).mp joins
      exact ⟨by simp,.next trail select customer later passes⟩
    · rintro ⟨length,trail⟩
      cases trail with
      | start => simp at length
      | next trail listed customer later passes =>
        rename_i e p rest
        cases Nat.succ.inj (Nat.succ.inj length)
        cases select.symm.trans listed
        refine ⟨e,p :: rest,rfl,(before.exact _).mpr ⟨rfl,trail⟩,?_⟩
        exact Bool.and_eq_true_iff.mpr ⟨passes,(follows e _).mpr ⟨customer,later⟩⟩
  · -- The join filters the rows of all trails for each event, which are the rows of the trails that it extends.
    rw [step.source,eventsListed events,before.rows,extensions,flatMap_map,map_flatMap,map_flatMap]
    refine flatMap_congr fun e _ => ?_
    rw [map_map,filter_map,filter_map,filter_filter,map_map,map_map]
    exact map_congr_left fun t kept => shows e (mem_filter.mp kept).1

theorem stepsDefined (reads : f.ReadBy db) (shape : ∀ k s, selects[k]? = some s → f.StepBehind k s)
    (known : selects.length = f.steps.length) {rest : List Select} (left : selects.drop n = rest)
    {content : Contents V} (events : content eventsTable = base)
    (before : ∀ m, n = m + 1 → ∃ trails, f.RowPerTrail db base selects m (content (stepTable n)) trails) :
    ∃ final, db.define? content (named (n + 1) rest) = some final ∧
      (∀ table, (∀ k, n < k → table ≠ stepTable k) → final table = content table) ∧
      ∀ k, n ≤ k → k < selects.length → ∃ trails, f.RowPerTrail db base selects k (final (stepTable (k + 1))) trails := by
  -- A step reads the events, which no step defines anew, and the table of the step before it alone.
  induction rest generalizing n content with
  | nil =>
    have none := drop_eq_nil_iff.mp left
    exact ⟨content,rfl,fun _ _ => rfl,fun k low high => absurd high (by omega)⟩
  | cons s rest ih =>
    have select : selects[n]? = some s := by
      have head := congrArg List.head? left
      rwa [head?_drop] at head
    have short : n < selects.length := (List.getElem?_eq_some_iff.mp select).1
    have step := shape n s select
    obtain ⟨rows,trails,kept,own⟩ : ∃ rows trails, db.kept? content s = some rows ∧
        f.RowPerTrail db base selects n (rows.map (db.shown s)) trails := by
      cases n with
      | zero => exact rowsFirst reads step select events
      | succ m =>
        obtain ⟨trails,previous⟩ := before m rfl
        exact rowsNext reads (known ▸ short) step select events previous
    have tail : selects.drop (n + 1) = rest := by rw [← drop_drop,left]; rfl
    have still : update content (stepTable (n + 1)) (rows.map (db.shown s)) eventsTable = base := by
      rw [update_of_ne (eventsApart _).symm,events]
    obtain ⟨final,defined,others,later⟩ := ih tail still fun m same => by
      cases same
      exact ⟨trails,by rw [update_self]; exact own⟩
    refine ⟨final,?_,fun table apart => ?_,fun k low high => ?_⟩
    · rw [named,Engine.define?,kept,Option.bind_some,defined]
    · rw [others table fun k behind => apart k (by omega),update_of_ne (apart (n + 1) (by omega))]
    · rcases Nat.eq_or_lt_of_le low with rfl | behind
      · refine ⟨trails,?_⟩
        rw [others _ fun k behind same => absurd (stepTablesApart same) (by omega),update_self]
        exact own
      · exact later k behind high

structure TrailTo (f : FunnelPlan) (db : Engine V) (base : List (ResultRow V)) (selects : List Select) (n : Nat)
    (e : Fin base.length) (t : List (Fin base.length)) : Prop where
  trail : f.Trail db base selects t
  length : t.length = n + 1
  last : t.head? = some e

def endingIn {k : Nat} (e : Fin k) (trails : List (List (Fin k))) : List (List (Fin k)) :=
  trails.filter fun t => t.head? == some e

theorem trailsTo {n rows trails} (all : f.RowPerTrail db base selects n rows trails) {e t} :
    t ∈ endingIn e trails ↔ f.TrailTo db base selects n e t := by
  rw [endingIn,mem_filter,all.exact,beq_iff_eq]
  exact ⟨fun ⟨⟨length,trail⟩,last⟩ => ⟨trail,length,last⟩,fun known => ⟨⟨known.length,known.trail⟩,known.last⟩⟩

theorem onceIff {n rows trails} (all : f.RowPerTrail db base selects n rows trails) {e} :
    (endingIn e trails).length ≤ 1 ↔
      ∀ t u, f.TrailTo db base selects n e t → f.TrailTo db base selects n e u → t = u := by
  simp only [← trailsTo all]
  have distinct : (endingIn e trails).Nodup := all.distinct.filter _
  constructor
  · intro once t u left right
    obtain ⟨only,single⟩ := length_eq_one_iff.mp (le_antisymm once (length_pos_of_mem left))
    rw [single,mem_singleton] at left right
    rw [left,right]
  · intro same
    rcases shape : endingIn e trails with _ | ⟨t,_ | ⟨u,rest⟩⟩
    · simp
    · simp
    · rw [shape] at distinct same
      have alike := same t u (by simp) (by simp)
      simp [alike] at distinct

theorem firstOnce {e t u} (left : f.TrailTo db base selects 0 e t) (right : f.TrailTo db base selects 0 e u) : t = u := by
  have alone {t} (known : f.TrailTo db base selects 0 e t) : t = [e] := by
    obtain ⟨only,rfl⟩ := length_eq_one_iff.mp known.length
    cases known.last
    rfl
  rw [alone left,alone right]

end

end FunnelPlan

namespace Scope
open Funnel FunnelPlan

structure FunnelSteps (s : Scope) (nested : Nested) (r : Request) (spec : Funnel) (before : Progress) (q : Query)
    (f : FunnelPlan) (selects : List Select) : Prop where
  planned : ∃ tables after, (s.funnelPlan nested r spec).Returns before (f, tables) after
  tables : ∃ first events result, q.tables = first ++ (eventsTable, events) ::
    (named 1 selects).map (fun t => (t.1, Query.ofSelect t.2)) ++ [(resultTable, result)]
  each : List.Forall₂ (fun e select => ∃ before after, (f.step s.context e.2 e.1).Returns before select after)
    (f.steps.zipIdx 1) selects

theorem funnelSteps {s : Scope} {nested r spec before q after}
    (ok : (s.funnelQuery nested r spec).Returns before q after) :
    ∃ f selects, s.FunnelSteps nested r spec before q f selects := by
  simp only [funnelQuery,returnsBind,returnsPure] at ok
  obtain ⟨⟨f,first⟩,_,planned,events,_,_,steps,_,defined,counts,_,_,conditions,_,_,order,_,_,rfl,_⟩ := ok
  obtain ⟨selects,rfl,each⟩ := stepsNamed defined
  exact ⟨f,selects,⟨_,_,planned⟩,⟨first,events,_,rfl⟩,each⟩

section
variable {s : Scope} {nested : Nested} {r : Request} {spec : Funnel} {before : Progress} {q : Query} {f : FunnelPlan}
  {selects : List Select}

theorem stepsShaped (steps : s.FunnelSteps nested r spec before q f selects) (n select)
    (found : selects[n]? = some select) : f.StepBehind n select := by
  obtain ⟨short,rfl⟩ := List.getElem?_eq_some_iff.mp found
  obtain ⟨_,_,made⟩ := steps.each.get (by rwa [steps.each.length_eq]) short
  rw [get_eq_getElem,getElem_zipIdx,Nat.add_comm] at made
  exact stepShape made

theorem rowsOfSteps (steps : s.FunnelSteps nested r spec before q f selects) {V : Type} [LT V] {db : Engine V}
    (reads : f.ReadBy db) (content : Contents V) :
    ∃ final, db.define? content (named 1 selects) = some final ∧ ∀ n < selects.length, ∃ trails,
      f.RowPerTrail db (content eventsTable) selects n (final (stepTable (n + 1))) trails := by
  obtain ⟨final,defined,_,rows⟩ := stepsDefined reads (stepsShaped steps) (by rw [← steps.each.length_eq,length_zipIdx])
    (drop_zero) rfl (fun m none => by omega)
  exact ⟨final,defined,fun n => rows n (Nat.zero_le n)⟩

end

theorem stepsRowPerTrail {s : Scope} {nested r spec before q after}
    (ok : (s.funnelQuery nested r spec).Returns before q after) :
    ∃ f selects, s.FunnelSteps nested r spec before q f selects ∧
      ∀ (V : Type) [LT V] (db : Engine V), f.ReadBy db → ∀ content : Contents V,
        ∃ final, db.define? content (named 1 selects) = some final ∧ ∀ n < selects.length, ∃ trails,
          f.RowPerTrail db (content eventsTable) selects n (final (stepTable (n + 1))) trails ∧
          (n = 0 → ∀ e, (endingIn e trails).length ≤ 1) ∧
          ∀ e, (endingIn e trails).length ≤ 1 ↔ ∀ t u, f.TrailTo db (content eventsTable) selects n e t →
            f.TrailTo db (content eventsTable) selects n e u → t = u := by
  obtain ⟨f,selects,steps⟩ := funnelSteps ok
  refine ⟨f,selects,steps,fun V _ db reads content => ?_⟩
  obtain ⟨final,defined,rows⟩ := rowsOfSteps steps reads content
  refine ⟨final,defined,fun n short => ?_⟩
  obtain ⟨trails,all⟩ := rows n short
  refine ⟨trails,all,fun first e => ?_,fun e => onceIff all⟩
  subst first
  exact (onceIff all).mpr fun t u => firstOnce

/- Clicks of a customer at seconds 1, 2 and 3, and a funnel of any two of them within a minute. -/
def clickView : View where
  name := "clicks"
  tableName := some "db.clicks"
  defaultDate := some "click"
  fields := [
    { name := "customer_id", sql := some "$\x7bTABLE\x7d.customer_id", tags := [linkTag] },
    .timeGroup "click" "$\x7bTABLE\x7d.clicked_at" [.raw,.date],
    .ofAggregate "spend" .sum "$\x7bTABLE\x7d.amount"]

def clickScope : Scope where
  project := .ofDefinitions { views := [clickView] }
  context := { dialect := .snowflake, now := ⟨⟨2024,1,1⟩,0,0,0,0⟩ }

def twoClicks : Funnel := { steps := [.list [],.list []], within := some ⟨60,"seconds"⟩ }

def clickSpend : Request := { metrics := ["clicks.spend"] }

def click (time : Nat) : ResultRow Nat := fun column =>
  if column = "customer_id" then some 1 else if column = "click_raw" then some time else none

def clicks : List (ResultRow Nat) := [click 1,click 2,click 3]

def minuteSql (f : FunnelPlan) : String :=
  Dialect.snowflake.funnelElapsed "SECOND" (startOf 1) (eventColumn f.date) ++ " <= " ++ toString (60 : Int)

def clickEngine (f : FunnelPlan) : Engine Nat where
  value sql r :=
    if sql = eventColumn f.date then value ⟨eventsTable,f.date.column⟩ r
    else value ⟨stepTable 1,startColumn⟩ r
  holds sql r :=
    if sql = f.followSql 1 then
      bothKnown (· == ·) (value ⟨eventsTable,f.link.column⟩ r)
        (value ⟨stepTable 1,f.link.column⟩ r) &&
      bothKnown (· < ·) (value ⟨stepTable 1,f.date.column⟩ r)
        (value ⟨eventsTable,f.date.column⟩ r)
    else if sql = minuteSql f then
      bothKnown (· ≤ · + 60) (value ⟨eventsTable,f.date.column⟩ r)
        (value ⟨stepTable 1,startColumn⟩ r)
    else false

structure ClickPlan (f : FunnelPlan) : Prop where
  date : f.date.column = "click_raw"
  link : f.link.column = "customer_id"
  steps : f.steps = [[],[]]
  interval : f.interval = .second
  within : f.within = 60

theorem clickPlanned {f tables after}
    (ok : (clickScope.funnelPlan refuseNested clickSpend twoClicks).Returns {} (f, tables) after) : ClickPlan f := by
  have facts : (ran? (clickScope.funnelPlan refuseNested clickSpend twoClicks)).map
      (fun p => (p.1.date.column, p.1.link.column, p.1.steps.map List.length, p.1.interval, p.1.within)) =
      some ("click_raw", "customer_id", [0,0], .second, 60) := by decide +kernel
  rw [returnsRan ok] at facts
  simp only [Option.map_some,Option.some.injEq,Prod.mk.injEq] at facts
  obtain ⟨date,link,steps,interval,within⟩ := facts
  refine ⟨date,link,?_,interval,within⟩
  simpa [map_eq_cons_iff] using steps

theorem clicksRead (plan : ClickPlan f) : f.ReadBy (clickEngine f) := by
  have apart : startOf 1 ≠ eventColumn f.date := by
    intro same
    have letters := congrArg (fun s => s.toList.head?) same
    simp [startOf,eventColumn,stepTable,eventsTable] at letters
  refine ⟨fun r => if_pos rfl,fun n short r => ?_,fun n short r => ?_⟩
  · rw [plan.steps] at short
    obtain rfl : n = 0 := by simp at short; omega
    simp only [clickEngine,if_neg apart]
  · rw [plan.steps] at short
    obtain rfl : n = 0 := by simp at short; omega
    simp [clickEngine,bothKnownIff]

structure ClickSteps (f : FunnelPlan) (selects : List Select) : Prop where
  first : ∃ s, selects[0]? = some s ∧ s.conditions = []
  second : ∃ s, selects[1]? = some s ∧ s.conditions = [minuteSql f]

theorem clickSteps {q f selects} (steps : clickScope.FunnelSteps refuseNested clickSpend twoClicks {} q f selects) :
    ClickPlan f ∧ ClickSteps f selects := by
  obtain ⟨tables,after,planned⟩ := steps.planned
  have plan := clickPlanned planned
  have each := steps.each
  rw [plan.steps] at each
  refine ⟨plan,?_⟩
  cases each with
  | cons one others =>
    cases others with
    | cons two others =>
      cases others with
      | nil =>
        obtain ⟨_,_,one⟩ := one
        obtain ⟨_,_,two⟩ := two
        obtain ⟨conditions,_,unfiltered,window⟩ := stepWindow two
        obtain ⟨rfl,_⟩ := returnsPure.mp unfiltered
        refine ⟨⟨_,rfl,?_⟩,⟨_,rfl,?_⟩⟩
        · cases one
          rfl
        · rw [window,plan.interval,plan.within]
          rfl

theorem clickAt (e : Fin clicks.length) : clicks.get e = click (e.val + 1) := by
  rcases e with ⟨_ | _ | _ | _,short⟩
  · rfl
  · rfl
  · rfl
  · exact absurd short (by simp [clicks])

def third : Fin clicks.length := ⟨2,by decide⟩

theorem minuteHolds (f : FunnelPlan) (r : JoinedRow (ResultRow Nat)) : (clickEngine f).holds (minuteSql f) r =
    bothKnown (· ≤ · + 60) (value ⟨eventsTable,f.date.column⟩ r)
      (value ⟨stepTable 1,startColumn⟩ r) := by
  have apart : minuteSql f ≠ f.followSql 1 := by
    intro same
    have text : minuteSql f = "DATEDIFF('" ++ Text.upper "SECOND" ++ "', " ++ startOf 1 ++ ", " ++ eventColumn f.date ++
      ")" ++ " <= " ++ toString (60 : Int) := rfl
    have letters := congrArg (fun s => s.toList.head?) same
    simp [text,followSql,eventColumn,eventsTable] at letters
  simp only [clickEngine,if_neg apart,if_pos]

theorem thirdFollows {f selects} (plan : ClickPlan f) (steps : ClickSteps f selects) {e : Fin clicks.length}
    (earlier : e.val < 2) : f.TrailTo (clickEngine f) clicks selects 1 third [third,e] := by
  obtain ⟨s,one,unfiltered⟩ := steps.first
  obtain ⟨t,two,minute⟩ := steps.second
  have column {name : String} (other : name ≠ startColumn) : f.trailRow clicks [e] name = click (e.val + 1) name := by
    rw [trailRow,update_of_ne other,clickAt]
  have start : f.trailRow clicks [e] startColumn = some (e.val + 1) := by
    rw [trailRow,update_self,getLast_singleton,clickAt,plan.date]
    rfl
  refine ⟨.next (.start one ?_) two ?_ ?_ ?_,rfl,rfl⟩
  · simp [Engine.passes,unfiltered]
  · rw [plan.link,column (by decide),clickAt]
    exact ⟨1,rfl,rfl⟩
  · rw [plan.date,column (by decide),clickAt]
    exact ⟨e.val + 1,3,rfl,rfl,by omega⟩
  · have text : " AND ".intercalate [minuteSql f] = minuteSql f := rfl
    rw [Engine.passes,minute,text,isEmpty_cons,Bool.false_or,minuteHolds,bothKnownIff]
    refine ⟨3,e.val + 1,?_,?_,by simp⟩
    · rw [value,besideEvent,clickAt,plan.date]
      rfl
    · exact start

theorem clicksRan : ∃ q after, (clickScope.funnelQuery refuseNested clickSpend twoClicks).Returns {} q after :=
  ranSome (by decide +kernel)

theorem thirdClickTwice :
    ∃ q after f selects final trails,
      (clickScope.funnelQuery refuseNested clickSpend twoClicks).Returns {} q after ∧
      clickScope.FunnelSteps refuseNested clickSpend twoClicks {} q f selects ∧ f.ReadBy (clickEngine f) ∧
      (clickEngine f).define? (fun _ => clicks) (named 1 selects) = some final ∧
      f.RowPerTrail (clickEngine f) clicks selects 1 (final (stepTable 2)) trails ∧
      1 < (endingIn third trails).length := by
  obtain ⟨q,after,ran⟩ := clicksRan
  obtain ⟨f,selects,steps,evaluated⟩ := stepsRowPerTrail ran
  obtain ⟨plan,known⟩ := clickSteps steps
  have reads := clicksRead plan
  obtain ⟨final,defined,rows⟩ := evaluated Nat (clickEngine f) reads fun _ => clicks
  obtain ⟨_,second,_⟩ := known.second
  have two := (List.getElem?_eq_some_iff.mp second).1
  obtain ⟨trails,all,_,once⟩ := rows 1 two
  refine ⟨q,after,f,selects,final,trails,ran,steps,reads,defined,all,?_⟩
  by_contra few
  have same := (once third).mp (by omega) _ _ (thirdFollows plan known (e := ⟨0,by decide⟩) (by decide))
    (thirdFollows plan known (e := ⟨1,by decide⟩) (by decide))
  simp at same

def Shows {V : Type} (event row : ResultRow V) : Prop := ∀ name, name ≠ startColumn → row name = event name

theorem trailShows {V : Type} {base : List (ResultRow V)} (e : Fin base.length) (before) :
    Shows (base.get e) (f.trailRow base (e :: before)) :=
  fun _ other => update_of_ne other ..

theorem clicksApart : clicks.Pairwise fun x y => ¬ Shows x y := by
  have apart {m n : Nat} (other : m ≠ n) : ¬ Shows (click m) (click n) := by
    intro shows
    have time := shows "click_raw" (by decide)
    simp [click] at time
    omega
  simp [clicks,apart]

theorem clickRepeated :
    ¬ ∀ (s : Scope) nested r spec before q after f selects (V : Type) [LT V] (db : Engine V) (content final : Contents V),
      (s.funnelQuery nested r spec).Returns before q after → s.FunnelSteps nested r spec before q f selects →
      f.ReadBy db → (content eventsTable).Pairwise (fun x y => ¬ Shows x y) →
      db.define? content (named 1 selects) = some final →
      ∀ n < selects.length, ∀ event ∈ content eventsTable,
        (final (stepTable (n + 1))).Pairwise fun x y => ¬ (Shows event x ∧ Shows event y) := by
  intro once
  obtain ⟨q,after,ran⟩ := clicksRan
  obtain ⟨f,selects,steps⟩ := funnelSteps ran
  obtain ⟨plan,known⟩ := clickSteps steps
  have reads := clicksRead plan
  obtain ⟨final,defined,rows⟩ := rowsOfSteps steps reads fun _ => clicks
  obtain ⟨_,second,_⟩ := known.second
  have two := (List.getElem?_eq_some_iff.mp second).1
  obtain ⟨trails,all⟩ := rows 1 two
  have rowsApart := once _ _ _ _ _ _ _ f selects Nat _ _ _ ran steps reads clicksApart defined 1 two
    (clicks.get third) (List.get_mem _ _)
  rw [all.rows,List.pairwise_map] at rowsApart
  have listed (e : Fin clicks.length) (earlier : e.val < 2) : [third,e] ∈ trails :=
    have known := thirdFollows plan known earlier
    (all.exact _).mpr ⟨known.length,known.trail⟩
  have symmetric : Std.Symm fun t u => ¬ (Shows (clicks.get third) (f.trailRow clicks t) ∧
    Shows (clicks.get third) (f.trailRow clicks u)) := ⟨fun t u apart both => apart ⟨both.2,both.1⟩⟩
  exact rowsApart.forall (listed ⟨0,by decide⟩ (by decide)) (listed ⟨1,by decide⟩ (by decide)) (by simp)
    ⟨trailShows third _,trailShows third _⟩

end Scope

end SemanticSql
