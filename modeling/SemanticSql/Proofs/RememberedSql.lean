import Mathlib.Data.List.Nodup
import SemanticSql.Proofs.OfferedFields

/-! Remembered SQL. While requests are compiled, the SQL of a field is remembered under a key that is made of names.
-/
namespace SemanticSql

open List
open Draft (Asks writeSame writeAsked withinAsks runAgrees)

namespace Project
variable {p : Project} {u : FieldUse}

structure KeysApart (p : Project) : Prop where
  keys : ∀ u v, p.Offers u → p.Offers v → Session.memoKey u = Session.memoKey v → u = v
  ids : ∀ u v, p.Defines u → p.Defines v → u.id = v.id → u.view = v.view ∧ u.field = v.field

def uses (p : Project) : List FieldUse :=
  p.views.flatMap fun view => view.fields.flatMap fun field =>
    (if field.primaryKey && !field.grains.contains none then none :: field.grains else field.grains).map
      fun grain => { view, field, grain }

theorem offeredListed (offered : p.Offers u) : u ∈ p.uses := by
  obtain ⟨known,read⟩ := offered
  refine mem_flatMap.mpr ⟨u.view,known.1,mem_flatMap.mpr ⟨u.field,known.2,mem_map.mpr ⟨u.grain,?_,rfl⟩⟩⟩
  rcases read with ⟨name,answers⟩ | ⟨keyed,plain⟩
  · have listed := (Field.answers answers).2
    split
    · exact mem_cons_of_mem none listed
    · exact listed
  · have primary : u.field.primaryKey := find?_some keyed
    rw [plain]
    split
    · exact mem_cons_self
    · rename_i listed
      simpa [primary] using listed

theorem keysApart (keys : (p.uses.map Session.memoKey).Nodup) (ids : p.fieldIds.Nodup) : p.KeysApart := by
  refine ⟨fun u v first second same => ?_,fun u v first second same => ?_⟩
  · exact inj_on_of_nodup_map keys (offeredListed first) (offeredListed second) same
  · have listed : p.fieldIds =
        (p.views.flatMap fun v => v.fields.map fun f => (v, f)).map fun e => e.1.name ++ "." ++ e.2.name := by
      simp [fieldIds,map_flatMap,Function.comp_def]
    have pair {w} (known : p.Defines w) : (w.view, w.field) ∈ p.views.flatMap fun v => v.fields.map fun f => (v, f) :=
      mem_flatMap.mpr ⟨w.view,known.1,mem_map.mpr ⟨w.field,known.2,rfl⟩⟩
    rw [listed] at ids
    have equal := inj_on_of_nodup_map ids (pair first) (pair second) same
    exact Prod.mk.inj equal

end Project

namespace Session
variable (s : Session)

/- The SQL of a field before grouping, written without a memo, and the views that it names. -/
def writtenFrom : Nat → List String → FieldUse → Except Error (String × List String)
  | 0, stack, u => .error (cycleError stack u.id)
  | n + 1, stack, u =>
    if stack.contains u.id then .error (cycleError stack u.id)
    else (s.rowDraft u).write (writtenFrom n (u.id :: stack))

def written : Nat → FieldUse → Except Error (String × List String)
  | 0, u => .error (cycleError [] u.id)
  | n + 1, u => (s.rowDraft u).write (written n)

variable {s} {a u v : FieldUse} {stack : List String} {n m : Nat} {r : String × List String}

theorem writtenMore (ok : s.written n u = .ok r) (le : n ≤ m) : s.written m u = .ok r := by
  induction n generalizing m u r with
  | zero => cases ok
  | succ n ih =>
    cases m with
    | zero => omega
    | succ m => exact writeSame ok fun v answer _ answered => ih answered (Nat.le_of_succ_le_succ le)

theorem writtenSame {r'} (first : s.written n u = .ok r) (second : s.written m u = .ok r') : r = r' := by
  have both := (writtenMore first (Nat.le_max_left n m)).symm.trans (writtenMore second (Nat.le_max_right n m))
  exact Except.ok.inj both

theorem writtenAlone (ok : s.writtenFrom n stack u = .ok r) : s.written n u = .ok r := by
  induction n generalizing stack u r with
  | zero => cases ok
  | succ n ih =>
    rw [writtenFrom] at ok
    split at ok
    · cases ok
    · exact writeSame ok fun v answer _ answered => ih answered

/- Whenever a field is written, at any grain, another one is written in fewer steps. -/
def Above (s : Session) (a u : FieldUse) : Prop :=
  ∀ n b r, s.project.Offers b → b.view = a.view → b.field = a.field → s.written n b = .ok r →
    ∃ m < n, ∃ r, s.written m u = .ok r

theorem aboveItself (above : s.Above a u) (offered : s.project.Offers u) (view : u.view = a.view)
    (field : u.field = a.field) : s.written n u ≠ .ok r := by
  induction n using Nat.strong_induction_on generalizing r with
  | _ n ih =>
    intro ok
    obtain ⟨m,less,_,again⟩ := above n u r offered view field ok
    exact ih m less again

def Genuine (s : Session) (answer : FieldUse → Except Error (String × List String)) : Prop :=
  ∀ v r, answer v = .ok r → ∃ n, s.written n v = .ok r

theorem aboveAsked {answer} (genuine : s.Genuine answer) (offered : s.project.Offers u)
    (asks : Asks answer (s.rowDraft u) v) : s.Above u v := by
  intro n b r other view field ok
  cases n with
  | zero => cases ok
  | succ n =>
    have asks := asksAtGrain offered other view.symm field.symm ok asks
    have agree : ∀ w x y, answer w = .ok x → s.written n w = .ok y → x.1 = y.1 := by
      intro w x y first second
      obtain ⟨m,first⟩ := genuine w x first
      rw [writtenSame first second]
    obtain ⟨r',answered⟩ := writeAsked ok agree asks
    exact ⟨n,Nat.lt_succ_self n,r',answered⟩

theorem aboveTail {answer} (above : s.Above a u) (genuine : s.Genuine answer) (offered : s.project.Offers u)
    (asks : Asks answer (s.rowDraft u) v) : s.Above a v := by
  intro n b r other view field ok
  obtain ⟨m,less,r',again⟩ := above n b r other view field ok
  obtain ⟨k,lower,answered⟩ := aboveAsked genuine offered asks m u r' offered rfl rfl again
  exact ⟨k,Nat.lt_trans lower less,answered⟩

/- Every field on the way is above the one that it has come to. -/
def Clear (s : Session) (stack : List String) (u : FieldUse) : Prop :=
  ∀ a, s.project.Offers a → a.id ∈ stack → s.Above a u

theorem clearStart : s.Clear [] u := fun _ _ mem => by contradiction

theorem clearPush {answer} (apart : s.project.KeysApart) (clear : s.Clear stack u) (genuine : s.Genuine answer)
    (offered : s.project.Offers u) (asks : Asks answer (s.rowDraft u) v) : s.Clear (u.id :: stack) v := by
  intro a other mem
  rcases mem_cons.mp mem with same | later
  · obtain ⟨view,field⟩ := apart.ids a u other.1 offered.1 same
    intro n b r known sameView sameField
    exact aboveAsked genuine offered asks n b r known (sameView.trans view) (sameField.trans field)
  · exact aboveTail (clear a other later) genuine offered asks

/- A field that can be written at all is written behind the fields on the way as well. -/
theorem writtenAhead (apart : s.project.KeysApart) (left : unseen s.project.fieldIds stack < n)
    (offered : s.project.Offers u) (clear : s.Clear stack u) (ok : s.written m u = .ok r) :
    s.writtenFrom n stack u = .ok r := by
  induction m generalizing n stack u r with
  | zero => cases ok
  | succ m ih =>
    cases n with
    | zero => exact absurd left (Nat.not_lt_zero _)
    | succ n =>
      have other : u.id ∉ stack := fun mem => aboveItself (clear u offered mem) offered rfl rfl ok
      rw [writtenFrom,if_neg (by simpa using other)]
      refine writeSame ok fun v answer asks answered => ?_
      have follows := rowFollows asks
      exact ih (unseenPush offered.1 other left) (followsOffered offered.1 follows)
        (clearPush apart clear (fun w r ok => ⟨m,ok⟩) offered asks) answered

def Remembers (s : Session) (memo : List (String × String)) : Prop :=
  ∀ u sql, s.project.Offers u → Dict.get? memo (memoKey u) = some sql → ∃ n named, s.written n u = .ok (sql, named)

theorem remembersNothing : s.Remembers [] := fun _ _ _ found => by cases found

theorem remembersMore {memo sql named} (apart : s.project.KeysApart) (remembers : s.Remembers memo)
    (offered : s.project.Offers u) (ok : s.written n u = .ok (sql, named)) :
    s.Remembers ((memoKey u, sql) :: memo) := by
  intro v text other found
  by_cases same : memoKey u = memoKey v
  · cases apart.keys u v offered other same
    have text : sql = text := by simpa [Dict.get?] using found
    exact ⟨n,named,text ▸ ok⟩
  · exact remembers v text other (by simpa [Dict.get?,same] using found)

theorem keptAgrees {sub : Expand} (apart : s.project.KeysApart) (offered : s.project.Offers u) (other : u.id ∉ stack)
    (all : ∀ v, Asks (s.writtenFrom n (u.id :: stack)) (s.rowDraft u) v →
      (sub v).Agrees s.Remembers ((s.writtenFrom n (u.id :: stack) v).map Prod.fst)) :
    (do
      let sql ← (s.rowDraft u).run sub
      Compile.remember (memoKey u) sql
      pure sql : Compile String).Agrees s.Remembers
        (((s.rowDraft u).write (s.writtenFrom n (u.id :: stack))).map Prod.fst) := by
  rw [← bind_pure (Except.map Prod.fst _)]
  refine Compile.agreesBind (runAgrees all) fun sql same => ?_
  obtain ⟨r,ok,rfl⟩ := exceptMap.mp same
  have written : s.writtenFrom (n + 1) stack u = .ok r := by rw [writtenFrom,if_neg (by simpa using other),ok]
  exact fun _ kept => ⟨rfl,remembersMore apart kept offered (writtenAlone written)⟩

theorem rowAgrees (apart : s.project.KeysApart) (left : unseen s.project.fieldIds stack < n)
    (offered : s.project.Offers u) (clear : s.Clear stack u) :
    (s.rowSqlFrom n stack u).Agrees s.Remembers ((s.writtenFrom n stack u).map Prod.fst) := by
  induction n generalizing stack u with
  | zero => exact absurd left (Nat.not_lt_zero _)
  | succ n ih =>
    intro before kept
    rw [rowSqlFrom]
    cases found : Dict.get? before.expanded (memoKey u) with
    | some sql =>
      rw [Compile.runBind,knownRun found]
      obtain ⟨m,named,ok⟩ := kept u sql offered found
      rw [writtenAhead apart left offered clear ok]
      exact ⟨rfl,kept⟩
    | none =>
      rw [Compile.runBind,knownRun found,writtenFrom]
      by_cases again : stack.contains u.id
      · simp only [if_pos again]
        exact ⟨rfl,kept⟩
      · simp only [if_neg again,rowStep]
        have other : u.id ∉ stack := by simpa using again
        have genuine : s.Genuine (s.writtenFrom n (u.id :: stack)) := fun v r ok => ⟨n,writtenAlone ok⟩
        refine keptAgrees apart offered other (fun v asks => ?_) before kept
        have follows := rowFollows asks
        exact ih (unseenPush offered.1 other left) (followsOffered offered.1 follows)
          (clearPush apart clear genuine offered asks)

variable (s) in
def writtenGroupFrom (symmetric : NameSet) : Nat → List String → FieldUse → Except Error (String × List String)
  | 0, stack, u => .error (cycleError stack u.id)
  | n + 1, stack, u =>
    if u.field.type = .number then
      match u.field.sql with
      | none => .error (.query (.noSql u.id))
      | some sql =>
        if stack.contains u.id then .error (cycleError stack u.id)
        else
          (s.expandDraft u.view u.id sql).write fun r =>
            if r.isMeasure then
              (writtenGroupFrom symmetric n (u.id :: stack) r).map fun inner => (bracketed r inner.1, inner.2)
            else s.writtenFrom s.fuel (u.id :: stack) r
    else (s.columnDraft symmetric u).write (s.writtenFrom s.fuel stack)

theorem formulaUnwritten (formula : u.field.isFormula) : s.written n u ≠ .ok r := by
  cases n with
  | zero => simp [written]
  | succ n =>
    obtain ⟨role,number⟩ := Bool.and_eq_true_iff.mp formula
    have measure : u.isMeasure := role
    have fails : s.measuredDraft u = .done (.error (.query (.numberColumn u.id))) := by
      simp [measuredDraft,eq_of_beq number]
    intro ok
    rw [written,rowDraft,if_pos measure,measureDraft,fails] at ok
    cases ok

/- The fields on the way to a measure are formulas, and none of them has a column of its own. -/
def Formulas (s : Session) (stack : List String) : Prop :=
  ∀ a, s.project.Offers a → a.id ∈ stack → a.field.isFormula

theorem formulasStart : s.Formulas [] := fun _ _ mem => by contradiction

theorem formulasPush (apart : s.project.KeysApart) (formulas : s.Formulas stack) (offered : s.project.Offers u)
    (formula : u.field.isFormula) : s.Formulas (u.id :: stack) := by
  intro a other mem
  rcases mem_cons.mp mem with same | later
  · rw [(apart.ids a u other.1 offered.1 same).2]
    exact formula
  · exact formulas a other later

theorem formulasClear (formulas : s.Formulas stack) : s.Clear stack u := by
  intro a other mem n b r _ _ field ok
  exact absurd ok (formulaUnwritten (field ▸ formulas a other mem))

theorem groupAgrees {symmetric} (apart : s.project.KeysApart) (left : unseen s.project.fieldIds stack < n)
    (offered : s.project.Offers u) (measure : u.isMeasure) (formulas : s.Formulas stack) :
    (s.aggregateSqlFrom symmetric n stack u).Agrees s.Remembers ((s.writtenGroupFrom symmetric n stack u).map Prod.fst) := by
  induction n generalizing stack u with
  | zero => exact absurd left (Nat.not_lt_zero _)
  | succ n ih =>
    rw [aggregateSqlFrom,writtenGroupFrom]
    by_cases number : u.field.type = .number
    · rw [if_pos number,if_pos number]
      have formula : u.field.isFormula := Bool.and_eq_true_iff.mpr ⟨measure,beq_iff_eq.mpr number⟩
      cases written : u.field.sql with
      | none => exact Compile.agreesFail
      | some sql =>
        simp only
        by_cases again : stack.contains u.id
        · rw [if_pos again,if_pos again]
          exact Compile.agreesFail
        · rw [if_neg again,if_neg again,← expandDraftRun]
          refine runAgrees fun v asks => ?_
          have follows : s.Follows u v :=
            withinAsks (expandWithin fun v => .template (by simp [Field.templates,written])) asks
          have next := unseenPush offered.1 (by simpa using again) left
          have inner := formulasPush apart formulas offered formula
          have reached := followsOffered offered.1 follows
          by_cases nested : v.isMeasure
          · rw [if_pos nested,if_pos nested]
            have text {x : Except Error (String × List String)} {f : String → String} :
                (x.map fun inner => (f inner.1, inner.2)).map Prod.fst = (x.map Prod.fst).map f := by cases x <;> rfl
            rw [text]
            exact Compile.agreesThen (ih next reached nested inner)
          · rw [if_neg nested,if_neg nested]
            exact rowAgrees apart unseenFuel reached (formulasClear inner)
    · rw [if_neg number,if_neg number,← columnDraftRun]
      refine runAgrees fun v asks => ?_
      rcases withinAsks (columnWithin measure) asks with rfl | draws
      · exact rowAgrees apart unseenFuel offered (formulasClear formulas)
      · exact rowAgrees apart unseenFuel (followsOffered offered.1 draws.follows) (formulasClear formulas)

inductive Call where
  | row (u : FieldUse)
  | grouped (symmetric : NameSet) (u : FieldUse)

def Call.use : Call → FieldUse
  | row u => u
  | grouped _ u => u

def Call.symmetric : Call → NameSet
  | row _ => []
  | grouped symmetric _ => symmetric

variable (s) in
def call : Call → Compile String
  | .row u => s.rowSql u
  | .grouped symmetric u => s.groupedSql symmetric u

variable (s) in
def writtenCall : Call → Except Error (String × List String)
  | .row u => s.writtenFrom s.fuel [] u
  | .grouped symmetric u =>
    if u.isMeasure then s.writtenGroupFrom symmetric s.fuel [] u else s.writtenFrom s.fuel [] u

variable (s) in
def outcomes : Progress → List Call → List (Except Error String)
  | _, [] => []
  | before, c :: rest =>
    let made := (s.call c).run before
    made.1 :: outcomes made.2 rest

theorem callAgrees {c : Call} (apart : s.project.KeysApart) (offered : s.project.Offers c.use) :
    (s.call c).Agrees s.Remembers ((s.writtenCall c).map Prod.fst) := by
  have rows {u} (offered : s.project.Offers u) :
      (s.rowSql u).Agrees s.Remembers ((s.writtenFrom s.fuel [] u).map Prod.fst) :=
    rowAgrees apart unseenFuel offered clearStart
  cases c with
  | row u => exact rows offered
  | grouped symmetric u =>
    rw [call,writtenCall,groupedSql]
    by_cases measure : u.isMeasure
    · rw [if_pos measure,if_pos measure]
      exact groupAgrees apart unseenFuel offered measure formulasStart
    · rw [if_neg measure,if_neg measure]
      exact rows offered

theorem outcomesWritten {before : Progress} (apart : s.project.KeysApart) (remembers : s.Remembers before.expanded)
    {calls : List Call} (offered : ∀ c ∈ calls, s.project.Offers c.use) :
    s.outcomes before calls = calls.map fun c => (s.writtenCall c).map Prod.fst := by
  induction calls generalizing before with
  | nil => rfl
  | cons c rest ih =>
    obtain ⟨first,later⟩ := forall_mem_cons.mp offered
    obtain ⟨same,kept⟩ := callAgrees apart first before remembers
    rw [outcomes,map_cons,ih kept later,same]

/- Calls that are made one after the other, failing ones among them, all end as they would on their own. -/
theorem callsAnswerAfresh {calls : List Call} (apart : s.project.KeysApart)
    (offered : ∀ c ∈ calls, s.project.Offers c.use) :
    s.outcomes {} calls = calls.map fun c => ((s.call c).run {}).1 := by
  rw [outcomesWritten apart remembersNothing offered]
  refine List.map_congr_left fun c mem => ?_
  exact (callAgrees apart (offered c mem) {} remembersNothing).1.symm

def paymentView : View := {
  name := "payments", tableName := some "db.payments"
  fields := [
    { name := "id", sql := some "$\x7bTABLE\x7d.id", primaryKey := true },
    .timeGroup "paid" "$\x7bTABLE\x7d.paid_at" [],
    .dimension "net" "$\x7bgross\x7d - $\x7btax\x7d",
    .dimension "gross" "$\x7bTABLE\x7d.amount",
    .dimension "tax" "$\x7bnet\x7d * 0.2",
    { name := "total", role := .measure, type := .sum, sql := some "$\x7bgross\x7d",
      filters := [⟨"paid_raw","after 2024-01-01"⟩] },
    { name := "share", role := .measure, type := .number, sql := some "$\x7btotal\x7d / 100" }] }

def paymentSession : Session := {
  project := .ofDefinitions { views := [paymentView] }
  context := { dialect := .snowflake, now := ⟨⟨2024,1,1⟩,0,0,0,0⟩ } }

def paymentUse (i : Fin 7) (grain : Option Grain) : FieldUse := ⟨paymentView,paymentView.fields.get i,grain⟩

theorem paymentOffered {i grain} (name : String) (read : (paymentView.fields.get i).grainOf? name = some grain) :
    paymentSession.project.Offers (paymentUse i grain) :=
  ⟨⟨mem_cons_self,get_mem paymentView.fields i⟩,.inl ⟨name,read⟩⟩

def paymentCalls : List Call :=
  [.row (paymentUse 2 none),.grouped ["payments"] (paymentUse 6 none),.row (paymentUse 4 none),
    .row (paymentUse 1 (some (.time .date)))]

theorem paymentsAfresh :
    paymentSession.project.KeysApart ∧ (∀ c ∈ paymentCalls, paymentSession.project.Offers c.use) ∧
      paymentSession.outcomes {} paymentCalls = paymentCalls.map fun c => ((paymentSession.call c).run {}).1 := by
  have apart : paymentSession.project.KeysApart := Project.keysApart (by decide +kernel) (by decide +kernel)
  have offered : ∀ c ∈ paymentCalls, paymentSession.project.Offers c.use :=
    List.forall_mem_cons.mpr ⟨paymentOffered "net" (by decide +kernel),List.forall_mem_cons.mpr
      ⟨paymentOffered "share" (by decide +kernel),List.forall_mem_cons.mpr ⟨paymentOffered "tax" (by decide +kernel),
        List.forall_mem_cons.mpr ⟨paymentOffered "paid_date" (by decide +kernel),List.forall_mem_nil _⟩⟩⟩⟩
  exact ⟨apart,offered,callsAnswerAfresh apart offered⟩

def placedSession : Session := {
  project := Project.placedProject
  context := { dialect := .snowflake, now := ⟨⟨2024,1,1⟩,0,0,0,0⟩ } }

def placedUse (i : Fin 2) (grain : Option Grain) : FieldUse := ⟨Project.placedView,Project.placedView.fields.get i,grain⟩

theorem placedOffered {i grain} (name : String) (read : (Project.placedView.fields.get i).grainOf? name = some grain) :
    placedSession.project.Offers (placedUse i grain) :=
  ⟨⟨mem_cons_self,get_mem Project.placedView.fields i⟩,.inl ⟨name,read⟩⟩

def placedCalls : List Call := [.row (placedUse 0 none),.row (placedUse 1 (some (.time .raw)))]

/- A dimension and a group at its raw grain are remembered under one key if the dimension has the name of that column. -/
theorem oneKeyRemembered :
    placedSession.project.validate = .ok () ∧ (∀ c ∈ placedCalls, placedSession.project.Offers c.use) ∧
      placedSession.outcomes {} placedCalls ≠ placedCalls.map fun c => ((placedSession.call c).run {}).1 := by
  refine ⟨Project.placedValid,?_,fun same => ?_⟩
  · exact List.forall_mem_cons.mpr ⟨placedOffered "order_raw" (by decide +kernel),List.forall_mem_cons.mpr
      ⟨placedOffered "order" (by decide +kernel),List.forall_mem_nil _⟩⟩
  · have texts := congrArg (List.map Except.toOption) same
    revert texts
    decide +kernel

end Session
end SemanticSql
