import Mathlib.Order.WellFounded
import SemanticSql.Proofs.DeclaredReferences
import SemanticSql.Proofs.ExpanderRuns

/-! Circles that pass the checks of a project. The checks look at the names that stand in the templates of a field and
at the measure that it totals. -/
namespace SemanticSql

open List Relation Dependency

theorem Text.cutNone {separator : Char} {text : String} : cut? separator text = none ↔ separator ∉ text.toList := by
  have list (cs : List Char) : cutList? separator cs = none ↔ separator ∉ cs := by
    induction cs with
    | nil => simp [cutList?]
    | cons c rest ih =>
      rw [cutList?]
      split
      · rename_i same
        simp [same]
      · rename_i other
        simp [ih,Ne.symm other]
  simp [cut?,list]

namespace Project
variable {p : Project}

theorem lastView (valid : p.Valid) (name : String) : p.views.reverse.find? (fun v => v.name == name) = p.view? name := by
  cases found : p.view? name with
  | none =>
    refine find?_eq_none.mpr fun v mem => ?_
    exact find?_eq_none.mp found v (mem_reverse.mp mem)
  | some v =>
    have known : v ∈ p.views := viewMember found
    have named : v.name = name := by simpa using find?_some found
    cases last : p.views.reverse.find? (fun v => v.name == name) with
    | none => exact absurd (find?_eq_none.mp last v (mem_reverse.mpr known)) (by simp [named])
    | some w =>
      have same : w.name = name := by simpa using find?_some last
      rw [valid.views w (mem_reverse.mp (mem_of_find?_eq_some last)) v known (same.trans named.symm)]

theorem fieldInFound {view name u} (found : p.fieldIn view name = .ok u) :
    ∃ field grain, view.field? name = some (field, grain) ∧ u = ⟨view,field,grain⟩ := by
  rw [fieldIn] at found
  split at found
  · rename_i field grain read
    cases found
    exact ⟨field,grain,read,rfl⟩
  · cases found

end Project

namespace Session
variable {s : Session} {v w : FieldUse}

theorem referenceResolved (valid : s.project.Valid) {view token} (found : s.reference? view token = some w) :
    resolve? s.project.views view token = some w.id := by
  have same : resolve? s.project.views view token = (s.reference? view token).map FieldUse.id := by
    simp only [resolve?,reference?,Project.lastView valid]
    cases Text.cut? '.' token with
    | none => cases read : view.field? token <;> simp [read,FieldUse.id]
    | some halves =>
      cases owner : s.project.view? halves.1 with
      | none => simp [owner]
      | some other => cases read : other.field? halves.2 <;> simp [owner,read,FieldUse.id]
  rw [same,found,Option.map_some]

theorem spelledReference {view name} (found : s.project.fieldFrom view name = .ok w)
    (spelled : Text.lower (Text.trim name) = name) : s.reference? view name = some w := by
  unfold Project.fieldFrom at found
  split at found
  · rename_i dotted
    simp only [Project.field,spelled] at found
    split at found
    · rename_i cut
      split at found
      · rename_i owner
        obtain ⟨field,grain,read,rfl⟩ := Project.fieldInFound found
        simp [reference?,cut,owner,read]
      · cases found
    · rename_i whole
      exact absurd (contains_iff_mem.mp dotted) (Text.cutNone.mp whole)
  · rename_i bare
    have whole : Text.cut? '.' name = none := Text.cutNone.mpr fun mem => bare (contains_iff_mem.mpr mem)
    obtain ⟨field,grain,read,rfl⟩ := Project.fieldInFound found
    simp [reference?,whole,read]

inductive Unchecked (s : Session) (v w : FieldUse) : Prop
  | filter {f} (mem : f ∈ v.field.filters) (found : s.project.fieldFrom v.view f.field = .ok w)
  | distinctKey {key} (keyed : v.field.distinctKey = some key) (mentions : s.Mentions v key w)
  | kept {k} (keeps : s.keptValue v = .ok (some k)) (mem : w ∈ k.dimension :: k.groupings)
  | primaryKey {key} (keyed : v.view.primaryKey? = some key) (same : w = ⟨v.view,key,none⟩)
  | column (plain : v.field.sql = none) (mentions : s.Mentions v v.template w)
  | rendered {template sql token} (mem : template ∈ v.field.templates) (rendered : s.render template = .ok sql)
      (shown : token ∈ Reference.names sql) (unwritten : token ∉ Reference.names template)
      (found : s.reference? v.view token = some w)
  | respelled {name} (totals : v.field.measure = some name) (spelled : Text.lower (Text.trim name) ≠ name)
      (found : s.project.fieldFrom v.view name = .ok w)
  | namesake {other} (known : s.project.Defines other) (same : other.id = v.id) (apart : ¬ other.sameField v)

theorem declaredNames (valid : s.project.Valid) (known : s.project.Defines v)
    (only : ∀ other, s.project.Defines other → other.id = v.id → other.sameField v) {token}
    (mem : token ∈ v.field.referredNames) (found : s.reference? v.view token = some w) :
    Names s.project.views v.id w.id := by
  refine ⟨ofField s.project.views v.view v.field,Dict.ofListGet ?_ ?_,?_⟩
  · exact mem_flatMap.mpr ⟨v.view,known.1,mem_map.mpr ⟨v.field,known.2,rfl⟩⟩
  · intro e declared same
    obtain ⟨view,inside,listed⟩ := mem_flatMap.mp declared
    obtain ⟨field,member,rfl⟩ := mem_map.mp listed
    have names := only ⟨view,field,none⟩ ⟨inside,member⟩ same
    simp only [FieldUse.sameField,Bool.and_eq_true,beq_iff_eq] at names
    obtain rfl := valid.views view inside v.view known.1 names.1
    obtain rfl := valid.fields v.view known.1 field member v.field known.2 names.2
    rfl
  · exact NameSet.mem_ofList.mpr (mem_filterMap.mpr ⟨token,mem,referenceResolved valid found⟩)

theorem followedChecked (valid : s.project.Valid) (known : s.project.Defines v) (follows : s.Follows v w) :
    Names s.project.views v.id w.id ∨ s.Unchecked v w := by
  by_cases only : ∀ other, s.project.Defines other → other.id = v.id → other.sameField v
  · cases follows with
    | @template template _ mem mentions =>
      obtain ⟨sql,token,rendered,shown,other,found⟩ := mentions
      by_cases written : token ∈ Reference.names template
      · have listed : token ∈ v.field.referredNames := by
          simp only [Field.referredNames,mem_append,mem_filter,mem_flatMap]
          exact .inl ⟨⟨template,mem,written⟩,by simpa using other⟩
        exact .inl (declaredNames valid known only listed found)
      · exact .inr (.rendered mem rendered shown written found)
    | column plain mentions => exact .inr (.column plain mentions)
    | distinctKey keyed mentions => exact .inr (.distinctKey keyed mentions)
    | filter mem found => exact .inr (.filter mem found)
    | @total name _ totals found =>
      by_cases spelled : Text.lower (Text.trim name) = name
      · have listed : name ∈ v.field.referredNames := mem_append_right _ (by simp [totals])
        exact .inl (declaredNames valid known only listed (spelledReference found spelled))
      · exact .inr (.respelled totals spelled found)
    | kept keeps mem => exact .inr (.kept keeps mem)
    | primaryKey keyed => exact .inr (.primaryKey keyed rfl)
  · obtain ⟨other,known,same,apart⟩ : ∃ other, s.project.Defines other ∧ other.id = v.id ∧ ¬ other.sameField v := by
      simpa using only
    exact .inr (.namesake known same apart)

theorem wayDeclared {a b : FieldUse} (way : TransGen s.Follows a b) :
    TransGen (Names s.project.views) a.id b.id ∨
      ∃ v w, ReflTransGen s.Follows a v ∧ s.Follows v w ∧ ¬ Names s.project.views v.id w.id ∧
        ReflTransGen s.Follows w b := by
  induction way with
  | @single b follows =>
    by_cases names : Names s.project.views a.id b.id
    · exact .inl (.single names)
    · exact .inr ⟨a,b,.refl,follows,names,.refl⟩
  | @tail b c way follows ih =>
    rcases ih with declared | ⟨v,w,before,step,unnamed,after⟩
    · by_cases names : Names s.project.views b.id c.id
      · exact .inl (declared.tail names)
      · exact .inr ⟨b,c,way.to_reflTransGen,follows,names,.refl⟩
    · exact .inr ⟨v,w,before,step,unnamed,after.tail follows⟩

theorem circlesPassUnchecked {u} (valid : s.project.validate = .ok ()) (known : s.project.Defines u)
    (reports : s.ReportsCircle u) :
    ∃ a v w b, ReflTransGen s.Follows u a ∧ ReflTransGen s.Follows a v ∧ s.Follows v w ∧
      ¬ Dependency.Names s.project.views v.id w.id ∧ s.Unchecked v w ∧ ReflTransGen s.Follows w b ∧ a.id = b.id := by
  have valid := Project.validated valid
  obtain ⟨a,b,leads,back,same⟩ := reportedCircle known reports
  rcases wayDeclared back with declared | ⟨v,w,before,step,unnamed,after⟩
  · rw [← same] at declared
    exact absurd (transGen_swap.mpr declared) (valid.grounded.transGen.irrefl.irrefl a.id)
  · have reached := leadsDefined known (leads.trans before)
    have unchecked := (followedChecked valid reached step).resolve_left unnamed
    exact ⟨a,v,w,b,leads,before,step,unnamed,unchecked,after,same⟩

def debtView : View := {
  name := "orders", tableName := some "db.orders"
  fields := [
    { name := "paid", role := .measure, type := .sum, sql := some "$\x7bTABLE\x7d.amount", filters := [⟨"open",">0"⟩] },
    { name := "open", role := .measure, type := .sum, sql := some "$\x7bTABLE\x7d.due", filters := [⟨"paid",">0"⟩] }] }

def debtSession : Session := {
  project := .ofDefinitions { views := [debtView] }
  context := { dialect := .snowflake, now := ⟨⟨2024,1,1⟩,0,0,0,0⟩ } }

def paidUse : FieldUse := ⟨debtView,debtView.fields.head (by decide),none⟩

theorem debtValid : debtSession.project.validate = .ok () := exceptSome.mp (by decide +kernel)

theorem paidDefined : debtSession.project.Defines paidUse := ⟨mem_cons_self,mem_cons_self⟩

theorem mutualFiltersUnchecked :
    debtSession.project.validate = .ok () ∧ debtSession.project.Defines paidUse ∧ (debtSession.rowSql paidUse).Circles ∧
      ∃ a v w b, ReflTransGen debtSession.Follows paidUse a ∧ ReflTransGen debtSession.Follows a v ∧
        debtSession.Follows v w ∧ ¬ Dependency.Names debtSession.project.views v.id w.id ∧ debtSession.Unchecked v w ∧
        ReflTransGen debtSession.Follows w b ∧ a.id = b.id := by
  have rows : (debtSession.rowSql paidUse).Circles := @Compile.circlesFrom _ _ {} (by decide +kernel)
  exact ⟨debtValid,paidDefined,rows,circlesPassUnchecked debtValid paidDefined (.inl rows)⟩

/- A project may pass its checks, and yet a circle is reported for a field of it. -/
theorem validatedProjectCircles :
    debtSession.project.validate = .ok () ∧ debtSession.project.Defines paidUse ∧ (debtSession.rowSql paidUse).Circles ∧
      (debtSession.groupedSql [] paidUse).Circles ∧ Circles (debtSession.requiredViews paidUse) :=
  ⟨debtValid,paidDefined,@Compile.circlesFrom _ _ {} (by decide +kernel),@Compile.circlesFrom _ _ {} (by decide +kernel),
    by decide +kernel⟩

end Session
end SemanticSql
