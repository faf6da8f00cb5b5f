import SemanticSql.Proofs.Drafts

/-! Fields that drafts ask for. The SQL of a field over rows only asks for fields that its definition uses, and names
no view but its own. -/
namespace SemanticSql

open Draft (Within withinDone withinFail withinAsk withinBind withinFound withinEach)

namespace Session
variable {s : Session} {u v : FieldUse} {symmetric : NameSet}

theorem usesColumn (dimension : u.isMeasure = false) (mentions : s.Mentions u u.template v) : s.Uses u v := by
  cases written : u.field.sql with
  | none => exact .column dimension written mentions
  | some sql =>
    have same : u.template = sql := by simp [FieldUse.template,written]
    exact .template (by simp [Field.templates,written]) (same ▸ mentions)

theorem expandWithin {asked : FieldUse → Prop} {template} (all : ∀ v, s.Mentions u template v → asked v) :
    (s.expandDraft u.view u.id template).Within asked (· = u.view.name) := by
  refine withinFound renderStraight fun sql rendered => withinBind (withinEach fun part mem => ?_) fun _ => withinDone
  cases part with
  | text t => exact withinDone
  | name token =>
    rw [partDraft]
    split
    · exact ⟨rfl,withinDone⟩
    · rename_i other
      refine withinFound referenceStraight fun v found => withinAsk (all v ?_) fun _ => withinDone
      exact ⟨sql,token,rendered,namesMember mem,other,referenceFound found⟩

theorem durationWithin : (s.durationDraft u).Within (s.Uses u) (· = u.view.name) := by
  unfold durationDraft
  split
  · rename_i start finish _ begins ends
    refine withinBind (expandWithin fun v => .template ?_) fun _ =>
      withinBind (expandWithin fun v => .template ?_) fun _ => withinDone
    · simp [Field.templates,begins]
    · simp [Field.templates,ends]
  · exact withinFail rfl
  · exact withinFail rfl

theorem caseWithin {table} (cased : u.field.cases = some table) :
    (s.caseDraft u table).Within (s.Uses u) (· = u.view.name) := by
  refine withinBind (withinEach fun branch mem => ?_) fun _ => withinDone
  refine withinBind (expandWithin fun v => .template ?_) fun _ => withinDone
  simp only [Field.templates,cased,List.mem_append,List.mem_map]
  exact .inr ⟨branch,mem,rfl⟩

theorem dimensionWithin (dimension : u.isMeasure = false) :
    (s.dimensionDraft u).Within (s.Uses u) (· = u.view.name) := by
  unfold dimensionDraft
  split
  · exact durationWithin
  · exact withinBind (expandWithin fun v => usesColumn dimension) fun _ => withinDone
  · split
    · exact ⟨rfl,withinDone⟩
    · split
      · rename_i cased
        exact caseWithin cased
      · exact withinBind (expandWithin fun v => usesColumn dimension) fun _ => withinDone

theorem measuredWithin (measure : u.isMeasure) : (s.measuredDraft u).Within (s.Uses u) (· = u.view.name) := by
  unfold measuredDraft
  split
  · exact withinFail rfl
  · exact withinFail rfl
  · rename_i written _ _
    exact expandWithin fun v => .template (by simp [Field.templates,written])
  · rename_i count plain
    split
    · rename_i keyed
      exact withinAsk (.counted measure count plain keyed) fun _ => withinDone
    · split
      · exact withinDone
      · exact withinFail rfl
  · exact withinFail rfl

theorem conditionsWithin : (s.conditionsDraft u).Within (s.Uses u) (· = u.view.name) := by
  refine withinFound keptStraight fun value keeps => withinBind ?_ fun _ =>
    withinBind (withinEach fun filter mem => ?_) fun _ => withinDone
  · cases value with
    | none => exact withinDone
    | some k =>
      refine withinBind (withinAsk (.kept keeps List.mem_cons_self) fun _ => withinDone) fun _ =>
        withinBind (withinEach fun g mem => ?_) fun _ => withinDone
      exact withinAsk (.kept keeps (List.mem_cons_of_mem _ mem)) fun _ => withinDone
  · exact withinFound fieldFromStraight fun target found => withinAsk (.filter mem found) fun _ => literalStraight

theorem measureWithin (measure : u.isMeasure) : (s.measureDraft u).Within (s.Uses u) (· = u.view.name) := by
  refine withinBind (measuredWithin measure) fun _ => withinBind conditionsWithin fun conditions => ?_
  cases conditions with
  | nil => exact withinDone
  | cons => exact withinDone

theorem rowUses : (s.rowDraft u).Within (s.Uses u) (· = u.view.name) := by
  unfold rowDraft
  split
  · rename_i measure
    exact measureWithin measure
  · rename_i dimension
    exact dimensionWithin (by simpa using dimension)

inductive TellsBy (s : Session) (symmetric : NameSet) (u : FieldUse) : FieldUse → Prop
  | distinctKey {key v} (keyed : u.field.distinctKey = some key) (mentions : s.Mentions u key v) : TellsBy s symmetric u v
  | primaryKey {key} (additive : u.field.type ∈ [.sum,.count,.average])
      (dialect : s.context.dialect.hasSymmetricAggregates) (mem : u.view.name ∈ symmetric)
      (keyed : u.view.primaryKey? = some key) : TellsBy s symmetric u ⟨u.view,key,none⟩

theorem keyWithin (additive : u.field.type ∈ [.sum,.count,.average]) (mem : u.view.name ∈ symmetric) :
    (s.keyDraft u).Within (fun v => v = u ∨ s.TellsBy symmetric u v) (· = u.view.name) := by
  unfold keyDraft
  split
  · rename_i dialect
    split
    · rename_i keyed
      exact withinAsk (.inr (.primaryKey additive dialect mem keyed)) fun _ => withinDone
    · exact withinFail rfl
  · simp only
    split
    · exact withinFail rfl
    · exact circlesOk

theorem additiveWithin {a} (additive : u.field.type ∈ [.sum,.count,.average]) :
    (s.additiveDraft symmetric a u).Within (fun v => v = u ∨ s.TellsBy symmetric u v) (· = u.view.name) := by
  refine withinAsk (.inl rfl) fun sql => ?_
  split
  · rename_i mem
    refine withinBind (keyWithin additive (List.contains_iff_mem.mp mem)) fun key => ?_
    cases key with
    | some key => exact symmetricStraight
    | none => exact withinDone
  · exact withinDone

theorem distinctWithin {term} :
    (s.distinctDraft term u).Within (fun v => v = u ∨ s.TellsBy symmetric u v) (· = u.view.name) := by
  unfold distinctDraft
  split
  · exact withinFail rfl
  · rename_i key keyed
    exact withinBind (expandWithin fun v mentions => .inr (.distinctKey keyed mentions)) fun _ =>
      withinAsk (.inl rfl) fun _ => symmetricStraight

theorem columnTells : (s.columnDraft symmetric u).Within (fun v => v = u ∨ s.TellsBy symmetric u v) (· = u.view.name) := by
  have rows {f : String → String} : (Draft.ask u fun sql => pure (f sql)).Within (fun v => v = u ∨ s.TellsBy symmetric u v)
      (· = u.view.name) := withinAsk (.inl rfl) fun _ => withinDone
  unfold columnDraft
  split
  · rename_i sum
    exact additiveWithin (by simp [sum])
  · rename_i count
    exact additiveWithin (by simp [count])
  · rename_i average
    exact additiveWithin (by simp [average])
  · exact distinctWithin
  · exact distinctWithin
  · exact rows
  · exact rows
  · exact rows
  · split
    · exact rows
    · exact withinFail rfl
  · exact withinFail rfl
  · exact withinFail rfl

end Session
end SemanticSql
