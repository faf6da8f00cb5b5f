import SemanticSql.Proofs.QualifiedNames

/-! Fields that names offer. The SQL of a field only asks for fields at a grain that some name reads them at. Nearly
all of them are listed as its references; the rest is told here. -/
namespace SemanticSql

open Draft (Asks Within withinAsks withinMono asksDone asksBind)

namespace Project
variable {p : Project} {u : FieldUse}

def Offers (p : Project) (u : FieldUse) : Prop :=
  p.Defines u ∧ ((∃ name, u.field.grainOf? name = some u.grain) ∨ u.view.primaryKey? = some u.field ∧ u.grain = none)

theorem fieldFromOffered {view name} (known : view ∈ p.views) (found : p.fieldFrom view name = .ok u) : p.Offers u := by
  refine ⟨fieldFromDefined known found,?_⟩
  unfold fieldFrom at found
  split at found
  · exact .inl ⟨_,(fieldAnswered found).1⟩
  · obtain ⟨_,_,read,rfl⟩ := fieldInFound found
    exact .inl ⟨name,View.fieldAnswers read⟩

theorem offeredPlain (offered : p.Offers u) (plain : u.field.role ≠ .group) : u.grain = none := by
  rcases offered.2 with ⟨name,answers⟩ | ⟨_,none⟩
  · have listed := (Field.answers answers).2
    cases role : u.field.role with
    | group => exact absurd role plain
    | _ => simpa [Field.grains,role] using listed
  · exact none

end Project

namespace Session
variable {s : Session} {u v : FieldUse} {symmetric : NameSet}

theorem mentionsOffered {template} (known : u.view ∈ s.project.views) (mentions : s.Mentions u template v) :
    s.project.Offers v := by
  obtain ⟨_,token,_,_,_,found⟩ := mentions
  have ok : s.reference u.view u.id token = .ok v := by rw [reference,found]
  refine ⟨referenceDefined known ok,?_⟩
  unfold reference? at found
  split at found
  all_goals
    obtain ⟨_,look,rest⟩ := Option.bind_eq_some_iff.mp found
    obtain ⟨_,read,same⟩ := Option.bind_eq_some_iff.mp rest
    cases same
    exact .inl ⟨_,View.fieldAnswers read⟩

theorem keptOffered {k} (known : u.view ∈ s.project.views) (keeps : s.keptValue u = .ok (some k)) :
    ∀ v ∈ k.dimension :: k.groupings, s.project.Offers v := by
  rw [keptValue] at keeps
  split at keeps
  · cases keeps
  · obtain ⟨dimension,look,rest⟩ := exceptBind.mp keeps
    split at rest
    · cases rest
    · obtain ⟨groupings,each,same⟩ := exceptBind.mp rest
      cases same
      refine List.forall_mem_cons.mpr ⟨Project.fieldFromOffered known look,fun v mem => ?_⟩
      obtain ⟨_,_,made⟩ := forallMember (exceptMapM.mp each).flip mem
      exact Project.fieldFromOffered known made

theorem followsOffered (known : s.project.Defines u) (follows : s.Follows u v) : s.project.Offers v := by
  cases follows with
  | template _ mentions => exact mentionsOffered known.1 mentions
  | column _ mentions => exact mentionsOffered known.1 mentions
  | distinctKey _ mentions => exact mentionsOffered known.1 mentions
  | filter _ found => exact Project.fieldFromOffered known.1 found
  | total _ found => exact Project.fieldFromOffered known.1 found
  | kept keeps mem => exact keptOffered known.1 keeps v mem
  | primaryKey keyed => exact ⟨⟨known.1,List.mem_of_find?_eq_some keyed⟩,.inr ⟨keyed,rfl⟩⟩

/- A field that the SQL of another one asks for though it is not listed among its references. -/
inductive LeftOut (s : Session) (symmetric : NameSet) (u : FieldUse) : FieldUse → Prop
  | counted {key} (measure : u.isMeasure) (count : u.field.type = .count) (plain : u.field.sql = none)
      (keyed : u.view.primaryKey? = some key) : LeftOut s symmetric u ⟨u.view,key,none⟩
  | repeated {key} (measure : u.isMeasure) (additive : u.field.type ∈ [.sum,.count,.average])
      (dialect : s.context.dialect.hasSymmetricAggregates) (mem : u.view.name ∈ symmetric)
      (keyed : u.view.primaryKey? = some key) : LeftOut s symmetric u ⟨u.view,key,none⟩
  | column {w} (dimension : u.isMeasure = false) (plain : u.field.sql = none) (mentions : s.Mentions u u.template w) :
      LeftOut s symmetric u w

structure DrawsOn (s : Session) (symmetric : NameSet) (u v : FieldUse) : Prop where
  follows : s.Follows u v
  source : (∀ references, s.referencedFields u = .ok references → v ∈ references) ∨ s.LeftOut symmetric u v

theorem mentionsFound {template references} (ok : s.templateReferences u template = .ok references)
    (mentions : s.Mentions u template v) : v ∈ references := by
  obtain ⟨sql,token,rendered,mem,other,found⟩ := mentions
  obtain ⟨_,same,tokens⟩ := exceptBind.mp ok
  cases rendered.symm.trans same
  obtain ⟨w,listed,made⟩ := forallMember (exceptMapM.mp tokens) (List.mem_filter.mpr ⟨mem,by simpa using other⟩)
  rw [reference,found] at made
  cases made
  exact listed

structure Lists (s : Session) (u : FieldUse) (references : List FieldUse) : Prop where
  template : ∀ template ∈ u.field.templates, ∀ v, s.Mentions u template v → v ∈ references
  distinctKey : ∀ key ∈ u.field.distinctKey, ∀ v, s.Mentions u key v → v ∈ references
  filter : ∀ f ∈ u.field.filters, ∀ v, s.project.fieldFrom u.view f.field = .ok v → v ∈ references
  total : ∀ name ∈ u.field.measure, ∀ v, s.project.fieldFrom u.view name = .ok v → v ∈ references
  kept : ∀ k, s.keptValue u = .ok (some k) → ∀ v ∈ k.dimension :: k.groupings, v ∈ references

theorem referencesListed {references} (ok : s.referencedFields u = .ok references) : s.Lists u references := by
  simp only [referencedFields,exceptBind] at ok
  obtain ⟨inSql,templates,inFilters,filters,totalled,measure,kept,window,same⟩ := ok
  cases same
  have written {template v} (mem : template ∈ u.field.templates ∨ template ∈ u.field.distinctKey)
      (mentions : s.Mentions u template v) : v ∈ inSql.flatten := by
    obtain ⟨found,listed,made⟩ := forallMember (x := template) (exceptMapM.mp templates) (by
      simp only [Field.templates,List.mem_append,Option.mem_toList] at mem ⊢
      tauto)
    exact List.mem_flatten.mpr ⟨found,listed,mentionsFound made mentions⟩
  refine ⟨fun template mem v mentions => ?_,fun key mem v mentions => ?_,fun f mem v found => ?_,
    fun name mem v found => ?_,fun k keeps v mem => ?_⟩
  · simp only [List.mem_append]
    exact .inl (.inl (.inl (written (.inl mem) mentions)))
  · simp only [List.mem_append]
    exact .inl (.inl (.inl (written (.inr mem) mentions)))
  · obtain ⟨w,listed,made⟩ := forallMember (exceptMapM.mp filters) mem
    cases found.symm.trans made
    simp only [List.mem_append]
    exact .inl (.inl (.inr listed))
  · obtain ⟨w,listed,made⟩ := forallMember (exceptMapM.mp measure) (Option.mem_toList.mpr mem)
    cases found.symm.trans made
    simp only [List.mem_append]
    exact .inl (.inr listed)
  · cases keeps.symm.trans window
    exact List.mem_append_right _ mem

theorem usesDraws (uses : s.Uses u v) : s.DrawsOn symmetric u v := by
  refine ⟨usesFollows uses,?_⟩
  cases uses with
  | template mem mentions => exact .inl fun _ ok => (referencesListed ok).template _ mem v mentions
  | column dimension plain mentions => exact .inr (.column dimension plain mentions)
  | distinctKey keyed mentions => exact .inl fun _ ok => (referencesListed ok).distinctKey _ keyed v mentions
  | filter mem found => exact .inl fun _ ok => (referencesListed ok).filter _ mem v found
  | total totals found => exact .inl fun _ ok => (referencesListed ok).total _ totals v found
  | kept keeps mem => exact .inl fun _ ok => (referencesListed ok).kept _ keeps v mem
  | counted measure count plain keyed => exact .inr (.counted measure count plain keyed)

theorem rowWithin : (s.rowDraft u).Within (s.DrawsOn symmetric u) (· = u.view.name) :=
  withinMono (fun _ => usesDraws) rowUses

theorem rowFollows {answer} (asks : Asks answer (s.rowDraft u) v) : s.Follows u v :=
  usesFollows (withinAsks rowUses asks)

def Gathers (s : Session) (symmetric : NameSet) (u v : FieldUse) : Prop := v = u ∨ s.DrawsOn symmetric u v

theorem tellsDraws (measure : u.isMeasure) (tells : s.TellsBy symmetric u v) : s.DrawsOn symmetric u v := by
  cases tells with
  | distinctKey keyed mentions => exact usesDraws (.distinctKey keyed mentions)
  | primaryKey additive dialect mem keyed =>
    exact ⟨.primaryKey keyed,.inr (.repeated measure additive dialect mem keyed)⟩

theorem columnWithin (measure : u.isMeasure) :
    (s.columnDraft symmetric u).Within (s.Gathers symmetric u) (· = u.view.name) :=
  withinMono (fun _ => Or.imp_right (tellsDraws measure)) columnTells

theorem durationAsks {answer} (asks : Asks answer (s.durationDraft u) v) :
    ∃ interval start finish, u.grain = some (.duration interval) ∧ u.field.sqlStart = some start ∧
      u.field.sqlEnd = some finish := by
  unfold durationDraft at asks
  split at asks
  · rename_i interval start finish graded begins ends
    exact ⟨interval,start,finish,graded,begins,ends⟩
  · exact absurd asks asksDone
  · exact absurd asks asksDone

theorem durationGraded {answer r} (written : (s.durationDraft u).write answer = .ok r) :
    ∃ interval, u.grain = some (.duration interval) := by
  unfold durationDraft at written
  split at written
  · rename_i interval _ _ graded _ _
    exact ⟨interval,graded⟩
  · cases written
  · cases written

theorem rowDraftDuration (group : u.field.role = .group) (duration : u.field.type = .duration) :
    s.rowDraft u = s.durationDraft u := by
  simp [rowDraft,FieldUse.isMeasure,Field.isMeasure,dimensionDraft,group,duration]

theorem rowDraftTime (group : u.field.role = .group) (other : u.field.type ≠ .duration) :
    s.rowDraft u = s.expandDraft u.view u.id u.template >>= fun sql => pure (s.timeSql u sql) := by
  simp [rowDraft,FieldUse.isMeasure,Field.isMeasure,dimensionDraft,group]

theorem asksAtGrain {a b : FieldUse} {answer other r} (first : s.project.Offers a) (second : s.project.Offers b)
    (view : a.view = b.view) (field : a.field = b.field) (written : (s.rowDraft b).write other = .ok r)
    (asks : Asks answer (s.rowDraft a) v) : Asks answer (s.rowDraft b) v := by
  obtain ⟨viewA,fieldA,grainA⟩ := a
  obtain ⟨viewB,fieldB,grainB⟩ := b
  cases view
  cases field
  by_cases group : fieldA.role = .group
  · by_cases duration : fieldA.type = .duration
    · rw [rowDraftDuration group duration] at asks written ⊢
      obtain ⟨interval,start,finish,rfl,begins,ends⟩ := durationAsks asks
      obtain ⟨_,rfl⟩ := durationGraded written
      simp only at begins ends
      simp only [durationDraft,begins,ends] at asks ⊢
      exact asksBind (fun _ => asksBind fun _ none => absurd none asksDone) asks
    · rw [rowDraftTime group duration] at asks ⊢
      exact asksBind (fun _ none => absurd none asksDone) asks
  · cases (Project.offeredPlain first group).trans (Project.offeredPlain second group).symm
    exact asks

end Session
end SemanticSql
