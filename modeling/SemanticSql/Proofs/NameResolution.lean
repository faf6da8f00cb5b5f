import SemanticSql.Compiler
import SemanticSql.Proofs.CompileRuns

/-! Names that stand for fields. Once the names of a request are replaced, there is nothing left to replace, unless a
mapping goes by the name of a field that its view lacks. -/
namespace SemanticSql

open List Text

namespace Renaming

variable (d : Renaming)

mutual

theorem specNames (f : FilterSpec) : (d.spec f).fieldNames = f.fieldNames.map d.name := by
  cases f with
  | group conditions connective => simp only [spec,FilterSpec.fieldNames,specsNames conditions]
  | condition field expression value => simp only [spec,FilterSpec.fieldNames,map_cons,map_nil]

theorem specsNames (filters : List FilterSpec) : fieldNamesOf (d.specs filters) = (fieldNamesOf filters).map d.name := by
  cases filters with
  | nil => rfl
  | cons f rest => simp only [specs,fieldNamesOf,specNames f,specsNames rest,map_append]

end

theorem clauseNames (c : Clause) : (d.clause c).fieldNames = c.fieldNames.map d.name := by
  cases c with
  | text s => rfl
  | list filters => exact d.specsNames filters
  | single f => exact d.specNames f

theorem requestNames (r : Request) : (d.request r).fieldNames = r.fieldNames.map d.name := by
  have clauses : ∀ c : Option Clause, ((c.map d.clause).map Clause.fieldNames).getD [] =
      ((c.map Clause.fieldNames).getD []).map d.name := by
    intro c
    cases c with
    | none => rfl
    | some c => simpa using d.clauseNames c
  simp only [Request.fieldNames,request,clauses,map_append]
  congr 1
  cases r.orderBy with
  | none => rfl
  | some o =>
    simp only [Option.map_some,orderBy]
    cases entries : o.entries with
    | error e => simp [entries]
    | ok listed => simp [OrderBy.entries,map_map,Function.comp_def]

theorem nameNothing (name : String) : Renaming.name [] name = name := rfl

mutual

theorem specNothing (f : FilterSpec) : Renaming.spec [] f = f := by
  cases f with
  | group conditions connective => simp only [spec,specsNothing conditions]
  | condition field expression value => simp only [spec,nameNothing]

theorem specsNothing (filters : List FilterSpec) : Renaming.specs [] filters = filters := by
  cases filters with
  | nil => rfl
  | cons f rest => simp only [specs,specNothing f,specsNothing rest]

end

theorem clauseNothing (c : Clause) : Renaming.clause [] c = c := by
  cases c with
  | text s => simp [clause,text]
  | list filters => simp only [clause,specsNothing]
  | single f => simp only [clause,specNothing]

theorem orderNothing (o : OrderBy) : Renaming.orderBy [] (d.orderBy o) = d.orderBy o := by
  unfold orderBy
  cases entries : o.entries with
  | error e => simp [entries]
  | ok listed => simp [OrderBy.entries,nameNothing]

theorem requestNothing (r : Request) : Renaming.request [] (d.request r) = d.request r := by
  have names : Renaming.name [] = id := funext nameNothing
  have clauses : Renaming.clause [] = id := funext clauseNothing
  have orders : Renaming.orderBy [] ∘ d.orderBy = d.orderBy := funext d.orderNothing
  simp [request,names,clauses,orders]

end Renaming

def plainName (name : String) : String := lower (trim name)

theorem trimmedPlain (name : String) : lower (trim name) = plainName name := rfl

theorem markTrimmed {mark : Char} {cs : List Char} (seen : isBlank mark = false) (mem : mark ∈ cs) :
    mark ∈ trimList cs := by
  have kept : ∀ {cs : List Char}, mark ∈ cs → mark ∈ cs.dropWhile isBlank := by
    intro cs mem
    rw [← takeWhile_append_dropWhile (p := isBlank) (l := cs)] at mem
    rcases mem_append.mp mem with blank | rest
    · exact absurd (all_eq_true.mp all_takeWhile _ blank) (by simp [seen])
    · exact rest
  exact mem_reverse.mpr (kept (mem_reverse.mpr (kept mem)))

theorem markLowered {mark : Char} {before cs : List Char} (small : isSmall mark) (mem : mark ∈ cs) :
    mark ∈ lowerFrom before cs := by
  simp only [isSmall,Bool.and_eq_true,beq_iff_eq,bne_iff_ne] at small
  induction cs generalizing before with
  | nil => contradiction
  | cons c rest ih =>
    rw [lowerFrom]
    rcases mem_cons.mp mem with rfl | later
    · rw [if_neg small.2,small.1]
      exact mem_cons_self
    · split
      · exact mem_cons_of_mem _ (ih later)
      · exact mem_append_right _ (ih later)

theorem dotSmall : isSmall '.' := by decide +kernel

theorem periodUnqualified {name : String} (dotted : '.' ∈ name.toList) : period? (plainName name) = none := by
  have plain : '.' ∈ (plainName name).toList := by
    simpa [plainName,lower,lowerList,trim] using markLowered dotSmall (markTrimmed rfl dotted)
  refine find?_eq_none.mpr fun f mem same => ?_
  have undotted : ∀ f ∈ periodNames, '.' ∉ f.name.toList := by decide
  exact undotted f mem (by rw [beq_iff_eq.mp same]; exact plain)

namespace Scope
variable {s : Scope} {r : Request} {anchors : List FieldUse}

def Unresolved (s : Scope) (key : String) : Prop :=
  s.isUnknown key → period? key = none ∧ s.project.mapping? s.model key = none

theorem addNameCases {names name next} (ok : s.addName r anchors names name = .ok next) :
    (next = names ∧ (names.targets.contains (plainName name) ∨ s.Unresolved (plainName name))) ∨
      ((∃ u : FieldUse, next.targets = names.targets.insert (plainName name) u.qualifiedName) ∧
        ¬ s.Unresolved (plainName name)) := by
  unfold addName at ok
  unfold plainName
  generalize lower (trim name) = key at ok ⊢
  simp only at ok
  split at ok
  · rename_i skipped
    cases ok
    refine .inl ⟨rfl,?_⟩
    rcases Bool.or_eq_true_iff.mp skipped with there | known
    · exact .inl there
    · exact .inr fun unknown => by simp [unknown] at known
  · rename_i sought
    have unknown : s.isUnknown key := by simpa using (not_or.mp (mt Bool.or_eq_true_iff.mpr sought)).2
    split at ok
    · rename_i period
      obtain ⟨⟨target,several⟩,mapped,same⟩ := exceptBind.mp ok
      cases same
      obtain ⟨dates,_,mapped⟩ := exceptBind.mp mapped
      split at mapped
      · cases mapped
      · cases mapped
        refine .inr ⟨⟨_,rfl⟩,fun unresolved => ?_⟩
        cases period.symm.trans (unresolved unknown).1
    · rename_i noPeriod
      split at ok
      · rename_i mapping
        obtain ⟨target,mapped,same⟩ := exceptBind.mp ok
        cases same
        obtain ⟨fields,_,mapped⟩ := exceptBind.mp mapped
        split at mapped
        · cases mapped
          refine .inr ⟨⟨_,rfl⟩,fun unresolved => ?_⟩
          cases mapping.symm.trans (unresolved unknown).2
        · cases mapped
      · rename_i noMapping
        cases ok
        exact .inl ⟨rfl,.inr fun _ => ⟨noPeriod,noMapping⟩⟩

structure Looked (s : Scope) (done : List String) (d : Renaming) : Prop where
  qualified : ∀ key target, d.get? key = some target → ∃ u : FieldUse, target = u.qualifiedName
  left : ∀ name ∈ done, d.get? (plainName name) = none → s.Unresolved (plainName name)

theorem addNameLooked {done names name next} (looked : s.Looked done names.targets)
    (ok : s.addName r anchors names name = .ok next) : s.Looked (done ++ [name]) next.targets := by
  rcases addNameCases ok with ⟨rfl,reason⟩ | ⟨⟨u,inserted⟩,-⟩
  · refine ⟨looked.qualified,fun other mem missing => ?_⟩
    rcases mem_append.mp mem with before | last
    · exact looked.left other before missing
    · cases mem_singleton.mp last
      rcases reason with there | unresolved
      · simp [Dict.contains,missing] at there
      · exact unresolved
  · rw [inserted]
    refine ⟨fun key target found => ?_,fun other mem missing => ?_⟩
    · by_cases same : key = plainName name
      · rw [same,Dict.get?_insert_self] at found
        exact ⟨u,(Option.some.inj found).symm⟩
      · rw [Dict.get?_insert_ne same] at found
        exact looked.qualified key target found
    · have apart : plainName other ≠ plainName name := by
        intro same
        simp [same,Dict.get?_insert_self] at missing
      rw [Dict.get?_insert_ne apart] at missing
      rcases mem_append.mp mem with before | last
      · exact looked.left other before missing
      · exact absurd (by rw [mem_singleton.mp last]) apart

theorem namesLooked {done more names final} (looked : s.Looked done names.targets)
    (ok : more.foldlM (s.addName r anchors) names = .ok final) : s.Looked (done ++ more) final.targets := by
  induction more generalizing done names with
  | nil =>
    cases ok
    simpa using looked
  | cons name rest ih =>
    rw [foldlM_cons] at ok
    obtain ⟨next,first,later⟩ := exceptBind.mp ok
    simpa using ih (addNameLooked looked first) later

theorem addNameNothing {name} (unresolved : s.Unresolved (plainName name)) : s.addName r anchors {} name = .ok {} := by
  unfold addName
  unfold plainName at unresolved
  generalize lower (trim name) = key at unresolved ⊢
  simp only
  split
  · rfl
  · rename_i sought
    have unknown : s.isUnknown key := by
      by_contra known
      exact sought (Bool.or_eq_true_iff.mpr (.inr (by simpa using known)))
    obtain ⟨noPeriod,noMapping⟩ := unresolved unknown
    rw [noPeriod,noMapping]

theorem namesNothing {names : List String} (unresolved : ∀ name ∈ names, s.Unresolved (plainName name)) :
    names.foldlM (s.addName r anchors) {} = .ok {} := by
  induction names with
  | nil => rfl
  | cons name rest ih =>
    obtain ⟨first,later⟩ := forall_mem_cons.mp unresolved
    rw [foldlM_cons,addNameNothing first]
    exact ih later

/- No mapping goes by the name of a field that is put in and that its view lacks. -/
def Settles (s : Scope) (d : Renaming) : Prop :=
  ∀ key target, d.get? key = some target → s.isUnknown (plainName target) →
    s.project.mapping? s.model (plainName target) = none

theorem renamedUnresolved {d : Renaming} (looked : s.Looked r.fieldNames d) (settles : s.Settles d) :
    ∀ name ∈ (d.request r).fieldNames, s.Unresolved (plainName name) := by
  rw [d.requestNames]
  intro other mem
  obtain ⟨name,listed,rfl⟩ := mem_map.mp mem
  cases found : d.get? (plainName name) with
  | none =>
    have same : d.name name = name := by simp [Renaming.name,trimmedPlain,found]
    rw [same]
    exact looked.left name listed found
  | some target =>
    have same : d.name name = target := by simp [Renaming.name,trimmedPlain,found]
    obtain ⟨u,rfl⟩ := looked.qualified _ _ found
    rw [same]
    exact fun unknown => ⟨periodUnqualified (by simp [FieldUse.qualifiedName]),settles _ _ found unknown⟩

theorem resolveAgain {names} (named : s.names r = .ok names) (settles : s.Settles names.targets) :
    s.resolveNames (names.targets.request r) = .ok (names.targets.request r, false) := by
  have start : s.Looked [] ([] : Renaming) := ⟨by simp [Dict.get?],by simp⟩
  have looked : s.Looked r.fieldNames names.targets := by simpa using namesLooked start named
  refine exceptBind.mpr ⟨{},namesNothing (renamedUnresolved looked settles),?_⟩
  rw [Renaming.requestNothing]

end Scope
end SemanticSql
