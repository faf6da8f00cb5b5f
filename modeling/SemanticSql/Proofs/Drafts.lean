import SemanticSql.Proofs.CircularErrors

/-! Drafts of SQL. The SQL of a field is put together from the SQL of other fields and from the names of views. -/
namespace SemanticSql

inductive Draft (α : Type) where
  | done (result : Except Error α)
  | ask (u : FieldUse) (next : String → Draft α)
  | name (view : String) (next : Draft α)
  | warn (text : String) (next : Draft α)

namespace Draft
variable {α β : Type}

def bind : Draft α → (α → Draft β) → Draft β
  | done (.ok a), f => f a
  | done (.error e), _ => done (.error e)
  | ask u next, f => ask u fun sql => (next sql).bind f
  | name view next, f => name view (next.bind f)
  | warn text next, f => warn text (next.bind f)

instance : Monad Draft where
  pure a := done (.ok a)
  bind := bind

def each (f : α → Draft β) : List α → Draft (List β)
  | [] => pure []
  | x :: rest => do return (← f x) :: (← each f rest)

def run (sub : Expand) : Draft α → Compile α
  | done r => liftM r
  | ask u next => do (next (← sub u)).run sub
  | name _ next => next.run sub
  | warn text next => do
    Compile.warn text
    next.run sub

variable {sub : Expand}

@[simp]
theorem runDone {r : Except Error α} : (done r).run sub = liftM r := rfl

theorem liftFail {e : Error} : (liftM (Except.error e : Except Error α) : Compile α) = Compile.fail e := rfl

@[simp]
theorem runPure {a : α} : (pure a : Draft α).run sub = pure a := rfl

@[simp]
theorem runBind {d : Draft α} {f : α → Draft β} : (d >>= f).run sub = d.run sub >>= fun a => (f a).run sub := by
  show (d.bind f).run sub = _
  induction d with
  | done r =>
    cases r with
    | ok a => exact (pure_bind a fun a => (f a).run sub).symm
    | error e => rfl
  | ask u next ih => simp only [bind,run,ih,bind_assoc]
  | name view next ih => exact ih
  | warn text next ih => simp only [bind,run,ih,bind_assoc]

@[simp]
theorem runEach {f : α → Draft β} {xs : List α} : (each f xs).run sub = xs.mapM fun x => (f x).run sub := by
  induction xs with
  | nil => rfl
  | cons x rest ih => simp only [each,runBind,ih,runPure,List.mapM_cons]

/- What a draft reads if every field is answered by a function. -/
def write (answer : FieldUse → Except Error (String × List String)) : Draft α → Except Error (α × List String)
  | done r => r.map (·, [])
  | ask u next => do
    let first ← answer u
    let later ← (next first.1).write answer
    .ok (later.1, first.2 ++ later.2)
  | name view next => do
    let later ← next.write answer
    .ok (later.1, view :: later.2)
  | warn _ next => next.write answer

variable {f g : FieldUse → Except Error (String × List String)} {d : Draft α} {u v : FieldUse} {r : α × List String}

theorem writeAsk {next : String → Draft α} : (ask u next).write f = .ok r ↔
    ∃ first, f u = .ok first ∧ ∃ later, (next first.1).write f = .ok later ∧ r = (later.1, first.2 ++ later.2) := by
  rw [write,exceptBind]
  refine exists_congr fun first => and_congr_right fun _ => ?_
  rw [exceptBind]
  refine exists_congr fun later => and_congr_right fun _ => ?_
  rw [Except.ok.injEq,eq_comm]

theorem writeName {view : String} {next : Draft α} : (name view next).write f = .ok r ↔
    ∃ later, next.write f = .ok later ∧ r = (later.1, view :: later.2) := by
  rw [write,exceptBind]
  refine exists_congr fun later => and_congr_right fun _ => ?_
  rw [Except.ok.injEq,eq_comm]

inductive Asks (answer : FieldUse → Except Error (String × List String)) : Draft α → FieldUse → Prop
  | here {u next} : Asks answer (ask u next) u
  | later {u next first v} (answered : answer u = .ok first) (rest : Asks answer (next first.1) v) :
      Asks answer (ask u next) v
  | name {view next v} (rest : Asks answer next v) : Asks answer (name view next) v
  | warn {text next v} (rest : Asks answer next v) : Asks answer (warn text next) v

theorem asksDone {result : Except Error α} : ¬ Asks f (done result) v := by
  rintro ⟨⟩

theorem asksBind {γ : Type} {next : α → Draft β} {other : α → Draft γ}
    (same : ∀ a, Asks f (next a) v → Asks f (other a) v) (asks : Asks f (d >>= next) v) : Asks f (d >>= other) v := by
  change Asks f (d.bind next) v at asks
  show Asks f (d.bind other) v
  induction d with
  | done result =>
    cases result with
    | ok a => exact same a asks
    | error e => exact absurd asks asksDone
  | ask u rest ih =>
    cases asks with
    | here => exact .here
    | later answered asks => exact .later answered (ih _ asks)
  | name view rest ih =>
    cases asks with
    | name asks => exact .name (ih asks)
  | warn text rest ih =>
    cases asks with
    | warn asks => exact .warn (ih asks)

theorem writeSame (ok : d.write f = .ok r) (same : ∀ v answer, Asks f d v → f v = .ok answer → g v = .ok answer) :
    d.write g = .ok r := by
  induction d generalizing r with
  | done result => exact ok
  | ask u next ih =>
    obtain ⟨first,answered,later,rest,made⟩ := writeAsk.mp ok
    refine writeAsk.mpr ⟨first,same u first .here answered,later,?_,made⟩
    exact ih _ rest fun v answer asks => same v answer (.later answered asks)
  | name view next ih =>
    obtain ⟨later,rest,made⟩ := writeName.mp ok
    exact writeName.mpr ⟨later,ih rest fun v answer asks => same v answer (.name asks),made⟩
  | warn text next ih => exact ih ok fun v answer asks => same v answer (.warn asks)

theorem writeAsked (ok : d.write f = .ok r) (agree : ∀ v a b, g v = .ok a → f v = .ok b → a.1 = b.1) (asks : Asks g d v) :
    ∃ answer, f v = .ok answer := by
  induction d generalizing r with
  | done result => exact absurd asks asksDone
  | ask u next ih =>
    obtain ⟨first,answered,later,rest,_⟩ := writeAsk.mp ok
    cases asks with
    | here => exact ⟨first,answered⟩
    | later other asks => exact ih _ rest (agree _ _ _ other answered ▸ asks)
  | name view next ih =>
    obtain ⟨later,rest,_⟩ := writeName.mp ok
    cases asks with
    | name asks => exact ih rest asks
  | warn text next ih =>
    cases asks with
    | warn asks => exact ih ok asks

def Within (asked : FieldUse → Prop) (named : String → Prop) : Draft α → Prop
  | done result => ¬ Circles result
  | ask u next => asked u ∧ ∀ sql, (next sql).Within asked named
  | name view next => named view ∧ next.Within asked named
  | warn _ next => next.Within asked named

variable {asked : FieldUse → Prop} {named : String → Prop}

theorem withinDone {a : α} : (done (.ok a)).Within asked named := circlesOk

theorem withinFail {e : Error} (other : e.isCircle = false) : (done (.error e) : Draft α).Within asked named := by
  rw [Within,circlesError,other]
  exact Bool.false_ne_true

theorem withinAsk {next : String → Draft α} (first : asked u) (later : ∀ sql, (next sql).Within asked named) :
    (ask u next).Within asked named := ⟨first,later⟩

theorem withinBind {next : α → Draft β} (first : d.Within asked named) (later : ∀ a, (next a).Within asked named) :
    (d >>= next).Within asked named := by
  show (d.bind next).Within asked named
  induction d with
  | done result =>
    cases result with
    | ok a => exact later a
    | error e => exact withinFail (by simpa [Within] using first)
  | ask u next ih => exact ⟨first.1,fun sql => ih sql (first.2 sql)⟩
  | name view next ih => exact ⟨first.1,ih first.2⟩
  | warn text next ih => exact ih first

theorem withinFound {result : Except Error β} {next : β → Draft α} (straight : ¬ Circles result)
    (later : ∀ b, result = .ok b → (next b).Within asked named) : (done result >>= next).Within asked named := by
  cases result with
  | error e => exact withinFail (by simpa using straight)
  | ok b => exact later b rfl

theorem withinEach {next : β → Draft α} {xs : List β} (all : ∀ x ∈ xs, (next x).Within asked named) :
    (each next xs).Within asked named := by
  induction xs with
  | nil => exact withinDone
  | cons x rest ih =>
    obtain ⟨first,later⟩ := List.forall_mem_cons.mp all
    exact withinBind first fun _ => withinBind (ih later) fun _ => withinDone

theorem withinMono {more : FieldUse → Prop} (wider : ∀ v, asked v → more v) (within : d.Within asked named) :
    d.Within more named := by
  induction d with
  | done result => exact within
  | ask u next ih => exact ⟨wider u within.1,fun sql => ih sql (within.2 sql)⟩
  | name view next ih => exact ⟨within.1,ih within.2⟩
  | warn text next ih => exact ih within

theorem withinAsks (within : d.Within asked named) (asks : Asks f d v) : asked v := by
  induction asks with
  | here => exact within.1
  | later _ _ ih => exact ih (within.2 _)
  | name _ ih => exact ih within.2
  | warn _ ih => exact ih within

theorem withinNames (within : d.Within asked named) (ok : d.write f = .ok r) :
    ∀ view ∈ r.2, named view ∨ ∃ v answer, Asks f d v ∧ f v = .ok answer ∧ view ∈ answer.2 := by
  induction d generalizing r with
  | done result =>
    cases result with
    | error e => cases ok
    | ok a =>
      cases ok
      exact List.forall_mem_nil _
  | ask u next ih =>
    obtain ⟨first,answered,later,rest,rfl⟩ := writeAsk.mp ok
    intro view mem
    rcases List.mem_append.mp mem with inFirst | inLater
    · exact .inr ⟨u,first,.here,answered,inFirst⟩
    · rcases ih _ (within.2 _) rest view inLater with own | ⟨v,answer,asks,other⟩
      · exact .inl own
      · exact .inr ⟨v,answer,.later answered asks,other⟩
  | name view next ih =>
    obtain ⟨later,rest,rfl⟩ := writeName.mp ok
    intro view mem
    rcases List.mem_cons.mp mem with rfl | inLater
    · exact .inl within.1
    · rcases ih within.2 rest view inLater with own | ⟨v,answer,asks,other⟩
      · exact .inl own
      · exact .inr ⟨v,answer,.name asks,other⟩
  | warn text next ih =>
    intro view mem
    rcases ih within ok view mem with own | ⟨v,answer,asks,other⟩
    · exact .inl own
    · exact .inr ⟨v,answer,.warn asks,other⟩

end Draft

namespace Compile
variable {α β : Type} {keeps : List (String × String) → Prop}

def Agrees (keeps : List (String × String) → Prop) (step : Compile α) (result : Except Error α) : Prop :=
  ∀ before, keeps before.expanded → (step.run before).1 = result ∧ keeps (step.run before).2.expanded

variable {result : Except Error α}

theorem agreesLift : (liftM result : Compile α).Agrees keeps result := by
  intro before kept
  cases result with
  | error e => exact ⟨rfl,kept⟩
  | ok a => exact ⟨rfl,kept⟩

theorem agreesFail {e : Error} : (fail e : Compile α).Agrees keeps (.error e) := fun _ kept => ⟨rfl,kept⟩

theorem agreesBind {step : Compile α} {next : α → Compile β} {later : α → Except Error β}
    (first : step.Agrees keeps result) (rest : ∀ a, result = .ok a → (next a).Agrees keeps (later a)) :
    (step >>= next).Agrees keeps (result >>= later) := by
  intro before kept
  obtain ⟨same,kept⟩ := first before kept
  rw [runBind]
  cases outcome : step.run before with
  | mk x middle =>
    rw [outcome] at same kept
    cases x with
    | error e =>
      cases same
      exact ⟨rfl,kept⟩
    | ok a => exact same ▸ rest a same.symm middle kept

theorem agreesThen {step : Compile α} {next : α → β} (first : step.Agrees keeps result) :
    (step >>= fun a => pure (next a)).Agrees keeps (result.map next) := by
  have same : result.map next = result >>= fun a => .ok (next a) := by cases result <;> rfl
  rw [same]
  exact agreesBind first fun _ _ _ kept => ⟨rfl,kept⟩

end Compile

namespace Draft
variable {α : Type} {answer : FieldUse → Except Error (String × List String)}

theorem textAsk {u : FieldUse} {next : String → Draft α} : ((ask u next).write answer).map Prod.fst =
    (answer u).map Prod.fst >>= fun sql => ((next sql).write answer).map Prod.fst := by
  rw [write]
  cases answer u with
  | error e => rfl
  | ok first =>
    show (((next first.1).write answer >>= fun later => .ok (later.1, first.2 ++ later.2)).map Prod.fst) =
      ((next first.1).write answer).map Prod.fst
    cases (next first.1).write answer with
    | error e => rfl
    | ok later => rfl

theorem textName {view : String} {next : Draft α} :
    ((name view next).write answer).map Prod.fst = (next.write answer).map Prod.fst := by
  rw [write]
  cases next.write answer with
  | error e => rfl
  | ok later => rfl

theorem runAgrees {keeps : List (String × String) → Prop} {sub : Expand} {d : Draft α}
    (all : ∀ v, Asks answer d v → (sub v).Agrees keeps ((answer v).map Prod.fst)) :
    (d.run sub).Agrees keeps ((d.write answer).map Prod.fst) := by
  induction d with
  | done result =>
    cases result with
    | error e => exact Compile.agreesLift
    | ok a => exact Compile.agreesLift
  | ask u next ih =>
    rw [textAsk]
    refine Compile.agreesBind (all u .here) fun sql text => ih sql fun v asks => all v ?_
    obtain ⟨first,answered,rfl⟩ := exceptMap.mp text
    exact .later answered asks
  | name view next ih =>
    rw [textName]
    exact ih fun v asks => all v (.name asks)
  | warn text next ih =>
    intro before kept
    exact ih (fun v asks => all v (.warn asks)) { before with warnings := addWarning before.warnings text } kept

end Draft

namespace Session
variable (s : Session)

def partDraft (view : View) (owner : String) : Reference.Part → Draft String
  | .text t => pure t
  | .name token =>
    if token = Reference.table then .name view.name (pure view.name)
    else do
      let u ← .done (s.reference view owner token)
      .ask u pure

def expandDraft (view : View) (owner template : String) : Draft String := do
  let rendered ← .done (s.render template)
  let parts ← .each (s.partDraft view owner) (Reference.parts rendered)
  return String.join parts

def durationDraft (u : FieldUse) : Draft String :=
  match u.grain, u.field.sqlStart, u.field.sqlEnd with
  | some (.duration interval), some start, some finish => do
    let start ← s.expandDraft u.view u.id start
    let finish ← s.expandDraft u.view u.id finish
    return s.context.dialect.elapsed start finish interval
  | some (.duration _), _, _ => .done (.error (.query (.durationEnds u.id)))
  | _, _, _ => .done (.error (.query (.durationInterval u.id u.field.name)))

def caseDraft (u : FieldUse) (table : CaseTable) : Draft String := do
  let branches ← .each (fun b => do
    let condition ← s.expandDraft u.view u.id b.sql
    return "WHEN " ++ condition ++ " THEN " ++ Sql.quote b.label) table.branches
  let otherwise := table.otherwise.toList.map fun label => "ELSE " ++ Sql.quote label
  return " ".intercalate ("CASE" :: branches ++ otherwise ++ ["END"])

def dimensionDraft (u : FieldUse) : Draft String :=
  match u.field.role, u.field.type with
  | .group, .duration => s.durationDraft u
  | .group, _ => do return s.timeSql u (← s.expandDraft u.view u.id u.template)
  | _, type =>
    if u.field.isWindowDimension then .name u.view.name (pure u.windowSql)
    else
      match u.field.cases with
      | some table => s.caseDraft u table
      | none => do
        let sql ← s.expandDraft u.view u.id u.template
        return if type = .tier then Tier.sql u.field.tiers sql else sql

def measuredDraft (u : FieldUse) : Draft String :=
  match u.field.type, u.field.sql with
  | .cumulative, _ => .done (.error (.query (.cumulativeAggregate u.id)))
  | .number, _ => .done (.error (.query (.numberColumn u.id)))
  | _, some sql => s.expandDraft u.view u.id sql
  | .count, none =>
    match u.view.primaryKey? with
    | some key => .ask { view := u.view, field := key, grain := none } pure
    | none =>
      if u.field.filters.isEmpty && u.field.nonAdditive.isNone then pure "*"
      else .done (.error (.query (.countWithoutKey u.id u.view.name)))
  | _, none => .done (.error (.query (.noSql u.id)))

def keptDraft : Option KeptValue → Draft (List String)
  | none => pure []
  | some k => do
    let first ← .ask k.dimension fun sql => pure (sql ++ "=" ++ k.table ++ "." ++ k.column)
    let others ← .each (fun g => .ask g fun sql => pure (sql ++ "=" ++ k.table ++ "." ++ g.groupingColumn)) k.groupings
    return first :: others

def filterDraft (u : FieldUse) (filter : FieldFilter) : Draft String := do
  let target ← .done (s.project.fieldFrom u.view filter.field)
  .ask target fun sql => .done (s.context.literalSql target sql filter.value)

def conditionsDraft (u : FieldUse) : Draft (List String) := do
  let value ← .done (s.keptValue u)
  let kept ← keptDraft value
  let filters ← .each (s.filterDraft u) u.field.filters
  return kept ++ filters

def measureDraft (u : FieldUse) : Draft String := do
  let base ← s.measuredDraft u
  match ← s.conditionsDraft u with
  | [] => return base
  | conditions => return "CASE WHEN " ++ " AND ".intercalate conditions ++ " THEN " ++ base ++ " END"

def rowDraft (u : FieldUse) : Draft String := if u.isMeasure then s.measureDraft u else s.dimensionDraft u

def keyDraft (u : FieldUse) : Draft (Option String) :=
  if s.context.dialect.hasSymmetricAggregates then
    match u.view.primaryKey? with
    | some key => .ask { view := u.view, field := key, grain := none } fun sql => pure (some sql)
    | none => .done (.error (.query (.primaryKeyMissing u.view.name)))
  else
    let cause := QueryError.symmetricInflated s.context.dialect u.id
    if s.context.strictAggregates then .done (.error (.query cause))
    else .warn cause.message (pure none)

def additiveDraft (symmetric : NameSet) (a : Additive) (u : FieldUse) : Draft String :=
  .ask u fun sql =>
    if symmetric.contains u.view.name then do
      match ← s.keyDraft u with
      | some key => .done (Symmetric.render s.context.dialect a.symmetric sql key)
      | none => return a.plain sql
    else pure (a.plain sql)

def distinctDraft (term : Symmetric.GroupTerm) (u : FieldUse) : Draft String :=
  match u.field.distinctKey with
  | none => .done (.error (.query (.distinctKeyMissing u.id u.field.type.name)))
  | some key => do
    let key ← s.expandDraft u.view u.id key
    .ask u fun sql => .done (Symmetric.render s.context.dialect term sql key)

def columnDraft (symmetric : NameSet) (u : FieldUse) : Draft String :=
  match u.field.type with
  | .sum => s.additiveDraft symmetric .sum u
  | .count => s.additiveDraft symmetric .count u
  | .average => s.additiveDraft symmetric .average u
  | .sumDistinct => s.distinctDraft Symmetric.sum u
  | .averageDistinct => s.distinctDraft Symmetric.average u
  | .countDistinct => .ask u fun sql => pure ("COUNT(DISTINCT(" ++ sql ++ "))")
  | .max => .ask u fun sql => pure ("MAX(" ++ sql ++ ")")
  | .min => .ask u fun sql => pure ("MIN(" ++ sql ++ ")")
  | .median =>
    if s.context.dialect.hasMedian then .ask u fun sql => pure ("MEDIAN(" ++ sql ++ ")")
    else .done (.error (.query (.medianUnsupported s.context.dialect u.id)))
  | .cumulative => .done (.error (.query (.cumulativeAggregate u.id)))
  | type => .done (.error (.query (.notAggregate u.id type.name)))

def bracketed (u : FieldUse) (sql : String) : String := if u.field.isFormula then "(" ++ sql ++ ")" else sql

variable {s} {sub : Expand} {u : FieldUse}

@[simp]
theorem expandDraftRun {view owner template} :
    (s.expandDraft view owner template).run sub = s.expandWith sub view owner template := by
  simp only [expandDraft,expandWith,Draft.runBind,Draft.runDone,Draft.runEach,Draft.runPure]
  congr 1
  funext rendered
  congr 2
  funext part
  cases part with
  | text t => rfl
  | name token =>
    simp only [partDraft]
    split
    · rfl
    · simp [Draft.run]

theorem durationDraftRun : (s.durationDraft u).run sub = s.durationSql sub u := by
  unfold durationDraft durationSql
  cases u.grain with
  | none => rfl
  | some grain =>
    cases grain with
    | time frame => rfl
    | duration interval =>
      cases u.field.sqlStart with
      | none => rfl
      | some start =>
        cases u.field.sqlEnd with
        | none => rfl
        | some finish => simp

theorem dimensionDraftRun : (s.dimensionDraft u).run sub = s.dimensionSql sub u := by
  cases role : u.field.role with
  | group =>
    by_cases duration : u.field.type = .duration
    · simp [dimensionDraft,dimensionSql,role,duration,durationDraftRun]
    · simp [dimensionDraft,dimensionSql,role]
  | _ =>
    simp only [dimensionDraft,dimensionSql,role]
    cases u.field.isWindowDimension with
    | true => rfl
    | false =>
      cases u.field.cases with
      | some table => simp [caseDraft,caseSql]
      | none => simp

theorem measuredDraftRun : (s.measuredDraft u).run sub = s.measuredSql sub u := by
  unfold measuredDraft measuredSql
  cases u.field.sql with
  | some sql => cases u.field.type <;> simp [Draft.liftFail]
  | none =>
    cases u.field.type with
    | count =>
      cases u.view.primaryKey? with
      | some key => simp [Draft.run]
      | none =>
        simp only
        split <;> rfl
    | _ => rfl

theorem filterDraftRun {filter} : (s.filterDraft u filter).run sub = (do
    let target ← (s.project.fieldFrom u.view filter.field : Compile _)
    let sql ← sub target
    s.context.literalSql target sql filter.value) := by
  simp [filterDraft,Draft.run]

theorem conditionsDraftRun : (s.conditionsDraft u).run sub = s.measureConditions sub u := by
  simp only [conditionsDraft,measureConditions,Draft.runBind,Draft.runDone]
  congr 1
  funext kept
  cases kept with
  | none => simp [keptDraft,filterDraftRun]
  | some k => simp [keptDraft,keptConditions,Draft.run,filterDraftRun]

theorem measureDraftRun : (s.measureDraft u).run sub = s.measureSql sub u := by
  simp only [measureDraft,measureSql,Draft.runBind,measuredDraftRun,conditionsDraftRun]
  congr 1
  funext base
  congr 1
  funext conditions
  cases conditions with
  | nil => rfl
  | cons => rfl

theorem rowDraftRun : (s.rowDraft u).run sub = if u.isMeasure then s.measureSql sub u else s.dimensionSql sub u := by
  unfold rowDraft
  split
  · exact measureDraftRun
  · exact dimensionDraftRun

theorem rowStep {sub : Expand} {key} : (if u.isMeasure then do
      let sql ← s.measureSql sub u
      Compile.remember key sql
      pure sql
    else do
      let sql ← s.dimensionSql sub u
      Compile.remember key sql
      pure sql) = (do
    let sql ← (s.rowDraft u).run sub
    Compile.remember key sql
    pure sql) := by
  rw [rowDraftRun]
  split <;> rfl

theorem knownRun {before : Progress} {key found} (there : Dict.get? before.expanded key = found) :
    (Compile.known? key).run before = (.ok found, before) := by
  rw [← there]
  rfl

theorem keyDraftRun : (s.keyDraft u).run sub = s.symmetricKey sub u := by
  unfold keyDraft symmetricKey
  split
  · cases u.view.primaryKey? with
    | some key => simp [Draft.run]
    | none => rfl
  · simp only
    split
    · rfl
    · rfl

theorem additiveDraftRun {symmetric a} : (s.additiveDraft symmetric a u).run sub = s.additiveSql symmetric sub a u := by
  simp only [additiveDraft,additiveSql,Draft.run]
  congr 1
  funext sql
  split
  · simp only [Draft.runBind,keyDraftRun]
    congr 1
    funext key
    cases key with
    | some key => rfl
    | none => rfl
  · rfl

theorem distinctDraftRun {term} : (s.distinctDraft term u).run sub = s.distinctSql sub term u := by
  unfold distinctDraft distinctSql
  cases u.field.distinctKey with
  | none => rfl
  | some key => simp [Draft.run]

theorem columnDraftRun {symmetric} : (s.columnDraft symmetric u).run sub = s.columnAggregate symmetric sub u := by
  unfold columnDraft columnAggregate
  cases u.field.type with
  | sum => exact additiveDraftRun
  | count => exact additiveDraftRun
  | average => exact additiveDraftRun
  | sumDistinct => exact distinctDraftRun
  | averageDistinct => exact distinctDraftRun
  | median =>
    simp only
    split <;> rfl
  | _ => rfl

end Session
end SemanticSql
