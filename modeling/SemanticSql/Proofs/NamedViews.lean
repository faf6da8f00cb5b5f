import SemanticSql.Proofs.RememberedSql

/-! Views that SQL names. The views that a field requires are found by following its listed references, and its SQL is
put together by asking for fields one after another. -/
namespace SemanticSql.Session

open Relation
open Draft (Asks withinAsks withinNames)

variable {s : Session} {root u v : FieldUse} {stack inner : List String} {n m : Nat} {r : String × List String}
  {symmetric views required : NameSet}

theorem unionHolds {sub : FieldUse → Except Error NameSet} {start all : NameSet} {uses : List FieldUse}
    (ok : unionOfViews sub start uses = .ok all) :
    (∀ view ∈ start, view ∈ all) ∧ ∀ u ∈ uses, ∃ views, sub u = .ok views ∧ ∀ view ∈ views, view ∈ all := by
  induction uses generalizing start with
  | nil =>
    cases ok
    exact ⟨fun _ mem => mem,List.forall_mem_nil _⟩
  | cons u rest ih =>
    rw [unionOfViews,List.foldlM_cons] at ok
    obtain ⟨next,added,later⟩ := exceptBind.mp ok
    obtain ⟨views,found,same⟩ := exceptBind.mp added
    cases same
    obtain ⟨kept,others⟩ := ih later
    refine ⟨fun view mem => kept view (NameSet.mem_union.mpr (.inl mem)),List.forall_mem_cons.mpr ⟨?_,others⟩⟩
    exact ⟨views,found,fun view mem => kept view (NameSet.mem_union.mpr (.inr mem))⟩

structure Requires (s : Session) (u : FieldUse) (views : NameSet) : Prop where
  own : u.view.name ∈ views
  references : u.field.isWindowDimension = false → ∃ references, s.referencedFields u = .ok references ∧
    ∀ v ∈ references, v.sameField u = false →
      ∃ n stack others, s.requiredViewsFrom n stack v = .ok others ∧ ∀ view ∈ others, view ∈ views

theorem requiredFound (ok : s.requiredViewsFrom n stack u = .ok views) : s.Requires u views := by
  cases n with
  | zero => cases ok
  | succ n =>
    rw [requiredViewsFrom] at ok
    split at ok
    · rename_i window
      cases ok
      exact ⟨List.mem_singleton_self _,fun plain => by simp [window] at plain⟩
    · split at ok
      · cases ok
      · obtain ⟨references,found,rest⟩ := exceptBind.mp ok
        obtain ⟨own,others⟩ := unionHolds rest
        refine ⟨own _ (List.mem_singleton_self _),fun _ => ⟨references,found,fun v mem other => ?_⟩⟩
        obtain ⟨more,made,inside⟩ := others v (List.mem_filter.mpr ⟨mem,by simp [other]⟩)
        exact ⟨n,u.id :: stack,more,made,inside⟩

theorem windowAsksNothing {answer} (window : u.field.isWindowDimension) : ¬ Asks answer (s.rowDraft u) v := by
  intro asks
  obtain ⟨role,_⟩ := Bool.and_eq_true_iff.mp window
  have dimension : u.field.role = .dimension := eq_of_beq role
  have draft : s.rowDraft u = .name u.view.name (pure u.windowSql) := by
    simp [rowDraft,FieldUse.isMeasure,Field.isMeasure,dimension,dimensionDraft,window]
  rw [draft] at asks
  cases asks with
  | name rest => exact absurd rest Draft.asksDone

theorem sameFieldId (same : v.sameField u) : v.id = u.id := by
  obtain ⟨view,field⟩ := Bool.and_eq_true_iff.mp same
  rw [FieldUse.id,FieldUse.id,eq_of_beq view,eq_of_beq field]

def LeavesOutNothing (s : Session) (symmetric : NameSet) (root : FieldUse) (required : NameSet) : Prop :=
  ∀ v w, ReflTransGen s.Follows root v → s.LeftOut symmetric v w →
    ∃ views, s.requiredViews w = .ok views ∧ ∀ view ∈ views, view ∈ required

def RequiresWithin (s : Session) (required : NameSet) (u : FieldUse) : Prop :=
  ∃ n stack views, s.requiredViewsFrom n stack u = .ok views ∧ ∀ view ∈ views, view ∈ required

theorem ownRequired (needs : s.RequiresWithin required u) : u.view.name ∈ required := by
  obtain ⟨_,_,_,found,inside⟩ := needs
  exact inside _ (requiredFound found).own

theorem listedRequired (needs : s.RequiresWithin required u) (plain : u.field.isWindowDimension = false)
    (listed : ∀ references, s.referencedFields u = .ok references → v ∈ references) (other : v.sameField u = false) :
    s.RequiresWithin required v := by
  obtain ⟨_,_,_,needs,inside⟩ := needs
  obtain ⟨references,found,others⟩ := (requiredFound needs).references plain
  obtain ⟨n,stack,more,made,within⟩ := others v (listed references found) other
  exact ⟨n,stack,more,made,fun view mem => inside view (within view mem)⟩

theorem drawnRequired (whole : s.LeavesOutNothing symmetric root required) (leads : ReflTransGen s.Follows root u)
    (needs : s.RequiresWithin required u) (plain : u.field.isWindowDimension = false) (draws : s.DrawsOn symmetric u v)
    (other : v.sameField u = false) : s.RequiresWithin required v := by
  rcases draws.source with listed | left
  · exact listedRequired needs plain listed other
  · exact ⟨s.fuel,[],whole u v leads left⟩

theorem groupAgain (again : u.id ∈ stack) (number : u.field.type = .number) :
    s.writtenGroupFrom symmetric n stack u ≠ .ok r := by
  cases n with
  | zero => simp [writtenGroupFrom]
  | succ n =>
    rw [writtenGroupFrom,if_pos number]
    split
    · simp
    · simp [again]

theorem measurePlain (measure : u.isMeasure) : u.field.isWindowDimension = false := by
  have role : u.field.role = .measure := eq_of_beq measure
  simp [Field.isWindowDimension,role]

/- A measure has no grain, so that it is told by its view and its field. -/
theorem measureSame (apart : s.project.KeysApart) (first : s.project.Offers v) (second : s.project.Offers u)
    (measure : u.isMeasure) (same : v.sameField u) : v = u := by
  have role : u.field.role ≠ .group := by
    rw [eq_of_beq measure]
    decide
  obtain ⟨view,field⟩ := apart.ids v u first.1 second.1 (sameFieldId same)
  have grain : v.grain = u.grain :=
    (Project.offeredPlain first (field ▸ role)).trans (Project.offeredPlain second role).symm
  obtain ⟨_,_,_⟩ := u
  obtain ⟨_,_,_⟩ := v
  cases view
  cases field
  cases grain
  rfl

variable (s) in
def mentioned (symmetric : NameSet) (n : Nat) (stack : List String) (v : FieldUse) : Except Error (String × List String) :=
  if v.isMeasure then (s.writtenGroupFrom symmetric n stack v).map fun group => (bracketed v group.1, group.2)
  else s.writtenFrom s.fuel stack v

theorem formulaWritten (number : u.field.type = .number) (ok : s.writtenGroupFrom symmetric (n + 1) inner u = .ok r) :
    ∃ sql ∈ u.field.templates,
      (s.expandDraft u.view u.id sql).write (s.mentioned symmetric n (u.id :: inner)) = .ok r := by
  rw [writtenGroupFrom,if_pos number] at ok
  cases written : u.field.sql with
  | none =>
    rw [written] at ok
    cases ok
  | some sql =>
    simp only [written] at ok
    by_cases again : inner.contains u.id
    · rw [if_pos again] at ok
      cases ok
    · rw [if_neg again] at ok
      exact ⟨sql,by simp [Field.templates,written],ok⟩

section Names

variable (apart : s.project.KeysApart) (whole : s.LeavesOutNothing symmetric root required)
include apart whole

theorem rowNames (leads : ReflTransGen s.Follows root u) (offered : s.project.Offers u) (ok : s.written n u = .ok r)
    (needs : s.RequiresWithin required u) : ∀ view ∈ r.2, view ∈ required := by
  induction n generalizing u r with
  | zero => cases ok
  | succ n ih =>
    intro view mem
    rcases withinNames (@rowWithin s u symmetric) ok view mem with rfl | ⟨v,answer,asks,answered,named⟩
    · exact ownRequired needs
    · have draws := withinAsks (@rowWithin s u symmetric) asks
      have known := followsOffered offered.1 draws.follows
      have plain : u.field.isWindowDimension = false := Bool.eq_false_iff.mpr fun window => windowAsksNothing window asks
      cases same : v.sameField u with
      | true =>
        -- The field would have to be written before itself.
        obtain ⟨sameView,sameField⟩ := apart.ids v u known.1 offered.1 (sameFieldId same)
        have above := aboveAsked (fun w r ok => ⟨n,ok⟩) offered asks
        exact absurd answered (aboveItself above known sameView sameField)
      | false =>
        have drawn := drawnRequired whole leads needs plain draws same
        exact ih (leads.tail draws.follows) known answered drawn view named

theorem columnNames (leads : ReflTransGen s.Follows root u) (offered : s.project.Offers u) (measure : u.isMeasure)
    (ok : (s.columnDraft symmetric u).write (s.writtenFrom n inner) = .ok r) (needs : s.RequiresWithin required u) :
    ∀ view ∈ r.2, view ∈ required := by
  have itself {answer} (answered : s.writtenFrom n inner u = .ok answer) : ∀ view ∈ answer.2, view ∈ required :=
    rowNames apart whole leads offered (writtenAlone answered) needs
  intro view mem
  rcases withinNames (columnWithin measure) ok view mem with rfl | ⟨v,answer,asks,answered,named⟩
  · exact ownRequired needs
  · rcases withinAsks (columnWithin measure) asks with rfl | draws
    · exact itself answered view named
    · have known := followsOffered offered.1 draws.follows
      cases same : v.sameField u with
      | true =>
        cases measureSame apart known offered measure same
        exact itself answered view named
      | false =>
        have drawn := drawnRequired whole leads needs (measurePlain measure) draws same
        exact rowNames apart whole (leads.tail draws.follows) known (writtenAlone answered) drawn view named

theorem groupNames (leads : ReflTransGen s.Follows root u) (offered : s.project.Offers u) (measure : u.isMeasure)
    (ok : s.writtenGroupFrom symmetric n inner u = .ok r) (needs : s.RequiresWithin required u) :
    ∀ view ∈ r.2, view ∈ required := by
  induction n generalizing u inner r with
  | zero => cases ok
  | succ n ih =>
    by_cases number : u.field.type = .number
    · obtain ⟨sql,template,written⟩ := formulaWritten number ok
      intro view mem
      rcases withinNames (expandWithin fun v => id) written view mem with rfl | ⟨v,answer,asks,answered,named⟩
      · exact ownRequired needs
      · have mentions := withinAsks (expandWithin fun v => id) asks
        have follows : s.Follows u v := .template template mentions
        have known := followsOffered offered.1 follows
        cases same : v.sameField u with
        | true =>
          obtain ⟨_,field⟩ := apart.ids v u known.1 offered.1 (sameFieldId same)
          have nested : v.isMeasure := by rwa [FieldUse.isMeasure,field]
          rw [mentioned,if_pos nested] at answered
          obtain ⟨_,group,_⟩ := exceptMap.mp answered
          exact absurd group (groupAgain (by simp [sameFieldId same]) (field ▸ number))
        | false =>
          have listed := listedRequired needs (measurePlain measure)
            (fun references found => (referencesListed found).template sql template v mentions) same
          by_cases nested : v.isMeasure
          · rw [mentioned,if_pos nested] at answered
            obtain ⟨_,group,rfl⟩ := exceptMap.mp answered
            exact ih (leads.tail follows) known nested group listed view named
          · rw [mentioned,if_neg nested] at answered
            exact rowNames apart whole (leads.tail follows) known (writtenAlone answered) listed view named
    · rw [writtenGroupFrom,if_neg number] at ok
      exact columnNames apart whole leads offered measure ok needs

end Names

variable (s) in
def after (calls : List Call) : Progress := calls.foldl (fun before c => ((s.call c).run before).2) {}

theorem remembersAfter {calls : List Call} (apart : s.project.KeysApart) (offered : ∀ c ∈ calls, s.project.Offers c.use) :
    s.Remembers (s.after calls).expanded := by
  have each {before : Progress} (remembers : s.Remembers before.expanded) :
      s.Remembers (calls.foldl (fun before c => ((s.call c).run before).2) before).expanded := by
    induction calls generalizing before with
    | nil => exact remembers
    | cons c rest ih =>
      obtain ⟨first,later⟩ := List.forall_mem_cons.mp offered
      exact ih later (callAgrees apart first before remembers).2
  exact each remembersNothing

theorem writtenNames {c : Call} (apart : s.project.KeysApart) (offered : s.project.Offers c.use)
    (needs : s.requiredViews c.use = .ok required) (whole : s.LeavesOutNothing c.symmetric c.use required)
    (ok : s.writtenCall c = .ok r) : ∀ view ∈ r.2, view ∈ required := by
  have rows {u} (use : c.use = u) (ok : s.writtenFrom s.fuel [] u = .ok r) : ∀ view ∈ r.2, view ∈ required := by
    cases use
    exact rowNames apart whole .refl offered (writtenAlone ok) ⟨_,_,_,needs,fun _ => id⟩
  cases c with
  | row u => exact rows rfl ok
  | grouped symmetric u =>
    rw [writtenCall] at ok
    split at ok
    · rename_i measure
      exact groupNames apart whole .refl offered measure ok ⟨_,_,_,needs,fun _ => id⟩
    · exact rows rfl ok

/- Whatever was expanded before, the SQL of a field only names views that the field requires. -/
theorem namedViewsRequired {calls : List Call} {c : Call} {sql} (apart : s.project.KeysApart)
    (earlier : ∀ c ∈ calls, s.project.Offers c.use) (offered : s.project.Offers c.use)
    (needs : s.requiredViews c.use = .ok required) (whole : s.LeavesOutNothing c.symmetric c.use required)
    (ok : ((s.call c).run (s.after calls)).1 = .ok sql) :
    ∃ named, s.writtenCall c = .ok (sql, named) ∧ ∀ view ∈ named, view ∈ required := by
  have text := (callAgrees apart offered (s.after calls) (remembersAfter apart earlier)).1
  rw [ok] at text
  obtain ⟨r,written,rfl⟩ := exceptMap.mp text.symm
  exact ⟨r.2,written,writtenNames apart offered needs whole written⟩

def customerView : View := {
  name := "customers", tableName := some "db.customers"
  fields := [
    .dimension "id" "$\x7bTABLE\x7d.id",
    { name := "heads", role := .measure, type := .countDistinct, sql := some "$\x7bid\x7d" }] }

def purchaseView (key : String) : View := {
  name := "orders", tableName := some "db.orders"
  fields := [
    { name := "id", sql := some key, primaryKey := true },
    { name := "number", role := .measure, type := .count },
    { name := "per_head", role := .measure, type := .number, sql := some "$\x7bnumber\x7d / $\x7bcustomers.heads\x7d" }] }

def purchaseSession (key : String) : Session := {
  project := .ofDefinitions { views := [purchaseView key,customerView] }
  context := { dialect := .snowflake, now := ⟨⟨2024,1,1⟩,0,0,0,0⟩ } }

def purchaseUse (key : String) (i : Fin 3) : FieldUse := ⟨purchaseView key,(purchaseView key).fields.get i,none⟩

def ownKey : String := "$\x7bTABLE\x7d.id"

theorem purchaseDefined {key i} : (purchaseSession key).project.Defines (purchaseUse key i) :=
  ⟨List.mem_cons_self,List.get_mem (purchaseView key).fields i⟩

theorem purchaseOffered {i : Fin 3} (name : String) (read : ((purchaseView ownKey).fields.get i).grainOf? name = some none) :
    (purchaseSession ownKey).project.Offers (purchaseUse ownKey i) :=
  ⟨purchaseDefined,.inl ⟨name,read⟩⟩

theorem purchaseWhole :
    (purchaseSession ownKey).LeavesOutNothing ["orders"] (purchaseUse ownKey 2) ["customers","orders"] := by
  intro v w leads left
  have known := leadsDefined purchaseDefined leads
  have views : v.view = purchaseView ownKey ∨ v.view = customerView := by
    simpa [purchaseSession,Project.ofDefinitions] using known.1
  have keyed {key} (found : v.view.primaryKey? = some key) : (⟨v.view,key,none⟩ : FieldUse) = purchaseUse ownKey 0 := by
    rcases views with same | same
    · rw [same] at found ⊢
      cases found
      rfl
    · rw [same] at found
      cases found
  have counts : (purchaseSession ownKey).requiredViews (purchaseUse ownKey 0) = .ok ["orders"] :=
    exceptSome.mp (by decide +kernel)
  cases left with
  | counted _ _ _ found => exact ⟨_,keyed found ▸ counts,by decide⟩
  | repeated _ _ _ _ found => exact ⟨_,keyed found ▸ counts,by decide⟩
  | column dimension plain _ =>
    have written : ∀ view ∈ [purchaseView ownKey,customerView], ∀ f ∈ view.fields, f.isMeasure = false → f.sql ≠ none := by
      decide +kernel
    exact absurd plain (written v.view (by simpa using views) v.field known.2 dimension)

def perHeadCall : Call := .grouped ["orders"] (purchaseUse ownKey 2)

theorem perHeadNamesRequired : ∃ sql named, (purchaseSession ownKey).project.KeysApart ∧
    (purchaseSession ownKey).requiredViews perHeadCall.use = .ok ["customers","orders"] ∧
    (((purchaseSession ownKey).call perHeadCall).run
      ((purchaseSession ownKey).after [.row (purchaseUse ownKey 0)])).1 = .ok sql ∧
    (purchaseSession ownKey).writtenCall perHeadCall = .ok (sql, named) ∧
    ∀ view ∈ named, view ∈ ["customers","orders"] := by
  have apart : (purchaseSession ownKey).project.KeysApart := Project.keysApart (by decide +kernel) (by decide +kernel)
  have earlier : ∀ c ∈ [Call.row (purchaseUse ownKey 0)], (purchaseSession ownKey).project.Offers c.use :=
    List.forall_mem_cons.mpr ⟨purchaseOffered "id" (by decide +kernel),List.forall_mem_nil _⟩
  have offered : (purchaseSession ownKey).project.Offers perHeadCall.use :=
    @purchaseOffered 2 "per_head" (by decide +kernel)
  have needs : (purchaseSession ownKey).requiredViews perHeadCall.use = .ok ["customers","orders"] :=
    exceptSome.mp (by decide +kernel)
  have runs : ((((purchaseSession ownKey).call perHeadCall).run
      ((purchaseSession ownKey).after [.row (purchaseUse ownKey 0)])).1).toOption.isSome := by decide +kernel
  obtain ⟨sql,ok⟩ := Option.isSome_iff_exists.mp runs
  have ok := exceptSome.mp ok
  obtain ⟨named,written,inside⟩ := namedViewsRequired apart earlier offered needs purchaseWhole ok
  exact ⟨sql,named,apart,needs,ok,written,inside⟩

def lentKey : String := "$\x7bcustomers.id\x7d"

/- A count without SQL counts the primary key of its view, but the views that the key needs are not required. -/
theorem countedKeyLeftOut :
    (purchaseSession lentKey).project.validate = .ok () ∧ (purchaseSession lentKey).project.KeysApart ∧
      (purchaseSession lentKey).requiredViews (purchaseUse lentKey 1) = .ok ["orders"] ∧
      (((purchaseSession lentKey).groupedSql [] (purchaseUse lentKey 1)).run {}).1 = .ok "COUNT(customers.id)" ∧
      (purchaseSession lentKey).writtenCall (.grouped [] (purchaseUse lentKey 1)) =
        .ok ("COUNT(customers.id)", ["customers"]) :=
  ⟨exceptSome.mp (by decide +kernel),Project.keysApart (by decide +kernel) (by decide +kernel),
    exceptSome.mp (by decide +kernel),exceptSome.mp (by decide +kernel),exceptSome.mp (by decide +kernel)⟩

end SemanticSql.Session
