import Mathlib.Data.List.TakeWhile
import SemanticSql.Proofs.NameResolution
import SemanticSql.Proofs.UncheckedCircles

/-! Qualified names. A field that is found goes by the name of its view and of its column. -/
namespace SemanticSql

open Option (bind_eq_some_iff map_eq_some_iff)
open List Text

namespace Text

variable {cs before : List Char}

theorem lowerSmall : ∀ c ∈ lowerFrom before cs, isSmall c := by
  induction cs generalizing before with
  | nil => exact forall_mem_nil _
  | cons c rest ih =>
    rw [lowerFrom]
    split
    · refine forall_mem_cons.mpr ⟨?_,ih⟩
      split <;> decide +kernel
    · intro d mem
      rcases mem_append.mp mem with first | later
      · exact (isSmall_of_mem_lowerChar first).1
      · exact ih d later

theorem smallLower (small : ∀ c ∈ cs, isSmall c) : lowerFrom before cs = cs := by
  induction cs generalizing before with
  | nil => rfl
  | cons c rest ih =>
    obtain ⟨first,later⟩ := forall_mem_cons.mp small
    simp only [isSmall,Bool.and_eq_true,beq_iff_eq,bne_iff_ne] at first
    rw [lowerFrom,if_neg first.2,first.1,ih later,singleton_append]

structure Bordered (cs : List Char) : Prop where
  starts : ∀ c ∈ cs.head?, isBlank c = false
  ends : ∀ c ∈ cs.getLast?, isBlank c = false

theorem dropsNothing (starts : ∀ c ∈ cs.head?, isBlank c = false) : trimLeft cs = cs := by
  cases cs with
  | nil => rfl
  | cons c rest =>
    have first : isBlank c = false := starts c rfl
    simp [trimLeft,first]

theorem trimStarts (cs : List Char) : ∀ c ∈ (trimLeft cs).head?, isBlank c = false := by
  obtain ⟨blanks,rest,rfl,blank,stops⟩ := exists_span isBlank cs
  rwa [trimLeft,(span_append blank stops).2]

theorem borderedTrim (bordered : Bordered cs) : trimList cs = cs := by
  have back : trimLeft cs.reverse = cs.reverse := dropsNothing (by simpa using bordered.ends)
  rw [trimList,dropsNothing bordered.starts,trimRight,back,reverse_reverse]

theorem trimBordered (cs : List Char) : Bordered (trimList cs) := by
  refine ⟨fun c mem => ?_,fun c mem => ?_⟩
  · have kept : (trimRight (trimLeft cs)) <+: trimLeft cs := by
      have tail := dropWhile_suffix (l := (trimLeft cs).reverse) isBlank
      simpa [trimRight,trimLeft] using reverse_prefix.mpr tail
    obtain ⟨rest,same⟩ := kept
    refine trimStarts cs c ?_
    rw [← same,head?_append]
    exact Option.mem_def.mpr (Option.or_eq_some_iff.mpr (.inl mem))
  · have ends := trimStarts (trimLeft cs).reverse
    simp only [trimList,trimRight,getLast?_reverse] at mem
    exact ends c mem

theorem lowerCharSome (c : Char) : lowerChar c ≠ [] := by
  unfold lowerChar
  split
  · exact cons_ne_nil _ _
  · split <;> exact cons_ne_nil _ _

theorem lowerCharPlain {c : Char} (plain : isBlank c = false) : ∀ d ∈ lowerChar c, isBlank d = false := by
  refine fun d mem => Bool.eq_false_iff.mpr fun blank => ?_
  rw [(isSmall_of_mem_lowerChar mem).2 blank,plain] at blank
  contradiction

theorem lowerCons (before : List Char) (c : Char) (rest : List Char) : ∃ first, first ≠ [] ∧
    (isBlank c = false → ∀ d ∈ first, isBlank d = false) ∧
    lowerFrom before (c :: rest) = first ++ lowerFrom (c :: before) rest := by
  rw [lowerFrom]
  split
  · refine ⟨[_],cons_ne_nil _ _,fun _ => forall_mem_singleton.mpr ?_,rfl⟩
    split <;> decide
  · exact ⟨lowerChar c,lowerCharSome c,lowerCharPlain,rfl⟩

theorem lowerStarts (starts : ∀ c ∈ cs.head?, isBlank c = false) :
    ∀ d ∈ (lowerFrom before cs).head?, isBlank d = false := by
  cases cs with
  | nil => simp [lowerFrom]
  | cons c rest =>
    obtain ⟨first,some,plain,same⟩ := lowerCons before c rest
    rw [same,head?_append_of_ne_nil _ some]
    exact fun d mem => plain (starts c rfl) d (mem_of_head? mem)

theorem lowerEnds (ends : ∀ c ∈ cs.getLast?, isBlank c = false) :
    ∀ d ∈ (lowerFrom before cs).getLast?, isBlank d = false := by
  induction cs generalizing before with
  | nil => simp [lowerFrom]
  | cons c rest ih =>
    obtain ⟨first,some,plain,same⟩ := lowerCons before c rest
    cases rest with
    | nil =>
      rw [same,lowerFrom,append_nil]
      exact fun d mem => plain (ends c rfl) d (mem_of_getLast? mem)
    | cons next more =>
      obtain ⟨second,also,_,later⟩ := lowerCons (c :: before) next more
      have rest : lowerFrom (c :: before) (next :: more) ≠ [] := by simp [later,also]
      rw [same,getLast?_append_of_ne_nil _ rest]
      exact ih (by simpa using ends)

theorem cutFirst {separator : Char} {name rest : String} (plain : separator ∉ name.toList) :
    cut? separator (name ++ String.singleton separator ++ rest) = some (name, rest) := by
  have list (cs : List Char) (plain : separator ∉ cs) (rest : List Char) :
      cutList? separator (cs ++ separator :: rest) = some (cs, rest) := by
    induction cs with
    | nil => simp [cutList?]
    | cons c more ih =>
      obtain ⟨here,later⟩ := not_or.mp (mt mem_cons.mpr plain)
      rw [cons_append,cutList?,if_neg (Ne.symm here),ih later,Option.map_some]
  simp [cut?,list _ plain]

end Text

theorem plainSmall (name : String) : ∀ c ∈ (plainName name).toList, isSmall c := by
  simpa [plainName,lower,lowerList] using lowerSmall

theorem plainBordered (name : String) : Text.Bordered (plainName name).toList := by
  have trimmed := trimBordered name.toList
  simp only [plainName,lower,lowerList,trim,String.toList_ofList]
  exact ⟨lowerStarts trimmed.starts,lowerEnds trimmed.ends⟩

variable {name : String}

theorem plainSame (small : ∀ c ∈ name.toList, isSmall c) (bordered : Text.Bordered name.toList) :
    plainName name = name := by
  simp [plainName,lower,lowerList,trim,borderedTrim bordered,smallLower small]

def Nameable (name : String) : Prop := '.' ∉ name.toList ∧ plainName (name ++ ".") = name ++ "."

instance (name : String) : Decidable (Nameable name) := inferInstanceAs (Decidable (_ ∧ _))

structure LeadingName (name : String) : Prop where
  whole : '.' ∉ name.toList
  small : ∀ c ∈ name.toList, Text.isSmall c
  starts : ∀ c ∈ name.toList.head?, Text.isBlank c = false

theorem startsDotted {rest : List Char} (starts : ∀ c ∈ name.toList.head?, isBlank c = false) :
    ∀ c ∈ (name.toList ++ '.' :: rest).head?, isBlank c = false := by
  cases chars : name.toList with
  | nil => simp [isBlank]
  | cons first more => simpa [chars] using starts

theorem nameableLeads : Nameable name ↔ LeadingName name := by
  constructor
  · rintro ⟨whole,same⟩
    have small := plainSmall (name ++ ".")
    have bordered := plainBordered (name ++ ".")
    rw [same,String.toList_append] at small bordered
    refine ⟨whole,fun c mem => small c (mem_append_left _ mem),fun c mem => bordered.starts c ?_⟩
    rw [head?_append]
    exact Option.mem_def.mpr (Option.or_eq_some_iff.mpr (.inl mem))
  · intro leads
    refine ⟨leads.whole,plainSame ?_ ?_⟩
    · rw [String.toList_append,forall_mem_append]
      exact ⟨leads.small,forall_mem_singleton.mpr dotSmall⟩
    · rw [String.toList_append]
      exact ⟨startsDotted leads.starts,by simp [isBlank]⟩

structure TrailingName (name : String) : Prop where
  small : ∀ c ∈ name.toList, Text.isSmall c
  ends : ∀ c ∈ name.toList.getLast?, Text.isBlank c = false

theorem qualifiedPlain {view column : String} (leads : LeadingName view) (trails : TrailingName column) :
    plainName (view ++ "." ++ column) = view ++ "." ++ column := by
  have chars : (view ++ "." ++ column).toList = view.toList ++ '.' :: column.toList := by simp
  refine plainSame ?_ ⟨?_,?_⟩
  · rw [chars,forall_mem_append,forall_mem_cons]
    exact ⟨leads.small,dotSmall,trails.small⟩
  · rw [chars]
    exact startsDotted leads.starts
  · rw [chars]
    cases more : column.toList with
    | nil => simp [isBlank]
    | cons c rest => simpa [more] using trails.ends

theorem dropTailSome {tail cs rest : List Char} (found : dropTail? tail cs = some rest) : cs = rest ++ tail := by
  obtain ⟨front,lead,rfl⟩ := map_eq_some_iff.mp found
  have same := congrArg List.reverse (dropLead?_eq_some.mp lead)
  simpa using same

theorem TimeFrame.named {text frame} (found : TimeFrame.ofName? text = some frame) : frame.name = text := by
  simpa using find?_some found

theorem Interval.named {text interval} (found : Interval.ofName? text = some interval) : interval.name = text := by
  simpa using find?_some found

theorem Interval.pluralNamed {text interval} (found : Interval.ofPlural? text = some interval) :
    text = interval.name ∨ text = interval.name ++ "s" := by
  unfold ofPlural? at found
  split at found
  · rename_i rest back
    right
    apply String.toList_inj.mp
    have chars := congrArg List.reverse back
    simpa [named found] using chars
  · exact .inl (named found).symm

namespace Field
variable {f : Field}

inductive Answers (f : Field) : String → Option Grain → Prop
  | column {grain} : Answers f (f.aliasAt grain) grain
  | bare (times : f.role = .group ∧ f.type = .time) : Answers f f.name (some (.time .raw))
  | singular (interval : Interval) (durations : f.role = .group ∧ f.type = .duration)
      (offered : f.intervals.isEmpty || f.intervals.contains interval) :
      Answers f (interval.name ++ "_" ++ f.name) (some (.duration interval))

def grains (f : Field) : List (Option Grain) :=
  match f.role, f.type with
  | .group, .time =>
    (TimeFrame.all.filter fun frame => f.timeframes.isEmpty || frame == .raw || f.timeframes.contains frame).map
      fun frame => some (.time frame)
  | .group, .duration =>
    (Interval.all.filter fun interval => f.intervals.isEmpty || f.intervals.contains interval).map
      fun interval => some (.duration interval)
  | _, _ => [none]

theorem timesAnswer {name grain} (group : f.role = .group) (time : f.type = .time) (found : f.grainOf? name = some grain) :
    f.Answers name grain ∧ grain ∈ f.grains := by
  simp only [grainOf?,grains,group,time,mem_map,mem_filter] at found ⊢
  by_cases bare : name = f.name
  · rw [if_pos bare] at found
    cases found
    exact ⟨bare ▸ .bare ⟨group,time⟩,.raw,⟨by decide,by simp⟩,rfl⟩
  · rw [if_neg bare] at found
    obtain ⟨rest,lead,found⟩ := bind_eq_some_iff.mp found
    obtain ⟨frame,named,found⟩ := bind_eq_some_iff.mp found
    split at found
    · rename_i offered
      cases found
      have same : name = f.aliasAt (some (.time frame)) := by
        rw [aliasAt,TimeFrame.named named]
        apply String.toList_inj.mp
        simpa using dropLead?_eq_some.mp lead
      exact ⟨same ▸ .column,frame,⟨mem_of_find?_eq_some named,offered⟩,rfl⟩
    · cases found

theorem durationsAnswer {name grain} (group : f.role = .group) (duration : f.type = .duration)
    (found : f.grainOf? name = some grain) : f.Answers name grain ∧ grain ∈ f.grains := by
  simp only [grainOf?,grains,group,duration,mem_map,mem_filter] at found ⊢
  obtain ⟨rest,tail,found⟩ := bind_eq_some_iff.mp found
  obtain ⟨interval,named,found⟩ := bind_eq_some_iff.mp found
  split at found
  · rename_i offered
    cases found
    refine ⟨?_,interval,⟨by cases interval <;> decide,offered⟩,rfl⟩
    have chars := dropTailSome tail
    rcases Interval.pluralNamed named with one | many
    · have same : name = interval.name ++ "_" ++ f.name := by
        apply String.toList_inj.mp
        simpa [← one] using chars
      exact same ▸ .singular interval ⟨group,duration⟩ offered
    · have same : name = f.aliasAt (some (.duration interval)) := by
        apply String.toList_inj.mp
        have letters := congrArg String.toList many
        simp only [String.toList_ofList,String.toList_append] at letters
        simp [aliasAt,chars,letters]
      exact same ▸ .column
  · cases found

theorem answers {name grain} (found : f.grainOf? name = some grain) : f.Answers name grain ∧ grain ∈ f.grains := by
  have plain (own : f.grainOf? name = if name = f.name then some none else none) (only : f.grains = [none]) :
      f.Answers name grain ∧ grain ∈ f.grains := by
    rw [own] at found
    split at found
    · rename_i same
      cases found
      exact ⟨same ▸ (.column : f.Answers (f.aliasAt none) none),by simp [only]⟩
    · cases found
  cases role : f.role with
  | group =>
    cases type : f.type with
    | time => exact timesAnswer role type found
    | duration => exact durationsAnswer role type found
    | _ => exact plain (by simp [grainOf?,role,type]) (by simp [grains,role,type])
  | _ => exact plain (by simp [grainOf?,role]) (by simp [grains,role])

theorem ofPluralName (interval : Interval) : Interval.ofPlural? (interval.name ++ "s") = some interval := by
  cases interval <;> decide

theorem ownColumn {name grain} (found : f.grainOf? name = some grain) : f.grainOf? (f.aliasAt grain) = some grain := by
  cases (answers found).1 with
  | column => exact found
  | bare times =>
    obtain ⟨group,time⟩ := times
    have lead : dropLead? (f.name.toList ++ ['_']) (f.name ++ "_" ++ "raw").toList = some "raw".toList := by
      rw [dropLead?_eq_some]
      simp
    have other : f.name ++ "_" ++ "raw" ≠ f.name := by
      intro same
      simpa using congrArg (List.length ∘ String.toList) same
    have raw : TimeFrame.ofName? "raw" = some .raw := TimeFrame.ofName?_name .raw
    unfold grainOf?
    simp only [group,time,aliasAt,TimeFrame.name,if_neg other,lead,Option.bind_eq_bind,Option.bind_some,
      String.ofList_toList,raw]
    simp
  | singular interval durations offered =>
    obtain ⟨group,duration⟩ := durations
    have back : dropLead? ('_' :: f.name.toList).reverse (interval.name ++ "s_" ++ f.name).toList.reverse =
        some (interval.name ++ "s").toList.reverse := by
      rw [dropLead?_eq_some]
      simp
    have tail : dropTail? ('_' :: f.name.toList) (interval.name ++ "s_" ++ f.name).toList =
        some (interval.name ++ "s").toList := by
      rw [dropTail?,back,Option.map_some,reverse_reverse]
    unfold grainOf?
    simp only [group,duration,aliasAt,tail,Option.bind_eq_bind,Option.bind_some,String.ofList_toList,
      ofPluralName,if_pos offered]

theorem columnTrails {name grain} (found : f.grainOf? name = some grain) (trails : TrailingName name) :
    TrailingName (f.aliasAt grain) := by
  cases (answers found).1 with
  | column => exact trails
  | bare =>
    have chars : (f.name ++ "_" ++ "raw").toList = f.name.toList ++ "_raw".toList := by simp
    refine ⟨?_,?_⟩
    · show ∀ c ∈ (f.name ++ "_" ++ "raw").toList, isSmall c
      have tail : "_raw".toList.all isSmall := by decide +kernel
      rw [chars,forall_mem_append]
      exact ⟨trails.small,all_eq_true.mp tail⟩
    · show ∀ c ∈ (f.name ++ "_" ++ "raw").toList.getLast?, isBlank c = false
      rw [chars]
      simp [isBlank]
  | singular interval =>
    have chars : (interval.name ++ "s_" ++ f.name).toList = interval.name.toList ++ 's' :: '_' :: f.name.toList := by simp
    obtain ⟨small,ends⟩ := trails
    simp only [String.toList_append] at small ends
    refine ⟨?_,?_⟩
    · show ∀ c ∈ (interval.name ++ "s_" ++ f.name).toList, isSmall c
      simp only [forall_mem_append] at small
      rw [chars,forall_mem_append,forall_mem_cons,forall_mem_cons]
      exact ⟨small.1.1,by decide +kernel,by decide +kernel,small.2⟩
    · show ∀ c ∈ (interval.name ++ "s_" ++ f.name).toList.getLast?, isBlank c = false
      rw [chars]
      simpa using ends

end Field

namespace FieldUse

def Unshadowed (u : FieldUse) : Prop :=
  ∀ f ∈ u.view.fields.takeWhile fun f => f.name != u.field.name, f.grainOf? u.column = none

instance (u : FieldUse) : Decidable u.Unshadowed := inferInstanceAs (Decidable (∀ f ∈ _, _))

end FieldUse

theorem View.fieldAnswers {v : View} {name field grain} (found : v.field? name = some (field, grain)) :
    field.grainOf? name = some grain := by
  obtain ⟨f,_,read⟩ := exists_of_findSome?_eq_some found
  obtain ⟨_,answers,same⟩ := map_eq_some_iff.mp read
  cases same
  exact answers

namespace Project
variable {p : Project} {u : FieldUse}

theorem fieldNamed {name} (found : p.field name = .ok u) :
    (∃ rest, plainName name = u.view.name ++ "." ++ rest ∧ '.' ∉ u.view.name.toList ∧
      u.view.field? rest = some (u.field, u.grain)) ∨
    '.' ∉ (plainName name).toList ∧ u.view.field? (plainName name) = some (u.field, u.grain) := by
  simp only [field,trimmedPlain] at found
  split at found
  · rename_i before rest cut
    split at found
    · rename_i view owner
      obtain ⟨_,_,read,rfl⟩ := fieldInFound found
      have named : view.name = before := by simpa using find?_some owner
      obtain ⟨halves,whole,same⟩ := map_eq_some_iff.mp cut
      cases same
      have parts := cutList?_eq_some whole
      refine .inl ⟨_,?_,?_,read⟩
      · apply String.toList_inj.mp
        simpa [named] using parts.1
      · simpa [named] using parts.2
    · cases found
  · rename_i whole
    refine .inr ⟨cutNone.mp whole,?_⟩
    split at found
    · cases found
    · rename_i only
      cases found
      obtain ⟨view,known,made⟩ := mem_filterMap.mp (only ▸ mem_singleton_self u)
      obtain ⟨_,read,rfl⟩ := map_eq_some_iff.mp made
      exact read
    · cases found

theorem fieldAnswered {name} (found : p.field name = .ok u) :
    u.field.grainOf? u.column = some u.grain ∧ TrailingName u.column := by
  have small := plainSmall name
  have ends := (plainBordered name).ends
  rcases fieldNamed found with ⟨rest,same,_,read⟩ | ⟨_,read⟩
  · have answers := View.fieldAnswers read
    simp only [same,String.toList_append,forall_mem_append] at small ends
    have trails : TrailingName rest := by
      refine ⟨small.2,fun c mem => ends c ?_⟩
      rw [getLast?_append]
      exact Option.mem_def.mpr (Option.or_eq_some_iff.mpr (.inl mem))
    exact ⟨Field.ownColumn answers,Field.columnTrails answers trails⟩
  · have answers := View.fieldAnswers read
    exact ⟨Field.ownColumn answers,Field.columnTrails answers ⟨small,ends⟩⟩

/- The first field of a name is the only one, so that only the fields before it can take its place. -/
theorem firstOfName (valid : p.Valid) (known : p.Defines u) :
    ∃ rest, u.view.fields = (u.view.fields.takeWhile fun f => f.name != u.field.name) ++ u.field :: rest := by
  have cut := takeWhile_append_dropWhile (p := fun f => f.name != u.field.name) (l := u.view.fields)
  cases later : u.view.fields.dropWhile fun f => f.name != u.field.name with
  | nil =>
    have all := dropWhile_eq_nil_iff.mp later u.field known.2
    simp at all
  | cons first rest =>
    have named : first.name = u.field.name := by
      have stops := head?_dropWhile_not (fun f => f.name != u.field.name) u.view.fields
      simpa [later] using stops
    rw [later] at cut
    have listed : first ∈ u.view.fields := by
      rw [← cut]
      exact mem_append_right _ mem_cons_self
    cases valid.fields u.view known.1 first listed u.field known.2 named
    exact ⟨rest,cut.symm⟩

theorem columnFound (valid : p.Valid) (known : p.Defines u) (answers : u.field.grainOf? u.column = some u.grain) :
    u.view.field? u.column = some (u.field, u.grain) ↔ u.Unshadowed := by
  obtain ⟨rest,split⟩ := firstOfName valid known
  have found : u.view.field? u.column =
      ((u.view.fields.takeWhile fun f => f.name != u.field.name).findSome? fun f =>
        (f.grainOf? u.column).map fun grain => (f, grain)).or (some (u.field, u.grain)) := by
    conv_lhs => rw [View.field?,split,findSome?_append,findSome?_cons,answers,Option.map_some]
  rw [found]
  constructor
  · intro same f mem
    cases earlier : (u.view.fields.takeWhile fun f => f.name != u.field.name).findSome? fun f =>
        (f.grainOf? u.column).map fun grain => (f, grain) with
    | none => simpa using findSome?_eq_none_iff.mp earlier f mem
    | some other =>
      obtain ⟨g,listed,made⟩ := exists_of_findSome?_eq_some earlier
      obtain ⟨_,_,pair⟩ := map_eq_some_iff.mp made
      rw [earlier,Option.some_or,Option.some.injEq] at same
      have apart := mem_takeWhile_imp listed
      rw [← pair] at same
      simp [(Prod.mk.inj same).1] at apart
  · intro unshadowed
    have none : ((u.view.fields.takeWhile fun f => f.name != u.field.name).findSome? fun f =>
        (f.grainOf? u.column).map fun grain => (f, grain)) = none :=
      findSome?_eq_none_iff.mpr fun f mem => by rw [unshadowed f mem,Option.map_none]
    rw [none,Option.none_or]

theorem viewNamed (valid : p.Valid) (known : u.view ∈ p.views) : p.view? u.view.name = some u.view := by
  cases found : p.view? u.view.name with
  | none => exact absurd (find?_eq_none.mp found u.view known) (by simp)
  | some other =>
    have named : other.name = u.view.name := by simpa using find?_some found
    rw [valid.views other (viewMember found) u.view known named]

theorem leadsOf {name view rest : String} (same : plainName name = view ++ "." ++ rest) (whole : '.' ∉ view.toList) :
    LeadingName view := by
  have small := plainSmall name
  have starts := (plainBordered name).starts
  simp only [same,String.toList_append,forall_mem_append] at small starts
  refine ⟨whole,small.1.1,fun c mem => starts c ?_⟩
  rw [append_assoc,head?_append]
  exact Option.mem_def.mpr (Option.or_eq_some_iff.mpr (.inl mem))

theorem qualifiedFound (valid : p.Valid) (known : p.Defines u) (answers : u.field.grainOf? u.column = some u.grain)
    (trails : TrailingName u.column) : p.field u.qualifiedName = .ok u ↔ Nameable u.view.name ∧ u.Unshadowed := by
  rw [nameableLeads,← columnFound valid known answers]
  constructor
  · intro found
    rcases fieldNamed found with ⟨rest,same,whole,read⟩ | ⟨undotted,_⟩
    · have leads := leadsOf same whole
      have spelled := qualifiedPlain leads trails
      have column : rest = u.column := by
        have equal := same.symm.trans spelled
        simpa using equal
      exact ⟨leads,column ▸ read⟩
    · have dotted : '.' ∈ (plainName u.qualifiedName).toList := by
        have chars : '.' ∈ u.qualifiedName.toList := by simp [FieldUse.qualifiedName]
        simpa [plainName,lower,lowerList,trim] using markLowered dotSmall (markTrimmed rfl chars)
      exact absurd dotted undotted
  · rintro ⟨leads,read⟩
    have spelled : plainName u.qualifiedName = u.qualifiedName := qualifiedPlain leads trails
    have cut : cut? '.' u.qualifiedName = some (u.view.name, u.column) := cutFirst leads.whole
    simp only [field,trimmedPlain,spelled,cut,viewNamed valid known.1,fieldIn,read]

theorem qualifiedNamesReadBack {name} (accepted : p.validate = .ok ()) (found : p.field name = .ok u) :
    (p.field u.qualifiedName = .ok u ↔ Nameable u.view.name ∧ u.Unshadowed) ∧
      ('.' ∈ (plainName name).toList → Nameable u.view.name) ∧
      (plainName name = u.qualifiedName ∨ '.' ∉ (plainName name).toList ∧ plainName name = u.column → u.Unshadowed) := by
  have valid := validated accepted
  have known := fieldDefined found
  obtain ⟨answers,trails⟩ := fieldAnswered found
  refine ⟨qualifiedFound valid known answers trails,?_,?_⟩
  · intro dotted
    rcases fieldNamed found with ⟨rest,same,whole,_⟩ | ⟨undotted,_⟩
    · exact nameableLeads.mpr (leadsOf same whole)
    · exact absurd dotted undotted
  · intro spelled
    rw [← columnFound valid known answers]
    rcases fieldNamed found with ⟨rest,same,_,read⟩ | ⟨undotted,read⟩
    · have column : rest = u.column := by
        rcases spelled with spelled | ⟨undotted,_⟩
        · simpa [FieldUse.qualifiedName] using same.symm.trans spelled
        · exact absurd (by simp [same]) undotted
      exact column ▸ read
    · have column : plainName name = u.column := by
        rcases spelled with spelled | ⟨_,spelled⟩
        · exact absurd (by simp [spelled,FieldUse.qualifiedName]) undotted
        · exact spelled
      exact column ▸ read

def placedView : View := {
  name := "orders", tableName := some "db.orders"
  fields := [.dimension "order_raw" "$\x7bTABLE\x7d.stored",.timeGroup "order" "$\x7bTABLE\x7d.placed_at" []] }

def placedProject : Project := .ofDefinitions { views := [placedView] }

def capitalProject : Project := .ofDefinitions { views := [{ placedView with name := "Orders" }] }

theorem placedValid : placedProject.validate = .ok () := exceptSome.mp (by decide +kernel)

theorem foundAs {α : Type} {name} (what : FieldUse → α) {a : α} (read : (p.field name).toOption.map what = some a) :
    ∃ u, p.field name = .ok u ∧ what u = a := by
  obtain ⟨u,found,same⟩ := map_eq_some_iff.mp read
  exact ⟨u,exceptSome.mp found,same⟩

theorem orderDateReadsBack : ∃ u, placedProject.validate = .ok () ∧ placedProject.field " Orders.ORDER_DATE " = .ok u ∧
    u.qualifiedName = "orders.order_date" ∧ placedProject.field u.qualifiedName = .ok u := by
  have read : ((placedProject.field " Orders.ORDER_DATE ").toOption.map fun u =>
      (u.qualifiedName, decide (Nameable u.view.name ∧ u.Unshadowed))) = some ("orders.order_date", true) := by
    decide +kernel
  obtain ⟨u,found,same⟩ := foundAs _ read
  obtain ⟨spelled,free⟩ := Prod.mk.inj same
  exact ⟨u,placedValid,found,spelled,(qualifiedNamesReadBack placedValid found).1.mpr (of_decide_eq_true free)⟩

/- A dimension may have the name of a group's column, and a view with a capital is only found by bare names. -/
theorem qualifiedNamesAstray :
    (placedProject.validate = .ok () ∧ ∃ u v, placedProject.field "orders.order" = .ok u ∧
      placedProject.field u.qualifiedName = .ok v ∧ u.id = "orders.order" ∧ v.id = "orders.order_raw") ∧
    capitalProject.validate = .ok () ∧ ∃ u, capitalProject.field "order_raw" = .ok u ∧
      (capitalProject.field u.qualifiedName).toOption.isNone := by
  have group : ((placedProject.field "orders.order").toOption.map fun u => (u.id, u.qualifiedName)) =
      some ("orders.order", "orders.order_raw") := by decide +kernel
  have hides : (placedProject.field "orders.order_raw").toOption.map FieldUse.id = some "orders.order_raw" := by
    decide +kernel
  have bare : (capitalProject.field "order_raw").toOption.map FieldUse.qualifiedName = some "Orders.order_raw" := by
    decide +kernel
  obtain ⟨u,found,same⟩ := foundAs _ group
  obtain ⟨v,other,read⟩ := foundAs _ hides
  obtain ⟨w,capital,spelled⟩ := foundAs _ bare
  refine ⟨⟨placedValid,u,v,found,?_,(Prod.mk.inj same).1,read⟩,exceptSome.mp (by decide +kernel),w,capital,?_⟩
  · rw [(Prod.mk.inj same).2]
    exact other
  · rw [spelled]
    decide +kernel

end Project
end SemanticSql
