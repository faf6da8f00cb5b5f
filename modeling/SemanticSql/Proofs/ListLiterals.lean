import SemanticSql.Proofs.DateGrammar
import SemanticSql.Proofs.QualifiedNames

/-! Literals with commas. Every one of them is read as a list; an item has the value in the list that it has when it is
read alone, unless a sign of comparison or a second dash stands at its front. -/
namespace SemanticSql

open Option (bind_eq_some_iff map_eq_some_iff eq_none_iff_forall_ne_some)
open List Text

namespace RelativeDate

def Unlisted (P : List Char → Prop) : Prop := ∀ word, P word → ',' ∉ word

theorem digitsUnlisted {ds : List Char} (digits : ∀ c ∈ ds, c.isDigit) : ',' ∉ ds :=
  fun mem => absurd (digits ',' mem) (by decide)

theorem gapUnlisted : Unlisted Gap := fun gap blank mem => absurd (blank.2 ',' mem) (by decide)

theorem spellsUnlisted {word : String} (plain : ',' ∉ word.toList) : Unlisted (Spells word) := by
  intro cs spelled mem
  refine plain (spelled ▸ ?_)
  exact mem_map_of_mem (f := Char.toLower) mem

theorem countsUnlisted (n : Nat) : Unlisted (Counts n) := fun _ counts => digitsUnlisted (numeralIff.mp counts.1).1.2

theorem namesUnlisted (unit : Interval) : Unlisted (Names unit) := by
  intro cs names
  have plain : ∀ unit ∈ units, ',' ∉ unit.name.toList ∧ ',' ∉ (unit.name ++ "s").toList := by decide
  obtain ⟨single,plural⟩ := plain unit names.1
  rcases names.2 with spelled | spelled
  · exact spellsUnlisted single cs spelled
  · exact spellsUnlisted plural cs spelled

theorem datedUnlisted (d : Date) : Unlisted (Dated d) := by
  rintro cs ⟨⟨year,month,day,rfl,years,months,days⟩,-⟩
  simp [digitsUnlisted years.2,digitsUnlisted months.2,digitsUnlisted days.2]

theorem phraseUnlisted {A : List (List Char → Prop)} (words : ∀ P ∈ A, Unlisted P) : Unlisted (Phrase A) := by
  intro cs phrase
  induction phrase with
  | last is => exact words _ mem_cons_self _ is
  | cons is blank _ ih =>
    obtain ⟨first,others⟩ := forall_mem_cons.mp words
    simp [first _ is,gapUnlisted _ blank,ih others]

theorem writesUnlisted {d : RelativeDate} {cs : List Char} (writes : Writes d cs) : ',' ∉ cs := by
  cases writes <;> rename_i phrase <;> refine phraseUnlisted ?_ _ phrase <;>
    simp [spellsUnlisted,countsUnlisted,namesUnlisted,datedUnlisted]

theorem listUnread {text : String} (comma : ',' ∈ text.toList) : parse? text = none := by
  refine eq_none_iff_forall_ne_some.mpr fun d read => ?_
  obtain ⟨lead,body,trail,joined,blank,writes,behind⟩ := (readWritten text d).mp read
  rw [joined] at comma
  rcases mem_append.mp comma with mem | mem
  · exact absurd (blank ',' mem) (by decide)
  · rcases mem_append.mp mem with mem | mem
    · exact writesUnlisted writes mem
    · exact absurd (behind ',' mem) (by decide)

end RelativeDate

namespace Calendar

def Passes (cs rest : List Char) : Prop := ∃ front, cs = front ++ rest ∧ ',' ∉ front

variable {cs rest : List Char}

theorem passesThen {more : List Char} (first : Passes cs more) (second : Passes more rest) : Passes cs rest := by
  obtain ⟨front,rfl,plain⟩ := first
  obtain ⟨back,rfl,plain'⟩ := second
  exact ⟨front ++ back,(append_assoc _ _ _).symm,by simp [plain,plain']⟩

theorem passesComma (passes : Passes cs rest) (comma : ',' ∈ cs) : ',' ∈ rest := by
  obtain ⟨front,rfl,plain⟩ := passes
  exact (mem_append.mp comma).resolve_left plain

theorem trimPasses (cs : List Char) : Passes cs (trimLeft cs) := by
  refine ⟨cs.takeWhile isBlank,takeWhile_append_dropWhile.symm,fun mem => ?_⟩
  exact absurd (all_eq_true.mp all_takeWhile ',' mem) (by decide)

theorem numberPasses {width : Nat} {n} (read : number? width cs = some (n, rest)) : Passes cs rest := by
  simp only [number?] at read
  split at read
  · cases read
  · cases read
    refine passesThen (trimPasses cs) ⟨_,(prefix_iff_eq_append.mp ?_).symm,fun mem => ?_⟩
    · exact (List.take_prefix _ _).trans (List.takeWhile_prefix _)
    · exact absurd (all_eq_true.mp all_takeWhile ',' (mem_of_mem_take mem)) (by decide)

theorem markPasses {mark : Char} (read : mark? mark cs = some rest) (plain : mark ≠ ',') :
    Passes cs rest := ⟨[mark],RelativeDate.markRead.mp read,by simpa using plain.symm⟩

theorem yearPasses {year} (read : year? cs = some (year, rest)) : Passes cs rest := by
  have signed : ∀ {sign : Char} {more : List Char}, trimLeft cs = sign :: more → sign ≠ ',' → Passes cs more := by
    intro sign more trimmed plain
    exact passesThen (trimPasses cs) ⟨[sign],trimmed,by simpa using plain.symm⟩
  have digits : ∀ {width more} {g : Nat × List Char → Int},
      (number? width more).map (fun p => (g p, p.2)) = some (year, rest) → Passes more rest := by
    intro width more g read
    obtain ⟨_,number,same⟩ := map_eq_some_iff.mp read
    cases same
    exact numberPasses number
  rw [year?] at read
  split at read
  · rename_i trimmed
    split at read
    · exact passesThen (signed trimmed (by decide)) (digits read)
    · cases read
  · rename_i trimmed
    split at read
    · exact passesThen (signed trimmed (by decide)) (digits read)
    · cases read
  · exact passesThen (trimPasses cs) (digits read)

theorem datePasses {d} (read : dateLead? cs = some (d, rest)) : Passes cs rest := by
  obtain ⟨⟨_,_⟩,year,read⟩ := bind_eq_some_iff.mp read
  obtain ⟨_,dash,read⟩ := bind_eq_some_iff.mp read
  obtain ⟨⟨_,_⟩,month,read⟩ := bind_eq_some_iff.mp read
  obtain ⟨_,dash',read⟩ := bind_eq_some_iff.mp read
  obtain ⟨⟨_,_⟩,day,read⟩ := bind_eq_some_iff.mp read
  obtain ⟨_,_,same⟩ := bind_eq_some_iff.mp read
  cases same
  exact passesThen (yearPasses year) (passesThen (markPasses dash (by decide)) (passesThen (numberPasses month)
    (passesThen (markPasses dash' (by decide)) (numberPasses day))))

theorem clockPasses {time} (read : clockLead? cs = some (time, rest)) : Passes cs rest := by
  obtain ⟨⟨_,_⟩,hour,read⟩ := bind_eq_some_iff.mp read
  obtain ⟨_,colon,read⟩ := bind_eq_some_iff.mp read
  obtain ⟨⟨_,_⟩,minute,read⟩ := bind_eq_some_iff.mp read
  obtain ⟨_,_,same⟩ := bind_eq_some_iff.mp read
  cases same
  exact passesThen (numberPasses hour) (passesThen (markPasses colon (by decide)) (numberPasses minute))

theorem secondPasses {second} (read : secondLead? cs = some (second, rest)) : Passes cs rest := by
  obtain ⟨_,colon,read⟩ := bind_eq_some_iff.mp read
  obtain ⟨⟨_,_⟩,number,read⟩ := bind_eq_some_iff.mp read
  obtain ⟨_,_,same⟩ := bind_eq_some_iff.mp read
  cases same
  exact passesThen (markPasses colon (by decide)) (numberPasses number)

/- A time is read to the end of its text, so a comma in it is never passed. -/
theorem timeUnlisted {text : String} (comma : ',' ∈ text.toList) : DateTime.parseLoose? text = none := by
  refine eq_none_iff_forall_ne_some.mpr fun time read => ?_
  have unread : ∀ {rest : List Char}, ',' ∈ rest → rest.isEmpty = false := by
    rintro (_ | _) mem
    · cases mem
    · rfl
  obtain ⟨⟨d,rest⟩,date,read⟩ := bind_eq_some_iff.mp read
  have left := passesComma (datePasses date) (markTrimmed rfl comma)
  simp only [unread left] at read
  obtain ⟨⟨_,rest'⟩,clock,read⟩ := bind_eq_some_iff.mp read
  have left' : ',' ∈ rest' := by
    refine passesComma (clockPasses clock) ?_
    split
    · exact (mem_cons.mp left).resolve_left (by decide)
    · exact passesComma (trimPasses _) left
  simp only [unread left'] at read
  obtain ⟨⟨_,rest''⟩,second,read⟩ := bind_eq_some_iff.mp read
  rw [unread (passesComma (secondPasses second) left')] at read
  cases read

end Calendar

namespace Text

variable {cs : List Char}

theorem blankTrim : trimList cs = [] ↔ ∀ c ∈ cs, isBlank c := by
  constructor
  · intro empty c mem
    refine by_contra fun seen => ?_
    have kept := markTrimmed (Bool.eq_false_iff.mpr seen) mem
    rw [empty] at kept
    cases kept
  · intro blank
    have none : trimLeft cs = [] := dropWhile_eq_nil_iff.mpr blank
    rw [trimList,none]
    rfl

theorem trimParts (cs : List Char) : ∃ lead trail, cs = lead ++ (trimList cs ++ trail) ∧
    (∀ c ∈ lead, isBlank c) ∧ ∀ c ∈ trail, isBlank c := by
  refine ⟨cs.takeWhile isBlank,((trimLeft cs).reverse.takeWhile isBlank).reverse,?_,all_eq_true.mp all_takeWhile,?_⟩
  · rw [trimList,trimRight,trimLeft,← reverse_append,takeWhile_append_dropWhile,reverse_reverse,trimLeft,
      takeWhile_append_dropWhile]
  · exact fun c mem => all_eq_true.mp all_takeWhile c (mem_reverse.mp mem)

theorem trimSublist (cs : List Char) : (trimList cs).Sublist cs := by
  obtain ⟨lead,trail,same,-⟩ := trimParts cs
  have inner := (sublist_append_left (trimList cs) trail).trans (sublist_append_right lead _)
  rwa [← same] at inner

theorem splitMember {sep c : Char} (other : c ≠ sep) : (∃ piece ∈ splitList sep cs, c ∈ piece) ↔ c ∈ cs := by
  induction cs with
  | nil => simp [splitList]
  | cons d rest ih =>
    rw [splitList]
    split
    · rename_i same
      simp [ih,same,other]
    · split
      · rename_i none
        exact absurd none (splitList_ne_nil sep rest)
      · rename_i split
        simp only [split,exists_mem_cons_iff] at ih
        rw [exists_mem_cons_iff,mem_cons,or_assoc,ih,mem_cons]

theorem splitPieces {sep : Char} : ∀ piece ∈ splitList sep cs, sep ∉ piece := by
  induction cs with
  | nil => simp [splitList]
  | cons d rest ih =>
    rw [splitList]
    split
    · exact forall_mem_cons.mpr ⟨not_mem_nil,ih⟩
    · rename_i other
      split
      · simpa using Ne.symm other
      · rename_i split
        obtain ⟨first,later⟩ := forall_mem_cons.mp (split ▸ ih)
        refine forall_mem_cons.mpr ⟨?_,later⟩
        simp [Ne.symm other,first]

end Text

namespace Literal

def single? : List Condition → Option (Bool × String)
  | [⟨.compare .equal,.str value⟩] => some (false, value)
  | [⟨.compare .notEqual,.str value⟩] => some (true, value)
  | _ => none

def alone? (clock : Clock) (yesNo : Bool) (item : String) : Option (Bool × String) :=
  (conditions clock yesNo item).toOption.bind single?

def listed (item : String) : Bool × String := (isNegated item, itemValue item)

def Plain (item : String) : Prop := comparison? item.toList = none ∧ ¬ ['-','-'] <+: item.toList

instance (item : String) : Decidable (Plain item) := inferInstanceAs (Decidable (_ ∧ _))

variable {text item : String} {rest cs : List Char} {clock : Clock} {yesNo : Bool}

theorem commaKeyword (comma : ',' ∈ text.toList) (yesNo : Bool) : keyword? yesNo text = none := by
  have lowered : ',' ∈ (lower text).toList := by
    rw [lower,String.toList_ofList]
    exact markLowered (by decide +kernel) comma
  have other : ∀ word ∈ ["null","-null","true","false","yes","no"], lower text ≠ word := by
    intro word mem same
    have plain : ∀ word ∈ ["null","-null","true","false","yes","no"], ',' ∉ word.toList := by decide
    exact plain word mem (same ▸ lowered)
  unfold keyword?
  split
  case h_7 => rfl
  all_goals
    rename_i same
    exact absurd same (other _ (by decide))

theorem wordPasses {word : String} (plain : ',' ∉ word.toList)
    (read : word? word.toList cs = some rest) : Calendar.Passes cs rest := by
  obtain ⟨_,spelled,read⟩ := bind_eq_some_iff.mp read
  obtain ⟨_,_,same⟩ := bind_eq_some_iff.mp read
  cases same
  have lead : Calendar.Passes cs (cs.drop word.toList.length) :=
    ⟨_,(take_append_drop _ _).symm,RelativeDate.spellsUnlisted plain _ ((Option.guard_eq_some' _).mp spelled)⟩
  refine Calendar.passesThen lead ⟨_,takeWhile_append_dropWhile.symm,fun mem => ?_⟩
  exact absurd (all_eq_true.mp all_takeWhile ',' mem) (by decide)

theorem anchorPasses {anchor} (read : anchor? cs = some (anchor, rest)) : Calendar.Passes cs rest := by
  rw [anchor?] at read
  split at read
  · rename_i word
    cases read
    exact wordPasses (by decide) word
  · split at read
    · rename_i word
      cases read
      exact wordPasses (by decide) word
    · obtain ⟨_,word,same⟩ := map_eq_some_iff.mp read
      cases same
      exact wordPasses (by decide) word

theorem commaAnchored (comma : ',' ∈ text.toList) (clock : Clock) : anchored? clock text = none := by
  refine eq_none_iff_forall_ne_some.mpr fun result read => ?_
  obtain ⟨⟨_,rest⟩,anchor,read⟩ := bind_eq_some_iff.mp read
  obtain ⟨time,timed,-⟩ := bind_eq_some_iff.mp read
  have left : ',' ∈ (String.ofList rest).toList := by
    rw [String.toList_ofList]
    exact Calendar.passesComma (anchorPasses anchor) comma
  rw [Calendar.timeUnlisted left] at timed
  cases timed

/- No form that is tried before lists reads a comma. -/
theorem commaListed {literal : String} (comma : ',' ∈ literal.toList) (clock : Clock) (yesNo : Bool) :
    conditions clock yesNo literal = (listCondition (trim literal)).map fun c => [c] := by
  have kept : ',' ∈ (trim literal).toList := by
    rw [trim,String.toList_ofList]
    exact markTrimmed rfl comma
  have some : (trim literal).isEmpty = false := by
    refine Bool.eq_false_iff.mpr fun empty => ?_
    rw [String.isEmpty_iff.mp empty] at kept
    cases kept
  rw [conditions]
  simp only [some,commaKeyword kept,RelativeDate.listUnread kept,commaAnchored kept]
  rw [if_neg Bool.false_ne_true,if_pos (contains_iff_mem.mpr kept)]

theorem itemBordered (mem : item ∈ items text) : Text.Bordered item.toList ∧ ',' ∉ item.toList := by
  obtain ⟨mem,-⟩ := mem_filter.mp mem
  obtain ⟨_,piece,rfl⟩ := mem_map.mp mem
  obtain ⟨cs,cut,rfl⟩ := mem_map.mp piece
  simp only [trim,String.toList_ofList]
  exact ⟨trimBordered cs,fun comma => splitPieces cs cut ((trimSublist cs).subset comma)⟩

theorem itemsNone : items text = [] ↔ ∀ c ∈ text.toList, c = ',' ∨ isBlank c := by
  have pieces : items text = [] ↔ ∀ piece ∈ splitList ',' text.toList, ∀ c ∈ piece, isBlank c := by
    simp [items,split,trim,filter_eq_nil_iff,blankTrim]
  rw [pieces]
  constructor
  · intro blank c mem
    by_cases comma : c = ','
    · exact .inl comma
    · obtain ⟨piece,cut,mem⟩ := (splitMember comma).mpr mem
      exact .inr (blank piece cut c mem)
  · intro blank piece cut c mem
    have other : c ≠ ',' := fun comma => splitPieces piece cut (comma ▸ mem)
    exact (blank c ((splitMember other).mp ⟨piece,cut,mem⟩)).resolve_left other

theorem comparisonRest {op} (read : comparison? cs = some (op, rest)) :
    rest.length < cs.length ∧ cs.head? ≠ some '-' := by
  unfold comparison? at read
  split at read
  case h_8 => cases read
  all_goals
    cases read
    simp +arith

theorem operandShort {value : String} (same : operand text = .str value) :
    value.toList.length ≤ text.toList.length := by
  have stripped : (strip '\'' text.toList).length ≤ text.toList.length := by
    rw [strip,length_reverse]
    refine (dropWhile_sublist _).length_le.trans ?_
    rw [length_reverse]
    exact (dropWhile_sublist _).length_le
  unfold operand at same
  split at same
  · cases same
  · split at same
    · split at same
      · cases same
      · cases same
        rwa [String.toList_ofList]
    · cases same
      rwa [String.toList_ofList]

theorem anchoredSingle {result} (read : anchored? clock text = some result) : result.toOption.bind single? = none := by
  obtain ⟨⟨anchor,_⟩,_,read⟩ := bind_eq_some_iff.mp read
  obtain ⟨_,_,read⟩ := bind_eq_some_iff.mp read
  cases anchor with
  | after => cases read; rfl
  | before => cases read; rfl
  | on =>
    simp only at read
    split at read
    · cases read; rfl
    · cases read; rfl

theorem singleValue {predicate value said} (read : single? [⟨predicate,value⟩] = some said) : value = .str said.2 := by
  unfold single? at read
  split at read
  · rename_i same
    cases same
    cases read
    rfl
  · rename_i same
    cases same
    cases read
    rfl
  · cases read

theorem wildcardSingle {negated : Bool} {body : String} {condition} (wild : wildcard? negated body = some condition) :
    single? [condition] = none := by
  simp only [wildcard?] at wild
  split at wild <;> cases wild
  all_goals rfl

theorem wholeSingle {said} (read : single? [whole text] = some said) :
    (∃ rest, text.toList = '-' :: rest ∧ said = (true, trim (String.ofList rest))) ∨
      (text.toList.head? ≠ some '-' ∧ said = (false, text)) := by
  unfold whole at read
  split at read
  rename_i negated body front
  split at read
  · rename_i wild
    rw [wildcardSingle wild] at read
    cases read
  · split at front
    · rename_i rest dashed
      cases front
      cases read
      exact .inl ⟨rest,dashed,rfl⟩
    · rename_i other
      cases front
      cases read
      refine .inr ⟨fun head => ?_,rfl⟩
      obtain ⟨rest,dashed⟩ := head?_eq_some_iff.mp head
      exact other rest dashed

theorem okSingle (cs : List Condition) : (Except.ok (ε := Error) cs).toOption.bind single? = single? cs := rfl

theorem aloneCases {said} (bordered : Text.Bordered item.toList)
    (unlisted : ',' ∉ item.toList) (alone : alone? clock yesNo item = some said) :
    (∃ op rest, comparison? item.toList = some (op, rest) ∧
        operand (trim (String.ofList rest)) = .str said.2) ∨
      (comparison? item.toList = none ∧ single? [whole item] = some said) := by
  have trimmed : trim item = item := by rw [trim,borderedTrim bordered,String.ofList_toList]
  have single : item.toList.contains ',' = false := by simpa using unlisted
  rw [alone?,conditions,trimmed] at alone
  -- The forms are tried in their order. Keywords have no value, and a date gives two conditions or an inequality.
  split at alone
  · cases alone
  · split at alone
    · rw [okSingle] at alone
      cases singleValue alone
    · split at alone
      · split at alone
        · cases alone
        · cases alone
      · split at alone
        · rename_i read
          rw [anchoredSingle read] at alone
          cases alone
        · rw [single,if_neg Bool.false_ne_true] at alone
          split at alone
          · rename_i op rest sign
            refine .inl ⟨op,rest,sign,?_⟩
            simp only at alone
            split at alone
            · cases alone
            · rw [okSingle] at alone
              exact singleValue alone
          · rename_i unsigned
            rw [okSingle] at alone
            exact .inr ⟨unsigned,alone⟩

theorem undashed (other : cs.head? ≠ some '-') : cs.dropWhile (· == '-') = cs := by
  cases cs with
  | nil => rfl
  | cons c rest =>
    have first : c ≠ '-' := fun same => other (congrArg some same)
    rw [dropWhile_cons_of_neg (by simpa using first)]

theorem listedUndashed (bordered : Text.Bordered item.toList) (other : item.toList.head? ≠ some '-') :
    listed item = (false, item) := by
  have positive : isNegated item = false := beq_eq_false_iff_ne.mpr other
  rw [listed,positive,itemValue,undashed other,trim,String.toList_ofList,borderedTrim bordered,
    String.ofList_toList]

theorem listedDashed (dashed : item.toList = '-' :: rest) :
    listed item = (true, trim (String.ofList (rest.dropWhile (· == '-')))) := by
  rw [listed,isNegated,itemValue,dashed]
  rfl

/- A second dash is kept by an item alone and dropped in a list. -/
theorem dashTrim (bordered : Text.Bordered ('-' :: rest)) :
    trim (String.ofList (rest.dropWhile (· == '-'))) = trim (String.ofList rest) ↔ rest.head? ≠ some '-' := by
  constructor
  · intro same head
    obtain ⟨more,rfl⟩ := head?_eq_some_iff.mp head
    have whole : trimList ('-' :: more) = '-' :: more := by
      refine borderedTrim ⟨fun c mem => ?_,fun c mem => bordered.ends c ?_⟩
      · cases mem
        decide
      · rwa [getLast?_cons_cons]
    -- The item alone keeps its second dash, so its value is longer.
    have lengths := congrArg (fun s : String => s.toList.length) same
    simp only [trim,String.toList_ofList,whole] at lengths
    have kept := (trimSublist (('-' :: more).dropWhile (· == '-'))).length_le
    have dropped := (dropWhile_sublist (l := more) (· == '-')).length_le
    rw [dropWhile_cons_of_pos (by rfl)] at kept lengths
    simp only [length_cons] at lengths
    omega
  · intro other
    rw [undashed other]

/- A sign of comparison that is left in place and a second dash that is dropped change the value. -/
theorem aloneListed {said} (bordered : Text.Bordered item.toList)
    (unlisted : ',' ∉ item.toList) (alone : alone? clock yesNo item = some said) : listed item = said ↔ Plain item := by
  rcases aloneCases bordered unlisted alone with ⟨op,rest,sign,same⟩ | ⟨unsigned,read⟩
  · obtain ⟨shorter,other⟩ := comparisonRest sign
    refine iff_of_false (fun agree => ?_) (fun plain => ?_)
    · rw [listedUndashed bordered other] at agree
      have short := operandShort same
      simp only [← agree,trim,String.toList_ofList] at short
      have kept := (trimSublist rest).length_le
      omega
    · rw [plain.1] at sign
      cases sign
  · rcases wholeSingle read with ⟨rest,dashed,rfl⟩ | ⟨other,rfl⟩
    · have twice : ['-','-'] <+: item.toList ↔ rest.head? = some '-' := by
        rw [dashed,cons_prefix_cons,head?_eq_some_iff]
        simp [List.IsPrefix,eq_comm]
      rw [listedDashed dashed,Prod.mk.injEq,dashTrim (dashed ▸ bordered),Plain,twice]
      simp [unsigned]
    · rw [listedUndashed bordered other]
      refine iff_of_true rfl ⟨unsigned,fun twice => other ?_⟩
      obtain ⟨rest,front⟩ := twice
      rw [← front]
      rfl

def agreed (text : String) (said : List (Bool × String)) : Except Error (List Condition) :=
  let values := Value.strings (said.map Prod.snd)
  if ∀ item ∈ said, item.1 = false then .ok [⟨.oneOf false,values⟩]
  else if ∀ item ∈ said, item.1 = true then .ok [⟨.oneOf true,values⟩]
  else .error (.query (.mixedNegation text))

theorem listAgreed (text : String) :
    ((listCondition text).map fun c => [c]) = agreed text ((items text).map listed) := by
  have positive : ((items text).filter isNegated).length = 0 ↔ ∀ said ∈ (items text).map listed, said.1 = false := by
    rw [length_eq_zero_iff,filter_eq_nil_iff,forall_mem_map]
    simp [listed]
  have negative : ((items text).filter isNegated).length = (items text).length ↔
      ∀ said ∈ (items text).map listed, said.1 = true := by
    rw [length_filter_eq_length_iff,forall_mem_map]
    rfl
  have values : ((items text).map listed).map Prod.snd = (items text).map itemValue := by
    rw [map_map]
    rfl
  simp only [listCondition,agreed,positive,negative,values]
  split
  · rfl
  · split
    · rfl
    · rfl

theorem agreedOk {said : List (Bool × String)} {cs} (ok : agreed text said = .ok cs) :
    ∃ negated, cs = [⟨.oneOf negated,Value.strings (said.map Prod.snd)⟩] := by
  simp only [agreed] at ok
  split at ok
  · exact ⟨false,(Except.ok.inj ok).symm⟩
  · split at ok
    · exact ⟨true,(Except.ok.inj ok).symm⟩
    · cases ok

theorem allListed {items : List String} {said}
    (alone : List.Forall₂ (fun item said => alone? clock yesNo item = some said) items said)
    (each : ∀ item ∈ items, ∀ said, alone? clock yesNo item = some said → listed item = said) :
    items.map listed = said := by
  induction alone with
  | nil => rfl
  | cons first _ ih =>
    obtain ⟨same,later⟩ := forall_mem_cons.mp each
    rw [map_cons,same _ first,ih later]

theorem listsAgreeWithItems (clock : Clock) (yesNo : Bool) {literal : String} (comma : ',' ∈ literal.toList) :
    let text := Text.trim literal
    (∀ cs, conditions clock yesNo literal = .ok cs → ∃ negated values, cs = [⟨.oneOf negated,Value.strings values⟩] ∧
        (values = [] ↔ ∀ c ∈ literal.toList, c = ',' ∨ Text.isBlank c)) ∧
      conditions clock yesNo literal = agreed text ((items text).map listed) ∧
      (∀ item ∈ items text, ∀ said, alone? clock yesNo item = some said → (listed item = said ↔ Plain item)) ∧
      ∀ said, List.Forall₂ (fun item said => alone? clock yesNo item = some said) (items text) said →
        (∀ item ∈ items text, Plain item) → conditions clock yesNo literal = agreed text said := by
  intro text
  have list : conditions clock yesNo literal = agreed text ((items text).map listed) := by
    rw [commaListed comma,listAgreed]
  have each : ∀ item ∈ items text, ∀ said, alone? clock yesNo item = some said → (listed item = said ↔ Plain item) := by
    intro item mem said alone
    obtain ⟨bordered,unlisted⟩ := itemBordered mem
    exact aloneListed bordered unlisted alone
  have none : items text = [] ↔ ∀ c ∈ literal.toList, c = ',' ∨ Text.isBlank c := by
    have chars : text.toList = Text.trimList literal.toList := String.toList_ofList
    rw [itemsNone,chars]
    refine ⟨fun bare c mem => ?_,fun bare c mem => bare c ((Text.trimSublist _).subset mem)⟩
    by_cases blank : Text.isBlank c
    · exact .inr blank
    · exact bare c (markTrimmed (Bool.eq_false_iff.mpr blank) mem)
  refine ⟨fun cs ok => ?_,list,each,fun said alone plain => ?_⟩
  · obtain ⟨negated,rfl⟩ := agreedOk (list ▸ ok)
    refine ⟨negated,_,rfl,?_⟩
    rw [List.map_eq_nil_iff,List.map_eq_nil_iff,none]
  · rw [list,allListed alone fun item mem said alone => (each item mem said alone).mpr (plain item mem)]

def march : Clock := ⟨⟨⟨2024,3,13⟩,14,30,0,0⟩,.monday⟩

theorem listOfTwo : ',' ∈ "-web, -app".toList ∧
    conditions march false "-web, -app" = .ok [⟨.oneOf true,Value.strings ["web","app"]⟩] := by
  have alone : alone? march false "-web" = some (true, "web") ∧ alone? march false "-app" = some (true, "app") := by
    decide +kernel
  have cut : items (Text.trim "-web, -app") = ["-web","-app"] := by decide
  have comma : ',' ∈ "-web, -app".toList := by decide
  obtain ⟨-,-,-,agree⟩ := listsAgreeWithItems march false comma
  refine ⟨comma,agree [(true, "web"),(true, "app")] ?_ ?_⟩
  · rw [cut]
    exact .cons alone.1 (.cons alone.2 .nil)
  · rw [cut]
    decide

/- Two dashes and a sign of comparison are read otherwise in a list than alone, and a list may be empty. -/
theorem itemsReadOtherwise :
    (alone? march false "--web" = some (true, "-web") ∧
        conditions march false "--web,--web" = .ok [⟨.oneOf true,Value.strings ["web","web"]⟩]) ∧
      (alone? march false "=web" = some (false, "web") ∧
        conditions march false "=web,=web" = .ok [⟨.oneOf false,Value.strings ["=web","=web"]⟩]) ∧
      conditions march false "," = .ok [⟨.oneOf false,Value.strings []⟩] := by
  have dashes : alone? march false "--web" = some (true, "-web") := by decide +kernel
  have signs : alone? march false "=web" = some (false, "web") := by decide +kernel
  refine ⟨⟨dashes,?_⟩,⟨signs,?_⟩,?_⟩
  · rw [commaListed (by decide)]
    rfl
  · rw [commaListed (by decide)]
    rfl
  · rw [commaListed (by decide)]
    rfl

end Literal

end SemanticSql
