import Mathlib.Data.List.TakeWhile
import SemanticSql.Proofs.CalendarDays
import SemanticSql.Proofs.DateWords

/-! The texts that write a relative date. A form is a phrase, words with blanks between them. -/
namespace SemanticSql.RelativeDate

open List
open Option (bind_eq_some_iff map_eq_some_iff)

inductive Phrase : List (List Char → Prop) → List Char → Prop
  | last {P word} (is : P word) : Phrase [P] word
  | cons {P Q Ps word gap rest} (is : P word) (blank : Gap gap) (more : Phrase (Q :: Ps) rest) :
      Phrase (P :: Q :: Ps) (word ++ (gap ++ rest))

inductive Writes : RelativeDate → List Char → Prop
  | today {cs} : Phrase [Spells "today"] cs → Writes .today cs
  | yesterday {cs} : Phrase [Spells "yesterday"] cs → Writes .yesterday cs
  | ago {n unit cs} : Phrase [Counts n,Names unit,Spells "ago"] cs → Writes (.ago n unit) cs
  | this {unit cs} : Phrase [Spells "this",Names unit] cs → Writes (.this unit) cs
  | last {n unit cs} : Phrase [Spells "last",Counts n,Names unit] cs → Writes (.last n unit) cs
  | lastOne {unit cs} : Phrase [Spells "last",Names unit] cs → Writes (.last 1 unit) cs
  | toDate {unit cs} : Phrase [Names unit,Spells "to",Spells "date"] cs → Writes (.toDate unit) cs
  | agoToDate {n unit cs} : Phrase [Counts n,Names unit,Spells "ago",Spells "to",Spells "date"] cs →
      Writes (.agoToDate n unit) cs
  | oneToDate {unit cs} : Phrase [Names unit,Spells "ago",Spells "to",Spells "date"] cs →
      Writes (.agoToDate 1 unit) cs
  | agoFor {n unit length lengthUnit cs} :
      Phrase [Counts n,Names unit,Spells "ago",Spells "for",Counts length,Names lengthUnit] cs →
      Writes (.agoFor n unit length lengthUnit) cs
  | between {first final cs} : Phrase [Dated first,Spells "until",Dated final] cs → Writes (.between first final) cs

def Written (d : RelativeDate) (cs : List Char) : Prop :=
  ∃ lead body trail, cs = lead ++ (body ++ trail) ∧ (∀ c ∈ lead, isSpace c) ∧ Writes d body ∧ ∀ c ∈ trail, isSpace c

variable {next : List Char → Option β} {form : Reader RelativeDate}

section Forms

variable {rest cs : List Char}

theorem phraseAppend {A B : List (List Char → Prop)} {front gap : List Char} (first : Phrase A front)
    (blank : Gap gap) (second : Phrase B rest) : Phrase (A ++ B) (front ++ (gap ++ rest)) := by
  obtain ⟨Q,B,rfl⟩ : ∃ Q more, B = Q :: more := by
    cases second with
    | last => exact ⟨_,_,rfl⟩
    | cons => exact ⟨_,_,rfl⟩
  induction first with
  | last is => exact .cons is blank second
  | cons is between _ ih =>
    rw [append_assoc,append_assoc]
    exact .cons is between ih

theorem phraseSplit {P Q : List Char → Prop} {A B : List (List Char → Prop)} (phrase : Phrase (P :: A ++ Q :: B) cs) :
    ∃ front gap rest, Phrase (P :: A) front ∧ Gap gap ∧ Phrase (Q :: B) rest ∧ cs = front ++ (gap ++ rest) := by
  induction A generalizing P cs with
  | nil =>
    rcases phrase with _ | ⟨is,blank,more⟩
    exact ⟨_,_,_,.last is,blank,more,rfl⟩
  | cons R A ih =>
    rcases phrase with _ | ⟨is,blank,more⟩
    obtain ⟨front,gap,rest,first,blank',second,rfl⟩ := ih more
    exact ⟨_,_,_,.cons is blank first,blank',second,by simp only [append_assoc]⟩

variable {α β : Type}

theorem nextRead {reader : Reader α} {P : α → List Char → Prop} {cs} {next : α × List Char → Option β} {b}
    (reads : ∀ {cs rest a}, reader cs = some (a, rest) → ∃ word, P a word ∧ cs = word ++ rest)
    (read : (reader cs >>= next) = some b) : ∃ a word rest, P a word ∧ cs = word ++ rest ∧ next (a, rest) = some b := by
  obtain ⟨⟨a,rest⟩,found,read⟩ := bind_eq_some_iff.mp read
  obtain ⟨word,is,same⟩ := reads found
  exact ⟨a,word,rest,is,same,read⟩

theorem nextGap {cs} {b} (read : (gap? cs >>= next) = some b) :
    ∃ gap rest, Gap gap ∧ cs = gap ++ rest ∧ next rest = some b := by
  obtain ⟨rest,space,read⟩ := bind_eq_some_iff.mp read
  obtain ⟨gap,blank,same⟩ := gapRead space
  exact ⟨gap,rest,blank,same,read⟩

theorem nextWord {word : String} {cs} {b} (read : (word? word.toList cs >>= next) = some b) :
    ∃ front rest, Spells word front ∧ cs = front ++ rest ∧ next rest = some b := by
  obtain ⟨rest,worded,read⟩ := bind_eq_some_iff.mp read
  obtain ⟨front,same,spelled⟩ := wordRead.mp worded
  exact ⟨front,rest,spelled,same,read⟩

theorem countAgoRead {n unit} (read : countAgo? cs = some ((n, unit), rest)) :
    ∃ front, Phrase [Counts n,Names unit,Spells "ago"] front ∧ cs = front ++ rest := by
  obtain ⟨_,_,_,counts,rfl,read₁⟩ := nextRead countRead read
  obtain ⟨_,_,blank,rfl,read₂⟩ := nextGap read₁
  obtain ⟨_,_,_,names,rfl,read₃⟩ := nextRead unitRead read₂
  obtain ⟨_,_,blank',rfl,read₄⟩ := nextGap read₃
  obtain ⟨_,_,spelled,rfl,same⟩ := nextWord read₄
  cases same
  exact ⟨_,.cons counts blank (.cons names blank' (.last spelled)),by simp only [append_assoc]⟩

theorem untilTodayRead (read : untilToday? cs = some rest) :
    ∃ gap front, Gap gap ∧ Phrase [Spells "to",Spells "date"] front ∧ cs = gap ++ (front ++ rest) := by
  obtain ⟨_,_,blank,rfl,read₁⟩ := nextGap read
  obtain ⟨_,_,spelled,rfl,read₂⟩ := nextWord read₁
  obtain ⟨_,_,blank',rfl,worded⟩ := nextGap read₂
  obtain ⟨_,rfl,spelled'⟩ := wordRead.mp worded
  exact ⟨_,_,blank,.cons spelled blank' (.last spelled'),by simp only [append_assoc]⟩

theorem countOrOneRead {n : Nat} (read : countOrOne cs = (n, rest)) :
    n = 1 ∧ rest = cs ∨ ∃ front gap, Counts n front ∧ Gap gap ∧ cs = front ++ (gap ++ rest) := by
  rw [countOrOne] at read
  split at read
  · rename_i counted
    split at read
    · rename_i space
      cases read
      obtain ⟨front,counts,rfl⟩ := countRead counted
      obtain ⟨gap,blank,rfl⟩ := gapRead space
      exact .inr ⟨front,gap,counts,blank,rfl⟩
    · cases read
      exact .inl ⟨rfl,rfl⟩
  · cases read
    exact .inl ⟨rfl,rfl⟩

theorem agoForRead {d} (read : agoFor? cs = some (d, rest)) : ∃ front, Writes d front ∧ cs = front ++ rest := by
  obtain ⟨⟨⟨n,unit⟩,_⟩,ago,read₀⟩ := bind_eq_some_iff.mp read
  obtain ⟨front,phrase,rfl⟩ := countAgoRead ago
  obtain ⟨_,_,blank,rfl,read₁⟩ := nextGap read₀
  obtain ⟨_,_,spelled,rfl,read₂⟩ := nextWord read₁
  obtain ⟨_,_,blank',rfl,read₃⟩ := nextGap read₂
  obtain ⟨_,_,_,counts,rfl,read₄⟩ := nextRead countRead read₃
  obtain ⟨_,_,blank'',rfl,read₅⟩ := nextGap read₄
  obtain ⟨_,_,_,names,rfl,same⟩ := nextRead unitRead read₅
  cases same
  exact ⟨_,.agoFor (phraseAppend phrase blank (.cons spelled blank' (.cons counts blank'' (.last names)))),
    by simp only [append_assoc]⟩

theorem agoToDateRead {d} (read : agoToDate? cs = some (d, rest)) : ∃ front, Writes d front ∧ cs = front ++ rest := by
  unfold agoToDate? at read
  rcases counted : countOrOne cs with ⟨n,left⟩
  rw [counted] at read
  obtain ⟨_,_,_,names,rfl,read₁⟩ := nextRead unitRead read
  obtain ⟨_,_,blank,rfl,read₂⟩ := nextGap read₁
  obtain ⟨_,_,spelled,rfl,read₃⟩ := nextWord read₂
  obtain ⟨_,toDate,same⟩ := bind_eq_some_iff.mp read₃
  cases same
  obtain ⟨_,_,blank',phrase,rfl⟩ := untilTodayRead toDate
  have unitAgo := phraseAppend (.cons names blank (.last (P := Spells "ago") spelled)) blank' phrase
  rcases countOrOneRead counted with ⟨rfl,rfl⟩ | ⟨_,_,counts,blank'',rfl⟩
  · exact ⟨_,.oneToDate unitAgo,by simp only [append_assoc]⟩
  · exact ⟨_,.agoToDate (.cons counts blank'' unitAgo),by simp only [append_assoc]⟩

theorem lastRead {d} (read : last? cs = some (d, rest)) : ∃ front, Writes d front ∧ cs = front ++ rest := by
  obtain ⟨_,_,spelled,rfl,read₁⟩ := nextWord read
  obtain ⟨_,after,blank,rfl,read₂⟩ := nextGap read₁
  rcases counted : countOrOne after with ⟨n,left⟩
  rw [counted] at read₂
  obtain ⟨_,_,_,names,rfl,same⟩ := nextRead unitRead read₂
  cases same
  rcases countOrOneRead counted with ⟨rfl,rfl⟩ | ⟨_,_,counts,blank',rfl⟩
  · exact ⟨_,.lastOne (.cons spelled blank (.last names)),by simp only [append_assoc]⟩
  · exact ⟨_,.last (.cons spelled blank (.cons counts blank' (.last names))),by simp only [append_assoc]⟩

theorem formRead (listed : form ∈ forms) {d}
    (read : form cs = some (d, rest)) : ∃ front, Writes d front ∧ cs = front ++ rest := by
  simp only [forms,mem_cons,not_mem_nil,or_false] at listed
  rcases listed with rfl | rfl | rfl | rfl | rfl | rfl | rfl | rfl | rfl
  · obtain ⟨_,worded,same⟩ := map_eq_some_iff.mp read
    cases same
    obtain ⟨_,rfl,spelled⟩ := wordRead.mp worded
    exact ⟨_,.today (.last spelled),rfl⟩
  · obtain ⟨_,worded,same⟩ := map_eq_some_iff.mp read
    cases same
    obtain ⟨_,rfl,spelled⟩ := wordRead.mp worded
    exact ⟨_,.yesterday (.last spelled),rfl⟩
  · exact agoForRead read
  · exact agoToDateRead read
  · obtain ⟨⟨⟨n,unit⟩,_⟩,ago,same⟩ := map_eq_some_iff.mp read
    cases same
    obtain ⟨front,phrase,rfl⟩ := countAgoRead ago
    exact ⟨_,.ago phrase,rfl⟩
  · obtain ⟨_,_,spelled,rfl,read₁⟩ := nextWord read
    obtain ⟨_,_,blank,rfl,read₂⟩ := nextGap read₁
    obtain ⟨_,_,_,names,rfl,same⟩ := nextRead unitRead read₂
    cases same
    exact ⟨_,.this (.cons spelled blank (.last names)),by simp only [append_assoc]⟩
  · exact lastRead read
  · obtain ⟨_,_,_,names,rfl,read₁⟩ := nextRead unitRead read
    obtain ⟨_,toDate,same⟩ := bind_eq_some_iff.mp read₁
    cases same
    obtain ⟨_,_,blank,phrase,rfl⟩ := untilTodayRead toDate
    exact ⟨_,.toDate (phraseAppend (.last names) blank phrase),by simp only [append_assoc]⟩
  · obtain ⟨_,_,_,starts,rfl,read₁⟩ := nextRead dateRead read
    obtain ⟨_,_,blank,rfl,read₂⟩ := nextGap read₁
    obtain ⟨_,_,spelled,rfl,read₃⟩ := nextWord read₂
    obtain ⟨_,_,blank',rfl,read₄⟩ := nextGap read₃
    obtain ⟨_,_,_,ends,rfl,same⟩ := nextRead dateRead read₄
    cases same
    exact ⟨_,.between (.cons starts blank (.cons spelled blank' (.last ends))),by simp only [append_assoc]⟩

end Forms

variable {d : RelativeDate} {unit : Interval}

section Order

variable {α β : Type} {x : Option α} {f : α → Option β} {cs trail : List Char}

theorem bindNext {a : α} (found : x = some a) : (x >>= f) = f a := by rw [found]; rfl

theorem bindMissed (missed : x = none) : (x >>= f) = none := by rw [missed]; rfl

variable {word gap rest front : List Char} {c : Char} {n : Nat}

theorem gapNext (blank : Gap gap) (starts : Starts word) :
    (gap? (gap ++ (word ++ rest)) >>= next) = next (word ++ rest) :=
  bindNext (gapTaken blank (startsApart (startsAppend starts rest)))

theorem countAgoTaken {n unit} (phrase : Phrase [Counts n,Names unit,Spells "ago"] front) :
    countAgo? (front ++ rest) = some ((n, unit), rest) := by
  rcases phrase with _ | ⟨counts,blank,_ | ⟨names,blank',spelled | _⟩⟩
  simp only [append_assoc]
  refine (bindNext (countTaken counts (spaceNotDigit (gapEnds blank _)))).trans ?_
  refine (gapNext blank (unitStarts names)).trans ?_
  refine (bindNext (unitTaken names (gapEnds blank' _))).trans ?_
  refine (gapNext blank' (spellStarts spelled (by decide))).trans ?_
  exact bindNext (wordTaken spelled rest)

theorem untilTodayTaken (blank : Gap gap) (phrase : Phrase [Spells "to",Spells "date"] front)
    (rest : List Char) : untilToday? (gap ++ (front ++ rest)) = some rest := by
  rcases phrase with _ | ⟨spelled,blank',spelled' | _⟩
  simp only [append_assoc]
  refine (gapNext blank (spellStarts spelled (by decide))).trans ?_
  refine (bindNext (wordTaken spelled _)).trans ?_
  refine (gapNext blank' (spellStarts spelled' (by decide))).trans ?_
  exact wordTaken spelled' rest

theorem trailMissed {word : String} (letters : word.toList ≠ []) (blank : ∀ c ∈ trail, isSpace c)
    (next : List Char → Option β) : ((gap? trail) >>= fun cs => word? word.toList cs >>= next) = none := by
  cases space : gap? trail with
  | none => rfl
  | some rest =>
    rw [gap?] at space
    split at space
    · cases space
      rw [dropWhile_eq_nil_iff.mpr blank]
      refine (bindNext rfl).trans (bindMissed ?_)
      obtain ⟨w,more,same⟩ := exists_cons_of_ne_nil letters
      rw [same]
      rfl
    · cases space

theorem otherLower (other : ¬ (65 ≤ c.toNat ∧ c.toNat ≤ 90)) : c.toLower = c := by
  refine dif_neg fun upper => other ?_
  simpa [UInt32.le_iff_toNat_le] using upper

theorem digitLower (digit : c.isDigit) : c.toLower = c := by
  have range := digitRange digit
  exact otherLower (by omega)

theorem digitsOpen {ds : List Char} (digits : Digits ds) (rest : List Char) :
    ∃ c : Char, c.isDigit ∧ Opens [c] (ds ++ rest) := by
  obtain ⟨c,more,rfl⟩ := exists_cons_of_ne_nil digits.1
  have digit := digits.2 c mem_cons_self
  exact ⟨c,digit,(more ++ rest).map Char.toLower,by simp [digitLower digit]⟩

theorem digitApart (digit : c.isDigit) (letter : word.head?.any fun c => !c.isDigit) : Apart [c] word := by
  cases word with
  | nil => cases letter
  | cons w word =>
    have different : c ≠ w := by
      rintro rfl
      simp [digit] at letter
    simp [Apart,cons_prefix_cons,different,Ne.symm different]

theorem countMissed (opens : Opens word cs) (letter : word.head?.any fun c => !c.isDigit) :
    cs.takeWhile Char.isDigit = [] := by
  cases cs with
  | nil => rfl
  | cons c cs =>
    refine takeWhile_cons_of_neg fun digit => ?_
    have both := digitApart digit letter
    refine (List.prefix_or_prefix_of_prefix opens ?_).elim both.2 both.1
    exact ⟨cs.map Char.toLower,by simp [digitLower digit]⟩

theorem unitMissed (opens : Opens word cs)
    (apart : ∀ unit ∈ units, Apart word (unit.name.toList ++ ['s']) ∧ Apart word unit.name.toList) :
    unit? cs = none := by
  rw [unitWords]
  refine findSome?_eq_none_iff.mpr fun unit listed => ?_
  rw [unitWord?,wordApart opens (apart unit listed).1,wordApart opens (apart unit listed).2]
  rfl

theorem letterMissed (opens : Opens word cs) (letter : word.head?.any fun c => !c.isDigit) :
    countAgo? cs = none ∧ countOrOne cs = (1, cs) ∧ between? cs = none := by
  have nothing := countMissed opens letter
  have count : count? cs = none := by simp [count?,nothing]
  refine ⟨bindMissed count,by rw [countOrOne,count],bindMissed ?_⟩
  refine Option.eq_none_iff_forall_ne_some.mpr fun found read => ?_
  obtain ⟨_,⟨⟨year,month,day,rfl,years,_⟩,_⟩,rfl⟩ := dateRead read
  obtain ⟨c,more,rfl⟩ := exists_cons_of_ne_nil years.1
  simp [years.2 c mem_cons_self] at nothing

def firstForm (forms : List (Reader RelativeDate)) (cs : List Char) : Option (RelativeDate × List Char) :=
  forms.findSome? fun form => form cs

theorem formSkipped (missed : form cs = none) (others : List (Reader RelativeDate)) :
    firstForm (form :: others) cs = firstForm others cs := by
  rw [firstForm,findSome?_cons,missed]
  rfl

theorem formChosen {found} (taken : form cs = some found)
    (others : List (Reader RelativeDate)) : firstForm (form :: others) cs = some found := by
  rw [firstForm,findSome?_cons,taken]

/- Of a text that begins with a digit, the forms that begin with a word or a unit are skipped. -/
theorem digitFirst (digit : c.isDigit) (opens : Opens [c] cs) :
    firstForm forms cs = firstForm [agoFor?,agoToDate?,ago?,between?] cs ∧ unit? cs = none := by
  have letters : ∀ word ∈ ["today","yesterday","this","last"], word.toList.head?.any fun c => !c.isDigit := by decide
  have missed word listed := wordApart opens (digitApart digit (letters word listed))
  have names : ∀ unit ∈ units, ((unit.name.toList ++ ['s']).head?.any fun c => !c.isDigit) ∧
      unit.name.toList.head?.any fun c => !c.isDigit := by decide
  have unit : unit? cs = none := unitMissed opens fun unit listed =>
    ⟨digitApart digit (names unit listed).1,digitApart digit (names unit listed).2⟩
  have this : this? cs = none := bindMissed (missed "this" (by simp))
  have last : last? cs = none := bindMissed (missed "last" (by simp))
  have toDate : toDate? cs = none := bindMissed unit
  refine ⟨?_,unit⟩
  simp only [firstForm,forms,findSome?_cons,missed "today" (by simp),missed "yesterday" (by simp),this,last,
    toDate,Option.map_none]

theorem unitFirst (names : Names unit word) (rest : List Char) :
    firstForm forms (word ++ rest) = firstForm [agoToDate?,toDate?] (word ++ rest) ∧
      countOrOne (word ++ rest) = (1, word ++ rest) := by
  have known : ∀ unit ∈ units, ∀ spelling ∈ spellings unit, (spelling.head?.any fun c => !c.isDigit) ∧
      ∀ other ∈ ["today","yesterday","this","last"], Apart spelling other.toList := by decide
  obtain ⟨spelling,listed,opens⟩ := unitOpens names rest
  obtain ⟨letter,apart⟩ := known unit names.1 spelling listed
  obtain ⟨countAgo,one,between⟩ := letterMissed opens letter
  have missed other listed := wordApart opens (apart other listed)
  have this : this? (word ++ rest) = none := bindMissed (missed "this" (by simp))
  have last : last? (word ++ rest) = none := bindMissed (missed "last" (by simp))
  have agoFor : agoFor? (word ++ rest) = none := bindMissed countAgo
  have ago : ago? (word ++ rest) = none := by rw [ago?,countAgo]; rfl
  refine ⟨?_,one⟩
  simp only [firstForm,forms,findSome?_cons,missed "today" (by simp),missed "yesterday" (by simp),this,last,
    agoFor,ago,between,findSome?_nil,Option.map_none]

theorem wordFirst {word : String} (spelled : Spells word front) (rest : List Char)
    (known : word ∈ ["this","last"]) : firstForm forms (front ++ rest) = firstForm [this?,last?] (front ++ rest) := by
  have apart : ∀ word ∈ ["this","last"], (word.toList.head?.any fun c => !c.isDigit) ∧
      (∀ other ∈ ["today","yesterday"], Apart word.toList other.toList) ∧
      ∀ unit ∈ units, Apart word.toList (unit.name.toList ++ ['s']) ∧ Apart word.toList unit.name.toList := by decide
  obtain ⟨letter,others,names⟩ := apart word known
  have opens := spellOpens spelled rest
  obtain ⟨countAgo,one,between⟩ := letterMissed opens letter
  have missed other listed := wordApart opens (others other listed)
  have unit := unitMissed opens names
  have agoFor : agoFor? (front ++ rest) = none := bindMissed countAgo
  have agoToDate : agoToDate? (front ++ rest) = none := by
    rw [agoToDate?,one]
    exact bindMissed unit
  have ago : ago? (front ++ rest) = none := by rw [ago?,countAgo]; rfl
  have toDate : toDate? (front ++ rest) = none := bindMissed unit
  simp only [firstForm,forms,findSome?_cons,missed "today" (by simp),missed "yesterday" (by simp),agoFor,
    agoToDate,ago,toDate,between,findSome?_nil,Option.map_none]

theorem countOrOneTaken (counts : Counts n word) (blank : Gap gap)
    (starts : Starts rest) : countOrOne (word ++ (gap ++ rest)) = (n, rest) := by
  rw [countOrOne,countTaken counts (spaceNotDigit (gapEnds blank _))]
  simp only [gapTaken blank (startsApart starts)]

theorem agoToDateBehind
    (counted : countOrOne cs = (n, word ++ (gap ++ (front ++ rest)))) (names : Names unit word) (blank : Gap gap)
    (spelled : Spells "ago" front) :
    agoToDate? cs = (untilToday? rest).map fun left => (.agoToDate n unit, left) := by
  rw [agoToDate?,counted]
  refine (bindNext (unitTaken names (gapEnds blank _))).trans ?_
  refine (gapNext blank (spellStarts spelled (by decide))).trans ?_
  refine (bindNext (wordTaken spelled rest)).trans ?_
  cases untilToday? rest <;> rfl

theorem agoFirst {n unit front} (phrase : Phrase [Counts n,Names unit,Spells "ago"] front) (rest : List Char) :
    firstForm forms (front ++ rest) = firstForm [agoFor?,agoToDate?,ago?,between?] (front ++ rest) ∧
      countAgo? (front ++ rest) = some ((n, unit), rest) ∧
      agoToDate? (front ++ rest) = (untilToday? rest).map fun left => (.agoToDate n unit, left) := by
  refine ⟨?_,countAgoTaken phrase,?_⟩
  · rcases phrase with _ | ⟨counts,gap,more⟩
    rw [append_assoc]
    obtain ⟨c,digit,opens⟩ := digitsOpen (numeralIff.mp counts.1).1 _
    exact (digitFirst digit opens).1
  · rcases phrase with _ | ⟨counts,gap,_ | ⟨names,gap',spelled | _⟩⟩
    simp only [append_assoc]
    exact agoToDateBehind (countOrOneTaken counts gap (startsAppend (unitStarts names) _)) names gap' spelled

theorem agoTaken {n unit body} (phrase : Phrase [Counts n,Names unit,Spells "ago"] body)
    (blank : ∀ c ∈ trail, isSpace c) : firstForm forms (body ++ trail) = some (.ago n unit, trail) := by
  obtain ⟨choice,countAgo,agoToDate⟩ := agoFirst phrase trail
  have agoFor : agoFor? (body ++ trail) = none := (bindNext countAgo).trans (trailMissed (by decide) blank _)
  have toDate : untilToday? trail = none := trailMissed (by decide) blank _
  rw [toDate] at agoToDate
  rw [choice,formSkipped agoFor,formSkipped agoToDate]
  exact formChosen (by rw [ago?,countAgo]; rfl) _

theorem agoToDateTaken {n unit body}
    (phrase : Phrase [Counts n,Names unit,Spells "ago",Spells "to",Spells "date"] body) :
    firstForm forms (body ++ trail) = some (.agoToDate n unit, trail) := by
  obtain ⟨front,gap,rest,ago,blank,toDate,rfl⟩ := phraseSplit (A := [Names unit,Spells "ago"]) phrase
  rw [append_assoc,append_assoc]
  obtain ⟨choice,countAgo,agoToDate⟩ := agoFirst ago (gap ++ (rest ++ trail))
  rw [untilTodayTaken blank toDate] at agoToDate
  have agoFor : agoFor? (front ++ (gap ++ (rest ++ trail))) = none := by
    rcases toDate with _ | ⟨spelled,-,-⟩
    refine (bindNext countAgo).trans ?_
    rw [append_assoc]
    refine (gapNext blank (spellStarts spelled (by decide))).trans ?_
    exact bindMissed (wordApart (spellOpens spelled _) (by decide))
  rw [choice,formSkipped agoFor]
  exact formChosen agoToDate _

theorem agoForTaken {n unit length lengthUnit body}
    (phrase : Phrase [Counts n,Names unit,Spells "ago",Spells "for",Counts length,Names lengthUnit] body)
    (ends : Ends trail) : firstForm forms (body ++ trail) = some (.agoFor n unit length lengthUnit, trail) := by
  obtain ⟨front,gap,rest,ago,blank,more,rfl⟩ := phraseSplit (A := [Names unit,Spells "ago"]) phrase
  rcases more with _ | ⟨spelled,blank',_ | ⟨counts,blank'',names | _⟩⟩
  simp only [append_assoc]
  obtain ⟨choice,countAgo,-⟩ := agoFirst ago _
  rw [choice]
  refine formChosen ?_ _
  refine (bindNext countAgo).trans ?_
  refine (gapNext blank (spellStarts spelled (by decide))).trans ?_
  refine (bindNext (wordTaken spelled _)).trans ?_
  refine (gapNext blank' (countStarts counts)).trans ?_
  refine (bindNext (countTaken counts (spaceNotDigit (gapEnds blank'' _)))).trans ?_
  refine (gapNext blank'' (unitStarts names)).trans ?_
  exact bindNext (unitTaken names ends)

theorem oneToDateTaken {unit body} (phrase : Phrase [Names unit,Spells "ago",Spells "to",Spells "date"] body) :
    firstForm forms (body ++ trail) = some (.agoToDate 1 unit, trail) := by
  rcases phrase with _ | ⟨names,gap,_ | ⟨spelled,gap',toDate⟩⟩
  simp only [append_assoc]
  rw [(unitFirst names _).1]
  refine formChosen ((agoToDateBehind (unitFirst names _).2 names gap spelled).trans ?_) _
  rw [untilTodayTaken gap' toDate]
  rfl

theorem toDateTaken {unit body} (phrase : Phrase [Names unit,Spells "to",Spells "date"] body) :
    firstForm forms (body ++ trail) = some (.toDate unit, trail) := by
  rcases phrase with _ | ⟨names,gap,toDate⟩
  have starts := toDate
  rcases starts with _ | ⟨spelled,-,-⟩
  simp only [append_assoc]
  rw [(unitFirst names _).1,formSkipped]
  · refine formChosen ((bindNext (unitTaken names (gapEnds gap _))).trans (bindNext ?_)) _
    rw [← untilTodayTaken gap toDate trail]
    simp only [append_assoc]
  · rw [agoToDate?,(unitFirst names _).2]
    refine (bindNext (unitTaken names (gapEnds gap _))).trans ?_
    refine (gapNext gap (spellStarts spelled (by decide))).trans ?_
    exact bindMissed (wordApart (spellOpens spelled _) (by decide))

theorem thisTaken {unit body} (phrase : Phrase [Spells "this",Names unit] body) (ends : Ends trail) :
    firstForm forms (body ++ trail) = some (.this unit, trail) := by
  rcases phrase with _ | ⟨spelled,gap,names | _⟩
  simp only [append_assoc]
  rw [wordFirst spelled _ (by simp)]
  refine formChosen ((bindNext (wordTaken spelled _)).trans ?_) _
  refine (gapNext gap (unitStarts names)).trans ?_
  exact bindNext (unitTaken names ends)

theorem lastTaken {n unit front gap rest word} (spelled : Spells "last" front) (blank : Gap gap) (starts : Starts rest)
    (counted : countOrOne rest = (n, word ++ trail)) (names : Names unit word) (ends : Ends trail) :
    firstForm forms (front ++ (gap ++ rest)) = some (.last n unit, trail) := by
  rw [wordFirst spelled _ (by simp),formSkipped (bindMissed (wordApart (spellOpens spelled _) (by decide)))]
  refine formChosen ((bindNext (wordTaken spelled _)).trans ?_) _
  refine (bindNext (gapTaken blank (startsApart starts))).trans ?_
  rw [counted]
  exact bindNext (unitTaken names ends)

/- A date is no count: its digits are followed by a dash, not by a blank. -/
theorem dateFirst {d : Date} (dated : Dated d word) (rest : List Char) :
    firstForm forms (word ++ rest) = between? (word ++ rest) := by
  obtain ⟨year,month,day,rfl,years,-⟩ := dated.1
  simp only [append_assoc,cons_append]
  generalize month ++ '-' :: (day ++ rest) = more
  have counted : count? (year ++ '-' :: more) = none ∨ ∃ n, count? (year ++ '-' :: more) = some (n, '-' :: more) := by
    simp only [count?,(Text.span_append years.2 (dashEnds more)).1,drop_left]
    split
    · exact .inl rfl
    · exact .inr ⟨_,rfl⟩
  have dash : gap? ('-' :: more) = none := rfl
  have countAgo : countAgo? (year ++ '-' :: more) = none := by
    rcases counted with missed | ⟨n,found⟩
    · exact bindMissed missed
    · exact (bindNext found).trans (bindMissed dash)
  have one : countOrOne (year ++ '-' :: more) = (1, year ++ '-' :: more) := by
    rcases counted with missed | ⟨n,found⟩
    · rw [countOrOne,missed]
    · simp only [countOrOne,found,dash]
  obtain ⟨c,digit,opens⟩ := digitsOpen years ('-' :: more)
  obtain ⟨choice,unit⟩ := digitFirst digit opens
  have agoFor : agoFor? (year ++ '-' :: more) = none := bindMissed countAgo
  have agoToDate : agoToDate? (year ++ '-' :: more) = none := by
    rw [agoToDate?,one]
    exact bindMissed unit
  have ago : ago? (year ++ '-' :: more) = none := by rw [ago?,countAgo]; rfl
  rw [choice,formSkipped agoFor,formSkipped agoToDate,formSkipped ago,firstForm,findSome?_cons]
  cases between? (year ++ '-' :: more) <;> rfl

theorem betweenTaken {first final body} (phrase : Phrase [Dated first,Spells "until",Dated final] body)
    (ends : Ends trail) : firstForm forms (body ++ trail) = some (.between first final, trail) := by
  rcases phrase with _ | ⟨starts,gap,_ | ⟨spelled,gap',dated | _⟩⟩
  simp only [append_assoc]
  rw [dateFirst starts]
  refine (bindNext (dateTaken starts (spaceNotDigit (gapEnds gap _)))).trans ?_
  refine (gapNext gap (spellStarts spelled (by decide))).trans ?_
  refine (bindNext (wordTaken spelled _)).trans ?_
  refine (gapNext gap' (dateStarts dated)).trans ?_
  exact bindNext (dateTaken dated (spaceNotDigit ends))

theorem formsTaken {body : List Char} (writes : Writes d body) (blank : ∀ c ∈ trail, isSpace c) :
    firstForm forms (body ++ trail) = some (d, trail) := by
  have ends : Ends trail := fun c mem => blank c (mem_of_mem_head? mem)
  cases writes with
  | today phrase =>
    rcases phrase with spelled | _
    exact formChosen (congrArg _ (wordTaken spelled trail)) _
  | yesterday phrase =>
    rcases phrase with spelled | _
    exact (formSkipped (congrArg _ (wordApart (spellOpens spelled trail) (by decide))) _).trans
      (formChosen (congrArg _ (wordTaken spelled trail)) _)
  | ago phrase => exact agoTaken phrase blank
  | this phrase => exact thisTaken phrase ends
  | last phrase =>
    rcases phrase with _ | ⟨spelled,gap,_ | ⟨counts,gap',names | _⟩⟩
    simp only [append_assoc]
    exact lastTaken spelled gap (startsAppend (countStarts counts) _)
      (countOrOneTaken counts gap' (startsAppend (unitStarts names) _)) names ends
  | lastOne phrase =>
    rcases phrase with _ | ⟨spelled,gap,names | _⟩
    simp only [append_assoc]
    exact lastTaken spelled gap (startsAppend (unitStarts names) _) (unitFirst names _).2 names ends
  | toDate phrase => exact toDateTaken phrase
  | agoToDate phrase => exact agoToDateTaken phrase
  | oneToDate phrase => exact oneToDateTaken phrase
  | agoFor phrase => exact agoForTaken phrase ends
  | between phrase => exact betweenTaken phrase ends

end Order

theorem phraseStarts {P : List Char → Prop} {A : List (List Char → Prop)} {front : List Char}
    (phrase : Phrase (P :: A) front) (starts : ∀ word, P word → Starts word) : Starts front := by
  cases phrase with
  | last is => exact starts _ is
  | cons is blank more => exact startsAppend (starts _ is) _

theorem writesStarts {body : List Char} (writes : Writes d body) : Starts body := by
  have spelled : ∀ word : String, (word.toList.head?.any fun c => !isSpace c) → ∀ cs, Spells word cs → Starts cs :=
    fun word letter cs spells => spellStarts spells letter
  cases writes with
  | today phrase | yesterday phrase | this phrase | last phrase | lastOne phrase =>
    exact phraseStarts phrase (spelled _ (by decide))
  | ago phrase | agoToDate phrase | agoFor phrase => exact phraseStarts phrase fun _ => countStarts
  | toDate phrase | oneToDate phrase => exact phraseStarts phrase fun _ => unitStarts
  | between phrase => exact phraseStarts phrase fun _ => dateStarts

theorem parseForm (s : String) : parse? s =
    (firstForm forms (s.toList.dropWhile isSpace)).bind fun found =>
      if (found.2.dropWhile isSpace).isEmpty then some found.1 else none := by
  rw [parse?,firstForm]
  split
  · rename_i found
    rw [found]
    rfl
  · rename_i missed
    rw [missed]
    rfl

theorem readWritten (s : String) (d : RelativeDate) : parse? s = some d ↔ Written d s.toList := by
  rw [parseForm]
  constructor
  · intro read
    obtain ⟨⟨found,rest⟩,chosen,ended⟩ := bind_eq_some_iff.mp read
    obtain ⟨form,listed,taken⟩ := exists_of_findSome?_eq_some chosen
    obtain ⟨body,writes,joined⟩ := formRead listed taken
    split at ended
    · rename_i empty
      cases ended
      refine ⟨s.toList.takeWhile isSpace,body,rest,?_,fun c mem => ?_,writes,fun c mem => ?_⟩
      · rw [← joined,takeWhile_append_dropWhile]
      · exact all_eq_true.mp all_takeWhile c mem
      · exact dropWhile_eq_nil_iff.mp (List.isEmpty_iff.mp empty) c mem
    · cases ended
  · rintro ⟨lead,body,trail,joined,blank,writes,blank'⟩
    have whole := (Text.span_append blank (startsApart (startsAppend (writesStarts writes) trail))).2
    rw [joined,whole,formsTaken writes blank',Option.bind_some,dropWhile_eq_nil_iff.mpr blank']
    rfl

section Writable

structure Unsigned (d : Date) : Prop where
  proper : d.Proper
  year : 0 ≤ d.year ∧ d.year ≤ 9999

def Writable : RelativeDate → Prop
  | .today | .yesterday => True
  | .this unit | .toDate unit => unit ∈ units
  | .ago n unit | .last n unit | .agoToDate n unit => n < twoTo 32 ∧ unit ∈ units
  | .agoFor n unit length lengthUnit => (n < twoTo 32 ∧ unit ∈ units) ∧ length < twoTo 32 ∧ lengthUnit ∈ units
  | .between first final => Unsigned first ∧ Unsigned final

theorem digitVisible {c : Char} (digit : c.isDigit) : Text.isBlank c = false := by
  have range := digitRange digit
  simp only [Text.isBlank,Bool.or_eq_false_iff,Bool.and_eq_false_iff,decide_eq_false_iff_not,beq_eq_false_iff_ne]
  omega

variable {ds : List Char}

theorem digitsTrimmed (digits : Digits ds) (rest : List Char) : Text.trimLeft (ds ++ rest) = ds ++ rest := by
  obtain ⟨c,more,rfl⟩ := exists_cons_of_ne_nil digits.1
  exact dropWhile_cons_of_neg (by simp [digitVisible (digits.2 c mem_cons_self)])

theorem numberRead {width : Nat} {rest : List Char} (digits : Digits ds) (ends : ∀ c ∈ rest.head?, c.isDigit = false)
    (positive : 0 < width) :
    Calendar.number? width (ds ++ rest) =
      some (Nat.ofDigitChars 10 (ds.take width) 0, (ds ++ rest).drop (ds.take width).length) := by
  have some : (ds.take width).isEmpty = false := by
    obtain ⟨c,more,rfl⟩ := exists_cons_of_ne_nil digits.1
    obtain ⟨width,rfl⟩ := Nat.exists_eq_succ_of_ne_zero (Nat.ne_of_gt positive)
    rfl
  simp only [Calendar.number?,digitsTrimmed digits,(Text.span_append digits.2 ends).1,decimalValue,some]
  rfl

theorem numeralRead (width : Nat) (rest : List Char) {n : Nat} (ends : ∀ c ∈ rest.head?, c.isDigit = false)
    (positive : 0 < width) (small : n < 10 ^ width) :
    Calendar.number? width (Nat.toDigits 10 n ++ rest) = some (n, rest) := by
  have short := (Nat.length_toDigits_le_iff (by decide) positive).mpr small
  rw [numberRead (toDigitsDigits n) ends positive,take_of_length_le short,Nat.ofDigitChars_ten_toDigits,
    drop_left]

theorem digitsSmall (digits : ∀ c ∈ ds, c.isDigit) : Nat.ofDigitChars 10 ds 0 < 10 ^ ds.length := by
  cases ds with
  | nil => decide
  | cons c ds =>
    obtain ⟨zeros,same⟩ := digitsNumeral ⟨cons_ne_nil c ds,digits⟩
    refine (Nat.length_toDigits_le_iff (by decide) (by simp)).mp ?_
    have lengths := congrArg List.length same
    rw [length_append] at lengths
    omega

theorem yearRead (digits : Digits ds) (rest : List Char) :
    Calendar.year? (ds ++ rest) = (Calendar.number? 4 (ds ++ rest)).map fun p => (Int.ofNat p.1, p.2) := by
  obtain ⟨c,more,rfl⟩ := exists_cons_of_ne_nil digits.1
  have digit : c.isDigit := digits.2 c mem_cons_self
  rw [Calendar.year?,digitsTrimmed digits]
  split
  · rename_i same
    cases same
    cases digit
  · rename_i same
    cases same
    cases digit
  · rfl

theorem datedUnsigned {d : Date} {cs : List Char} (dated : Dated d cs) : Unsigned d := by
  obtain ⟨⟨year,month,day,rfl,years,-⟩,parsed⟩ := dated
  rw [Date.parse?,String.toList_ofList] at parsed
  split at parsed
  · rename_i lead
    cases parsed
    obtain ⟨⟨_,_⟩,first,lead⟩ := bind_eq_some_iff.mp lead
    obtain ⟨_,-,lead⟩ := bind_eq_some_iff.mp lead
    obtain ⟨⟨_,_⟩,-,lead⟩ := bind_eq_some_iff.mp lead
    obtain ⟨_,-,lead⟩ := bind_eq_some_iff.mp lead
    obtain ⟨⟨_,_⟩,-,lead⟩ := bind_eq_some_iff.mp lead
    obtain ⟨_,found,same⟩ := bind_eq_some_iff.mp lead
    cases same
    rw [yearRead years,numberRead years (dashEnds _) (by decide)] at first
    cases first
    rw [Date.of?] at found
    split at found
    · rename_i known
      cases found
      have digits : ∀ c ∈ year.take 4, c.isDigit := fun c mem => years.2 c (mem_of_mem_take mem)
      have small := digitsSmall digits
      have short : (year.take 4).length ≤ 4 := length_take_le 4 year
      have bound := Nat.pow_le_pow_right (n := 10) (by decide) short
      refine ⟨⟨⟨known.2.1,known.2.2.1⟩,known.2.2.2⟩,?_⟩
      simp only [Int.ofNat_eq_natCast]
      omega
    · cases found
  · cases parsed

theorem monthShort (year : Int) {month : Nat} (known : 1 ≤ month ∧ month ≤ 12) : Date.daysInMonth year month ≤ 31 := by
  obtain ⟨least,greatest⟩ := known
  cases leap : Date.isLeap year <;> interval_cases month <;> simp [Date.daysInMonth,Date.monthLengths,leap]

theorem unsignedDated {d : Date} (unsigned : Unsigned d) : ∃ cs, Dated d cs := by
  obtain ⟨⟨months,days⟩,years⟩ := unsigned
  have short := monthShort d.year months
  refine ⟨_,⟨Nat.toDigits 10 d.year.toNat,Nat.toDigits 10 d.month,Nat.toDigits 10 d.day,rfl,toDigitsDigits _,
    toDigitsDigits _,toDigitsDigits _⟩,?_⟩
  have year := numeralRead 4 _ (dashEnds (Nat.toDigits 10 d.month ++ '-' :: Nat.toDigits 10 d.day)) (by decide)
    (show d.year.toNat < 10 ^ 4 by omega)
  have month := numeralRead 2 _ (dashEnds (Nat.toDigits 10 d.day)) (by decide) (show d.month < 10 ^ 2 by omega)
  have day := numeralRead 2 [] (by simp) (by decide) (show d.day < 10 ^ 2 by omega)
  rw [append_nil] at day
  have marked : ∀ cs, Calendar.mark? '-' ('-' :: cs) = some cs := fun cs => markRead.mpr rfl
  have found : Date.of? (Int.ofNat d.year.toNat) d.month d.day = some d := by
    rw [Int.ofNat_eq_natCast,Int.toNat_of_nonneg years.1]
    refine if_pos ⟨decide_eq_true ⟨?_,?_⟩,months.1,months.2,days⟩
    · exact Int.le_trans (by decide) years.1
    · exact Int.le_trans years.2 (by decide)
  simp only [Date.parse?,String.toList_ofList,Calendar.dateLead?,yearRead (toDigitsDigits _),year,month,day,
    marked,Option.bind_eq_bind,Option.map_some,Option.bind_some,found]

theorem writtenAlone (known : unit ∈ units) : Names unit unit.name.toList :=
  ⟨known,.inl ((by decide : ∀ unit ∈ units, Spells unit.name unit.name.toList) unit known)⟩

theorem writesWritable {cs : List Char} (writes : Writes d cs) : d.Writable := by
  cases writes with
  | today | yesterday => trivial
  | ago phrase =>
    rcases phrase with _ | ⟨counts,_,_ | ⟨names,_,_⟩⟩
    exact ⟨counts.2,names.1⟩
  | this phrase =>
    rcases phrase with _ | ⟨_,_,names | _⟩
    exact names.1
  | last phrase =>
    rcases phrase with _ | ⟨_,_,_ | ⟨counts,_,names | _⟩⟩
    exact ⟨counts.2,names.1⟩
  | lastOne phrase =>
    rcases phrase with _ | ⟨_,_,names | _⟩
    exact ⟨by decide,names.1⟩
  | toDate phrase =>
    rcases phrase with _ | ⟨names,_,_⟩
    exact names.1
  | agoToDate phrase =>
    rcases phrase with _ | ⟨counts,_,_ | ⟨names,_,_⟩⟩
    exact ⟨counts.2,names.1⟩
  | oneToDate phrase =>
    rcases phrase with _ | ⟨names,_,_⟩
    exact ⟨by decide,names.1⟩
  | agoFor phrase =>
    rcases phrase with _ | ⟨counts,_,_ | ⟨names,_,_ | ⟨_,_,_ | ⟨_,_,_ | ⟨counts',_,names' | _⟩⟩⟩⟩⟩
    exact ⟨⟨counts.2,names.1⟩,counts'.2,names'.1⟩
  | between phrase =>
    rcases phrase with _ | ⟨first,_,_ | ⟨_,_,final | _⟩⟩
    exact ⟨datedUnsigned first,datedUnsigned final⟩

theorem writableWrites (writable : d.Writable) : ∃ cs, Writes d cs := by
  have space : Gap [' '] := ⟨cons_ne_nil _ _,forall_mem_singleton.mpr rfl⟩
  have count {n : Nat} (fits : n < twoTo 32) : Counts n (Nat.toDigits 10 n) := ⟨⟨0,rfl⟩,fits⟩
  have plain : ∀ word ∈ ["today","yesterday","ago","this","last","to","date","for","until"],
      Spells word word.toList := by decide
  cases d with
  | today => exact ⟨_,.today (.last (plain "today" (by simp)))⟩
  | yesterday => exact ⟨_,.yesterday (.last (plain "yesterday" (by simp)))⟩
  | ago n unit =>
    exact ⟨_,.ago (.cons (count writable.1) space (.cons (writtenAlone writable.2) space
      (.last (plain "ago" (by simp)))))⟩
  | this unit => exact ⟨_,.this (.cons (plain "this" (by simp)) space (.last (writtenAlone writable)))⟩
  | last n unit =>
    exact ⟨_,.last (.cons (plain "last" (by simp)) space (.cons (count writable.1) space
      (.last (writtenAlone writable.2))))⟩
  | toDate unit =>
    exact ⟨_,.toDate (.cons (writtenAlone writable) space (.cons (plain "to" (by simp)) space
      (.last (plain "date" (by simp)))))⟩
  | agoToDate n unit =>
    exact ⟨_,.agoToDate (.cons (count writable.1) space (.cons (writtenAlone writable.2) space
      (.cons (plain "ago" (by simp)) space (.cons (plain "to" (by simp)) space (.last (plain "date" (by simp)))))))⟩
  | agoFor n unit length lengthUnit =>
    exact ⟨_,.agoFor (.cons (count writable.1.1) space (.cons (writtenAlone writable.1.2) space
      (.cons (plain "ago" (by simp)) space (.cons (plain "for" (by simp)) space (.cons (count writable.2.1) space
      (.last (writtenAlone writable.2.2)))))))⟩
  | between first final =>
    obtain ⟨_,dated⟩ := unsignedDated writable.1
    obtain ⟨_,dated'⟩ := unsignedDated writable.2
    exact ⟨_,.between (.cons dated space (.cons (plain "until" (by simp)) space (.last dated')))⟩

end Writable

/- A text is read as a relative date exactly if it writes that date. -/
theorem relativeDatesReadAsWritten (d : RelativeDate) :
    (∀ s : String, parse? s = some d ↔ Written d s.toList) ∧ ((∃ s, parse? s = some d) ↔ d.Writable) := by
  refine ⟨fun s => readWritten s d,?_,fun writable => ?_⟩
  · rintro ⟨s,read⟩
    obtain ⟨_,_,_,_,_,writes,_⟩ := (readWritten s d).mp read
    exact writesWritable writes
  · obtain ⟨cs,writes⟩ := writableWrites writable
    refine ⟨String.ofList cs,(readWritten _ d).mpr ⟨[],cs,[],?_,?_,writes,?_⟩⟩ <;> simp

/- The calendar reads a year with a sign, but no form begins with one. -/
theorem signedDatesUnread :
    Date.parse? "+12024-01-01" = some ⟨12024,1,1⟩ ∧ Date.parse? "+12024-01-31" = some ⟨12024,1,31⟩ ∧
      parse? "+12024-01-01 until +12024-01-31" = none ∧
      Text.trim "\u00a0today" = "today" ∧ parse? "\u00a0today" = none ∧
      parse? "last\rweek" = some (.last 1 .week) := by
  decide

end SemanticSql.RelativeDate
