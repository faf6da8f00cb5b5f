import Mathlib.Data.List.Induction
import Mathlib.Data.Option.Basic
import SemanticSql.RelativeDate.Grammar
import SemanticSql.Text.Cut

/-! The words of which relative dates are written: fixed words in any letter case, counts, units and dates. -/
namespace SemanticSql

open List

namespace RelativeDate

variable {c : Char} {n : Nat}

section Digits

def Digits (ds : List Char) : Prop := ds ≠ [] ∧ ∀ c ∈ ds, c.isDigit

def Numeral (n : Nat) (ds : List Char) : Prop := ∃ zeros, ds = List.replicate zeros '0' ++ Nat.toDigits 10 n

theorem decimalValue (ds : List Char) : ds.foldl (fun n c => n * 10 + (c.toNat - 48)) 0 = Nat.ofDigitChars 10 ds 0 := by
  have same : (fun n (c : Char) => n * 10 + (c.toNat - 48)) = fun n c => 10 * n + (c.toNat - '0'.toNat) := by
    funext n c
    rw [Nat.mul_comm]
    rfl
  rw [same,Nat.ofDigitChars_eq_foldl]

theorem digitRange (digit : c.isDigit) : 48 ≤ c.toNat ∧ c.toNat ≤ 57 := by
  simpa [Char.isDigit,UInt32.le_iff_toNat_le] using digit

theorem digitAgain (digit : c.isDigit) : (c.toNat - 48).digitChar = c := by
  have range := digitRange digit
  apply Char.toNat_inj.mp
  rw [Nat.toNat_digitChar_of_lt_ten (by omega)]
  omega

variable {ds : List Char}

theorem numeralDigits (numeral : Numeral n ds) : Digits ds ∧ Nat.ofDigitChars 10 ds 0 = n := by
  obtain ⟨zeros,rfl⟩ := numeral
  refine ⟨⟨by simp [Nat.toDigits_ne_nil],fun c mem => ?_⟩,?_⟩
  · rcases mem_append.mp mem with zero | digit
    · rw [eq_of_mem_replicate zero]
      rfl
    · exact Nat.isDigit_of_mem_toDigits (by decide) (by decide) digit
  · rw [Nat.ofDigitChars_append,Nat.ofDigitChars_replicate_zero,Nat.mul_zero,Nat.ofDigitChars_ten_toDigits]

theorem toDigitsDigits (n : Nat) : Digits (Nat.toDigits 10 n) := (numeralDigits ⟨0,rfl⟩).1

theorem digitsNumeral (digits : Digits ds) : Numeral (Nat.ofDigitChars 10 ds 0) ds := by
  induction ds using List.reverseRecOn with
  | nil => exact absurd rfl digits.1
  | append_singleton front c ih =>
    have digit : c.isDigit := digits.2 c (by simp)
    have small : c.toNat - 48 < 10 := by have := digitRange digit; omega
    have one : Nat.toDigits 10 (c.toNat - 48) = [c] := by rw [Nat.toDigits_of_lt_base small,digitAgain digit]
    rw [Nat.ofDigitChars_append,Nat.ofDigitChars_cons,Nat.ofDigitChars_nil]
    cases front with
    | nil => exact ⟨0,by simpa using one.symm⟩
    | cons first front =>
      obtain ⟨zeros,same⟩ :=
        ih ⟨cons_ne_nil _ _,fun d mem => digits.2 d (mem_append_left _ mem)⟩
      generalize Nat.ofDigitChars 10 (first :: front) 0 = n at same ⊢
      rw [same]
      rcases Nat.eq_zero_or_pos n with rfl | positive
      · exact ⟨zeros + 1,by simp [Nat.toDigits_zero,replicate_succ',one]⟩
      · refine ⟨zeros,?_⟩
        rw [append_assoc,← one,Nat.toDigits_append_toDigits (by decide) positive small]
        rfl

theorem numeralIff : Numeral n ds ↔ Digits ds ∧ Nat.ofDigitChars 10 ds 0 = n :=
  ⟨numeralDigits,fun written => written.2 ▸ digitsNumeral written.1⟩

end Digits

section Words

def Spells (word : String) (cs : List Char) : Prop := cs.map Char.toLower = word.toList

instance (word : String) (cs : List Char) : Decidable (Spells word cs) := inferInstanceAs (Decidable (_ = _))

def Counts (n : Nat) (cs : List Char) : Prop := Numeral n cs ∧ n < twoTo 32

def units : List Interval := [.day,.week,.month,.quarter,.year]

def Names (unit : Interval) (cs : List Char) : Prop :=
  unit ∈ units ∧ (Spells unit.name cs ∨ Spells (unit.name ++ "s") cs)

def Dated (d : Date) (cs : List Char) : Prop :=
  (∃ year month day, cs = year ++ '-' :: (month ++ '-' :: day) ∧ Digits year ∧ Digits month ∧ Digits day) ∧
    Date.parse? (String.ofList cs) = some d

def Gap (cs : List Char) : Prop := cs ≠ [] ∧ ∀ c ∈ cs, isSpace c

def Ends (cs : List Char) : Prop := ∀ c ∈ cs.head?, isSpace c

def Starts (cs : List Char) : Prop := ∃ c rest, cs = c :: rest ∧ isSpace c = false

theorem gapEnds {gap : List Char} (blank : Gap gap) (rest : List Char) : Ends (gap ++ rest) := by
  obtain ⟨c,gap,rfl⟩ := exists_cons_of_ne_nil blank.1
  rintro d ⟨⟩
  exact blank.2 c mem_cons_self

variable {cs : List Char}

theorem startsAppend (starts : Starts cs) (rest : List Char) : Starts (cs ++ rest) := by
  obtain ⟨c,more,rfl,plain⟩ := starts
  exact ⟨c,more ++ rest,rfl,plain⟩

theorem startsApart (starts : Starts cs) : ∀ c ∈ cs.head?, isSpace c = false := by
  obtain ⟨c,more,rfl,plain⟩ := starts
  rintro d ⟨⟩
  exact plain

theorem digitPlain (digit : c.isDigit) : isSpace c = false := by
  have range := digitRange digit
  simp only [isSpace,Bool.or_eq_false_iff,decide_eq_false_iff_not]
  refine ⟨⟨⟨?_,?_⟩,?_⟩,?_⟩ <;> rintro rfl <;> simp at range

theorem digitsStart {ds : List Char} (digits : Digits ds) : Starts ds := by
  obtain ⟨c,rest,rfl⟩ := exists_cons_of_ne_nil digits.1
  exact ⟨c,rest,rfl,digitPlain (digits.2 c mem_cons_self)⟩

theorem spaceNotDigit (ends : Ends cs) : ∀ c ∈ cs.head?, c.isDigit = false := by
  intro c mem
  refine Bool.eq_false_iff.mpr fun digit => ?_
  have plain := digitPlain digit
  rw [ends c mem] at plain
  cases plain

theorem countStarts (counts : Counts n cs) : Starts cs :=
  digitsStart (numeralIff.mp counts.1).1

theorem dateStarts {d : Date} (dated : Dated d cs) : Starts cs := by
  obtain ⟨year,month,day,rfl,digits,-⟩ := dated.1
  exact startsAppend (digitsStart digits) _

theorem spaceLower (space : isSpace c) : c.toLower = c := by
  simp only [isSpace,Bool.or_eq_true,decide_eq_true_eq] at space
  rcases space with ((rfl | rfl) | rfl) | rfl <;> rfl

theorem spellStarts {word : String} (spelled : Spells word cs)
    (letter : word.toList.head?.any fun c => !isSpace c) : Starts cs := by
  cases cs with
  | nil =>
    rw [← spelled] at letter
    cases letter
  | cons c cs =>
    rw [← spelled] at letter
    refine ⟨c,cs,rfl,Bool.eq_false_iff.mpr fun space => ?_⟩
    simp [spaceLower space,space] at letter

theorem unitStarts {unit : Interval} (names : Names unit cs) : Starts cs := by
  have letters : ∀ unit ∈ units, (unit.name.toList.head?.any fun c => !isSpace c) ∧
      (unit.name ++ "s").toList.head?.any fun c => !isSpace c := by decide
  obtain ⟨single,plural⟩ := letters unit names.1
  rcases names.2 with spelled | spelled
  · exact spellStarts spelled single
  · exact spellStarts spelled plural

end Words

section Readers

variable {rest word cs : List Char} {unit : Interval}

theorem wordRead : word? word cs = some rest ↔ ∃ front, cs = front ++ rest ∧ front.map Char.toLower = word := by
  induction word generalizing cs with
  | nil => simp [word?,eq_comm]
  | cons w word ih =>
    cases cs with
    | nil => simp [word?]
    | cons c cs =>
      rw [word?]
      split
      · rename_i same
        rw [ih]
        constructor
        · rintro ⟨front,rfl,rfl⟩
          exact ⟨c :: front,rfl,by rw [map_cons,same]⟩
        · rintro ⟨front,joined,spelled⟩
          obtain ⟨d,front,rfl⟩ := exists_cons_of_ne_nil (l := front) (by rintro rfl; cases spelled)
          cases joined
          exact ⟨front,rfl,(List.cons.inj spelled).2⟩
      · rename_i different
        refine iff_of_false (by simp) ?_
        rintro ⟨front,joined,spelled⟩
        obtain ⟨d,front,rfl⟩ := exists_cons_of_ne_nil (l := front) (by rintro rfl; cases spelled)
        cases joined
        exact different (List.cons.inj spelled).1.symm

theorem wordTaken {word : String} {front : List Char} (spelled : Spells word front) (rest : List Char) :
    word? word.toList (front ++ rest) = some rest := wordRead.mpr ⟨front,rfl,spelled⟩

theorem gapRead (read : gap? cs = some rest) : ∃ gap, Gap gap ∧ cs = gap ++ rest := by
  rw [gap?] at read
  split at read
  · rename_i space
    cases read
    refine ⟨cs.takeWhile isSpace,⟨?_,fun c mem => all_eq_true.mp all_takeWhile c mem⟩,
      takeWhile_append_dropWhile.symm⟩
    cases cs with
    | nil => cases space
    | cons c cs =>
      rw [takeWhile_cons_of_pos (by simpa using space)]
      exact cons_ne_nil _ _
  · cases read

theorem gapTaken {gap : List Char} (blank : Gap gap) (starts : ∀ c ∈ rest.head?, isSpace c = false) :
    gap? (gap ++ rest) = some rest := by
  obtain ⟨c,more,rfl⟩ := exists_cons_of_ne_nil blank.1
  rw [gap?,if_pos (by simpa using blank.2 c mem_cons_self),(Text.span_append blank.2 starts).2]

theorem countRead (read : count? cs = some (n, rest)) : ∃ word, Counts n word ∧ cs = word ++ rest := by
  simp only [count?,decimalValue] at read
  split at read
  · cases read
  · rename_i fits
    cases read
    obtain ⟨some,small⟩ := not_or.mp fits
    refine ⟨cs.takeWhile Char.isDigit,⟨numeralIff.mpr ⟨⟨by simpa using some,fun c mem => ?_⟩,rfl⟩,?_⟩,?_⟩
    · exact all_eq_true.mp all_takeWhile c mem
    · exact Nat.lt_of_not_le small
    · exact (prefix_iff_eq_append.mp (List.takeWhile_prefix _)).symm

theorem countTaken (counts : Counts n word)
    (ends : ∀ c ∈ rest.head?, c.isDigit = false) : count? (word ++ rest) = some (n, rest) := by
  obtain ⟨⟨some,digits⟩,value⟩ := numeralIff.mp counts.1
  simp only [count?,decimalValue,(Text.span_append digits ends).1,value,drop_left]
  rw [if_neg]
  rintro (empty | large)
  · exact some (List.isEmpty_iff.mp empty)
  · exact absurd counts.2 (Nat.not_lt_of_le large)

def Opens (word cs : List Char) : Prop := word <+: cs.map Char.toLower

def Apart (v w : List Char) : Prop := ¬ v <+: w ∧ ¬ w <+: v

instance (v w : List Char) : Decidable (Apart v w) := inferInstanceAs (Decidable (_ ∧ _))

theorem spellOpens {word : String} {front : List Char} (spelled : Spells word front) (rest : List Char) :
    Opens word.toList (front ++ rest) := ⟨rest.map Char.toLower,by rw [map_append,spelled]⟩

theorem wordApart {other : List Char} (opens : Opens other cs) (apart : Apart other word) : word? word cs = none := by
  refine Option.eq_none_iff_forall_ne_some.mpr fun left read => ?_
  obtain ⟨front,rfl,spelled⟩ := wordRead.mp read
  have second : word <+: (front ++ left).map Char.toLower :=
    ⟨left.map Char.toLower,by rw [map_append,spelled]⟩
  exact (List.prefix_or_prefix_of_prefix opens second).elim apart.1 apart.2

theorem findOnly {α β : Type} {f : α → Option β} {xs : List α} {a : α} {b : β} (mem : a ∈ xs) (found : f a = some b)
    (others : ∀ x ∈ xs, x ≠ a → f x = none) : xs.findSome? f = some b := by
  induction xs with
  | nil => cases mem
  | cons x xs ih =>
    obtain ⟨first,later⟩ := forall_mem_cons.mp others
    by_cases same : x = a
    · rw [findSome?_cons,same,found]
    · rw [findSome?_cons,first same]
      exact ih ((mem_cons.mp mem).resolve_left (Ne.symm same)) later

def unitWord? (cs : List Char) (unit : Interval) : Option (List Char) :=
  (word? (unit.name.toList ++ ['s']) cs).orElse fun _ => word? unit.name.toList cs

theorem unitWords (cs : List Char) :
    unit? cs = units.findSome? fun unit => (unitWord? cs unit).map fun rest => (unit, rest) := rfl

theorem unitRead (read : unit? cs = some (unit, rest)) : ∃ word, Names unit word ∧ cs = word ++ rest := by
  rw [unitWords] at read
  obtain ⟨found,listed,mapped⟩ := exists_of_findSome?_eq_some read
  obtain ⟨left,word,same⟩ := Option.map_eq_some_iff.mp mapped
  cases same
  rw [unitWord?,Option.orElse_eq_or] at word
  rcases Option.or_eq_some_iff.mp word with plural | ⟨-,single⟩
  · obtain ⟨front,joined,spelled⟩ := wordRead.mp plural
    exact ⟨front,⟨listed,.inr (by rw [Spells,spelled,String.toList_append]; rfl)⟩,joined⟩
  · obtain ⟨front,joined,spelled⟩ := wordRead.mp single
    exact ⟨front,⟨listed,.inl spelled⟩,joined⟩

theorem pluralMissed (spelled : Spells unit.name word) (ends : Ends rest) :
    word? (unit.name.toList ++ ['s']) (word ++ rest) = none := by
  refine Option.eq_none_iff_forall_ne_some.mpr fun left read => ?_
  obtain ⟨front,joined,same⟩ := wordRead.mp read
  rw [← spelled] at same
  have lengths : front.length = word.length + 1 := by simpa using congrArg List.length same
  have front_eq : front = word ++ rest.take 1 := by
    have taken := congrArg (List.take (word.length + 1)) joined
    rwa [take_length_add_append,← lengths,take_left,eq_comm] at taken
  rw [front_eq,map_append] at same
  have letter := append_cancel_left same
  cases rest with
  | nil => cases letter
  | cons c rest =>
    have space : isSpace c := ends c rfl
    simp only [take_succ_cons,take_zero,map_cons,map_nil,List.cons.injEq,and_true,
      spaceLower space] at letter
    subst letter
    cases space

def spellings (unit : Interval) : List (List Char) := [unit.name.toList,(unit.name ++ "s").toList]

theorem unitOpens (names : Names unit word) (rest : List Char) :
    ∃ spelling ∈ spellings unit, Opens spelling (word ++ rest) := by
  rcases names.2 with spelled | spelled
  · exact ⟨_,mem_cons_self,spellOpens spelled rest⟩
  · exact ⟨_,mem_cons_of_mem _ mem_cons_self,spellOpens spelled rest⟩

theorem unitsApart : ∀ u ∈ units, ∀ v ∈ units, v ≠ u → ∀ spelling ∈ spellings u,
    Apart spelling (v.name.toList ++ ['s']) ∧ Apart spelling v.name.toList := by decide

theorem unitTaken (names : Names unit word) (ends : Ends rest) : unit? (word ++ rest) = some (unit, rest) := by
  rw [unitWords]
  refine findOnly names.1 ?_ fun other listed different => ?_
  · rcases names.2 with spelled | spelled
    · rw [unitWord?,pluralMissed spelled ends,wordTaken spelled]
      rfl
    · have plural := wordTaken spelled rest
      rw [String.toList_append] at plural
      rw [unitWord?,show ['s'] = "s".toList from rfl,plural]
      rfl
  · obtain ⟨spelling,known,opens⟩ := unitOpens names rest
    obtain ⟨plural,single⟩ := unitsApart unit names.1 other listed different spelling known
    rw [unitWord?,wordApart opens plural,wordApart opens single]
    rfl

theorem markRead : Calendar.mark? c cs = some rest ↔ cs = c :: rest := by
  cases cs with
  | nil => simp [Calendar.mark?]
  | cons d cs => simp [Calendar.mark?,eq_comm]

theorem digitsRead (cs : List Char) : cs = cs.takeWhile Char.isDigit ++ cs.drop (cs.takeWhile Char.isDigit).length :=
  (prefix_iff_eq_append.mp (List.takeWhile_prefix _)).symm

theorem dateRead {d : Date} (read : date? cs = some (d, rest)) : ∃ word, Dated d word ∧ cs = word ++ rest := by
  obtain ⟨afterYear,first,read⟩ := Option.bind_eq_some_iff.mp read
  obtain ⟨afterMonth,second,read⟩ := Option.bind_eq_some_iff.mp read
  obtain ⟨_,digits,read⟩ := Option.bind_eq_some_iff.mp read
  obtain ⟨date,parsed,same⟩ := Option.bind_eq_some_iff.mp read
  cases same
  obtain ⟨year,month,day⟩ := (Option.guard_eq_some' _).mp digits
  have whole := digitsRead cs
  rw [markRead.mp first,digitsRead afterYear,markRead.mp second,digitsRead afterMonth] at whole
  have inside : ∀ cs : List Char, ∀ c ∈ cs.takeWhile Char.isDigit, c.isDigit :=
    fun cs c mem => all_eq_true.mp all_takeWhile c mem
  refine ⟨_,⟨⟨_,_,_,rfl,⟨year,inside _⟩,⟨month,inside _⟩,⟨day,inside _⟩⟩,?_⟩,?_⟩
  · simpa using parsed
  · simpa using whole

theorem dashEnds (cs : List Char) : ∀ c ∈ ('-' :: cs).head?, c.isDigit = false := by
  rintro c ⟨⟩
  rfl

theorem dateTaken {d : Date} (dated : Dated d word)
    (ends : ∀ c ∈ rest.head?, c.isDigit = false) : date? (word ++ rest) = some (d, rest) := by
  obtain ⟨⟨year,month,day,rfl,years,months,days⟩,parsed⟩ := dated
  have marked : ∀ cs, Calendar.mark? '-' ('-' :: cs) = some cs := fun cs => markRead.mpr rfl
  have first := (Text.span_append years.2 (dashEnds (month ++ '-' :: (day ++ rest)))).1
  have second := (Text.span_append months.2 (dashEnds (day ++ rest))).1
  have third := (Text.span_append days.2 ends).1
  have some : year ≠ [] ∧ month ≠ [] ∧ day ≠ [] := ⟨years.1,months.1,days.1⟩
  simp only [append_assoc,cons_append,date?,first,second,third,drop_left,marked,
    Option.bind_eq_bind,Option.bind_some,parsed,(Option.guard_eq_some' ()).mpr some]

end Readers

end RelativeDate

end SemanticSql
