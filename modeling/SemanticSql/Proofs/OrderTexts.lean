import SemanticSql.Proofs.ListLiterals
import SemanticSql.Proofs.LiteralBinding

/-! Orders given as text. The items between the commas that are not blank give the entries one by one, and a text is
refused exactly if an item has a third word, or a second word that names no direction. -/
namespace SemanticSql

open List

namespace Text

def Blank (cs : List Char) : Prop := ∀ c ∈ cs, isBlank c

/-- The words of a text, with blanks around them and at least one blank between any two. -/
inductive Words : List (List Char) → List Char → Prop
  | none {gap} (blank : Blank gap) : Words [] gap
  | cons {gap word words rest} (blank : Blank gap) (some : word ≠ []) (plain : ∀ c ∈ word, isBlank c = false)
      (ends : ∀ c ∈ rest.head?, isBlank c) (more : Words words rest) : Words (word :: words) (gap ++ (word ++ rest))

/-- The items of a text, with a comma between any two. -/
structure Items (items : List (List Char)) (cs : List Char) : Prop where
  some : items ≠ []
  plain : ∀ item ∈ items, ',' ∉ item
  joined : [','].intercalate items = cs

variable {cs gap word rest before under : List Char} {words items : List (List Char)}

theorem splitLibrary (sep : Char) (cs : List Char) : splitList sep cs = splitOn sep cs := by
  induction cs with
  | nil => rfl
  | cons c rest ih =>
    rw [splitList,splitOn_cons_eq_if_modifyHead,← ih]
    simp only [beq_iff_eq]
    congr 1
    split
    · rename_i none
      exact absurd none (splitList_ne_nil _ _)
    · rename_i split
      rw [split]
      rfl

theorem itemsIff : Items items cs ↔ splitList ',' cs = items := by
  rw [splitLibrary]
  constructor
  · rintro ⟨some,plain,rfl⟩
    exact splitOn_intercalate ',' plain some
  · rintro rfl
    refine ⟨splitOn_ne_nil _ _,?_,intercalate_splitOn _⟩
    rw [← splitLibrary]
    exact splitPieces

theorem gapSkipped (blank : Blank gap) : wordsFrom [] (gap ++ rest) = wordsFrom [] rest := by
  induction gap with
  | nil => rfl
  | cons c gap ih =>
    obtain ⟨first,later⟩ := forall_mem_cons.mp blank
    simp [wordsFrom,first,ih later]

theorem gapEmpty (blank : Blank gap) : wordsFrom [] gap = [] := by
  have skipped : wordsFrom [] (gap ++ []) = [] := gapSkipped blank
  rwa [append_nil] at skipped

theorem gapDropped (blank : Blank gap) : wordsFrom under (cs ++ gap) = wordsFrom under cs := by
  induction cs generalizing under with
  | nil =>
    cases gap with
    | nil => rfl
    | cons c gap =>
      obtain ⟨first,later⟩ := forall_mem_cons.mp blank
      simp [wordsFrom,first,gapEmpty later]
  | cons c cs ih => simp only [cons_append,wordsFrom,ih]

theorem trimmedWords (cs : List Char) : wordsFrom [] (trimList cs) = wordsFrom [] cs := by
  obtain ⟨lead,trail,same,blank,blank'⟩ := trimParts cs
  calc wordsFrom [] (trimList cs)
    _ = wordsFrom [] (lead ++ (trimList cs ++ trail)) := by rw [gapSkipped blank,gapDropped blank']
    _ = wordsFrom [] cs := by rw [← same]

theorem wordGathered (plain : ∀ c ∈ word, isBlank c = false) :
    wordsFrom under (word ++ rest) = wordsFrom (word.reverse ++ under) rest := by
  induction word generalizing under with
  | nil => rfl
  | cons c word ih =>
    obtain ⟨first,later⟩ := forall_mem_cons.mp plain
    simp [wordsFrom,first,ih later]

theorem wordClosed (some : word ≠ []) (ends : ∀ c ∈ rest.head?, isBlank c) :
    wordsFrom word.reverse rest = word :: wordsFrom [] rest := by
  cases rest with
  | nil => simp [wordsFrom,some]
  | cons c rest => simp [wordsFrom,some,ends c rfl]

theorem wordsRead (written : Words words cs) : wordsFrom [] cs = words := by
  induction written with
  | none blank => exact gapEmpty blank
  | cons blank some plain ends _ ih => rw [gapSkipped blank,wordGathered plain,append_nil,wordClosed some ends,ih]

/- By the length of the text: a gap and a word are cut off at its front. -/
theorem wordsExist (cs : List Char) : ∃ words, Words words cs := by
  induction size : cs.length using Nat.strong_induction_on generalizing cs with
  | h n shorter =>
    obtain ⟨gap,front,rfl,blank,starts⟩ := exists_span isBlank cs
    obtain ⟨word,rest,rfl,plain,ends⟩ := exists_span (fun c => !isBlank c) front
    simp only [Bool.not_eq_eq_eq_not,Bool.not_true,Bool.not_false] at plain ends
    by_cases some : word = []
    · subst some
      cases rest with
      | nil => exact ⟨[],.none (by simpa [Blank] using blank)⟩
      | cons c rest => exact absurd (ends c rfl) (by simp [starts c rfl])
    · have left : rest.length < n := by
        have := length_pos_of_ne_nil some
        rw [← size,length_append,length_append]
        omega
      obtain ⟨words,more⟩ := shorter _ left rest rfl
      exact ⟨_,.cons blank some plain ends more⟩

theorem wordsIff : Words words cs ↔ wordsFrom [] cs = words := by
  refine ⟨wordsRead,?_⟩
  rintro rfl
  obtain ⟨words,written⟩ := wordsExist cs
  rwa [wordsRead written]

theorem noWords : wordsFrom [] cs = [] ↔ Blank cs := by
  rw [← wordsIff]
  constructor
  · intro written
    cases written with
    | none blank => exact blank
  · exact .none

/- A letter of ASCII other than `i` and `k` is only the lower case of letters of ASCII. -/
theorem lowerSpelled (plain : ∀ c ∈ word, c.toNat < 128 ∧ c ≠ 'i' ∧ c ≠ 'k') :
    lowerFrom before cs = word ↔ cs.map Char.toLower = word := by
  induction cs generalizing before word with
  | nil => rfl
  | cons c cs ih =>
    by_cases low : c.toNat < 128
    · have other : c.toNat ≠ 0x3A3 := by omega
      rw [lowerFrom,if_neg other,lowerChar,if_pos low,singleton_append,map_cons]
      cases word with
      | nil => simp
      | cons d word => simp only [cons.injEq,ih (forall_mem_cons.mp plain).2]
    · have strange : ∃ d ∈ lowerFrom before (c :: cs), ¬ (d.toNat < 128 ∧ d ≠ 'i' ∧ d ≠ 'k') := by
        rw [lowerFrom]
        split
        · refine ⟨_,mem_cons_self,?_⟩
          split <;> decide
        · obtain ⟨d,mem⟩ := exists_mem_of_ne_nil _ (lowerCharSome c)
          refine ⟨d,mem_append_left _ mem,fun ascii => ?_⟩
          obtain inside | letter := ascii_of_mem_lowerChar mem ascii.1
          · exact low inside
          · exact not_or.mpr ascii.2 letter
      constructor
      · rintro rfl
        obtain ⟨d,mem,beyond⟩ := strange
        exact absurd (plain d mem) beyond
      · rintro rfl
        have ascii := (plain _ mem_cons_self).1
        rw [RelativeDate.otherLower (by omega)] at ascii
        exact absurd ascii low

end Text

namespace OrderBy

open Text
open RelativeDate (Spells)

/-- An item that gives an entry: a field, and its direction in any letter case, which is ascending if left out. -/
def Gives (item : List Char) (e : OrderEntry) : Prop :=
  Words [e.field.toList] item ∧ e.descending = false ∨
    ∃ way, Words [e.field.toList,way] item ∧ Spells (if e.descending then "desc" else "asc") way

def Unread (item : List Char) : Prop :=
  ∃ words, Words words item ∧
    (2 < words.length ∨ ∃ way, words[1]? = some way ∧ ¬ Spells "asc" way ∧ ¬ Spells "desc" way)

def seen (items : List (List Char)) : List (List Char) := items.filter fun item => !item.all isBlank

variable {clause : String} {item : List Char}

theorem directionSpelled {way : List Char} :
    (lower (String.ofList way) = "asc" ↔ Spells "asc" way) ∧ (lower (String.ofList way) = "desc" ↔ Spells "desc" way) := by
  have spelled (word : String) : lower (String.ofList way) = word ↔ lowerFrom [] way = word.toList := by
    rw [lower,lowerList,String.toList_ofList,← String.toList_inj,String.toList_ofList]
  exact ⟨(spelled _).trans (lowerSpelled (by simp)),(spelled _).trans (lowerSpelled (by simp))⟩

theorem itemWords (item : List Char) : words (trim (String.ofList item)) = (wordsFrom [] item).map String.ofList := by
  rw [words,trim,String.toList_ofList,String.toList_ofList,trimmedWords]

theorem givenEntry {e} (gives : Gives item e) : entry clause (trim (String.ofList item)) = .ok e := by
  obtain ⟨field,descending⟩ := e
  rw [entry,itemWords]
  obtain ⟨written,same⟩ | ⟨way,written,spelled⟩ := gives
  · cases same
    simp [wordsIff.mp written,bind,Except.bind]
  · rw [wordsIff.mp written]
    cases descending with
    | false => simp [directionSpelled.1.mpr spelled,bind,Except.bind]
    | true => simp [directionSpelled.2.mpr spelled,bind,Except.bind]

theorem unreadEntry (clause : String) (unread : Unread item) : ∃ e, entry clause (trim (String.ofList item)) = .error e := by
  obtain ⟨words,written,reason⟩ := unread
  rw [entry,itemWords,wordsIff.mp written]
  obtain _ | ⟨field,_ | ⟨way,rest⟩⟩ := words
  · simp at reason
  · simp at reason
  · simp only [map_cons,head?_cons,Option.map_some]
    rcases reason with long | ⟨_,⟨⟩,up,down⟩
    · have more : 0 < rest.length := by simpa using long
      split <;> simp [bind,Except.bind,more]
    · split
      · rename_i none
        cases none
      · rename_i asc
        exact absurd (directionSpelled.1.mp (Option.some.inj asc)) up
      · rename_i desc
        exact absurd (directionSpelled.2.mp (Option.some.inj desc)) down
      · exact ⟨_,rfl⟩

theorem givenOrUnread (some : ¬ Blank item) : (∃ e, Gives item e) ∨ Unread item := by
  obtain ⟨field,rest,read⟩ := exists_cons_of_ne_nil (mt noWords.mp some)
  have written := wordsIff.mpr read
  obtain _ | ⟨way,_ | ⟨more,rest⟩⟩ := rest
  · exact .inl ⟨⟨String.ofList field,false⟩,.inl ⟨by simpa using written,rfl⟩⟩
  · by_cases up : Spells "asc" way
    · exact .inl ⟨⟨String.ofList field,false⟩,.inr ⟨way,by simpa using written,up⟩⟩
    · by_cases down : Spells "desc" way
      · exact .inl ⟨⟨String.ofList field,true⟩,.inr ⟨way,by simpa using written,down⟩⟩
      · exact .inr ⟨_,written,.inr ⟨way,rfl,up,down⟩⟩
  · exact .inr ⟨_,written,.inl (by simp)⟩

theorem entryGiven (some : ¬ Blank item) {e} (read : entry clause (trim (String.ofList item)) = .ok e) : Gives item e := by
  obtain ⟨e',gives⟩ | unread := givenOrUnread some
  · cases (givenEntry gives).symm.trans read
    exact gives
  · obtain ⟨_,failed⟩ := unreadEntry clause unread
    cases failed.symm.trans read

theorem seenMember {items} : item ∈ seen items ↔ item ∈ items ∧ ¬ Blank item := by simp [seen,Blank]

theorem unreadSeen (unread : Unread item) : ¬ Blank item := by
  intro blank
  obtain ⟨words,written,reason⟩ := unread
  obtain rfl := (wordsIff.mp written).symm.trans (noWords.mpr blank)
  simp at reason

theorem entriesSeen : (text clause).entries =
    (seen (splitList ',' clause.toList)).mapM fun item => entry clause (trim (String.ofList item)) := by
  have empty (item : List Char) : (trim (String.ofList item)).isEmpty = item.all isBlank := by
    rw [Bool.eq_iff_iff,String.isEmpty_iff,trim,String.toList_ofList,String.ofList_eq_empty_iff,blankTrim,all_eq_true]
  rw [entries,split,filter_map,filter_map,mapM_map,mapM_map]
  simp only [Function.comp_def,empty]
  rfl

/- Every text is read as its items say, in order, and no other text is refused than one with an unread item. -/
theorem orderTextsRead (clause : String) :
    (∀ entries, (text clause).entries = .ok entries ↔
      ∃ items, Items items clause.toList ∧ Forall₂ Gives (seen items) entries) ∧
    ((∃ e, (text clause).entries = .error e) ↔ ∃ items, Items items clause.toList ∧ ∃ item ∈ items, Unread item) := by
  simp only [entriesSeen,itemsIff,exists_eq_left',exceptMapM]
  generalize splitList ',' clause.toList = items
  refine ⟨fun entries => ⟨fun read => ?_,fun given => given.imp fun _ _ => givenEntry⟩,?_,?_⟩
  · have each := (forall₂_and_left _ _).mpr ⟨fun _ mem => (seenMember.mp mem).2,read⟩
    exact each.imp fun _ _ read => entryGiven read.1 read.2
  · rintro ⟨e,failed⟩
    obtain ⟨front,item,back,same,failed,-⟩ := Filter.firstFails.mp failed
    obtain ⟨mem,some⟩ := seenMember.mp (same ▸ mem_append_right front mem_cons_self : item ∈ seen items)
    refine ⟨item,mem,(givenOrUnread some).resolve_left ?_⟩
    rintro ⟨e',gives⟩
    cases (givenEntry gives).symm.trans failed
  · rintro ⟨item,mem,unread⟩
    cases run : (seen items).mapM fun item => entry clause (trim (String.ofList item)) with
    | error e => exact ⟨e,rfl⟩
    | ok entries =>
      obtain ⟨e,_,read⟩ := forallMember (exceptMapM.mp run) (seenMember.mpr ⟨mem,unreadSeen unread⟩)
      obtain ⟨_,failed⟩ := unreadEntry clause unread
      cases failed.symm.trans read

example : (text "revenue DeSC,, channel,\norder_date ASC ").entries.toOption =
    some [⟨"revenue",true⟩,⟨"channel",false⟩,⟨"order_date",false⟩] := by decide +kernel

end OrderBy

end SemanticSql
