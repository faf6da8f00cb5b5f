import SemanticSql.Proofs.ClosedReferences
import SemanticSql.Proofs.NameResolution

/-! Mapped names in filters that are given as text. One replacement puts its field for every whole word that spells
the name and that no dot qualifies, inside of quotes too. -/
namespace SemanticSql

open List Text

variable {word : List Char} {rest : List Char}

namespace Text

section Words

/- A word that is as long as it can be, or another character. -/
inductive Stretch where
  | word (cs : List Char)
  | other (c : Char)
  deriving DecidableEq, Repr

def stretches : List Char → List Stretch
  | [] => []
  | c :: rest =>
    if isWord c then
      match stretches rest with
      | .word cs :: later => .word (c :: cs) :: later
      | later => .word [c] :: later
    else .other c :: stretches rest

def Word (cs : List Char) : Prop := cs ≠ [] ∧ ∀ c ∈ cs, isWord c

def Ends (rest : List Char) : Prop := ∀ c ∈ rest.head?, isWord c = false

theorem stretchesOther {c : Char} (plain : isWord c = false) : stretches (c :: rest) = .other c :: stretches rest := by
  rw [stretches,plain,if_neg Bool.false_ne_true]

theorem stretchesWord {word rest : List Char} (is : Word word) (ends : Ends rest) :
    stretches (word ++ rest) = .word word :: stretches rest := by
  obtain ⟨some,chars⟩ := is
  induction word with
  | nil => exact absurd rfl some
  | cons c more ih =>
    obtain ⟨first,later⟩ := forall_mem_cons.mp chars
    rw [cons_append,stretches,if_pos first]
    cases more with
    | nil =>
      cases rest with
      | nil => rfl
      | cons d rest => rw [nil_append,stretchesOther (ends d rfl)]
    | cons d more => rw [ih (cons_ne_nil d more) later]

theorem fronts (cs : List Char) : cs = [] ∨ (∃ c rest, cs = c :: rest ∧ isWord c = false) ∨
    ∃ word rest, cs = word ++ rest ∧ Word word ∧ Ends rest := by
  cases cs with
  | nil => exact .inl rfl
  | cons c rest =>
    by_cases first : isWord c
    · obtain ⟨word,left,same,chars,ends⟩ := exists_span isWord (c :: rest)
      refine .inr (.inr ⟨word,left,same,⟨?_,chars⟩,ends⟩)
      rintro rfl
      cases same
      exact absurd first (by simp [ends c rfl])
    · exact .inr (.inl ⟨c,rest,rfl,by simpa using first⟩)

theorem byWords {P : List Char → Prop} (nil : P []) (other : ∀ c rest, isWord c = false → P rest → P (c :: rest))
    (word : ∀ word rest, Word word → Ends rest → P rest → P (word ++ rest)) (cs : List Char) : P cs := by
  induction size : cs.length using Nat.strong_induction_on generalizing cs with
  | _ n ih =>
    rcases fronts cs with rfl | ⟨c,rest,rfl,plain⟩ | ⟨first,rest,rfl,is,ends⟩
    · exact nil
    · exact other c rest plain (ih _ (by simp [← size]) rest rfl)
    · have positive := length_pos_iff.mpr is.1
      have shorter : rest.length < n := by
        rw [length_append] at size
        omega
      exact word first rest is ends (ih _ shorter rest rfl)

end Words

section Replacing
variable {new : List Char → Option (List Char)}

/- A text with new words. A word behind a dot is qualified and stays. -/
def replaceWords (new : List Char → Option (List Char)) : Bool → List Stretch → List Char
  | _, [] => []
  | qualified, .word cs :: rest => (if qualified then cs else (new cs).getD cs) ++ replaceWords new false rest
  | _, .other c :: rest => c :: replaceWords new (c == '.') rest

def replaceUnquoted (new : List Char → Option (List Char)) : Bool → Bool → List Stretch → List Char
  | _, _, [] => []
  | quoted, qualified, .word cs :: rest =>
    (if quoted || qualified then cs else (new cs).getD cs) ++ replaceUnquoted new quoted false rest
  | quoted, _, .other c :: rest => c :: replaceUnquoted new (quoted != (c == '\'')) (c == '.') rest

def bareWords : Bool → Bool → List Stretch → List (Bool × List Char)
  | _, _, [] => []
  | quoted, qualified, .word cs :: rest => (if qualified then [] else [(quoted, cs)]) ++ bareWords quoted false rest
  | quoted, _, .other c :: rest => bareWords (quoted != (c == '\'')) (c == '.') rest

def renamed (new : List Char → Option (List Char)) (qualified : Bool) (cs : List Char) : List Char :=
  replaceWords new qualified (stretches cs)

variable {qualified : Bool} {rest : List Char}

theorem renamedOther {c : Char} (plain : isWord c = false) :
    renamed new qualified (c :: rest) = c :: renamed new (c == '.') rest := by
  rw [renamed,stretchesOther plain,replaceWords,renamed]

theorem renamedWord (is : Word word) (ends : Ends rest) :
    renamed new qualified (word ++ rest) =
      (if qualified then word else (new word).getD word) ++ renamed new false rest := by
  rw [renamed,stretchesWord is ends,replaceWords,renamed]

theorem renamedEnds (ends : Ends rest) : renamed new qualified rest = renamed new false rest := by
  cases rest with
  | nil => rfl
  | cons c rest => rw [renamedOther (ends c rfl),renamedOther (ends c rfl)]

theorem endsRenamed (ends : Ends rest) : Ends (renamed new qualified rest) := by
  cases rest with
  | nil => exact ends
  | cons c rest =>
    rw [renamedOther (ends c rfl)]
    exact fun d mem => ends d mem

/- A first word that stays may as well be qualified. -/
theorem renamedKept {cs : List Char} (kept : ∀ word rest, cs = word ++ rest → Word word → Ends rest → new word = none) :
    renamed new false cs = renamed new true cs := by
  rcases fronts cs with rfl | ⟨c,rest,rfl,plain⟩ | ⟨word,rest,rfl,is,ends⟩
  · rfl
  · rw [renamedOther plain,renamedOther plain]
  · rw [renamedWord is ends,renamedWord is ends,kept word rest rfl is ends]
    rfl

theorem renamedPassed {text : List Char} {quoted : Bool} (ends : Ends rest)
    (free : ∀ b ∈ bareWords quoted qualified (stretches text), new b.2 = none) :
    renamed new qualified (text ++ rest) = text ++ renamed new false rest := by
  induction text using byWords generalizing quoted qualified with
  | nil => exact renamedEnds ends
  | other c more plain ih =>
    rw [stretchesOther plain,bareWords] at free
    rw [cons_append,renamedOther plain,ih free,cons_append]
  | word word more is stops ih =>
    rw [stretchesWord is stops,bareWords] at free
    obtain ⟨first,later⟩ := forall_mem_append.mp free
    have apart : Ends (more ++ rest) := by
      cases more with
      | nil => exact ends
      | cons c more => exact fun d mem => stops d mem
    have same : (if qualified then word else (new word).getD word) = word := by
      cases qualified with
      | true => rfl
      | false => rw [if_neg Bool.false_ne_true,first (quoted, word) mem_cons_self,Option.getD_none]
    rw [append_assoc,renamedWord is apart,same,ih later,append_assoc]

theorem renamedNone (cs : List Char) (qualified : Bool) : renamed (fun _ => none) qualified cs = cs := by
  induction cs using byWords generalizing qualified with
  | nil => rfl
  | other c rest plain ih => rw [renamedOther plain,ih]
  | word word rest is ends ih => rw [renamedWord is ends,ih,Option.getD_none,ite_self]

/- Replacing twice is replacing once, if what is put in first has no word that is replaced then. -/
theorem renamedTwice {first second : List Char → Option (List Char)} {cs : List Char}
    (settled : ∀ word text, first word = some text → ∀ b ∈ bareWords false false (stretches text), second b.2 = none) :
    renamed second qualified (renamed first qualified cs) =
      renamed (fun word => (first word).or (second word)) qualified cs := by
  induction cs using byWords generalizing qualified with
  | nil => rfl
  | other c rest plain ih => rw [renamedOther plain,renamedOther plain,renamedOther plain,ih]
  | word word rest is ends ih =>
    rw [renamedWord is ends,renamedWord is ends]
    -- What follows the word still starts no word, so the second replacement finds the same words after it.
    have stops : Ends (renamed first false rest) := endsRenamed ends
    cases qualified with
    | true => rw [if_pos rfl,renamedWord is stops,if_pos rfl,if_pos rfl,ih]
    | false =>
      simp only [if_neg Bool.false_ne_true]
      cases found : first word with
      | none => rw [Option.getD_none,renamedWord is stops,if_neg Bool.false_ne_true,Option.none_or,ih]
      | some text =>
        rw [Option.getD_some,renamedPassed stops (settled word text found),Option.some_or,Option.getD_some,ih]

/- Outside of quotes only is the same if no quoted word is to be replaced. -/
theorem unquotedReplaced {stretches : List Stretch} {quoted : Bool}
    (free : ∀ b ∈ bareWords quoted qualified stretches, b.1 → new b.2 = none) :
    replaceUnquoted new quoted qualified stretches = replaceWords new qualified stretches := by
  induction stretches generalizing quoted qualified with
  | nil => rfl
  | cons stretch rest ih =>
    cases stretch with
    | other c => rw [replaceUnquoted,replaceWords,ih free]
    | word cs =>
      rw [replaceUnquoted,replaceWords,ih fun b mem => free b (mem_append_right _ mem)]
      congr 1
      cases quoted with
      | false => rfl
      | true =>
        cases qualified with
        | true => rfl
        | false =>
          rw [free (true, cs) mem_cons_self rfl]
          rfl

end Replacing

end Text

section Single

def spells (name word : List Char) : Bool := name.map foldChar == word.map foldChar

variable {name target cs : List Char}

theorem leadingNameFound {found : List Char} :
    leadingName? name cs = some found ↔ spells name found ∧ ∃ rest, cs = found ++ rest := by
  simp only [spells,beq_iff_eq]
  induction name generalizing cs found with
  | nil =>
    rw [leadingName?]
    constructor
    · intro same
      cases same
      exact ⟨rfl,cs,rfl⟩
    · rintro ⟨spelled,-⟩
      rw [map_nil,eq_comm,map_eq_nil_iff] at spelled
      rw [spelled]
  | cons c name ih =>
    cases cs with
    | nil =>
      refine iff_of_false (by rintro ⟨⟩) ?_
      rintro ⟨spelled,rest,same⟩
      rw [(append_eq_nil_iff.mp same.symm).1] at spelled
      cases spelled
    | cons d cs =>
      rw [leadingName?]
      constructor
      · intro lead
        split at lead
        · rename_i same
          obtain ⟨more,found,rfl⟩ := Option.map_eq_some_iff.mp lead
          obtain ⟨spelled,rest,rfl⟩ := ih.mp found
          rw [map_cons,map_cons,spelled,beq_iff_eq.mp same]
          exact ⟨rfl,rest,rfl⟩
        · cases lead
      · rintro ⟨spelled,rest,same⟩
        cases found with
        | nil => cases spelled
        | cons e found =>
          cases same
          obtain ⟨first,later⟩ := List.cons.inj spelled
          have same : sameLetter c d := beq_iff_eq.mpr first
          rw [if_pos same]
          exact Option.map_eq_some_iff.mpr ⟨found,ih.mpr ⟨later,rest,rfl⟩,rfl⟩

theorem spellsWord (is : Word name) (spelled : spells name word) : Word word := by
  have same := beq_iff_eq.mp spelled
  refine ⟨?_,fun c mem => ?_⟩
  · rintro rfl
    exact is.1 (map_eq_nil_iff.mp same)
  · have folded : foldChar c ∈ name.map foldChar := same ▸ mem_map_of_mem mem
    obtain ⟨d,mem',alike⟩ := mem_map.mp folded
    rw [← isWord_foldChar,← alike,isWord_foldChar]
    exact is.2 d mem'

theorem leadingWordFound {before : Option Char} {n : Nat} (is : Word name) :
    leadingWord? before name cs = some n ↔
      ∃ word rest, cs = word ++ rest ∧ Word word ∧ Ends rest ∧ spells name word ∧ n = word.length := by
  have stops : ∀ {word rest : List Char}, Word word →
      (isBoundary (word.getLast? <|> before) rest.head? ↔ Ends rest) := by
    intro word rest is
    have word : isWord (word.getLast is.1) := is.2 _ (getLast_mem is.1)
    rw [getLast?_eq_some_getLast is.1]
    cases rest with
    | nil => simp [isBoundary,Ends,word]
    | cons c rest => simp [isBoundary,Ends,word]
  constructor
  · intro lead
    obtain ⟨found,front,lead⟩ := Option.bind_eq_some_iff.mp lead
    obtain ⟨spelled,rest,rfl⟩ := leadingNameFound.mp front
    have word := spellsWord is spelled
    simp only [drop_left] at lead
    split at lead
    · rename_i boundary
      cases lead
      exact ⟨found,rest,rfl,word,(stops word).mp boundary,spelled,rfl⟩
    · cases lead
  · rintro ⟨word,rest,rfl,chars,ends,spelled,rfl⟩
    refine Option.bind_eq_some_iff.mpr ⟨word,leadingNameFound.mpr ⟨spelled,rest,rfl⟩,?_⟩
    simp only [drop_left]
    rw [if_pos ((stops chars).mpr ends)]

def single (name target word : List Char) : Option (List Char) := if spells name word then some target else none

theorem singleSpelled (spelled : spells name word) :
    single name target word = some target := if_pos spelled

theorem separatedOther {c : Char} (plain : isWord c = false)
    (other : c ≠ '.') : separatedWord? name (c :: rest) = (leadingWord? (some c) name rest).map (· + 1) := by
  rw [separatedWord?,if_neg (by simp [plain,other])]

theorem separatedNone {c : Char} (joined : isWord c ∨ c = '.') : separatedWord? name (c :: rest) = none := by
  rw [separatedWord?,if_pos (by simpa using joined)]

theorem leadingKept {before : Option Char} (is : Word name) (missed : leadingWord? before name cs = none) :
    renamed (single name target) false cs = renamed (single name target) true cs := by
  refine renamedKept fun word rest same chars ends => if_neg fun spelled => ?_
  have found : leadingWord? before name cs = some word.length :=
    (leadingWordFound is).mpr ⟨word,rest,same,chars,ends,spelled,rfl⟩
  rw [missed] at found
  cases found

/- Behind its first word, a text is searched from one separator to the next. -/
theorem separatedRenamed (is : Word name) (cs : List Char) :
    substitute (separatedWord? name) (fun found => found.take 1 ++ target) cs =
      renamed (single name target) true cs := by
  have gathers := substituteGathers (fun found => found.take 1 ++ target)
  have passed : ∀ {c : Char} {rest : List Char}, separatedWord? name (c :: rest) = none →
      substitute (separatedWord? name) (fun found => found.take 1 ++ target) (c :: rest) =
        c :: substitute (separatedWord? name) (fun found => found.take 1 ++ target) rest :=
    fun missed => charPassed gathers missed
  -- A name that is found is skipped together with its separator, so the induction is on the length.
  induction size : cs.length using Nat.strong_induction_on generalizing cs with
  | _ n ih =>
    rcases fronts cs with rfl | ⟨c,rest,rfl,plain⟩ | ⟨word,rest,rfl,chars,ends⟩
    · rfl
    · have later := ih _ (by simp [← size]) rest rfl
      rw [renamedOther plain]
      by_cases dot : c = '.'
      · subst dot
        rw [passed (separatedNone (.inr rfl)),later]
        rfl
      · rw [beq_eq_false_iff_ne.mpr dot]
        cases lead : leadingWord? (some c) name rest with
        | none =>
          rw [passed (by rw [separatedOther plain dot,lead,Option.map_none]),later,leadingKept is lead]
        | some m =>
          obtain ⟨word,rest,rfl,chars,ends,spelled,rfl⟩ := (leadingWordFound is).mp lead
          have found : separatedWord? name ((c :: word) ++ rest) = some (c :: word).length := by
            rw [cons_append,separatedOther plain dot,lead]
            rfl
          have shorter : rest.length < n := by
            simp only [length_cons,length_append] at size
            omega
          have behind := ih rest.length shorter rest rfl
          rw [← cons_append,substituteToken (cons_ne_nil c word) found,behind,
            renamedWord chars ends,singleSpelled spelled,renamedEnds ends]
          rfl
    · have missed : ∀ front back, word = front ++ back → back ≠ [] → separatedWord? name (back ++ rest) = none := by
        intro front back same some
        obtain ⟨d,back,rfl⟩ := exists_cons_of_ne_nil some
        exact separatedNone (.inl (chars.2 d (by simp [same])))
      have positive := length_pos_iff.mpr chars.1
      have shorter : rest.length < n := by
        rw [length_append] at size
        omega
      have behind := ih rest.length shorter rest rfl
      rw [renamedWord chars ends,if_pos rfl,← renamedEnds ends,← behind]
      exact textPassed gathers missed

theorem renameWordRenamed (is : Word name) (cs : List Char) :
    renameWord name target cs = renamed (single name target) false cs := by
  simp only [renameWord]
  split
  · rename_i n lead
    obtain ⟨word,rest,rfl,chars,ends,spelled,rfl⟩ := (leadingWordFound is).mp lead
    rw [drop_left,separatedRenamed is,renamedWord chars ends,singleSpelled spelled,renamedEnds ends]
    rfl
  · rename_i missed
    rw [separatedRenamed is,leadingKept is missed]

end Single

namespace Renaming

def word? (d : Renaming) (word : List Char) : Option (List Char) :=
  (d.find? fun e => spells e.1.toList word).map fun e => e.2.toList

def Settled (d : Renaming) : Prop :=
  ∀ e ∈ d, ∀ b ∈ bareWords false false (stretches e.2.toList), d.word? b.2 = none

instance (d : Renaming) : Decidable d.Settled := inferInstanceAs (Decidable (∀ _ ∈ _, ∀ _ ∈ _, _))

variable {d : Renaming}

theorem wordCons (e : String × String) (d : Renaming) (word : List Char) :
    word? (e :: d) word = (single e.1.toList e.2.toList word).or (d.word? word) := by
  rw [word?,find?_cons,single]
  cases spells e.1.toList word with
  | true => rfl
  | false => rfl

theorem textSteps (words : ∀ e ∈ d, Word e.1.toList) (text : String) :
    d.text text =
      String.ofList (d.foldl (fun cs e => renamed (single e.1.toList e.2.toList) false cs) text.toList) := by
  rw [Renaming.text]
  congr 1
  generalize text.toList = cs
  induction d generalizing cs with
  | nil => rfl
  | cons e d ih =>
    obtain ⟨first,later⟩ := forall_mem_cons.mp words
    rw [foldl_cons,foldl_cons,renameWordRenamed first,ih later]

theorem stepsSettled (settled : d.Settled) (cs : List Char) :
    d.foldl (fun cs e => renamed (single e.1.toList e.2.toList) false cs) cs = renamed d.word? false cs := by
  induction d generalizing cs with
  | nil => exact (renamedNone cs false).symm
  | cons e d ih =>
    have parts : ∀ f ∈ e :: d, ∀ b ∈ bareWords false false (stretches f.2.toList), word? d b.2 = none := by
      intro f mem b bare
      have none := settled f mem b bare
      rw [wordCons,Option.or_eq_none_iff] at none
      exact none.2
    obtain ⟨first,later⟩ := forall_mem_cons.mp parts
    have once : ∀ word text, single e.1.toList e.2.toList word = some text →
        ∀ b ∈ bareWords false false (stretches text), word? d b.2 = none := by
      intro word text put
      obtain ⟨-,same⟩ := Option.ite_none_right_eq_some.mp put
      cases same
      exact first
    rw [foldl_cons,ih later,renamedTwice once]
    congr 1
    exact (funext (wordCons e d)).symm

end Renaming

namespace Scope
variable {s : Scope} {r : Request}

theorem addNameContains {anchors names name next} (ok : s.addName r anchors names name = .ok next) (key : String) :
    next.targets.contains key ↔ names.targets.contains key ∨ (plainName name = key ∧ ¬ s.Unresolved key) := by
  rcases addNameCases ok with ⟨rfl,reason⟩ | ⟨⟨u,inserted⟩,stands⟩
  · refine ⟨.inl,fun found => found.elim id ?_⟩
    rintro ⟨rfl,stands⟩
    exact reason.resolve_right stands
  · rw [inserted,Dict.contains]
    by_cases same : key = plainName name
    · rw [same,Dict.get?_insert_self]
      exact iff_of_true rfl (.inr ⟨rfl,stands⟩)
    · rw [Dict.get?_insert_ne same]
      exact ⟨.inl,fun found => found.resolve_right fun own => same own.1.symm⟩

theorem namesContain {anchors : List FieldUse} {more : List String} {names final}
    (ok : more.foldlM (s.addName r anchors) names = .ok final) (key : String) :
    final.targets.contains key ↔
      names.targets.contains key ∨ (∃ name ∈ more, plainName name = key) ∧ ¬ s.Unresolved key := by
  induction more generalizing names with
  | nil =>
    cases ok
    simp
  | cons name more ih =>
    rw [foldlM_cons] at ok
    obtain ⟨next,first,later⟩ := exceptBind.mp ok
    rw [ih later,addNameContains first,exists_mem_cons_iff,or_and_right,or_assoc]

/- Names outside of text that stand for fields are replaced as whole words that no dot qualifies, one after another. -/
theorem mappedNamesReplaced {names} (named : s.names r = .ok names) : let d := names.targets
    s.resolveNames r = .ok (d.request r, names.merges) ∧ (d.request r).fieldNames = r.fieldNames.map d.name ∧
      (∀ key, d.contains key ↔ (∃ name ∈ r.fieldNames, plainName name = key) ∧ ¬ s.Unresolved key) ∧
      ((∀ e ∈ d, Text.Word e.1.toList) → ∀ text : String,
        d.text text = String.ofList
            (d.foldl (fun cs e => Text.renamed (single e.1.toList e.2.toList) false cs) text.toList) ∧
          (d.Settled → d.text text = String.ofList (Text.renamed d.word? false text.toList)) ∧
          (d.Settled →
            (∀ b ∈ Text.bareWords false false (Text.stretches text.toList), b.1 → d.word? b.2 = none) →
            d.text text = String.ofList (Text.replaceUnquoted d.word? false false (Text.stretches text.toList)))) := by
  intro d
  refine ⟨exceptBind.mpr ⟨names,named,rfl⟩,d.requestNames r,fun key => ?_,fun words text => ?_⟩
  · have found := namesContain named key
    simpa [Dict.contains,Dict.get?] using found
  · have steps := d.textSteps words text
    have once : d.Settled → d.text text = String.ofList (Text.renamed d.word? false text.toList) := by
      intro settled
      rw [steps,Renaming.stepsSettled settled]
    refine ⟨steps,once,fun settled free => ?_⟩
    rw [once settled,Text.renamed,Text.unquotedReplaced free]

def channelScope : Scope where
  project := .ofDefinitions {
    models := [{
      name := "sales"
      mappings := [("medium", ⟨["orders.channel"],none,none⟩),("orders", ⟨["orders.kind"],none,none⟩)] }]
    views := [{
      name := "orders"
      fields := [{ name := "channel" },{ name := "kind" },{ name := "total", role := .measure, type := .sum }] }] }
  context := { dialect := .snowflake, now := ⟨⟨2024,1,1⟩,0,0,0,0⟩ }

def replacedIn (r : Request) (text : String) : Option String :=
  (channelScope.names r).toOption.map fun names => names.targets.text text

theorem mediumReplaced : ∃ names, channelScope.names { dimensions := ["medium"] } = .ok names ∧
    names.targets.text "Medium = 'web' and sessions.medium is null" =
      "orders.channel = 'web' and sessions.medium is null" := by
  have found : (channelScope.names { dimensions := ["medium"] }).toOption.map (fun n => (n.targets, n.merges)) =
      some ([("medium", "orders.channel")], false) := by decide +kernel
  cases named : channelScope.names { dimensions := ["medium"] } with
  | error e =>
    rw [named] at found
    cases found
  | ok names =>
    rw [named] at found
    obtain ⟨targets,merges⟩ := names
    cases Option.some.inj found
    have words : ∀ e ∈ [("medium", "orders.channel")], Text.Word e.1.toList :=
      List.forall_mem_singleton.mpr ⟨by decide,List.all_eq_true.mp (by decide +kernel)⟩
    obtain ⟨-,-,-,replaced⟩ := mappedNamesReplaced named
    obtain ⟨-,-,unquoted⟩ := replaced words "Medium = 'web' and sessions.medium is null"
    refine ⟨_,rfl,(unquoted (by decide +kernel) (by decide +kernel)).trans ?_⟩
    decide +kernel

/- Quoted words are replaced, a target is replaced in its turn, and a name in text only is not replaced at all. -/
theorem mappedNamesMisread :
    replacedIn { dimensions := ["medium"] } "medium = 'medium'" = some "orders.channel = 'orders.channel'" ∧
      replacedIn { dimensions := ["medium","orders"] } "medium = 1" = some "orders.kind.channel = 1" ∧
      replacedIn {} "medium = 1" = some "medium = 1" := by
  decide +kernel

end Scope

end SemanticSql
