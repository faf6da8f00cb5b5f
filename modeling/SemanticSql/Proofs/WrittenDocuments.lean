import SemanticSql.Document
import SemanticSql.Proofs.DocumentDepth
import SemanticSql.Proofs.WrittenTimes

/-! Documents are read back as they were written. A written record gives each member at its place and under its name,
so a reader that takes the members in order finds what the writer put there. -/
namespace SemanticSql

open List

namespace Dict
variable {α : Type} {entries : List (String × α)}

theorem insertedBefore {key : String} (absent : key ∉ entries.map Prod.fst) (d : Dict α) :
    Dict.get? (entries.foldl (fun d e => Dict.insert e.1 e.2 d) d) key = d.get? key := by
  induction entries generalizing d with
  | nil => rfl
  | cons e rest ih =>
    obtain ⟨other,later⟩ := not_or.mp (mt mem_cons.mpr absent)
    exact (ih later _).trans (get?_insert_ne other e.2 d)

theorem insertedOnce (distinct : (entries.map Prod.fst).Nodup) {e : String × α} (mem : e ∈ entries) (d : Dict α) :
    Dict.get? (entries.foldl (fun d e => Dict.insert e.1 e.2 d) d) e.1 = some e.2 := by
  induction entries generalizing d with
  | nil => contradiction
  | cons first rest ih =>
    obtain ⟨absent,distinct⟩ := nodup_cons.mp distinct
    rcases mem_cons.mp mem with rfl | later
    · exact (insertedBefore absent _).trans (get?_insert_self e.1 e.2 d)
    · exact ih distinct later _

end Dict

namespace Document
variable {α : Type} {nulls : Nulls} {s : Source} {entries : List (String × Value)} {i : Nat} {key : String} {v : Value}

structure Gives (s : Source) (entries : List (String × Value)) : Prop where
  slot : ∀ {i : Nat} {key v}, entries[i]? = some (key, v) → s.slot? i key = some v

theorem writtenGives (distinct : (entries.map Prod.fst).Nodup) : Gives (.members (Dict.ofList entries)) entries :=
  ⟨fun found => Dict.insertedOnce distinct (mem_of_getElem? found) []⟩

theorem taggedGives {tag : String × Value} (distinct : ((tag :: entries).map Prod.fst).Nodup) :
    Gives (.members (Dict.ofList (tag :: entries))) entries :=
  ⟨fun found => Dict.insertedOnce distinct (mem_cons_of_mem tag (mem_of_getElem? found)) []⟩

theorem objectRead {count : Nat} {read : Source → Option α} {a : α} (distinct : (entries.map Prod.fst).Nodup)
    (reads : ∀ {s}, Gives s entries → read s = some a) : record nulls count read (object entries) = some a :=
  reads (writtenGives distinct)

section
variable {β : Type} {read : Value → Option α} {b : β} (given : Gives s entries) (found : entries[i]? = some (key, v))
include given found

theorem Gives.required {a : α} {f : α → Option β} (reads : read v = some a) (rest : f a = some b) :
    s.required i key read >>= f = some b := by
  rw [Source.required,given.slot found]
  exact stepRead reads rest

theorem Gives.withDefault {a default : α} {f : α → Option β} (reads : read v = some a) (rest : f a = some b) :
    s.withDefault i key default read >>= f = some b := by
  rw [Source.withDefault,given.slot found]
  exact stepRead reads rest

theorem Gives.optional {a : Option α} {f : Option α → Option β} (reads : Source.orNull read v = some a)
    (rest : f a = some b) : s.optional i key read >>= f = some b := by
  rw [Source.optional,given.slot found]
  exact stepRead reads rest

theorem Gives.open? {a : Option α} {f : Option α → Option β} (reads : Source.orNull read v = some a)
    (rest : f a = some b) : s.open? i key read >>= f = some b := by
  rw [Source.open?,given.slot found]
  exact stepRead reads rest

end

section
variable {read : Value → Option α} {write : α → Value}

theorem allRead {items : List α} (reads : ∀ a ∈ items, read (write a) = some a) :
    readAll read (items.map write) = some items := by
  induction items with
  | nil => rfl
  | cons a rest ih =>
    exact stepRead (reads a mem_cons_self) (stepRead (ih fun b mem => reads b (mem_cons_of_mem a mem)) rfl)

theorem listedRead {items : List α} (reads : ∀ a ∈ items, read (write a) = some a) :
    listOf nulls read (writeList write items) = some items := allRead reads

theorem listRead (reads : ∀ a, read (write a) = some a) (items : List α) :
    listOf nulls read (writeList write items) = some items := listedRead fun a _ => reads a

theorem dictRead (reads : ∀ a, read (write a) = some a) (d : Dict α) :
    dictOf nulls read (writeDict write d) = some d := by
  change readMembers read (d.map fun e => (e.1, write e.2)) = some d
  induction d with
  | nil => rfl
  | cons e rest ih => exact stepRead (reads e.2) (stepRead ih rfl)

theorem nullRead {o : Option α} (reads : ∀ a ∈ o, read (write a) = some a) (given : ∀ a, write a ≠ .null) :
    Source.orNull read (Value.orNull write o) = some o := by
  cases o with
  | none => rfl
  | some a =>
    have step : ∀ v, v ≠ .null → Source.orNull read v = (read v).map some := by
      intro v given
      cases v <;> first | contradiction | rfl
    exact (step _ (given a)).trans (by rw [reads a rfl,Option.map_some])

end

theorem stringsRead (names : List String) : listOf nulls text (Value.strings names) = some names :=
  allRead fun _ _ => rfl

theorem mappedRead {read : Value → Option α} {name : α → String} {o : Option α}
    (reads : ∀ a ∈ o, read (.str (name a)) = some a) : Source.orNull read (writeText (o.map name)) = some o := by
  cases o with
  | none => rfl
  | some a => exact congrArg (Option.map some) (reads a rfl)

theorem textRead (o : Option String) : Source.orNull text (writeText o) = some o := by cases o <;> rfl

section
variable {name : α → String} {ofName? : String → Option α} (known : ∀ a, ofName? (name a) = some a)
include known

theorem namedRead (a : α) : named nulls ofName? (.str (name a)) = some a := known a

theorem namesRead (items : List α) :
    listOf nulls (named nulls ofName?) (Value.strings (items.map name)) = some items := by
  rw [Value.strings,map_map]
  exact allRead fun a _ => known a

theorem nameRead (o : Option α) : Source.orNull (named nulls ofName?) (writeText (o.map name)) = some o :=
  mappedRead fun a _ => known a

end

theorem filterRead (f : FieldFilter) : readFilter nulls (writeFilter f) = some f :=
  objectRead (by simp) fun given => given.required rfl rfl (given.required rfl rfl rfl)

theorem branchRead (b : CaseBranch) : readBranch nulls (writeBranch b) = some b :=
  objectRead (by simp) fun given => given.required rfl rfl (given.required rfl rfl rfl)

theorem casesRead (c : CaseTable) : readCases nulls (writeCases c) = some c :=
  objectRead (by simp) fun given => given.required rfl (listRead branchRead _) (given.optional rfl (textRead _) rfl)

theorem nonAdditiveRead (d : NonAdditive) : readNonAdditive nulls (writeNonAdditive d) = some d :=
  objectRead (by simp) fun given =>
  given.required rfl rfl <|
  given.required rfl (namedRead WindowEnd.ofName?_name _) <|
  given.withDefault rfl (stringsRead _) <|
  given.withDefault rfl rfl <|
  given.withDefault rfl rfl rfl

theorem fieldRead (f : Field) : readField nulls (writeField f) = some f :=
  objectRead (by simp) fun given =>
  given.required rfl rfl <|
  given.withDefault rfl (namedRead FieldRole.ofName?_name _) <|
  given.withDefault rfl (namedRead FieldType.ofName?_name _) <|
  given.optional rfl (textRead _) <|
  given.optional rfl (textRead _) <|
  given.optional rfl (textRead _) <|
  given.withDefault rfl (namesRead TimeFrame.ofName?_name _) <|
  given.withDefault rfl (namesRead Interval.ofName?_name _) <|
  given.withDefault rfl (namedRead Datatype.ofName?_name _) <|
  given.optional rfl (nullRead (fun _ _ => rfl) (by simp)) <|
  given.optional rfl (textRead _) <|
  given.withDefault rfl rfl <|
  given.withDefault rfl rfl <|
  given.withDefault rfl (stringsRead _) <|
  given.withDefault rfl (listRead filterRead _) <|
  given.optional rfl (nullRead (fun c _ => casesRead c) nofun) <|
  given.withDefault rfl (listRead (fun x => (rfl : number (.float x) = some x)) _) <|
  given.optional rfl (textRead _) <|
  given.optional rfl (textRead _) <|
  given.optional rfl (textRead _) <|
  given.optional rfl (nullRead (fun d _ => nonAdditiveRead d) nofun) <|
  given.withDefault rfl rfl <|
  given.withDefault rfl (stringsRead _) <|
  given.optional rfl (textRead _) <|
  given.optional rfl (textRead _) rfl

theorem memberWithin {depth : Nat} (deep : (object entries).depth < depth + 1) (distinct : (entries.map Prod.fst).Nodup)
    (found : entries[i]? = some (key, v)) : v.depth < depth :=
  have inside : (object entries).get? key = some v := (writtenGives distinct).slot found
  Nat.lt_of_lt_of_le (Value.getDepth inside) (Nat.le_of_lt_succ deep)

theorem partsWritten (parts : List Identifier) : writeIdentifiers parts = parts.map writeIdentifier := by
  induction parts with
  | nil => rfl
  | cons i rest ih => rw [writeIdentifiers,ih,map_cons]

theorem identifierRead {depth : Nat} {i : Identifier} (deep : (writeIdentifier i).depth < depth) :
    readIdentifierTo nulls depth (writeIdentifier i) = some i := by
  induction depth generalizing i with
  | zero => cases deep
  | succ depth ih =>
    cases i
    rw [writeIdentifier,partsWritten] at deep ⊢
    have inside := memberWithin deep (by simp) (show _[7]? = some ("identifiers", _) from rfl)
    exact objectRead (by simp) fun given =>
      given.required rfl rfl <|
      given.required rfl (namedRead IdentifierKind.ofName?_name _) <|
      given.optional rfl (textRead _) <|
      given.optional rfl (textRead _) <|
      given.optional rfl (nameRead Relationship.ofName?_name _) <|
      given.optional rfl (textRead _) <|
      given.optional rfl (nameRead JoinKind.ofName?_name _) <|
      given.withDefault rfl (listedRead fun part mem =>
        ih (Nat.lt_trans (Nat.lt_succ_of_le (Value.itemDepth (mem_map_of_mem mem))) inside)) rfl

theorem wholeIdentifierRead (i : Identifier) : readIdentifier nulls (writeIdentifier i) = some i :=
  identifierRead (Nat.lt_succ_self _)

theorem accessFilterRead (f : AccessFilter) : readAccessFilter nulls (writeAccessFilter f) = some f :=
  objectRead (by simp) fun given => given.required rfl rfl (given.required rfl rfl rfl)

theorem derivedRead (sql : String) : readDerived nulls (writeDerived sql) = some sql :=
  objectRead (by simp) fun given => by
    rw [Source.required,given.slot (i := 0) rfl]
    rfl

theorem mappingRead (m : Mapping) : readMapping nulls (writeMapping m) = some m :=
  objectRead (by simp) fun given =>
  given.required rfl (stringsRead _) <|
  given.optional rfl (textRead _) <|
  given.optional rfl (textRead _) rfl

theorem grantRead (g : AccessGrant) : readGrant nulls (writeGrant g) = some g :=
  objectRead (by simp) fun given =>
  given.required rfl rfl <|
  given.required rfl rfl <|
  given.required rfl (stringsRead _) rfl

theorem topicJoinRead (j : TopicJoin) : readTopicJoin nulls (writeTopicJoin j) = some j :=
  objectRead (by simp) fun given =>
  given.withDefault rfl (namedRead JoinKind.ofName?_name _) <|
  given.withDefault rfl (namedRead Relationship.ofName?_name _) <|
  given.required rfl rfl rfl

theorem topicViewRead (v : TopicView) : readTopicView nulls (writeTopicView v) = some v :=
  objectRead (by simp) fun given =>
  given.optional rfl (nullRead (fun j _ => topicJoinRead j) nofun) <|
  given.withDefault rfl rfl rfl

section
variable {d : Dict Value}

theorem modelRead {m : Model} (given : Gives (.members d) (modelMembers m)) : readModel nulls (.object d) = some m :=
  given.required rfl rfl <|
  given.optional rfl (textRead _) <|
  given.optional rfl (nameRead Weekday.ofName?_name _) <|
  given.optional rfl (textRead _) <|
  given.withDefault rfl rfl <|
  given.withDefault rfl (dictRead mappingRead _) <|
  given.withDefault rfl (listRead grantRead _) <|
  given.withDefault rfl (stringsRead _) rfl

theorem viewRead {v : View} (given : Gives (.members d) (viewMembers v)) : readView nulls (.object d) = some v :=
  given.required rfl rfl <|
  given.optional rfl (textRead _) <|
  given.optional rfl (textRead _) <|
  given.optional rfl (nullRead (fun sql _ => derivedRead sql) nofun) <|
  given.optional rfl (textRead _) <|
  given.withDefault rfl (listRead fieldRead _) <|
  given.withDefault rfl (listRead wholeIdentifierRead _) <|
  given.withDefault rfl (listRead accessFilterRead _) <|
  given.withDefault rfl (listRead filterRead _) <|
  given.withDefault rfl (stringsRead _) <|
  given.withDefault rfl (stringsRead _) rfl

theorem topicRead {t : Topic} (given : Gives (.members d) (topicMembers t)) : readTopic nulls (.object d) = some t :=
  given.required rfl rfl <|
  given.optional rfl (textRead _) <|
  given.required rfl rfl <|
  given.withDefault rfl (dictRead topicViewRead _) <|
  given.withDefault rfl (listRead filterRead _) <|
  given.withDefault rfl (listRead accessFilterRead _) <|
  given.withDefault rfl (stringsRead _) rfl

end

theorem connectionRead (c : Connection) : readConnection nulls (writeConnection c) = some c :=
  objectRead (by simp) fun given =>
  given.required rfl rfl <|
  given.required rfl (namedRead Dialect.ofName?_name _) rfl

theorem settingsRead {s : Settings} (valid : ∀ t ∈ s.now, t.Valid ∧ t.nanosecond < 10 ^ 9) :
    readSettings nulls (writeSettings s) = some s := by
  have time : ∀ t ∈ s.now, readTime (.str t.fullText) = some t := by
    intro t now
    rw [readTime,text,Value.str?,Option.bind_some]
    exact DateTime.fullTextRead (valid t now).1 (valid t now).2
  exact objectRead (by simp) fun given =>
    given.open? rfl (nameRead Dialect.ofName?_name _) <|
    given.open? rfl (textRead _) <|
    given.open? rfl (nameRead Weekday.ofName?_name _) <|
    given.open? rfl (mappedRead time) <|
    given.withDefault rfl rfl <|
    given.withDefault rfl rfl rfl

def taggedWith (kind : String) (members : List (String × Value)) : List (String × Value) :=
  ("type", .str kind) :: members

theorem modelKeys (kind : String) (m : Model) : ((taggedWith kind (modelMembers m)).map Prod.fst).Nodup := by
  simp [taggedWith,modelMembers]

theorem viewKeys (kind : String) (v : View) : ((taggedWith kind (viewMembers v)).map Prod.fst).Nodup := by
  simp [taggedWith,viewMembers]

theorem topicKeys (kind : String) (t : Topic) : ((taggedWith kind (topicMembers t)).map Prod.fst).Nodup := by
  simp [taggedWith,topicMembers]

theorem definitionsRead {d : Definitions} (valid : ∀ s ∈ d.settings, ∀ t ∈ s.now, t.Valid ∧ t.nanosecond < 10 ^ 9) :
    readDefinitions nulls (writeDefinitions d) = some d :=
  objectRead (by simp) fun given =>
  given.withDefault rfl (listRead (fun m => modelRead (writtenGives (modelKeys "model" m).of_cons)) _) <|
  given.withDefault rfl (listRead (fun v => viewRead (writtenGives (viewKeys "view" v).of_cons)) _) <|
  given.withDefault rfl (listRead (fun t => topicRead (writtenGives (topicKeys "topic" t).of_cons)) _) <|
  given.withDefault rfl (listRead connectionRead _) <|
  given.open? rfl (nullRead (fun s held => settingsRead (valid s held)) fun _ => nofun) rfl

theorem tagRead {kind : String} (distinct : ((taggedWith kind entries).map Prod.fst).Nodup) :
    ((object (taggedWith kind entries)).get? "type").bind Value.str? = some kind := by
  have first : (object (taggedWith kind entries)).get? "type" = some (.str kind) :=
    (writtenGives distinct).slot (i := 0) rfl
  rw [first]
  rfl

theorem writtenReadBack :
    (∀ d : Definitions, (∀ s ∈ d.settings, ∀ t ∈ s.now, t.Valid ∧ t.nanosecond < 10 ^ 9) →
      read (writeDefinitions d) = some d) ∧
    (∀ m, read (object (taggedWith "model" (modelMembers m))) = some { models := [m] }) ∧
    (∀ v, read (object (taggedWith "view" (viewMembers v))) = some { views := [v] }) ∧
    ∀ t, read (object (taggedWith "topic" (topicMembers t))) = some { topics := [t] } := by
  refine ⟨fun d valid => ?_,fun m => ?_,fun v => ?_,fun t => ?_⟩
  · have untagged : (writeDefinitions d).get? "type" = none := Dict.insertedBefore (by simp) []
    rw [read,untagged]
    exact definitionsRead valid
  · rw [read,tagRead (modelKeys "model" m)]
    exact congrArg (Option.map _) (modelRead (taggedGives (modelKeys "model" m)))
  · rw [read,tagRead (viewKeys "view" v)]
    exact congrArg (Option.map _) (viewRead (taggedGives (viewKeys "view" v)))
  · rw [read,tagRead (topicKeys "topic" t)]
    exact congrArg (Option.map _) (topicRead (taggedGives (topicKeys "topic" t)))

def leapDefinitions : Definitions where
  views := [{
    name := "orders", identifiers := [.mk "order" .primary none none none none none [.ofSql "id" .foreign "id"]] }]
  settings := some { weekStart := some .sunday, now := some ⟨⟨2024,2,29⟩,23,59,60,500000000⟩ }

theorem leapReadBack : read (writeDefinitions leapDefinitions) = some leapDefinitions := by
  refine writtenReadBack.1 leapDefinitions ?_
  rintro s ⟨⟩ t ⟨⟩
  exact ⟨⟨by decide,by decide,by decide,by decide⟩,by decide⟩

end Document
end SemanticSql
