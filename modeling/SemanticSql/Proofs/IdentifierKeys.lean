import SemanticSql.Proofs.ClosedReferences
import SemanticSql.Proofs.QualifiedNames

/-! What a join on identifiers compares. Its condition is read in one of the two views, so the keys of the other one
have to name their view first. -/
namespace SemanticSql

open List Compile Identifier Text
open Reference (token table isName Closed lengthOpens closedOf closes Body)

namespace Session
variable {s : Session} {sub : Expand} {owner : String}

def tokenSql (s : Session) (sub : Expand) (view : View) (owner : String) (token : List Char) : Compile String :=
  if Reference.body token = table then pure view.name
  else do sub (← s.reference view owner (Reference.body token))

def chunkSql (s : Session) (sub : Expand) (view : View) (owner : String) : Chunk → Compile String
  | .plain cs => pure (String.ofList cs)
  | .token cs => s.tokenSql sub view owner cs

def chunksSql (s : Session) (sub : Expand) (view : View) (owner : String) (chunks : List Chunk) : Compile String :=
  String.join <$> chunks.mapM (s.chunkSql sub view owner)

def filled (s : Session) (sub : Expand) (view : View) (owner : String) (cs : List Char) : Compile String :=
  s.chunksSql sub view owner (chunks Reference.length? cs)

variable (view : View)

theorem expandFilled {template : String} (untemplated : Template.isTemplate template = false) :
    s.expandWith sub view owner template = s.filled sub view owner template.toList := by
  have rendered : s.render template = .ok template := by rw [render,Template.render,if_neg (by simp [untemplated])]
  have lifted : (liftM (Except.ok template : Except Error String) : Compile String) = pure template := rfl
  rw [expandWith,rendered,lifted,pure_bind,filled,chunksSql,Reference.parts,mapM_map,map_eq_pure_bind]
  congr 1
  congr 1
  funext chunk
  cases chunk with
  | plain cs => simp only [Function.comp_apply,chunkSql]
  | token cs => simp only [Function.comp_apply,chunkSql,tokenSql]

theorem chunksGather :
    Gathers (s.chunksSql sub view owner) fun cs rest => (String.ofList cs ++ ·) <$> rest where
  plain cs chunks := by simp [chunksSql,chunkSql,String.join_cons]
  nothing rest := by simp
  append xs ys rest := by simp [String.append_assoc]

theorem filledNil : s.filled sub view owner [] = pure "" := rfl

variable {body cs : List Char} {a b : View}

theorem filledChar {c : Char} (apart : c = '$' → cs.head? ≠ some '\x7b') :
    s.filled sub view owner (c :: cs) = (String.ofList [c] ++ ·) <$> s.filled sub view owner cs :=
  charPassed (chunksGather view) (Reference.apartMissed lengthOpens apart)

theorem filledPlain {xs : List Char} (plain : '$' ∉ xs) :
    s.filled sub view owner (xs ++ cs) = (String.ofList xs ++ ·) <$> s.filled sub view owner cs :=
  textPassed (chunksGather view) (Reference.plainMissed lengthOpens plain)

def bodySql (s : Session) (sub : Expand) (view : View) (owner : String) (body : List Char) : Compile String :=
  if body = [] then pure (String.ofList (token body)) else s.tokenSql sub view owner (token body)

theorem filledToken (inner : Body body) :
    s.filled sub view owner (token body ++ cs) =
      s.bodySql sub view owner body >>= fun first => (first ++ ·) <$> s.filled sub view owner cs := by
  have found := Reference.lengthToken inner.ends cs
  rw [bodySql]
  split
  · rename_i empty
    rw [if_pos empty] at found
    rw [pure_bind]
    exact textPassed (chunksGather view) (Reference.tokenMissed lengthOpens inner found)
  · rename_i some
    rw [if_neg some] at found
    rw [filled,tokenTaken (Reference.tokenSome body) found]
    simp [filled,chunksSql,chunkSql,String.join_cons]

theorem filledAppend {xs ys : List Char} (closed : Closed xs) (apart : ys.head? ≠ some '\x7b') :
    s.filled sub view owner (xs ++ ys) =
      s.filled sub view owner xs >>= fun first => (first ++ ·) <$> s.filled sub view owner ys := by
  induction closed with
  | nil => simp [filledNil]
  | cons first _ ih =>
    rw [cons_append,filledChar view (Reference.apartAppend first apart),filledChar view first,ih]
    simp [String.append_assoc]
  | reference inner _ ih =>
    rw [append_assoc,filledToken view inner,filledToken view inner,ih]
    simp [String.append_assoc]

structure Knows (s : Session) (v : View) : Prop where
  listed : s.project.view? v.name = some v
  legible : Legible v.name.toList

theorem tokenSqlSame {first second : List Char} (left : Reference.body first ≠ table)
    (right : Reference.body second ≠ table)
    (same : s.reference? a (Reference.body first) = s.reference? b (Reference.body second)) {before sql after} :
    (s.tokenSql sub a owner first).Returns before sql after ↔ (s.tokenSql sub b owner second).Returns before sql after := by
  simp only [tokenSql,if_neg left,if_neg right,returnsBind,returnsLift]
  rw [reference,reference,same]
  cases s.reference? b (Reference.body second) with
  | none => simp
  | some u => simp

theorem bodyToken (body : List Char) : Reference.body (token body) = String.ofList (trimList body) := by
  rw [Reference.body,Reference.tokenBody,trim,String.toList_ofList]

theorem wordPlain {c : Char} (word : (c.isAlphanum || c = '_') = true) : isBlank c = false := by
  delta Char.isAlphanum Char.isAlpha Char.isUpper Char.isLower Char.isDigit at word
  simp only [Bool.or_eq_true,Bool.and_eq_true,decide_eq_true_eq,ge_iff_le,UInt32.le_iff_toNat_le] at word
  simp only [isBlank,Bool.or_eq_false_iff,Bool.and_eq_false_iff,decide_eq_false_iff_not,beq_eq_false_iff_ne]
  rcases word with ((capital | small) | digit) | rfl
  · simp at capital
    omega
  · simp at small
    omega
  · simp at digit
    omega
  · decide

theorem nameWords (named : isName body) : body ≠ [] ∧ ∀ c ∈ body, (c.isAlphanum || c = '_') = true := by
  obtain ⟨some,words⟩ := Bool.and_eq_true_iff.mp named
  exact ⟨by simpa using some,all_eq_true.mp words⟩

theorem nameTrimmed (named : isName body) : trimList body = body := by
  obtain ⟨_,words⟩ := nameWords named
  refine borderedTrim ⟨fun c first => wordPlain (words c ?_),fun c last => wordPlain (words c ?_)⟩
  · exact mem_of_head? first
  · exact mem_of_getLast? last

theorem qualifiedTrimmed {view : List Char} (legible : Legible view) (named : isName body) :
    trimList (view ++ '.' :: body) = view ++ '.' :: body := by
  obtain ⟨some,words⟩ := nameWords named
  obtain ⟨d,more,rfl,blank,_⟩ := legibleHead legible
  refine borderedTrim ⟨fun c first => ?_,fun c last => wordPlain (words c ?_)⟩
  · cases Option.some.inj first
    exact blank
  · rw [append_cons,getLast?_append_of_ne_nil _ some] at last
    exact mem_of_getLast? last

theorem nameUncut (named : isName body) : cut? '.' (String.ofList body) = none := by
  rw [cutNone,String.toList_ofList]
  exact nameLacks named (by decide)

theorem dottedOther {name : String} (dotted : '.' ∈ name.toList) : name ≠ table := by
  rintro rfl
  revert dotted
  decide

/- A plain name of a field that is qualified by its view means the same field in every view. -/
theorem bodyQualified (known : s.Knows b) (named : isName body) (field : body ≠ table.toList) {before sql after} :
    (s.bodySql sub a owner (b.name.toList ++ '.' :: body)).Returns before sql after ↔
      (s.bodySql sub b owner body).Returns before sql after := by
  have qualified : Reference.body (token (b.name.toList ++ '.' :: body)) =
      b.name ++ "." ++ String.ofList body := by
    rw [bodyToken,qualifiedTrimmed known.legible named,← String.toList_inj]
    simp
  have plain : Reference.body (token body) = String.ofList body := by rw [bodyToken,nameTrimmed named]
  rw [bodySql,if_neg (by simp),bodySql,if_neg (nameWords named).1]
  refine tokenSqlSame ?_ ?_ ?_
  · rw [qualified]
    exact dottedOther (by simp)
  · rw [plain]
    rintro same
    exact field (by rw [← same,String.toList_ofList])
  · have cut : cut? '.' (b.name ++ "." ++ String.ofList body) = some (b.name, String.ofList body) :=
      cutFirst (legibleLacks known.legible (by simp))
    rw [qualified,plain,reference?,reference?,cut,nameUncut named]
    simp [known.listed]

theorem bodyElsewhere (portable : a = b ∨ body = [] ∨ '.' ∈ body) {before sql after} :
    (s.bodySql sub a owner body).Returns before sql after ↔ (s.bodySql sub b owner body).Returns before sql after := by
  rcases portable with rfl | rfl | dotted
  · exact Iff.rfl
  · exact Iff.rfl
  · have inside : '.' ∈ (Reference.body (token body)).toList := by
      rw [bodyToken,String.toList_ofList]
      exact markTrimmed rfl dotted
    have some : body ≠ [] := ne_nil_of_mem dotted
    rw [bodySql,if_neg some,bodySql,if_neg some]
    refine tokenSqlSame (dottedOther inside) (dottedOther inside) ?_
    rw [reference?,reference?]
    cases cut : cut? '.' (Reference.body (token body)) with
    | none => exact absurd inside (cutNone.mp cut)
    | some pair => rfl

end Session

namespace Reference
variable {cs : List Char}

def isPortableChunk : Chunk → Bool
  | .plain _ => true
  | .token token => isName ((token.drop 2).dropLast) || ((token.drop 2).dropLast).contains '.'

def isPortable (cs : List Char) : Bool := (chunks length? cs).all isPortableChunk

theorem portableGathers : Gathers (fun chunks => chunks.all isPortableChunk) fun _ rest => rest where
  plain _ _ := rfl
  nothing _ := rfl
  append _ _ _ := rfl

theorem portableChar {c : Char} (apart : c = '$' → cs.head? ≠ some '\x7b') : isPortable (c :: cs) = isPortable cs :=
  charPassed portableGathers (apartMissed lengthOpens apart)

theorem portableToken {body : List Char} (inner : Body body) : isPortable (token body ++ cs) =
    ((body.isEmpty || isName body || body.contains '.') && isPortable cs) := by
  have found := lengthToken inner.ends cs
  by_cases empty : body = []
  · rw [if_pos empty] at found
    rw [List.isEmpty_iff.mpr empty,Bool.true_or,Bool.true_or,Bool.true_and]
    exact textPassed portableGathers (tokenMissed lengthOpens inner found)
  · rw [if_neg empty] at found
    rw [isPortable,tokenTaken (tokenSome body) found,all_cons,isPortableChunk,tokenBody,
      isEmpty_eq_false_iff.mpr empty,Bool.false_or]
    rfl

end Reference

namespace Session
variable {s : Session} {sub : Expand} {owner : String} {a b : View}

/- A key that names its view gives in every view what it gives in its own one. -/
theorem filledQualified (known : s.Knows b) {cs : List Char} (closed : Closed cs)
    (portable : a = b ∨ Reference.isPortable cs) {before text after} :
    (s.filled sub a owner (qualifyList b.name.toList cs)).Returns before text after ↔
      (s.filled sub b owner cs).Returns before text after := by
  induction closed generalizing before text after with
  | nil => rw [qualifyNil,filledNil,filledNil]
  | cons apart rest ih =>
    rw [qualifyChar known.legible apart rest,filledChar b apart,
      filledChar a fun dollar => qualifyApart known.legible rest (apart dollar)]
    rw [Reference.portableChar apart] at portable
    simp only [map_eq_pure_bind,returnsBind,ih portable]
  | @reference body cs inner rest ih =>
    rw [Reference.portableToken inner,Bool.and_eq_true] at portable
    have later := portable.imp_right And.right
    rw [qualifyToken known.legible inner,qualified,filledToken b inner]
    split
    · rename_i same
      have table : s.bodySql sub b owner body = pure b.name := by
        subst same
        rfl
      rw [filledPlain a (legibleLacks known.legible (by simp)),table,pure_bind,String.ofList_toList]
      simp only [map_eq_pure_bind,returnsBind,ih later]
    · rename_i field
      split
      · rename_i named
        rw [filledToken a (qualifiedBody known.legible named)]
        simp only [map_eq_pure_bind,returnsBind,ih later,bodyQualified known named field]
      · rename_i other
        rw [filledToken a inner]
        have elsewhere : a = b ∨ body = [] ∨ '.' ∈ body := by
          simpa [other] using portable.imp_right And.left
        simp only [map_eq_pure_bind,returnsBind,ih later,bodyElsewhere elsewhere]

end Session

namespace Identifier

def template (i : Identifier) : String := i.sql.getD ("$\x7b" ++ i.name ++ "\x7d")

def columns (i : Identifier) : List Identifier := if i.isComposite then i.parts else [i]

def matched (ia ib : Identifier) : List (Identifier × Identifier) :=
  if ia.isComposite && ib.isComposite then
    ia.parts.filterMap fun p => (ib.parts.find? fun q => q.name == p.name).map fun q => (p, q)
  else [(ia, ib)]

structure Readable (i : Identifier) : Prop where
  single : i.parts = []
  closed : closes false i.template.toList
  untemplated : Template.isTemplate i.template = false

theorem readableIff {i : Identifier} : i.Readable ↔
    i.parts.isEmpty ∧ closes false i.template.toList ∧ Template.isTemplate i.template = false := by
  rw [List.isEmpty_iff]
  constructor
  · rintro ⟨single,closed,untemplated⟩
    exact ⟨single,closed,untemplated⟩
  · rintro ⟨single,closed,untemplated⟩
    exact ⟨single,closed,untemplated⟩

instance (i : Identifier) : Decidable i.Readable := decidable_of_iff' _ readableIff

theorem equalityMatched (a b : String) (ia ib : Identifier) : equality a ia b ib =
    " and ".intercalate ((ia.matched ib).map fun pair => pair.1.keySql a ++ "=" ++ pair.2.keySql b) := by
  rw [equality,matched]
  split
  · rw [map_filterMap]
    simp only [Option.map_map]
    rfl
  · rfl

theorem keyQualified {i : Identifier} (single : i.parts = []) (view : String) :
    (i.keySql view).toList = qualifyList view.toList i.template.toList := by
  cases i with
  | mk name kind sql reference relationship condition joinKind parts =>
    cases single
    rw [keySql,qualifyChars]
    rfl

structure Comparable (pair : Identifier × Identifier) : Prop where
  first : pair.1.Readable
  second : pair.2.Readable
  portable : Reference.isPortable pair.2.template.toList

def compared (a b : View) (pair : Identifier × Identifier) : String :=
  pair.1.keySql a.name ++ "=" ++ pair.2.keySql b.name

theorem comparedChars (a b : View) (pair : Identifier × Identifier) : (compared a b pair).toList =
    (pair.1.keySql a.name).toList ++ '=' :: (pair.2.keySql b.name).toList := by simp [compared]

end Identifier

namespace Session
variable {s : Session} {owner : String} {a b : View}

variable {i : Identifier} {pair : Identifier × Identifier}

theorem keyClosed (known : s.Knows b) (readable : i.Readable) : Closed (i.keySql b.name).toList := by
  rw [keyQualified readable.single]
  exact closedQualified known.legible (closedOf readable.closed)

theorem keyUntemplated (known : s.Knows b) (readable : i.Readable) :
    (i.keySql b.name).toList.IsChain Template.Apart := by
  rw [keyQualified readable.single]
  have chain := Template.untemplatedChain.mp readable.untemplated
  -- a closing brace in front changes nothing
  have closing : ('\x7d' :: i.template.toList).IsChain Template.Apart :=
    plainChain ['\x7d'] (by decide) chain
  exact (chainQualified known.legible (closedOf readable.closed) closing).tail

theorem keyFilled (known : s.Knows b) (readable : i.Readable)
    (portable : a = b ∨ Reference.isPortable i.template.toList) {before text after} :
    (s.filled s.rowSql a owner (i.keySql b.name).toList).Returns before text after ↔
      (s.expand b owner i.template).Returns before text after := by
  rw [keyQualified readable.single,expand,expandFilled b readable.untemplated]
  exact filledQualified known (closedOf readable.closed) portable

def equate (s : Session) (a b : View) (owner : String) (pair : Identifier × Identifier) : Compile String := do
  let left ← s.expand a owner pair.1.template
  let right ← s.expand b owner pair.2.template
  return left ++ "=" ++ right

theorem comparedFilled (left : s.Knows a) (right : s.Knows b) (keys : Comparable pair) {before text after} :
    (s.filled s.rowSql a owner (compared a b pair).toList).Returns before text after ↔
      (s.equate a b owner pair).Returns before text after := by
  have read : s.filled s.rowSql a owner (compared a b pair).toList = do
      let left ← s.filled s.rowSql a owner (pair.1.keySql a.name).toList
      let right ← s.filled s.rowSql a owner (pair.2.keySql b.name).toList
      return left ++ "=" ++ right := by
    have sign : String.ofList ['='] = "=" := rfl
    rw [comparedChars,filledAppend a (keyClosed left keys.first) (by simp),filledChar a (by simp),sign]
    simp [String.append_assoc]
  simp only [read,equate,returnsBind,keyFilled left keys.first (.inl rfl),
    keyFilled right keys.second (.inr keys.portable)]

theorem comparedClosed (left : s.Knows a) (right : s.Knows b)
    (keys : Comparable pair) : Closed (compared a b pair).toList := by
  rw [comparedChars]
  exact Reference.closedAppend (keyClosed left keys.first)
    (Reference.plainClosed ['='] (by decide) (keyClosed right keys.second)) (by simp)

theorem chainAppend {xs ys : List Char} (left : xs.IsChain Template.Apart) (right : ys.IsChain Template.Apart)
    (apart : ∀ d ∈ ys.head?, d ≠ '\x7b' ∧ d ≠ '%') : (xs ++ ys).IsChain Template.Apart :=
  left.append right fun _ _ d first _ => apart d first

theorem comparedUntemplated (left : s.Knows a) (right : s.Knows b)
    (keys : Comparable pair) : (compared a b pair).toList.IsChain Template.Apart := by
  rw [comparedChars]
  exact chainAppend (keyUntemplated left keys.first)
    (plainChain ['='] (by decide) (keyUntemplated right keys.second)) (by simp)

def comparisons (a b : View) (pairs : List (Identifier × Identifier)) : String :=
  " and ".intercalate (pairs.map (compared a b))

theorem comparisonsChars (a b : View) (pair next : Identifier × Identifier) (rest : List (Identifier × Identifier)) :
    (comparisons a b (pair :: next :: rest)).toList =
      (compared a b pair).toList ++ (" and ".toList ++ (comparisons a b (next :: rest)).toList) := by
  simp [comparisons]

theorem comparisonsUntemplated (left : s.Knows a) (right : s.Knows b) {pairs : List (Identifier × Identifier)}
    (keys : ∀ pair ∈ pairs, Comparable pair) : (comparisons a b pairs).toList.IsChain Template.Apart := by
  induction pairs with
  | nil => exact isChain_nil
  | cons pair rest ih =>
    obtain ⟨here,later⟩ := forall_mem_cons.mp keys
    have first := comparedUntemplated left right here
    cases rest with
    | nil => exact first
    | cons next rest =>
      rw [comparisonsChars]
      exact chainAppend first (plainChain _ (by decide) (ih later)) (by simp)

theorem comparisonsFilled (left : s.Knows a) (right : s.Knows b) {pairs : List (Identifier × Identifier)}
    (keys : ∀ pair ∈ pairs, Comparable pair) {before text after} :
    (s.filled s.rowSql a owner (comparisons a b pairs).toList).Returns before text after ↔
      ∃ texts, (pairs.mapM (s.equate a b owner)).Returns before texts after ∧ text = " and ".intercalate texts := by
  induction pairs generalizing before text after with
  | nil => simp [comparisons,filledNil,and_comm]
  | cons pair rest ih =>
    obtain ⟨here,later⟩ := forall_mem_cons.mp keys
    cases rest with
    | nil =>
      refine (comparedFilled left right here).trans ?_
      simp only [returnsMapCons,mapM_nil,returnsPure]
      constructor
      · intro ran
        exact ⟨[text],⟨text,after,[],ran,⟨rfl,rfl⟩,rfl⟩,rfl⟩
      · rintro ⟨_,⟨y,middle,_,ran,⟨rfl,rfl⟩,rfl⟩,rfl⟩
        exact ran
    | cons next rest =>
      have read : s.filled s.rowSql a owner (comparisons a b (pair :: next :: rest)).toList = do
          let first ← s.filled s.rowSql a owner (compared a b pair).toList
          let others ← s.filled s.rowSql a owner (comparisons a b (next :: rest)).toList
          return first ++ " and " ++ others := by
        have word : String.ofList " and ".toList = " and " := rfl
        rw [comparisonsChars,filledAppend a (comparedClosed left right here) (by simp),filledPlain a (by decide),word]
        simp [String.append_assoc]
      simp only [read,returnsBind,returnsPure,comparedFilled left right here,ih later]
      constructor
      · rintro ⟨first,middle,ran,_,_,⟨texts,others,rfl⟩,rfl,rfl⟩
        refine ⟨first :: texts,returnsMapCons.mpr ⟨first,middle,texts,ran,others,rfl⟩,?_⟩
        obtain ⟨second,_,more,_,_,rfl⟩ := returnsMapCons.mp others
        rw [String.intercalate_cons_cons]
      · rintro ⟨_,all,rfl⟩
        obtain ⟨first,middle,texts,ran,others,rfl⟩ := returnsMapCons.mp all
        refine ⟨first,middle,ran,_,after,⟨texts,others,rfl⟩,?_,rfl⟩
        obtain ⟨second,_,more,_,_,rfl⟩ := returnsMapCons.mp others
        rw [String.intercalate_cons_cons]

end Session

namespace Identifier
variable {ia ib : Identifier}

theorem joinCondition {a b : View} {j : Join} (joined : join? a ia b ib = some j) :
    j.condition = equality a.name ia b.name ib := by
  obtain ⟨relationship,_,joined⟩ := Option.bind_eq_some_iff.mp joined
  obtain ⟨_,_,same⟩ := Option.bind_eq_some_iff.mp joined
  cases same
  rfl

theorem findNamed {parts : List Identifier} (distinct : (parts.map name).Nodup) {p q : Identifier} :
    (parts.find? fun q => q.name == p.name) = some q ↔ q ∈ parts ∧ q.name = p.name := by
  constructor
  · intro found
    exact ⟨mem_of_find?_eq_some found,by simpa using find?_some found⟩
  · rintro ⟨mem,same⟩
    induction parts with
    | nil => cases mem
    | cons first rest ih =>
      obtain ⟨fresh,later⟩ := nodup_cons.mp distinct
      rcases mem_cons.mp mem with rfl | inside
      · simp [same]
      · have other : first.name ≠ p.name := fun named =>
          fresh (mem_map.mpr ⟨q,inside,same.trans named.symm⟩)
        rw [find?_cons_of_neg (by simpa using other)]
        exact ih later inside

theorem matchedFirst (alike : ia.isComposite = ib.isComposite) : (ia.matched ib).map Prod.fst =
    ia.columns.filter fun p => !ia.isComposite || ib.columns.any fun q => q.name == p.name := by
  cases composite : ia.isComposite with
  | false => simp [matched,columns,composite]
  | true =>
    rw [composite] at alike
    simp only [matched,columns,composite,← alike,Bool.and_self,if_true,Bool.not_true,Bool.false_or,
      map_filterMap,Option.map_map]
    rw [← filterMap_eq_filter]
    congr 1
    funext p
    rw [Option.guard,← isSome_find?]
    cases ib.parts.find? fun q => q.name == p.name <;> rfl

theorem matchedMember (alike : ia.isComposite = ib.isComposite) (distinct : (ib.columns.map name).Nodup)
    {p q : Identifier} :
    (p, q) ∈ ia.matched ib ↔ p ∈ ia.columns ∧ q ∈ ib.columns ∧ (ia.isComposite → q.name = p.name) := by
  cases composite : ia.isComposite with
  | false => simp [matched,columns,composite,← alike]
  | true =>
    rw [composite] at alike
    simp only [matched,columns,composite,← alike,Bool.and_self,if_true,forall_const] at distinct ⊢
    simp only [mem_filterMap,Option.map_eq_some_iff,findNamed distinct,Prod.mk.injEq]
    grind

theorem matchedColumns (alike : ia.isComposite = ib.isComposite) {pair} (mem : pair ∈ ia.matched ib) :
    pair.1 ∈ ia.columns ∧ pair.2 ∈ ib.columns := by
  cases composite : ia.isComposite with
  | false =>
    have only : pair = (ia, ib) := by simpa [matched,composite] using mem
    simp [only,columns,composite,← alike]
  | true =>
    rw [composite] at alike
    simp only [matched,columns,composite,← alike,Bool.and_self,if_true] at mem ⊢
    obtain ⟨p,inside,made⟩ := mem_filterMap.mp mem
    obtain ⟨q,found,rfl⟩ := Option.map_eq_some_iff.mp made
    exact ⟨inside,mem_of_find?_eq_some found⟩

end Identifier

namespace Session
variable {s : Session} {a b : View} {ia ib : Identifier} {j : Join}

theorem identifiersEquated (joined : Identifier.join? a ia b ib = some j) (left : s.Knows a) (right : s.Knows b)
    (alike : ia.isComposite = ib.isComposite) (keys : ∀ i ∈ ia.columns ++ ib.columns, i.Readable)
    (portable : ∀ i ∈ ib.columns, Reference.isPortable i.template.toList) :
    (∀ owner before text after, (s.expand a owner j.condition).Returns before text after ↔
      ∃ texts, ((ia.matched ib).mapM (s.equate a b owner)).Returns before texts after ∧
        text = " and ".intercalate texts) ∧
    (ia.matched ib).map Prod.fst =
      ia.columns.filter (fun p => !ia.isComposite || ib.columns.any fun q => q.name == p.name) ∧
    ((ib.columns.map Identifier.name).Nodup → ∀ p q, (p, q) ∈ ia.matched ib ↔
      p ∈ ia.columns ∧ q ∈ ib.columns ∧ (ia.isComposite → q.name = p.name)) := by
  refine ⟨fun owner before text after => ?_,Identifier.matchedFirst alike,fun distinct p q =>
    Identifier.matchedMember alike distinct⟩
  have comparable : ∀ pair ∈ ia.matched ib, Identifier.Comparable pair := by
    intro pair mem
    obtain ⟨first,second⟩ := Identifier.matchedColumns alike mem
    exact ⟨keys _ (List.mem_append_left _ first),keys _ (List.mem_append_right _ second),portable _ second⟩
  have condition : j.condition = comparisons a b (ia.matched ib) := by
    rw [Identifier.joinCondition joined,Identifier.equalityMatched]
    rfl
  rw [condition,expand,expandFilled a (Template.untemplatedChain.mpr (comparisonsUntemplated left right comparable))]
  exact comparisonsFilled left right comparable

def customerKey (sql : String) (kind : IdentifierKind) : Identifier :=
  .mk "customer" kind (some sql) none none none none []

def keyedOrders : View where
  name := "orders"
  tableName := some "db.orders"
  fields := [{ name := "id", sql := some "$\x7bTABLE\x7d.id" }]

def keyedCustomers : View where
  name := "customers"
  tableName := some "db.customers"
  fields := [{ name := "id", sql := some "$\x7bTABLE\x7d.customer_key" }]

def keyedSession : Session where
  project := .ofDefinitions { views := [keyedOrders,keyedCustomers] }
  context := { dialect := .snowflake, now := ⟨⟨2024,1,1⟩,0,0,0,0⟩ }

theorem keyedOrdersKnown : keyedSession.Knows keyedOrders := ⟨rfl,by decide,by decide⟩

theorem keyedCustomersKnown : keyedSession.Knows keyedCustomers := ⟨rfl,by decide,by decide⟩

def orderKey : Identifier := customerKey "$\x7bTABLE\x7d.customer_id" .foreign

def keyedJoin (ia ib : Identifier) : Join where
  base := "orders"
  target := "customers"
  relationship := .manyToOne
  condition := equality "orders" ia "customers" ib

theorem customersEquated :
    Identifier.join? keyedOrders orderKey keyedCustomers (customerKey "$\x7bid\x7d" .primary) =
      some (keyedJoin orderKey (customerKey "$\x7bid\x7d" .primary)) ∧
    ∃ after, (keyedSession.expand keyedOrders "orders"
      (keyedJoin orderKey (customerKey "$\x7bid\x7d" .primary)).condition).Returns {}
        "orders.customer_id=customers.customer_key" after := by
  have joined : Identifier.join? keyedOrders orderKey keyedCustomers (customerKey "$\x7bid\x7d" .primary) =
    some (keyedJoin orderKey (customerKey "$\x7bid\x7d" .primary)) := rfl
  have equal : Compile.ran? (keyedSession.equate keyedOrders keyedCustomers "orders"
    (orderKey, customerKey "$\x7bid\x7d" .primary)) = some "orders.customer_id=customers.customer_key" := by decide +kernel
  obtain ⟨after,ran⟩ := Compile.ranReturns equal
  obtain ⟨expands,_⟩ := identifiersEquated joined keyedOrdersKnown keyedCustomersKnown rfl
    (by decide) (by decide)
  refine ⟨joined,after,(expands _ _ _ _).mpr ⟨["orders.customer_id=customers.customer_key"],?_,rfl⟩⟩
  exact Compile.returnsMapCons.mpr ⟨_,after,[],ran,Compile.returnsPure.mpr ⟨rfl,rfl⟩,rfl⟩

def EquatesAll (s : Session) (a b : View) (ia ib : Identifier) (owner : String) (before : Progress) (text : String)
    (after : Progress) : Prop :=
  ∃ (pairs : List (Identifier × Identifier)) (texts : List String), pairs.map Prod.fst = ia.columns ∧
    (pairs.map Prod.snd).Perm ib.columns ∧ (∀ pair ∈ pairs, pair.1.name = pair.2.name) ∧
    (pairs.mapM (s.equate a b owner)).Returns before texts after ∧ text = " and ".intercalate texts

def columnKey (name : String) : Identifier := .mk name .foreign (some ("$\x7bTABLE\x7d." ++ name)) none none none none []

def columnsKey (kind : IdentifierKind) (names : List String) : Identifier :=
  .mk "customer" kind none none none none none (names.map columnKey)

/- A blank in the braces makes the join read the field of the wrong view, and a part without a partner is left out. -/
theorem keysNotEquated :
    (¬ ∀ (s : Session) (a b : View) (ia ib : Identifier) (j : Join) owner before text after,
      Identifier.join? a ia b ib = some j → s.Knows a → s.Knows b → (∀ i ∈ ia.columns ++ ib.columns, i.Readable) →
      ia.isComposite = false → ib.isComposite = false → (s.expand a owner j.condition).Returns before text after →
      s.EquatesAll a b ia ib owner before text after) ∧
    ¬ ∀ (s : Session) (a b : View) (ia ib : Identifier) (j : Join) owner before text after,
      Identifier.join? a ia b ib = some j → s.Knows a → s.Knows b → (∀ i ∈ ia.columns ++ ib.columns, i.Readable) →
      (∀ i ∈ ia.columns ++ ib.columns, Reference.isPortable i.template.toList) →
      (s.expand a owner j.condition).Returns before text after → s.EquatesAll a b ia ib owner before text after := by
  constructor
  · intro all
    have expanded : Compile.ran? (keyedSession.expand keyedOrders "orders"
      (keyedJoin orderKey (customerKey "$\x7b id \x7d" .primary)).condition) = some "orders.customer_id=orders.id" := by
      decide +kernel
    obtain ⟨after,ran⟩ := Compile.ranReturns expanded
    obtain ⟨pairs,texts,firsts,seconds,_,equates,same⟩ := all keyedSession keyedOrders keyedCustomers orderKey
      (customerKey "$\x7b id \x7d" .primary) _ "orders" {} _ after rfl keyedOrdersKnown keyedCustomersKnown
      (by decide) rfl rfl ran
    obtain ⟨⟨_,second⟩,rfl,rfl⟩ := List.map_eq_singleton_iff.mp firsts
    cases List.singleton_perm_singleton.mp seconds
    obtain ⟨equal,_,_,made,rest,rfl⟩ := Compile.returnsMapCons.mp equates
    have other : Compile.ran? (keyedSession.equate keyedOrders keyedCustomers "orders"
      (orderKey, customerKey "$\x7b id \x7d" .primary)) = some "orders.customer_id=customers.customer_key" := by
      decide +kernel
    cases (Compile.returnsRan made).symm.trans other
    cases (Compile.returnsPure.mp rest).1
    exact absurd same (by decide)
  · intro all
    have expanded : Compile.ran? (keyedSession.expand keyedOrders "orders"
      (keyedJoin (columnsKey .foreign ["x","y"]) (columnsKey .primary ["x","z"])).condition) =
        some "orders.x=customers.x" := by decide +kernel
    obtain ⟨after,ran⟩ := Compile.ranReturns expanded
    obtain ⟨pairs,texts,firsts,seconds,named,_⟩ := all keyedSession keyedOrders keyedCustomers
      (columnsKey .foreign ["x","y"]) (columnsKey .primary ["x","z"]) _ "orders" {} _ after rfl keyedOrdersKnown
      keyedCustomersKnown (by decide) (by decide) ran
    have same : (pairs.map Prod.fst).map Identifier.name = (pairs.map Prod.snd).map Identifier.name := by
      rw [List.map_map,List.map_map]
      exact List.map_congr_left named
    rw [firsts] at same
    have names : ["x","y"].Perm ["x","z"] := (List.Perm.of_eq same).trans (seconds.map Identifier.name)
    exact absurd names (by decide)

end Session

end SemanticSql
