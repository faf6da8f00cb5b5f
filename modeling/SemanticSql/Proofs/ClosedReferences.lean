import Mathlib.Data.List.Chain
import Mathlib.Data.List.Infix
import SemanticSql.JoinGraph.Declared
import SemanticSql.Template

/-! Text in which every reference that is opened is closed. -/
namespace SemanticSql

open List Text

namespace Text
variable {β : Type} {make : List Chunk → β} {before : List Char → β → β} {find : List Char → Option Nat}

/- What is made of chunks if it does not matter where plain text is cut. -/
structure Gathers (make : List Chunk → β) (before : List Char → β → β) : Prop where
  plain : ∀ cs chunks, make (.plain cs :: chunks) = before cs (make chunks)
  nothing : ∀ b, before [] b = b
  append : ∀ xs ys b, before (xs ++ ys) b = before xs (before ys b)

theorem withPlainMade (gathers : Gathers make before) (cs : List Char) (chunks : List Chunk) :
    make (withPlain cs chunks) = before cs (make chunks) := by
  cases cs with
  | nil => exact (gathers.nothing _).symm
  | cons c cs => exact gathers.plain _ _

theorem gathered (gathers : Gathers make before) (held cs : List Char) :
    make (chunksFrom find 0 held cs) = before held.reverse (make (chunks find cs)) := by
  unfold chunks
  induction cs generalizing held with
  | nil => simp only [chunksFrom,withPlainMade gathers,reverse_nil,gathers.nothing]
  | cons c rest ih =>
    rw [chunksFrom,chunksFrom]
    split
    · simp only [withPlainMade gathers,reverse_nil,gathers.nothing]
    · rw [ih,ih [c],reverse_cons,gathers.append,reverse_singleton]

theorem charPassed (gathers : Gathers make before) {c : Char} {cs : List Char} (missed : find (c :: cs) = none) :
    make (chunks find (c :: cs)) = before [c] (make (chunks find cs)) := by
  rw [chunks,chunksFrom,missed]
  exact gathered gathers [c] cs

theorem textPassed (gathers : Gathers make before) {cs rest : List Char}
    (missed : ∀ front back, cs = front ++ back → back ≠ [] → find (back ++ rest) = none) :
    make (chunks find (cs ++ rest)) = before cs (make (chunks find rest)) := by
  induction cs with
  | nil => exact (gathers.nothing _).symm
  | cons c cs ih =>
    have first : find (c :: (cs ++ rest)) = none := missed [] (c :: cs) rfl (cons_ne_nil c cs)
    rw [cons_append,charPassed gathers first,ih,← gathers.append,singleton_append]
    intro front back same some
    exact missed (c :: front) back (by rw [same,cons_append]) some

theorem tokenTaken {token rest : List Char} (some : token ≠ []) (found : find (token ++ rest) = .some token.length) :
    chunks find (token ++ rest) = .token token :: chunks find rest := by
  obtain ⟨c,cs,rfl⟩ := exists_cons_of_ne_nil some
  have skipped : ∀ cs, chunksFrom find cs.length [] (cs ++ rest) = chunks find rest := by
    intro cs
    induction cs with
    | nil => rfl
    | cons d cs ih =>
      rw [length_cons,cons_append,chunksFrom]
      exact ih
  rw [chunks,cons_append,chunksFrom]
  rw [cons_append,length_cons] at found
  simp only [found]
  rw [skipped,take_succ_cons,take_left]
  rfl

def replaced (new : List Char → List Char) : Chunk → List Char
  | .plain cs => cs
  | .token cs => new cs

theorem substituteGathers (new : List Char → List Char) :
    Gathers (fun chunks => chunks.flatMap (replaced new)) (· ++ ·) where
  plain _ _ := rfl
  nothing _ := rfl
  append := append_assoc

theorem substituteToken {new : List Char → List Char} {token rest : List Char} (some : token ≠ [])
    (found : find (token ++ rest) = .some token.length) :
    substitute find new (token ++ rest) = new token ++ substitute find new rest := by
  rw [substitute,tokenTaken some found]
  rfl

end Text

namespace Reference
variable {find : List Char → Option Nat}

def token (body : List Char) : List Char := '$' :: '\x7b' :: (body ++ ['\x7d'])

theorem tokenSome (body : List Char) : token body ≠ [] := cons_ne_nil _ _

theorem tokenBody (body : List Char) : ((token body).drop 2).dropLast = body := dropLast_concat

structure Body (body : List Char) : Prop where
  ends : '\x7d' ∉ body
  opens : ¬ ['$','\x7b'] <:+: body

inductive Closed : List Char → Prop
  | nil : Closed []
  | cons {c cs} (apart : c = '$' → cs.head? ≠ some '\x7b') (rest : Closed cs) : Closed (c :: cs)
  | reference {body cs} (inner : Body body) (rest : Closed cs) : Closed (token body ++ cs)

def closes : Bool → List Char → Bool
  | inside, [] => !inside
  | inside, '$' :: '\x7b' :: rest => !inside && closes true rest
  | inside, c :: rest => closes (inside && c != '\x7d') rest

variable {cs body rest ys : List Char} {c : Char}

theorem closesPast {inside : Bool} (apart : c = '$' → rest.head? ≠ some '\x7b') :
    closes inside (c :: rest) = closes (inside && c != '\x7d') rest := by
  rw [closes]
  rintro after rfl rfl
  exact apart rfl rfl

theorem closesBody (closed : closes true cs) :
    ∃ body rest, cs = body ++ '\x7d' :: rest ∧ Body body ∧ closes false rest := by
  induction cs with
  | nil => cases closed
  | cons c cs ih =>
    have apart : c = '$' → cs.head? ≠ some '\x7b' := by
      rintro rfl starts
      obtain ⟨rest,rfl⟩ := head?_eq_some_iff.mp starts
      cases closed
    rw [closesPast apart] at closed
    by_cases last : c = '\x7d'
    · subst last
      exact ⟨[],cs,rfl,⟨not_mem_nil,by simp⟩,closed⟩
    · rw [bne_iff_ne.mpr last] at closed
      obtain ⟨body,rest,rfl,inner,later⟩ := ih closed
      refine ⟨c :: body,rest,rfl,⟨?_,?_⟩,later⟩
      · simpa [Ne.symm last] using inner.ends
      · rintro opens
        rcases infix_cons_iff.mp opens with starts | within
        · obtain ⟨rfl,next⟩ := cons_prefix_cons.mp starts
          obtain ⟨more,rfl⟩ := next
          exact apart rfl rfl
        · exact inner.opens within

theorem closedOf (closed : closes false cs) : Closed cs := by
  induction size : cs.length using Nat.strong_induction_on generalizing cs with
  | _ n ih =>
    cases cs with
    | nil => exact .nil
    | cons c rest =>
      by_cases opens : c = '$' ∧ rest.head? = some '\x7b'
      · obtain ⟨rfl,starts⟩ := opens
        obtain ⟨rest,rfl⟩ := head?_eq_some_iff.mp starts
        obtain ⟨body,rest,rfl,inner,later⟩ := closesBody (by simpa [closes] using closed)
        have shorter : rest.length < n := by
          simp only [length_cons,length_append] at size
          omega
        have whole := Closed.reference inner (ih rest.length shorter later rfl)
        rwa [token,cons_append,cons_append,append_assoc] at whole
      · have apart : c = '$' → rest.head? ≠ some '\x7b' := fun first starts => opens ⟨first,starts⟩
        rw [closesPast apart] at closed
        exact .cons apart (ih rest.length (by simp [← size]) closed rfl)

theorem apartAppend (apart : c = '$' → cs.head? ≠ some '\x7b')
    (next : ys.head? ≠ some '\x7b') (dollar : c = '$') : (cs ++ ys).head? ≠ some '\x7b' := by
  cases cs with
  | nil => exact next
  | cons d cs => exact apart dollar

theorem closedAppend {xs : List Char} (left : Closed xs) (right : Closed ys) (apart : ys.head? ≠ some '\x7b') :
    Closed (xs ++ ys) := by
  induction left with
  | nil => exact right
  | cons first _ ih => exact .cons (apartAppend first apart) ih
  | reference inner _ ih =>
    rw [append_assoc]
    exact .reference inner ih

theorem plainClosed (xs : List Char) (plain : '$' ∉ xs) (right : Closed ys) : Closed (xs ++ ys) := by
  induction xs with
  | nil => exact right
  | cons c xs ih =>
    obtain ⟨first,later⟩ := not_or.mp (mt mem_cons.mpr plain)
    exact .cons (fun opens => absurd opens.symm first) (ih later)

def Opens (find : List Char → Option Nat) : Prop := ∀ cs, ¬ ['$','\x7b'] <+: cs → find cs = none

theorem apartMissed (opens : Opens find) (apart : c = '$' → cs.head? ≠ some '\x7b') : find (c :: cs) = none := by
  refine opens _ fun starts => ?_
  obtain ⟨rfl,next⟩ := cons_prefix_cons.mp starts
  obtain ⟨more,rfl⟩ := next
  exact apart rfl rfl

theorem plainMissed (opens : Opens find) (plain : '$' ∉ cs)
    (front back : List Char) (same : cs = front ++ back) (some : back ≠ []) : find (back ++ rest) = none := by
  obtain ⟨c,back,rfl⟩ := exists_cons_of_ne_nil some
  refine apartMissed opens fun dollar => ?_
  subst dollar
  exact absurd (same ▸ by simp) plain

/- A reference that is not found as a whole is passed: none starts inside of it. -/
theorem tokenMissed (opens : Opens find) (inner : Body body) (missed : find (token body ++ rest) = none)
    (front back : List Char) (same : token body = front ++ back) (some : back ≠ []) : find (back ++ rest) = none := by
  cases front with
  | nil =>
    cases same
    exact missed
  | cons first front =>
    obtain ⟨c,back,rfl⟩ := exists_cons_of_ne_nil some
    replace same : '\x7b' :: body ++ ['\x7d'] = front ++ c :: back := (List.cons.inj same).2
    refine apartMissed opens fun dollar starts => ?_
    subst dollar
    cases back with
    | nil => cases append_inj_right' same rfl
    | cons d back =>
      cases Option.some.inj starts
      have inside : ['$','\x7b'] <:+: '\x7b' :: (body ++ ['\x7d']) := ⟨front,back,by simpa using same.symm⟩
      rcases infix_cons_iff.mp inside with starts | inside
      · cases (cons_prefix_cons.mp starts).1
      · rcases infix_concat_iff.mp inside with ends | within
        · obtain ⟨most,whole⟩ := ends
          rw [append_cons] at whole
          cases append_inj_right' whole rfl
        · exact inner.opens within

theorem bodyTaken (ends : '\x7d' ∉ body) (rest : List Char) :
    (body ++ '\x7d' :: rest).takeWhile (· != '\x7d') = body := by
  rw [takeWhile_append_of_pos]
  · simp
  · intro c mem
    rw [bne_iff_ne]
    rintro rfl
    exact ends mem

theorem lengthOpens : Opens length? := by
  intro cs shut
  unfold length?
  split
  · exact absurd (prefix_append ['$','\x7b'] _) shut
  · rfl

theorem lengthToken (ends : '\x7d' ∉ body) (rest : List Char) :
    length? (token body ++ rest) = if body = [] then none else some (token body).length := by
  have taken := bodyTaken ends rest
  simp only [token,cons_append,append_assoc,nil_append,length?,taken]
  cases body with
  | nil => rfl
  | cons c body => simp

def isName (body : List Char) : Bool := !body.isEmpty && body.all fun c => c.isAlphanum || c = '_'

theorem bareOpens : Opens Identifier.bareLength? := by
  intro cs shut
  rw [Identifier.bareLength?,lengthOpens cs shut]
  rfl

theorem bareToken (inner : Body body) (rest : List Char) :
    Identifier.bareLength? (token body ++ rest) = if isName body then some (token body).length else none := by
  rw [Identifier.bareLength?,lengthToken inner.ends]
  cases body with
  | nil => rfl
  | cons c body =>
    simp only [if_neg (cons_ne_nil c body),Option.bind_some,take_left,tokenBody,isName]
    rfl

theorem tableOpens : Opens (lengthIfLeading Identifier.tableReference) := by
  intro cs shut
  rw [lengthIfLeading,if_neg]
  intro leads
  refine shut (List.IsPrefix.trans ?_ (List.isPrefixOf_iff_prefix.mp leads))
  exact ⟨"TABLE\x7d".toList,rfl⟩

theorem tableToken (inner : Body body) (rest : List Char) :
    lengthIfLeading Identifier.tableReference (token body ++ rest) =
      if body = table.toList then some (token body).length else none := by
  have whole : Identifier.tableReference = token table.toList := rfl
  rw [lengthIfLeading,whole]
  by_cases same : body = table.toList
  · subst same
    rw [if_pos (List.isPrefixOf_iff_prefix.mpr (prefix_append _ rest)),if_pos rfl]
  · rw [if_neg same,if_neg]
    intro leads
    obtain ⟨more,joined⟩ := isPrefixOf_iff_prefix.mp leads
    -- the first closing brace ends both names
    have cut := congrArg (fun cs => (cs.drop 2).takeWhile (· != '\x7d')) joined
    simp only [token,cons_append,append_assoc,drop_succ_cons,drop_zero,nil_append,
      bodyTaken inner.ends] at cut
    exact same (cut.symm.trans (bodyTaken (by decide) more))

end Reference

namespace Identifier
open Reference
variable {view cs : List Char}

structure Legible (view : List Char) : Prop where
  starts : view.head?.any fun c => !Text.isBlank c && c != '%'
  plain : view.all fun c => !(['$','\x7b','\x7d','.'].contains c)

variable {c : Char} {body : List Char}

theorem legibleLacks (legible : Legible view) (mem : c ∈ ['$','\x7b','\x7d','.']) : c ∉ view := by
  intro inside
  have plain := all_eq_true.mp legible.plain c inside
  simp [mem] at plain

theorem legibleHead (legible : Legible view) :
    ∃ c rest, view = c :: rest ∧ isBlank c = false ∧ c ≠ '%' ∧ c ≠ '\x7b' := by
  have starts := legible.starts
  cases view with
  | nil => cases starts
  | cons c rest =>
    simp only [head?_cons,Option.any_some,Bool.and_eq_true,Bool.not_eq_true',bne_iff_ne] at starts
    refine ⟨c,rest,rfl,starts.1,starts.2,?_⟩
    rintro rfl
    exact legibleLacks legible (by simp) mem_cons_self

def tableNamed (view cs : List Char) : List Char :=
  Text.substitute (Text.lengthIfLeading tableReference) (fun _ => view) cs

def fieldsNamed (view cs : List Char) : List Char :=
  Text.substitute bareLength? (fun token => ['$','\x7b'] ++ view ++ '.' :: token.drop 2) cs

theorem qualifyChars (view sql : String) :
    (qualify view sql).toList = fieldsNamed view.toList (tableNamed view.toList sql.toList) := by
  rw [qualify,String.toList_ofList]
  rfl

theorem tableNamedChar (apart : c = '$' → cs.head? ≠ some '\x7b') :
    tableNamed view (c :: cs) = c :: tableNamed view cs :=
  charPassed (substituteGathers _) (apartMissed tableOpens apart)

theorem tableNamedToken (inner : Body body) :
    tableNamed view (token body ++ cs) = (if body = table.toList then view else token body) ++ tableNamed view cs := by
  have found := tableToken inner cs
  split
  · rename_i same
    rw [if_pos same] at found
    exact substituteToken (tokenSome body) found
  · rename_i other
    rw [if_neg other] at found
    exact textPassed (substituteGathers _) (tokenMissed tableOpens inner found)

theorem tableNamedHead (legible : Legible view) (closed : Closed cs) :
    (tableNamed view cs).head? = cs.head? ∨ (tableNamed view cs).head? = view.head? := by
  cases closed with
  | nil => exact .inl rfl
  | cons apart _ => exact .inl (by rw [tableNamedChar apart]; rfl)
  | reference inner _ =>
    rw [tableNamedToken inner]
    split
    · obtain ⟨c,rest,rfl,_⟩ := legibleHead legible
      exact .inr rfl
    · exact .inl rfl

theorem fieldsNamedChar (apart : c = '$' → cs.head? ≠ some '\x7b') :
    fieldsNamed view (c :: cs) = c :: fieldsNamed view cs :=
  charPassed (substituteGathers _) (apartMissed bareOpens apart)

theorem fieldsNamedPlain {xs : List Char} (plain : '$' ∉ xs) : fieldsNamed view (xs ++ cs) = xs ++ fieldsNamed view cs :=
  textPassed (substituteGathers _) (plainMissed bareOpens plain)

theorem fieldsNamedToken (inner : Body body) : fieldsNamed view (token body ++ cs) =
    (if isName body then token (view ++ '.' :: body) else token body) ++ fieldsNamed view cs := by
  have found := bareToken inner cs
  split
  · rename_i named
    rw [if_pos named] at found
    rw [fieldsNamed,substituteToken (tokenSome body) found]
    simp [token,fieldsNamed]
  · rename_i other
    rw [if_neg other] at found
    exact textPassed (substituteGathers _) (tokenMissed bareOpens inner found)

def qualifyList (view cs : List Char) : List Char := fieldsNamed view (tableNamed view cs)

def qualified (view body : List Char) : List Char :=
  if body = table.toList then view else if isName body then token (view ++ '.' :: body) else token body

theorem qualifyNil : qualifyList view [] = [] := rfl

theorem qualifyChar (legible : Legible view) (apart : c = '$' → cs.head? ≠ some '\x7b') (closed : Closed cs) :
    qualifyList view (c :: cs) = c :: qualifyList view cs := by
  rw [qualifyList,tableNamedChar apart,fieldsNamedChar,qualifyList]
  intro dollar
  obtain ⟨d,rest,rfl,_,_,brace⟩ := legibleHead legible
  rcases tableNamedHead legible closed with same | named
  · exact same ▸ apart dollar
  · rw [named]
    simpa using brace

theorem qualifyToken (legible : Legible view) (inner : Body body) :
    qualifyList view (token body ++ cs) = qualified view body ++ qualifyList view cs := by
  rw [qualifyList,tableNamedToken inner,qualified]
  split
  · rw [fieldsNamedPlain (legibleLacks legible (by simp)),qualifyList]
  · rw [fieldsNamedToken inner,qualifyList]

theorem qualifyHead (legible : Legible view) (closed : Closed cs) :
    (qualifyList view cs).head? = cs.head? ∨ (qualifyList view cs).head? = view.head? := by
  cases closed with
  | nil => exact .inl rfl
  | cons apart rest => exact .inl (by rw [qualifyChar legible apart rest]; rfl)
  | reference inner _ =>
    rw [qualifyToken legible inner,qualified]
    split
    · obtain ⟨c,rest,rfl,_⟩ := legibleHead legible
      exact .inr rfl
    · split
      · exact .inl rfl
      · exact .inl rfl

theorem qualifyApart (legible : Legible view) (closed : Closed cs) (apart : cs.head? ≠ some '\x7b') :
    (qualifyList view cs).head? ≠ some '\x7b' := by
  obtain ⟨d,more,rfl,_,_,brace⟩ := legibleHead legible
  rcases qualifyHead legible closed with same | named
  · exact same ▸ apart
  · rw [named]
    simpa using brace

theorem nameLacks (named : isName body) (special : (c.isAlphanum || c = '_') = false) : c ∉ body := by
  intro inside
  have word := all_eq_true.mp (Bool.and_eq_true_iff.mp named).2 c inside
  simp only [special] at word
  cases word

theorem qualifiedBody (legible : Legible view) (named : isName body) : Body (view ++ '.' :: body) := by
  refine ⟨?_,fun opens => ?_⟩
  · simp [legibleLacks legible,nameLacks named (c := '\x7d') (by decide)]
  · have dollar : '$' ∈ view ++ '.' :: body := opens.subset mem_cons_self
    simp [legibleLacks legible,nameLacks named (c := '$') (by decide)] at dollar

theorem closedQualified (legible : Legible view) (closed : Closed cs) : Closed (qualifyList view cs) := by
  induction closed with
  | nil => exact .nil
  | cons apart rest ih =>
    rw [qualifyChar legible apart rest]
    exact .cons (fun dollar => qualifyApart legible rest (apart dollar)) ih
  | reference inner _ ih =>
    rw [qualifyToken legible inner,qualified]
    split
    · exact plainClosed view (legibleLacks legible (by simp)) ih
    · split
      · rename_i named
        exact .reference (qualifiedBody legible named) ih
      · exact .reference inner ih

end Identifier

namespace Template

def Apart (c d : Char) : Prop := c = '\x7b' → d ≠ '\x7b' ∧ d ≠ '%'

theorem occursPair {c d : Char} {cs : List Char} :
    occursList [c,d] cs = false ↔ cs.IsChain fun x y => ¬ (c = x ∧ d = y) := by
  induction cs with
  | nil => simp [occursList]
  | cons x cs ih =>
    cases cs with
    | nil => simp [occursList,dropLead?]
    | cons y cs =>
      rw [occursList,Bool.or_eq_false_iff,ih,isChain_cons_cons]
      refine and_congr ?_ Iff.rfl
      by_cases first : c = x
      · by_cases second : d = y <;> simp [dropLead?,first,second]
      · simp [dropLead?,first]

theorem untemplatedChain {sql : String} : isTemplate sql = false ↔ sql.toList.IsChain Apart := by
  have braces : "\x7b\x7b".toList = ['\x7b','\x7b'] := rfl
  have tag : "\x7b%".toList = ['\x7b','%'] := rfl
  rw [isTemplate,Bool.or_eq_false_iff,occurs,occurs,braces,tag,occursPair,occursPair]
  simp only [isChain_iff_getElem,← forall_and]
  refine forall₂_congr fun i _ => ?_
  simp only [Apart,ne_eq]
  grind

end Template

namespace Identifier
open Reference Template
variable {view cs : List Char}

theorem plainChain (xs : List Char) {ys : List Char} (plain : '\x7b' ∉ xs) (right : ys.IsChain Apart) :
    (xs ++ ys).IsChain Apart := by
  induction xs with
  | nil => exact right
  | cons c xs ih =>
    obtain ⟨first,later⟩ := not_or.mp (mt mem_cons.mpr plain)
    exact isChain_cons.mpr ⟨fun d _ same => absurd same.symm first,ih later⟩

theorem chainQualified (legible : Legible view) (closed : Closed cs) {c : Char} (chain : (c :: cs).IsChain Apart) :
    (c :: qualifyList view cs).IsChain Apart := by
  induction closed generalizing c with
  | nil => exact chain
  | cons apart rest ih =>
    rw [qualifyChar legible apart rest]
    obtain ⟨first,later⟩ := isChain_cons_cons.mp chain
    exact isChain_cons_cons.mpr ⟨first,ih later⟩
  | @reference body cs inner _ ih =>
    have whole : c :: (token body ++ cs) = (c :: '$' :: '\x7b' :: body ++ ['\x7d']) ++ cs := by simp [token]
    rw [whole] at chain
    have closing : (['\x7d'] ++ qualifyList view cs).IsChain Apart := by
      rw [append_assoc] at chain
      exact ih chain.right_of_append
    have after := closing.tail
    obtain ⟨d,more,rfl,_,percent,brace⟩ := legibleHead legible
    have lacks : '\x7b' ∉ d :: more := legibleLacks legible (by simp)
    rw [qualifyToken legible inner,qualified]
    split
    · exact isChain_cons_cons.mpr ⟨fun _ => ⟨brace,percent⟩,plainChain _ lacks after⟩
    · split
      · rename_i named
        have inside : '\x7b' ∉ d :: more ++ '.' :: body ++ ['\x7d'] := by
          have name := nameLacks named (c := '\x7b') (by decide)
          simpa [name] using lacks
        have opened : ('\x7b' :: (d :: more ++ '.' :: body ++ ['\x7d'] ++ qualifyList (d :: more) cs)).IsChain Apart :=
          isChain_cons_cons.mpr ⟨fun _ => ⟨brace,percent⟩,plainChain _ inside after⟩
        refine isChain_cons_cons.mpr ⟨fun _ => by decide,?_⟩
        exact isChain_cons_cons.mpr ⟨fun dollar => absurd dollar (by decide),opened⟩
      · have joined := chain.left_of_append.append_overlap closing (cons_ne_nil _ _)
        simpa [token] using joined

end Identifier

end SemanticSql
