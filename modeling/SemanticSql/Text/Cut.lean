/-! Cutting text: at every separator, at the first one, and at a known beginning or end. -/
namespace SemanticSql.Text

def splitList (sep : Char) : List Char → List (List Char)
  | [] => [[]]
  | c :: rest =>
    if c = sep then [] :: splitList sep rest
    else match splitList sep rest with
      | [] => [[c]]
      | piece :: pieces => (c :: piece) :: pieces

theorem splitList_ne_nil (sep : Char) (cs : List Char) : splitList sep cs ≠ [] := by
  cases cs with
  | nil => simp [splitList]
  | cons c rest =>
    rw [splitList]
    split
    · simp
    · split <;> simp

def split (sep : Char) (s : String) : List String := (splitList sep s.toList).map String.ofList

def cutList? (sep : Char) : List Char → Option (List Char × List Char)
  | [] => none
  | c :: rest =>
    if c = sep then some ([], rest)
    else (cutList? sep rest).map fun p => (c :: p.1, p.2)

theorem cutList?_eq_some {sep : Char} {cs a b : List Char} (h : cutList? sep cs = some (a, b)) :
    cs = a ++ sep :: b ∧ sep ∉ a := by
  induction cs generalizing a with
  | nil => simp [cutList?] at h
  | cons c rest ih =>
    rw [cutList?] at h
    split at h
    · rename_i same
      obtain ⟨rfl,rfl⟩ := Prod.mk.inj (Option.some.inj h)
      simp [same]
    · rename_i different
      obtain ⟨p,hp,same⟩ := Option.map_eq_some_iff.mp h
      obtain ⟨rfl,rfl⟩ := Prod.mk.inj same
      have found := ih hp
      exact ⟨by rw [List.cons_append,← found.1],by simp [Ne.symm different,found.2]⟩

def cut? (sep : Char) (s : String) : Option (String × String) :=
  (cutList? sep s.toList).map fun p => (String.ofList p.1, String.ofList p.2)

/-- Every text is a front of characters of one kind and a rest that does not start with one. -/
theorem exists_span (p : Char → Bool) (cs : List Char) :
    ∃ front rest, cs = front ++ rest ∧ (∀ c ∈ front, p c = true) ∧ ∀ c ∈ rest.head?, p c = false := by
  refine ⟨cs.takeWhile p,cs.dropWhile p,List.takeWhile_append_dropWhile.symm,?_,fun c mem => ?_⟩
  · exact List.all_eq_true.mp List.all_takeWhile
  · have stop := List.head?_dropWhile_not p cs
    rw [Option.mem_def.mp mem] at stop
    simpa using stop

/-- Such a front is what is taken, and such a rest is what is left. -/
theorem span_append {p : Char → Bool} {front rest : List Char} (inside : ∀ c ∈ front, p c = true)
    (ends : ∀ c ∈ rest.head?, p c = false) :
    (front ++ rest).takeWhile p = front ∧ (front ++ rest).dropWhile p = rest := by
  rw [List.takeWhile_append_of_pos inside,List.dropWhile_append_of_pos inside]
  cases rest with
  | nil => simp
  | cons c rest => simp [ends c rfl]

def dropLead? : List Char → List Char → Option (List Char)
  | [], cs => some cs
  | _ :: _, [] => none
  | l :: lead, c :: cs => if l = c then dropLead? lead cs else none

theorem dropLead?_eq_some {lead cs rest : List Char} : dropLead? lead cs = some rest ↔ cs = lead ++ rest := by
  induction lead generalizing cs with
  | nil => simp [dropLead?]
  | cons l lead ih =>
    cases cs with
    | nil => simp [dropLead?]
    | cons c cs =>
      rw [dropLead?]
      split
      · rename_i same
        subst same
        simp [ih]
      · rename_i different
        simp [Ne.symm different]

def dropTail? (tail cs : List Char) : Option (List Char) :=
  (dropLead? tail.reverse cs.reverse).map List.reverse

def startsWith (lead s : String) : Bool := (dropLead? lead.toList s.toList).isSome

def occursList (part : List Char) : List Char → Bool
  | [] => part.isEmpty
  | c :: rest => (dropLead? part (c :: rest)).isSome || occursList part rest

def occurs (part s : String) : Bool := occursList part.toList s.toList

def replaceList (old : Char) (new : List Char) (cs : List Char) : List Char :=
  cs.flatMap fun c => if c = old then new else [c]

def replace (old : Char) (new s : String) : String :=
  String.ofList (replaceList old new.toList s.toList)

def strip (c : Char) (cs : List Char) : List Char :=
  ((cs.dropWhile (· == c)).reverse.dropWhile (· == c)).reverse

end SemanticSql.Text
