/-! Dictionaries with text keys, kept as lists sorted by key with no key twice. -/
namespace SemanticSql

abbrev Dict (α : Type) := List (String × α)

namespace Dict

variable {α : Type}

def insert (key : String) (value : α) : Dict α → Dict α
  | [] => [(key, value)]
  | (k, v) :: rest =>
    if key < k then (key, value) :: (k, v) :: rest
    else if key = k then (key, value) :: rest
    else (k, v) :: insert key value rest

def get? (d : Dict α) (key : String) : Option α := (d.find? fun e => e.1 == key).map Prod.snd

def contains (d : Dict α) (key : String) : Bool := (d.get? key).isSome

def keys (d : Dict α) : List String := d.map Prod.fst

def ofList (entries : List (String × α)) : Dict α :=
  entries.foldl (fun d e => insert e.1 e.2 d) []

theorem get?_insert_self (key : String) (value : α) (d : Dict α) : (insert key value d).get? key = some value := by
  induction d with
  | nil => simp [insert,get?]
  | cons e rest ih =>
    obtain ⟨k,v⟩ := e
    rw [insert]
    split
    · simp [get?]
    · split
      · simp [get?]
      · rename_i different
        simpa [get?,Ne.symm different] using ih

theorem get?_insert_ne {key other : String} (h : other ≠ key) (value : α) (d : Dict α) :
    (insert key value d).get? other = d.get? other := by
  induction d with
  | nil => simp [insert,get?,Ne.symm h]
  | cons e rest ih =>
    obtain ⟨k,v⟩ := e
    rw [insert]
    split
    · simp [get?,Ne.symm h]
    · split
      · rename_i same
        subst same
        simp [get?,Ne.symm h]
      · by_cases hk : k = other
        · simp [get?,hk]
        · simpa [get?,hk] using ih

end Dict

/-- Sets of names: lists in the order of code points, no name twice. -/
abbrev NameSet := List String

namespace NameSet

def insert (name : String) : NameSet → NameSet
  | [] => [name]
  | n :: rest =>
    if name < n then name :: n :: rest
    else if name = n then n :: rest
    else n :: insert name rest

def union (a b : NameSet) : NameSet := b.foldl (fun s n => insert n s) a

def ofList (names : List String) : NameSet := union [] names

theorem mem_insert {name other : String} {s : NameSet} : other ∈ insert name s ↔ other = name ∨ other ∈ s := by
  induction s with
  | nil => simp [insert]
  | cons n rest ih =>
    rw [insert]
    split
    · simp
    · split
      · rename_i same
        subst same
        simp
      · simp only [List.mem_cons,ih]
        constructor
        · rintro (h | h | h) <;> simp [h]
        · rintro (h | h | h) <;> simp [h]

theorem mem_union {other : String} {a b : NameSet} : other ∈ union a b ↔ other ∈ a ∨ other ∈ b := by
  unfold union
  induction b generalizing a with
  | nil => simp
  | cons n rest ih =>
    rw [List.foldl_cons,ih,mem_insert,List.mem_cons]
    constructor
    · rintro ((h | h) | h) <;> simp [h]
    · rintro (h | h | h) <;> simp [h]

theorem mem_ofList {other : String} {names : List String} : other ∈ ofList names ↔ other ∈ names := by
  simp [ofList,mem_union]

end NameSet

end SemanticSql
