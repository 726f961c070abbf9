import JsonReport.Json.Number

/-!
# Values

A value of a document.  An object lists its members in the order in which their keys first came;
a key that comes again keeps its place and takes the later value.
-/

namespace JsonReport

inductive Json where
  | null
  | bool (flag : Bool)
  | number (n : Number)
  | string (text : String)
  | array (items : List Json)
  | object (members : List (String × Json))

namespace Members

variable {α : Type}

/-- Gives a key its value: in place where the key is known, at the end where it is new. -/
def insert (members : List (String × α)) (key : String) (value : α) : List (String × α) :=
  match members with
  | [] => [(key, value)]
  | (other, old) :: rest =>
    if other = key then (key, value) :: rest else (other, old) :: insert rest key value

/-- The members that a run of keys and values leaves, first places and last values. -/
def ofList (pairs : List (String × α)) : List (String × α) :=
  pairs.foldl (fun members pair => insert members pair.1 pair.2) []

def lookup? (members : List (String × α)) (key : String) : Option α :=
  match members with
  | [] => none
  | (other, value) :: rest => if other = key then some value else lookup? rest key

theorem lookup?_insert_same (members : List (String × α)) (key : String) (value : α) :
    lookup? (insert members key value) key = some value := by
  induction members with
  | nil => simp [insert, lookup?]
  | cons pair rest ih =>
    rw [insert]
    split
    · simp [lookup?]
    · next h => simp [lookup?, h, ih]

theorem lookup?_insert_of_ne (members : List (String × α)) {key other : String} (value : α)
    (h : other ≠ key) : lookup? (insert members key value) other = lookup? members other := by
  induction members with
  | nil => simp [insert, lookup?, h.symm]
  | cons pair rest ih =>
    rw [insert]
    split
    · next hkey => simp [lookup?, hkey, h.symm]
    · simp [lookup?, ih]

theorem keys_insert_of_mem {members : List (String × α)} {key : String} (value : α)
    (h : key ∈ members.map Prod.fst) :
    (insert members key value).map Prod.fst = members.map Prod.fst := by
  induction members with
  | nil => simp at h
  | cons pair rest ih =>
    rw [insert]
    split
    · next hkey => simp [hkey]
    · next hkey =>
      have : key ∈ rest.map Prod.fst := by simpa [Ne.symm hkey] using h
      simp [ih this]

theorem keys_insert_of_not_mem {members : List (String × α)} {key : String} (value : α)
    (h : key ∉ members.map Prod.fst) :
    (insert members key value).map Prod.fst = members.map Prod.fst ++ [key] := by
  induction members with
  | nil => rfl
  | cons pair rest ih =>
    rw [insert]
    simp only [List.map_cons, List.mem_cons, not_or] at h
    rw [if_neg (Ne.symm h.1)]
    simp [ih h.2]

end Members

def Json.ofMembers (pairs : List (String × Json)) : Json := .object (Members.ofList pairs)

end JsonReport
