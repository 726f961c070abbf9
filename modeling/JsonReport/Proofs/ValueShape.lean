import JsonReport.Json.Reader
import JsonReport.Proofs.DocumentGrammar
import Mathlib.Tactic

/-!
# The shape of values

Three measures of a value matter to reading and writing: how deep its containers nest,
whether some object repeats a key, and whether all its numbers are whole.  A value that
a document denotes never repeats a key, at any level, however often the document does.
-/

namespace JsonReport

namespace Json

mutual

/-- How deep the arrays and objects of a value nest, empty ones included. -/
def depth : Json → ℕ
  | .null => 0
  | .bool _ => 0
  | .number _ => 0
  | .string _ => 0
  | .array items => elementsDepth items + 1
  | .object members => membersDepth members + 1

def elementsDepth : List Json → ℕ
  | [] => 0
  | item :: items => max item.depth (elementsDepth items)

def membersDepth : List (String × Json) → ℕ
  | [] => 0
  | (_, item) :: members => max item.depth (membersDepth members)

end

/-- No object of a value has a key twice. -/
inductive DistinctKeys : Json → Prop where
  | null : DistinctKeys .null
  | bool (flag : Bool) : DistinctKeys (.bool flag)
  | number (n : Number) : DistinctKeys (.number n)
  | string (text : String) : DistinctKeys (.string text)
  | array {items : List Json} :
      (∀ item ∈ items, DistinctKeys item) → DistinctKeys (.array items)
  | object {members : List (String × Json)} :
      (members.map Prod.fst).Nodup → (∀ member ∈ members, DistinctKeys member.2) →
        DistinctKeys (.object members)

/-- All numbers of a value are whole. -/
inductive WholeNumbers : Json → Prop where
  | null : WholeNumbers .null
  | bool (flag : Bool) : WholeNumbers (.bool flag)
  | number (n : WholeNumber) : WholeNumbers (.number (.whole n))
  | string (text : String) : WholeNumbers (.string text)
  | array {items : List Json} :
      (∀ item ∈ items, WholeNumbers item) → WholeNumbers (.array items)
  | object {members : List (String × Json)} :
      (∀ member ∈ members, WholeNumbers member.2) → WholeNumbers (.object members)

end Json

theorem Members.mem_of_lookup? {α : Type} {members : List (String × α)} {key : String}
    {value : α} (h : lookup? members key = some value) : (key, value) ∈ members := by
  induction members with
  | nil => cases h
  | cons member rest ih =>
      rw [lookup?] at h
      split at h
      · next hkey =>
          injection h with h
          rw [← hkey, ← h]
          exact List.mem_cons_self
      · exact List.mem_cons_of_mem _ (ih h)

theorem Members.mem_of_mem_merged {α : Type} {pairs : List (String × α)}
    {pair : String × α} (h : pair ∈ merged pairs) : pair ∈ pairs := by
  unfold merged at h
  obtain ⟨key, _, hkey⟩ := List.mem_filterMap.mp h
  obtain ⟨value, hvalue, rfl⟩ := Option.map_eq_some_iff.mp hkey
  exact List.mem_reverse.mp (mem_of_lookup? hvalue)

namespace Document

mutual

theorem distinctKeys_value (document : Document String) : document.value.DistinctKeys := by
  cases document with
  | null => exact .null
  | bool flag => exact .bool flag
  | number literal =>
      rw [value]
      split
      · exact .number _
      · exact .null
  | string text => exact .string text
  | array items => exact .array (distinctKeys_elementValues items)
  | object members =>
      rw [value]
      refine .object (Members.nodup_keys_merged _) fun member hmember => ?_
      exact distinctKeys_memberValues members member (Members.mem_of_mem_merged hmember)

theorem distinctKeys_elementValues (items : List (Document String)) :
    ∀ item ∈ elementValues items, item.DistinctKeys := by
  cases items with
  | nil =>
      intro item hitem
      cases hitem
  | cons first items =>
      exact List.forall_mem_cons.mpr
        ⟨distinctKeys_value first, distinctKeys_elementValues items⟩

theorem distinctKeys_memberValues (members : List (String × Document String)) :
    ∀ member ∈ memberValues members, member.2.DistinctKeys := by
  cases members with
  | nil =>
      intro member hmember
      cases hmember
  | cons first members =>
      obtain ⟨key, item⟩ := first
      exact List.forall_mem_cons.mpr
        ⟨distinctKeys_value item, distinctKeys_memberValues members⟩

end

end Document

end JsonReport
