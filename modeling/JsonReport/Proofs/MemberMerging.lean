import JsonReport.Json.Value
import Mathlib.Tactic

/-!
# Members whose keys come again

A run of members is merged from left to right, one insertion at a time.  What comes out
can be said without the insertions: the keys in the order of their first occurrence,
each with the value of its last occurrence.
-/

namespace JsonReport
namespace Members

variable {α : Type}

/-- The members of a run without repetition: the keys in the order of their first
occurrence, each with the value of its last one. -/
def merged (pairs : List (String × α)) : List (String × α) :=
  (pairs.map Prod.fst).eraseDups.filterMap fun key =>
    (lookup? pairs.reverse key).map fun value => (key, value)

theorem ofList_append_singleton (pairs : List (String × α)) (pair : String × α) :
    ofList (pairs ++ [pair]) = insert (ofList pairs) pair.1 pair.2 := by
  simp [ofList]

theorem insert_of_not_mem {members : List (String × α)} {key : String} (value : α)
    (hkey : key ∉ members.map Prod.fst) :
    insert members key value = members ++ [(key, value)] := by
  induction members with
  | nil => rfl
  | cons member rest ih =>
      simp only [List.map_cons, List.mem_cons, not_or] at hkey
      rw [insert, if_neg (Ne.symm hkey.1), ih hkey.2]
      rfl

theorem keys_ofList (pairs : List (String × α)) :
    (ofList pairs).map Prod.fst = (pairs.map Prod.fst).eraseDups := by
  induction pairs using List.reverseRecOn with
  | nil => rfl
  | append_singleton pairs pair ih =>
      rw [ofList_append_singleton, List.map_append, List.eraseDups_append]
      by_cases hmem : pair.1 ∈ pairs.map Prod.fst
      · have hkeys : pair.1 ∈ (ofList pairs).map Prod.fst := by
          rw [ih, List.mem_eraseDups]
          exact hmem
        have hremoved : (List.map Prod.fst [pair]).removeAll (pairs.map Prod.fst) = [] := by
          simpa [List.removeAll] using hmem
        rw [keys_insert_of_mem pair.2 hkeys, ih, hremoved, List.eraseDups_nil,
          List.append_nil]
      · have hkeys : pair.1 ∉ (ofList pairs).map Prod.fst := by
          rw [ih, List.mem_eraseDups]
          exact hmem
        have hkept : (List.map Prod.fst [pair]).removeAll (pairs.map Prod.fst) =
            [pair.1] := by
          simpa [List.removeAll] using hmem
        rw [keys_insert_of_not_mem pair.2 hkeys, ih, hkept, List.eraseDups_cons]
        rfl

theorem nodup_keys_ofList (pairs : List (String × α)) :
    ((ofList pairs).map Prod.fst).Nodup := by
  induction pairs using List.reverseRecOn with
  | nil => exact List.nodup_nil
  | append_singleton pairs pair ih =>
      rw [ofList_append_singleton]
      by_cases hmem : pair.1 ∈ (ofList pairs).map Prod.fst
      · rw [keys_insert_of_mem pair.2 hmem]
        exact ih
      · rw [keys_insert_of_not_mem pair.2 hmem]
        exact ih.append (List.nodup_singleton _) (by simpa using hmem)

theorem lookup?_ofList (pairs : List (String × α)) (key : String) :
    lookup? (ofList pairs) key = lookup? pairs.reverse key := by
  induction pairs using List.reverseRecOn with
  | nil => rfl
  | append_singleton pairs pair ih =>
      rw [ofList_append_singleton, List.reverse_append]
      by_cases hkey : key = pair.1
      · subst hkey
        rw [lookup?_insert_same]
        simp [lookup?]
      · rw [lookup?_insert_of_ne _ _ hkey, ih]
        simp [lookup?, Ne.symm hkey]

theorem eq_filterMap_lookup? {members : List (String × α)}
    (hdistinct : (members.map Prod.fst).Nodup) :
    members = (members.map Prod.fst).filterMap fun key =>
      (lookup? members key).map fun value => (key, value) := by
  induction members with
  | nil => rfl
  | cons member rest ih =>
      rw [List.map_cons, List.nodup_cons] at hdistinct
      have hhead : lookup? (member :: rest) member.1 = some member.2 := if_pos rfl
      have htail : ∀ key ∈ rest.map Prod.fst,
          lookup? (member :: rest) key = lookup? rest key := by
        intro key hkey
        refine if_neg fun heq => ?_
        rw [heq] at hdistinct
        exact hdistinct.1 hkey
      rw [List.map_cons, List.filterMap_cons, hhead, Option.map_some]
      refine congrArg (member :: ·) ((ih hdistinct.2).trans ?_)
      refine List.filterMap_congr fun key hkey => ?_
      rw [htail key hkey]

/-- Insertion one by one comes to first places and last values. -/
theorem ofList_eq_merged (pairs : List (String × α)) : ofList pairs = merged pairs := by
  rw [eq_filterMap_lookup? (nodup_keys_ofList pairs), keys_ofList, merged]
  simp only [lookup?_ofList]

theorem nodup_keys_merged (pairs : List (String × α)) :
    ((merged pairs).map Prod.fst).Nodup := by
  rw [← ofList_eq_merged]
  exact nodup_keys_ofList pairs

theorem lookup?_merged (pairs : List (String × α)) (key : String) :
    lookup? (merged pairs) key = lookup? pairs.reverse key := by
  rw [← ofList_eq_merged, lookup?_ofList]

theorem merged_of_nodup {pairs : List (String × α)}
    (hdistinct : (pairs.map Prod.fst).Nodup) : merged pairs = pairs := by
  rw [← ofList_eq_merged]
  induction pairs using List.reverseRecOn with
  | nil => rfl
  | append_singleton pairs pair ih =>
      rw [List.map_append, List.nodup_append] at hdistinct
      have hnew : pair.1 ∉ pairs.map Prod.fst := fun hmem =>
        hdistinct.2.2 _ hmem pair.1 (by simp) rfl
      rw [ofList_append_singleton, ih hdistinct.1, insert_of_not_mem pair.2 hnew]

end Members
end JsonReport
