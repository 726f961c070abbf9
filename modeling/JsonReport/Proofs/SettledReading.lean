import JsonReport.Json.Reader
import JsonReport.Proofs.CauseCategories
import JsonReport.Proofs.NumberReading
import Mathlib.Tactic

/-!
# What a reader has seen settles what it says

A reader goes from left to right, so its outcome depends on the octets that it has seen
and on no other.  A value is settled by the octets that were taken for it, and a number
besides by the octet that ends it.  A fault is settled by the octets up to the place where
it is shown, unless the text ends there or the fault is of the kind that is noticed late.
Readers are put together from a few combinators here, each with one lemma.
-/

namespace JsonReport

open Utf8
open Spelling

/-! ## Settled outcomes -/

namespace Cause

/-- Causes that are noticed at the octet that is wrong. -/
def Prompt (cause : Cause) : Prop :=
  cause.category = .grammar ∨ cause.category = .depthLimit

/-- Causes that are noticed after the octets that are wrong. -/
def Late (cause : Cause) : Prop :=
  cause.category = .numericRange ∨ cause.category = .unicode

instance (cause : Cause) : Decidable cause.Prompt := inferInstanceAs (Decidable (_ ∨ _))

end Cause

/-- How a reader comes to refuse a text: it ends too early, something was noticed late, or
what it has seen is refused whatever follows. -/
inductive Refused {β : Type} (read : Octets → Except Fault β) (s : Octets) : Fault → Prop where
  | atEnd {cause : Cause} : cause.category = .endOfInput → Refused read s (.leaving cause [])
  | late {fault : Fault} : fault.cause.Late → Refused read s fault
  | prompt {cause : Cause} {seen unread : Octets} :
      cause.Prompt → s = seen ++ unread →
        (∀ other, read (seen ++ other) = .error (.leaving cause other)) →
        Refused read s (.leaving cause unread)

/-- What a reader takes from a text it takes whatever follows, or, looking `ahead`, as
long as the next octet is the same. -/
def Takes {α : Type} (ahead : Bool) (read : Octets → Except Fault (α × Octets)) (s : Octets)
    (value : α) (rest : Octets) : Prop :=
  ∃ seen, s = seen ++ rest ∧
    ∀ other, (ahead = true → other.head? = rest.head?) →
      read (seen ++ other) = .ok (value, other)

/-- The outcome on `s` depends on what was seen of `s`. -/
structure Settled {α : Type} (ahead : Bool) (read : Octets → Except Fault (α × Octets))
    (s : Octets) : Prop where
  takes : ∀ value rest, read s = .ok (value, rest) → Takes ahead read s value rest
  refuses : ∀ fault, read s = .error fault → Refused read s fault

/-- What a reader does where nothing is left does not count as a refusal of something
seen; and only a reader that looks ahead can do with nothing. -/
def Spares {α : Type} (ahead : Bool) (read : Octets → Except Fault (α × Octets)) : Prop :=
  match read [] with
  | .ok _ => ahead = true
  | .error fault => ¬fault.cause.Prompt

/-- A reader of something that has to stand here: where nothing but white space is left, it
refuses the end of the text. -/
def EndsOnBlank {β : Type} (read : Octets → Except Fault β) : Prop :=
  ∀ s, nextMark s = none → read s = .error (.leaving .endOfValue [])

/-! ## Combinators -/

/-- One reader after another. -/
def andThen {α β : Type} (first : Octets → Except Fault (α × Octets))
    (next : α → Octets → Except Fault β) (s : Octets) : Except Fault β :=
  match first s with
  | .error fault => .error fault
  | .ok (value, rest) => next value rest

/-- A reader that takes nothing. -/
def yielding {α : Type} (value : α) (s : Octets) : Except Fault (α × Octets) := .ok (value, s)

/-- A reader that goes no further. -/
def stopping {β : Type} (cause : Cause) (s : Octets) : Except Fault β :=
  .error (.leaving cause s)

/-- The next octet. -/
def octet (atEnd : Cause) : Octets → Except Fault (UInt8 × Octets)
  | [] => .error (.leaving atEnd [])
  | b :: r => .ok (b, r)

/-- The next mark. -/
def mark (atEnd : Cause) (s : Octets) : Except Fault (UInt8 × Octets) :=
  match nextMark s with
  | none => .error (.leaving atEnd [])
  | some mark => .ok (mark.value, mark.rest)

/-- What the next octet calls for, if it calls for anything. -/
def optional {α : Type} (absent : α)
    (call : UInt8 → Option (Octets → Except Fault (α × Octets))) :
    Octets → Except Fault (α × Octets)
  | [] => .ok (absent, [])
  | b :: r =>
    match call b with
    | none => .ok (absent, b :: r)
    | some read => read r

/-- One way behind a mark where it stands first, and another from before the mark where
another one does. -/
def onMark {β : Type} (b : UInt8) (atEnd : Cause) (here there : Octets → Except Fault β)
    (s : Octets) : Except Fault β :=
  match mark atEnd s with
  | .error fault => .error fault
  | .ok (first, rest) => if first = b then here rest else there s

section Sequences

variable {α β : Type} {ahead ahead' : Bool} {s r rest : Octets} {value : α} {result : β}
  {fault : Fault} {read : Octets → Except Fault (α × Octets)}
  {next : α → Octets → Except Fault (β × Octets)}

theorem andThen_of_error (h : read s = .error fault) : andThen read next s = .error fault := by
  rw [andThen, h]

theorem andThen_of_ok (h : read s = .ok (value, rest)) :
    andThen read next s = next value rest := by
  rw [andThen, h]

theorem EndsOnBlank.andThen (h : EndsOnBlank read) :
    EndsOnBlank (JsonReport.andThen read next) := fun s hs =>
  andThen_of_error (h s hs)

theorem settled_of_ok (h : read s = .ok (value, rest)) (htakes : Takes ahead read s value rest) :
    Settled ahead read s := by
  constructor
  · intro value' rest' h'
    rw [h] at h'
    cases h'
    exact htakes
  · intro fault h'
    rw [h] at h'
    cases h'

theorem settled_of_error (h : read s = .error fault) (hrefused : Refused read s fault) :
    Settled ahead read s := by
  constructor
  · intro value rest h'
    rw [h] at h'
    cases h'
  · intro fault' h'
    rw [h] at h'
    cases h'
    exact hrefused

theorem Refused.andThen (h : Refused read s fault) : Refused (andThen read next) s fault := by
  cases h with
  | atEnd hcause => exact .atEnd hcause
  | late hcause => exact .late hcause
  | prompt hcause hs hread =>
      exact .prompt hcause hs fun other => andThen_of_error (hread other)

theorem head?_append_of_ne_nil {seen : Octets} (h : seen ≠ []) (other rest : Octets) :
    (seen ++ other).head? = (seen ++ rest).head? := by
  cases seen with
  | nil => exact absurd rfl h
  | cons b seen => rfl

/-- What is refused after something was taken.  If the first reader looks ahead, it sees
nothing but an octet of what is refused. -/
theorem Takes.refused (htakes : Takes ahead' read s value r) (h : Refused (next value) r fault)
    (hspares : ahead' = true → Spares ahead (next value)) :
    Refused (JsonReport.andThen read next) s fault := by
  obtain ⟨taken, rfl, htaken⟩ := htakes
  cases h with
  | atEnd hcause => exact .atEnd hcause
  | late hcause => exact .late hcause
  | @prompt cause seen unread hcause hr hrefused =>
      have hseen : ahead' = true → seen ≠ [] := by
        rintro hahead rfl
        have hspared := hspares hahead
        have hnil : next value [] = .error (.leaving cause []) := hrefused []
        rw [Spares, hnil] at hspared
        exact hspared hcause
      refine .prompt hcause (hr ▸ (List.append_assoc taken seen unread).symm) fun other => ?_
      have hfirst : read (taken ++ (seen ++ other)) = .ok (value, seen ++ other) := by
        apply htaken
        intro hahead
        rw [hr]
        exact head?_append_of_ne_nil (hseen hahead) other unread
      rw [List.append_assoc, andThen_of_ok hfirst, hrefused]

theorem Takes.andThen (htakes : Takes ahead' read s value r)
    (h : Takes ahead (next value) r result rest)
    (hspares : ahead' = true → Spares ahead (next value)) :
    Takes ahead (JsonReport.andThen read next) s result rest := by
  obtain ⟨taken, rfl, htaken⟩ := htakes
  obtain ⟨seen, rfl, hseen⟩ := h
  refine ⟨taken ++ seen, (List.append_assoc taken seen rest).symm, fun other hother => ?_⟩
  have hfirst : read (taken ++ (seen ++ other)) = .ok (value, seen ++ other) := by
    apply htaken
    intro hahead
    by_cases hnil : seen = []
    · subst hnil
      apply hother
      by_contra hsealed
      have hspared := hspares hahead
      rw [Spares, show next value [] = .ok (result, []) from hseen [] fun h => absurd h hsealed]
        at hspared
      exact hsealed hspared
    · exact head?_append_of_ne_nil hnil other rest
  rw [List.append_assoc, andThen_of_ok hfirst, hseen other hother]

theorem Settled.andThen (h : Settled ahead' read s)
    (hnext : ∀ value r, read s = .ok (value, r) → Settled ahead (next value) r)
    (hspares : ahead' = true → ∀ value, Spares ahead (next value)) :
    Settled ahead (JsonReport.andThen read next) s := by
  cases hread : read s with
  | error fault => exact settled_of_error (andThen_of_error hread) (h.refuses fault hread).andThen
  | ok taken =>
      obtain ⟨value, r⟩ := taken
      have hsame : JsonReport.andThen read next s = next value r := andThen_of_ok hread
      have htakes := h.takes value r hread
      have hrest := hnext value r hread
      constructor
      · intro result rest hresult
        rw [hsame] at hresult
        exact htakes.andThen (hrest.takes result rest hresult) fun hahead => hspares hahead value
      · intro fault hfault
        rw [hsame] at hfault
        exact htakes.refused (hrest.refuses fault hfault) fun hahead => hspares hahead value

/-- After a reader that does not look ahead anything can follow. -/
theorem Settled.thenAny (h : Settled false read s)
    (hnext : ∀ value r, read s = .ok (value, r) → Settled ahead (next value) r) :
    Settled ahead (JsonReport.andThen read next) s :=
  h.andThen hnext fun hahead => nomatch hahead

/-- A reader that does not look ahead may as well. -/
theorem Settled.lookingAhead (h : Settled false read s) : Settled ahead read s := by
  refine ⟨fun value rest hread => ?_, h.refuses⟩
  obtain ⟨seen, hs, hseen⟩ := h.takes value rest hread
  exact ⟨seen, hs, fun other _ => hseen other fun hahead => nomatch hahead⟩

/-- A reader that goes on behind something as another one does from there. -/
theorem Settled.behind {read' : Octets → Except Fault (α × Octets)} (h : Settled ahead read s)
    (front : Octets) (hsame : ∀ t, read' (front ++ t) = read t) :
    Settled ahead read' (front ++ s) := by
  constructor
  · intro value rest hread
    rw [hsame] at hread
    obtain ⟨seen, rfl, hseen⟩ := h.takes value rest hread
    refine ⟨front ++ seen, (List.append_assoc front seen rest).symm, fun other hother => ?_⟩
    rw [List.append_assoc, hsame, hseen other hother]
  · intro fault hread
    rw [hsame] at hread
    cases h.refuses fault hread with
    | atEnd hcause => exact .atEnd hcause
    | late hcause => exact .late hcause
    | @prompt cause seen unread hcause hs hseen =>
        subst hs
        refine .prompt hcause (List.append_assoc front seen unread).symm fun other => ?_
        rw [List.append_assoc, hsame, hseen]

/-- Where the first octet is known and taken in any case, the rest settles the outcome. -/
theorem Settled.tail {b : UInt8} (h : Settled ahead read (b :: s)) (hspares : Spares false read)
    (hshorter : ∀ value rest, read (b :: s) = .ok (value, rest) → rest.length ≤ s.length) :
    Settled ahead (fun s => read (b :: s)) s := by
  constructor
  · intro value rest hread
    obtain ⟨seen, hs, hseen⟩ := h.takes value rest hread
    cases seen with
    | nil =>
        have hlong := hshorter value rest hread
        rw [← List.nil_append rest, ← hs, List.length_cons] at hlong
        exact absurd hlong (Nat.not_succ_le_self _)
    | cons c seen =>
        obtain ⟨rfl, rfl⟩ := List.cons.inj hs
        exact ⟨seen, rfl, hseen⟩
  · intro fault hread
    cases h.refuses fault hread with
    | atEnd hcause => exact .atEnd hcause
    | late hcause => exact .late hcause
    | @prompt cause seen unread hcause hs hseen =>
        cases seen with
        | nil =>
            have hnil : read [] = .error (.leaving cause []) := hseen []
            rw [Spares, hnil] at hspares
            exact absurd hcause hspares
        | cons c seen =>
            obtain ⟨rfl, rfl⟩ := List.cons.inj hs
            exact .prompt hcause rfl hseen

end Sequences

/-! ## One step -/

section Steps

variable {α : Type} {ahead : Bool} {cause atEnd : Cause} {s : Octets}

theorem settled_yielding (value : α) : Settled ahead (yielding value) s :=
  settled_of_ok rfl ⟨[], rfl, fun _ _ => rfl⟩

theorem settled_stopping (hcause : cause.Prompt) :
    Settled ahead (stopping cause : Octets → Except Fault (α × Octets)) s :=
  settled_of_error rfl (.prompt hcause (List.nil_append s).symm fun _ => rfl)

theorem settled_octet (hatEnd : atEnd.category = .endOfInput) :
    Settled false (octet atEnd) s := by
  cases s with
  | nil => exact settled_of_error rfl (.atEnd hatEnd)
  | cons b r => exact settled_of_ok rfl ⟨[b], rfl, fun _ _ => rfl⟩

theorem settled_optional {absent : α} {call : UInt8 → Option (Octets → Except Fault (α × Octets))}
    (h : ∀ b r read, s = b :: r → call b = some read → Settled true read r) :
    Settled true (optional absent call) s := by
  cases s with
  | nil =>
      refine settled_of_ok rfl ⟨[], rfl, fun other hother => ?_⟩
      rw [List.head?_eq_none_iff.1 (hother rfl)]
      rfl
  | cons b r =>
      cases hcall : call b with
      | none =>
          have hread (t : Octets) : optional absent call (b :: t) = .ok (absent, b :: t) := by
            rw [optional, hcall]
          refine settled_of_ok (hread r) ⟨[], rfl, fun other hother => ?_⟩
          obtain ⟨t, rfl⟩ := List.head?_eq_some_iff.1 (hother rfl)
          exact hread t
      | some read =>
          have hsame : ∀ t, optional absent call ([b] ++ t) = read t := fun t => by
            rw [List.singleton_append, optional, hcall]
          exact (h b r read rfl hcall).behind [b] hsame

/-! ## Marks -/

theorem mark_cons (atEnd : Cause) (b : UInt8) (s : Octets) :
    mark atEnd (b :: s) = if isBlank b then mark atEnd s else .ok (b, s) := by
  rw [mark, nextMark]
  split_ifs with hblank
  · rw [mark]
    cases nextMark s <;> rfl
  · rfl

theorem mark_length {b : UInt8} {r : Octets} (h : mark atEnd s = .ok (b, r)) :
    r.length < s.length := by
  rw [mark] at h
  split at h
  · cases h
  · next first hfirst =>
      cases h
      exact first.shorter

theorem mark_error {fault : Fault} (h : mark atEnd s = .error fault) :
    nextMark s = none ∧ fault = .leaving atEnd [] := by
  rw [mark] at h
  split at h
  · next hnone =>
      cases h
      exact ⟨hnone, rfl⟩
  · cases h

theorem mark_append {b : UInt8} {r : Octets} (h : mark atEnd s = .ok (b, r)) (other : Octets) :
    mark atEnd (s ++ other) = .ok (b, r ++ other) := by
  induction s with
  | nil => cases h
  | cons c s ih =>
      rw [mark_cons] at h
      rw [List.cons_append, mark_cons]
      split_ifs at h ⊢ with hblank
      · exact ih h
      · cases h
        rfl

theorem exists_mark_seen {b : UInt8} {r : Octets} (h : mark atEnd s = .ok (b, r)) :
    ∃ seen, s = seen ++ r ∧ mark atEnd seen = .ok (b, []) := by
  induction s with
  | nil => cases h
  | cons c s ih =>
      rw [mark_cons] at h
      split_ifs at h with hblank
      · obtain ⟨seen, hs, hseen⟩ := ih h
        refine ⟨c :: seen, congrArg (c :: ·) hs, ?_⟩
        rw [mark_cons, if_pos hblank, hseen]
      · cases h
        refine ⟨[b], rfl, ?_⟩
        rw [mark_cons, if_neg hblank]

theorem settled_mark (hatEnd : atEnd.category = .endOfInput) : Settled false (mark atEnd) s := by
  cases hread : mark atEnd s with
  | error fault =>
      obtain ⟨-, rfl⟩ := mark_error hread
      exact settled_of_error hread (.atEnd hatEnd)
  | ok found =>
      obtain ⟨seen, hs, hseen⟩ := exists_mark_seen hread
      exact settled_of_ok hread ⟨seen, hs, fun other _ => mark_append hseen other⟩

theorem onMark_of_ok {β : Type} {b first : UInt8} {r : Octets}
    {here there : Octets → Except Fault β} (h : mark atEnd s = .ok (first, r)) :
    onMark b atEnd here there s = if first = b then here r else there s := by
  rw [onMark, h]

/-- A reader that is not content with white space goes on alike on every text that begins
with what it has seen. -/
theorem onMark_there {β : Type} {b first : UInt8} {r seen more : Octets}
    {here there : Octets → Except Fault β} (h : mark atEnd (seen ++ more) = .ok (first, r))
    (hfirst : first ≠ b) (hseen : nextMark seen ≠ none) (other : Octets) :
    onMark b atEnd here there (seen ++ other) = there (seen ++ other) := by
  cases hmark : mark atEnd seen with
  | error fault => exact absurd (mark_error hmark).1 hseen
  | ok found =>
      obtain ⟨b', r'⟩ := found
      rw [mark_append hmark, Except.ok.injEq, Prod.mk.injEq] at h
      rw [onMark_of_ok (mark_append hmark other), if_neg (h.1 ▸ hfirst)]

/-- On the far side of a mark the reader goes on from before it, and what it has seen there
has a mark in it, if white space settles nothing. -/
theorem Settled.onMarkThere {b first : UInt8} {r : Octets}
    {here there : Octets → Except Fault (α × Octets)} (hmark : mark atEnd s = .ok (first, r))
    (hfirst : first ≠ b) (h : Settled false there s) (hblank : EndsOnBlank there) :
    Settled false (JsonReport.onMark b atEnd here there) s := by
  have hread : JsonReport.onMark b atEnd here there s = there s := by
    rw [onMark_of_ok hmark, if_neg hfirst]
  have hmarked : ∀ seen, (∀ fault, there seen = .error fault → fault.cause.Prompt) →
      nextMark seen ≠ none := by
    intro seen hseen hnone
    exact absurd (hseen _ (hblank seen hnone)) (by decide)
  constructor
  · intro value rest hvalue
    rw [hread] at hvalue
    obtain ⟨seen, rfl, hseen⟩ := h.takes value rest hvalue
    have hok : there seen = .ok (value, []) := by
      have hnil := hseen [] fun h => nomatch h
      rwa [List.append_nil] at hnil
    have hne := hmarked seen fun fault hfault => nomatch hok.symm.trans hfault
    refine ⟨seen, rfl, fun other hother => ?_⟩
    rw [onMark_there hmark hfirst hne, hseen other hother]
  · intro fault hfault
    rw [hread] at hfault
    cases h.refuses fault hfault with
    | atEnd hcause => exact .atEnd hcause
    | late hcause => exact .late hcause
    | @prompt cause seen unread hcause hs hseen =>
        subst hs
        have herror : there seen = .error (.leaving cause []) := by
          have hnil := hseen []
          rwa [List.append_nil] at hnil
        have hne := hmarked seen fun fault hfault => by
          rw [herror] at hfault
          cases hfault
          exact hcause
        refine .prompt hcause rfl fun other => ?_
        rw [onMark_there hmark hfirst hne, hseen other]

/-- The mark settles on which side a reader goes on, so on the far side nothing may be
settled by white space. -/
theorem Settled.onMark {b : UInt8} {here there : Octets → Except Fault (α × Octets)}
    (hatEnd : atEnd.category = .endOfInput)
    (hhere : ∀ r, r.length < s.length → Settled false here r) (hthere : Settled false there s)
    (hblank : EndsOnBlank there) :
    Settled false (JsonReport.onMark b atEnd here there) s := by
  cases hmark : mark atEnd s with
  | error fault =>
      have hread : JsonReport.onMark b atEnd here there s = .error fault := by
        rw [JsonReport.onMark, hmark]
      obtain ⟨-, rfl⟩ := mark_error hmark
      exact settled_of_error hread (.atEnd hatEnd)
  | ok found =>
      obtain ⟨first, r⟩ := found
      by_cases hfirst : first = b
      · obtain ⟨front, rfl, hfront⟩ := exists_mark_seen hmark
        apply (hhere r (mark_length hmark)).behind front
        intro t
        rw [onMark_of_ok (mark_append hfront t), if_pos hfirst, List.nil_append]
      · exact hthere.onMarkThere hmark hfirst hblank

end Steps

end JsonReport
