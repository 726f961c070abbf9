import JsonReport.Failure.Text
import Mathlib.Tactic

/-!
# Failures by their details

A failure starts from its kind and is given details one after another.  Each detail is about one
thing and leaves the rest alone, so of every sort the last detail tells, whatever stands between;
only a place on an unknown line is passed over, and an earlier place then stays.  A cause may be a
failure that came about in the same way, and so on down the causes.

One equation says all that a detail does.  The run over a list of details and the exchange of two
neighbours follow from it.
-/

namespace JsonReport.Failure

/-! ## What a detail is about -/

/-- What a detail is about. -/
inductive Aspect where
  | message
  | hint
  | path
  | position
  | cause
deriving DecidableEq, Repr

namespace Detail

def aspect : Detail → Aspect
  | .message _ => .message
  | .hint _ => .hint
  | .path _ => .path
  | .position _ _ => .position
  | .cause _ => .cause

def message? : Detail → Option String
  | .message text => some text
  | _ => none

def hint? : Detail → Option String
  | .hint text => some text
  | _ => none

def path? : Detail → Option Octets
  | .path octets => some octets
  | _ => none

/-- The place that a detail tells: one on line zero is unknown. -/
def place? : Detail → Option Position
  | .position line column => if 0 < line then some ⟨line, column⟩ else none
  | _ => none

def cause? : Detail → Option (FailureCause Failure)
  | .cause given => some given
  | _ => none

theorem line_pos_of_place? {detail : Detail} {place : Position} (h : detail.place? = some place) :
    0 < place.line := by
  cases detail with
  | position line column =>
      rw [place?] at h
      split at h
      · next hline =>
          injection h with h
          subst h
          exact hline
      · cases h
  | _ => cases h

theorem eq_of_cause? {detail : Detail} {given : FailureCause Failure}
    (h : detail.cause? = some given) : detail = .cause given := by
  cases detail with
  | cause other =>
      injection h with h
      rw [h]
  | _ => cases h

end Detail

/-! ## One detail -/

variable {failure inner : Failure}

/-- All that a detail does: what it is about is replaced, and the rest stays. -/
theorem give_eq (failure : Failure) (detail : Detail) :
    failure.give detail =
      { kind := failure.kind
        message := detail.message?.or failure.message
        hint := detail.hint?.or failure.hint
        path := detail.path?.or failure.path
        position := detail.place?.or failure.position
        cause := detail.cause?.or failure.cause } := by
  cases failure
  cases detail with
  | position line column =>
      rw [give, withPosition, Detail.place?]
      split <;> rfl
  | _ => rfl

theorem give_comm (failure : Failure) {first second : Detail} (h : first.aspect ≠ second.aspect) :
    (failure.give first).give second = (failure.give second).give first := by
  simp only [give_eq]
  -- Two sorts are told in two different fields, and each field is left alone by the other.
  cases first <;> cases second <;> first | rfl | exact absurd rfl h

/-! ## Details one after another -/

/-- Gives a failure details one after another. -/
def giveAll (failure : Failure) (details : List Detail) : Failure := details.foldl give failure

/-- What the last detail tells of those that tell anything. -/
def lastOf {α : Type} (select : Detail → Option α) (details : List Detail) : Option α :=
  (details.filterMap select).getLast?

theorem giveAll_append (failure : Failure) (first second : List Detail) :
    failure.giveAll (first ++ second) = (failure.giveAll first).giveAll second :=
  List.foldl_append

theorem lastOf_append_singleton {α : Type} (select : Detail → Option α) (details : List Detail)
    (detail : Detail) :
    lastOf select (details ++ [detail]) = (select detail).or (lastOf select details) := by
  rw [lastOf, List.filterMap_append, List.getLast?_append]
  cases hselect : select detail with
  | none => simp [lastOf, hselect]
  | some value => simp [hselect]

theorem mem_of_lastOf {α : Type} {select : Detail → Option α} {value : α}
    (h : lastOf select details = some value) : ∃ detail ∈ details, select detail = some value :=
  List.mem_filterMap.mp (List.mem_of_getLast? h)

/-- All that a list of details does: of every sort the last one tells. -/
theorem giveAll_eq (failure : Failure) (details : List Detail) :
    failure.giveAll details =
      { kind := failure.kind
        message := (lastOf Detail.message? details).or failure.message
        hint := (lastOf Detail.hint? details).or failure.hint
        path := (lastOf Detail.path? details).or failure.path
        position := (lastOf Detail.place? details).or failure.position
        cause := (lastOf Detail.cause? details).or failure.cause } := by
  induction details using List.reverseRecOn with
  | nil =>
      cases failure
      rfl
  | append_singleton details detail ih =>
      have hlast : failure.giveAll (details ++ [detail]) =
          (failure.giveAll details).give detail :=
        giveAll_append failure details [detail]
      rw [hlast, ih, give_eq]
      simp only [lastOf_append_singleton, Option.or_assoc]

theorem giveAll_swap (failure : Failure) (before after : List Detail) {first second : Detail}
    (h : first.aspect ≠ second.aspect) :
    failure.giveAll (before ++ first :: second :: after) =
      failure.giveAll (before ++ second :: first :: after) := by
  have hparts (pair : List Detail) :
      failure.giveAll (before ++ (pair ++ after)) =
        ((failure.giveAll before).giveAll pair).giveAll after := by
    rw [giveAll_append, giveAll_append]
  have hpair : (failure.giveAll before).giveAll [first, second] =
      (failure.giveAll before).giveAll [second, first] :=
    give_comm (failure.giveAll before) h
  calc failure.giveAll (before ++ first :: second :: after)
      = ((failure.giveAll before).giveAll [first, second]).giveAll after := hparts [first, second]
    _ = ((failure.giveAll before).giveAll [second, first]).giveAll after := by rw [hpair]
    _ = failure.giveAll (before ++ second :: first :: after) := (hparts [second, first]).symm

/-! ## What a failure tells -/

/-- A failure of this kind tells what the last of these details of every sort say, and nothing
where there is none.  A line never stands without a column, and is counted from one. -/
structure Tells (failure : Failure) (kind : FailureKind) (details : List Detail) : Prop where
  kind_eq : failure.kind = kind
  message_eq : failure.message = lastOf Detail.message? details
  hint_eq : failure.hint = lastOf Detail.hint? details
  path_eq : failure.path = lastOf Detail.path? details
  cause_eq : failure.cause = lastOf Detail.cause? details
  line_eq : failure.line? = (lastOf Detail.place? details).map Position.line
  column_eq : failure.column? = (lastOf Detail.place? details).map Position.column
  line_iff_column : failure.line?.isSome ↔ failure.column?.isSome
  line_pos : ∀ line, failure.line? = some line → 0 < line

theorem giveAll_ofKind (kind : FailureKind) (details : List Detail) :
    (ofKind kind).giveAll details =
      { kind := kind
        message := lastOf Detail.message? details
        hint := lastOf Detail.hint? details
        path := lastOf Detail.path? details
        position := lastOf Detail.place? details
        cause := lastOf Detail.cause? details } := by
  rw [giveAll_eq]
  simp only [ofKind, Option.or_none]

theorem tells_giveAll (kind : FailureKind) (details : List Detail) :
    ((ofKind kind).giveAll details).Tells kind details := by
  rw [giveAll_ofKind]
  refine
    { kind_eq := rfl
      message_eq := rfl
      hint_eq := rfl
      path_eq := rfl
      cause_eq := rfl
      line_eq := rfl
      column_eq := rfl
      line_iff_column := ?_
      line_pos := ?_ }
  · rw [line?, column?, Option.isSome_map, Option.isSome_map]
  · intro line hline
    obtain ⟨place, hplace, rfl⟩ := Option.map_eq_some_iff.mp hline
    obtain ⟨detail, -, hdetail⟩ := mem_of_lastOf hplace
    exact Detail.line_pos_of_place? hdetail

/-! ## Down the causes -/

/-- A failure that was given details, each failure among their causes having come about in the
same way. -/
inductive Built : Failure → Prop
  | ofDetails (kind : FailureKind) (details : List Detail)
      (causes : ∀ inner, Detail.cause (.failure inner) ∈ details → Built inner) :
      Built ((ofKind kind).giveAll details)

/-- The cause of a failure is another one. -/
def CausedBy (failure inner : Failure) : Prop := failure.cause = some (.failure inner)

theorem Built.of_causedBy (h : failure.Built) (hcause : failure.CausedBy inner) : inner.Built := by
  obtain ⟨kind, details, causes⟩ := h
  rw [CausedBy, (tells_giveAll kind details).cause_eq] at hcause
  obtain ⟨detail, hmem, hdetail⟩ := mem_of_lastOf hcause
  rw [Detail.eq_of_cause? hdetail] at hmem
  exact causes inner hmem

theorem Built.of_causes (h : failure.Built)
    (hcauses : Relation.ReflTransGen CausedBy failure inner) : inner.Built := by
  induction hcauses with
  | refl => exact h
  | tail _ hcause ih => exact ih.of_causedBy hcause

theorem Built.tells (h : failure.Built) :
    ∃ kind details, failure = (ofKind kind).giveAll details ∧ failure.Tells kind details := by
  obtain ⟨kind, details, -⟩ := h
  exact ⟨kind, details, rfl, tells_giveAll kind details⟩

/-- After any number of details a failure tells the last of every sort, and so does every failure
down its causes that came about in the same way.  Two neighbours of different sorts may change
places: the failure stays as it is, and with it each way of showing it. -/
theorem details_told :
    (∀ kind (details : List Detail) n,
      ((ofKind kind).giveAll (details.take n)).Tells kind (details.take n)) ∧
    (∀ failure inner, Built failure → Relation.ReflTransGen CausedBy failure inner →
      ∃ kind details, inner = (ofKind kind).giveAll details ∧ inner.Tells kind details) ∧
    ∀ kind (before : List Detail) first second after, first.aspect ≠ second.aspect →
      let given := (ofKind kind).giveAll (before ++ first :: second :: after)
      let swapped := (ofKind kind).giveAll (before ++ second :: first :: after)
      swapped = given ∧ swapped.summary = given.summary ∧
        ∀ colored, swapped.errorLine colored = given.errorLine colored ∧
          swapped.text colored = given.text colored := by
  refine ⟨?_, ?_, ?_⟩
  · intro kind details n
    exact tells_giveAll kind (details.take n)
  · intro failure inner hbuilt hcauses
    exact (hbuilt.of_causes hcauses).tells
  · intro kind before first second after haspect given swapped
    have hsame : swapped = given := giveAll_swap (ofKind kind) before after haspect.symm
    refine ⟨hsame, ?_, ?_⟩
    · rw [hsame]
    · intro colored
      rw [hsame]
      exact ⟨rfl, rfl⟩

/-- A place, and after it one on an unknown line. -/
def lostPlace : List Detail := [.position 3 7, .message "gone", .position 0 9]

/-- Two causes, the second of them a failure that was given a place twice. -/
def relayed : List Detail :=
  [.cause (.text "first"), .message "tried",
    .cause (.failure ((ofKind .inputOutput).giveAll lostPlace)), .message "failed"]

theorem details_told_relayed :
    let inner := (ofKind .inputOutput).giveAll lostPlace
    let outer := (ofKind .decode).giveAll relayed
    outer.message = some "failed" ∧ inner.line? = some 3 ∧ inner.column? = some 7 ∧
      (Built outer ∧ Relation.ReflTransGen CausedBy outer inner ∧
        ∃ kind details, inner = (ofKind kind).giveAll details ∧ inner.Tells kind details) ∧
      (Detail.message "gone").aspect ≠ (Detail.position 0 9).aspect ∧
        (ofKind .inputOutput).giveAll [.position 3 7, .position 0 9, .message "gone"] = inner := by
  intro inner outer
  obtain ⟨htold, hcauses, hswap⟩ := details_told
  have hinner : Built inner := by
    refine .ofDetails .inputOutput lostPlace fun other hmem => ?_
    simp [lostPlace] at hmem
  have houter : Built outer := by
    refine .ofDetails .decode relayed fun other hmem => ?_
    have hother : other = inner := by simpa [relayed] using hmem
    rw [hother]
    exact hinner
  have hcause : outer.CausedBy inner := (htold .decode relayed 4).cause_eq
  have hchain : Relation.ReflTransGen CausedBy outer inner := .single hcause
  have haspect : (Detail.message "gone").aspect ≠ (Detail.position 0 9).aspect := by decide
  have hplace := htold .inputOutput lostPlace 3
  exact ⟨(htold .decode relayed 4).message_eq, hplace.line_eq, hplace.column_eq,
    ⟨houter, hchain, hcauses outer inner houter hchain⟩, haspect,
    (hswap .inputOutput [.position 3 7] _ _ [] haspect).1⟩

end JsonReport.Failure
