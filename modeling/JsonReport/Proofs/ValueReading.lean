import JsonReport.Proofs.NumberReading
import JsonReport.Proofs.StringReading
import Mathlib.Tactic

/-!
# Reading written documents

A reader with room for some depth is described at once on both sides of its limits: it
yields the value where the document fits, it is refused as too deep where the document
does not, and it is refused in any case where a literal is out of range.  Each way to
build a value has one lemma that lifts the description from the parts to the whole, and
the run over a written document follows by recursion on how it is written.
-/

namespace JsonReport

open Utf8
open Spelling

/-- A reading that needs room for this depth: with enough room it yields the value, and
with less it is refused as too deep.  Out of range it is refused anyway. -/
structure Reading.Bounded {s : Octets} {α : Type} (reading : ℕ → Reading s α)
    (inRange : Prop) (depth : ℕ) (value : α) (rest : Octets) : Prop where
  fits : inRange → ∀ room, depth ≤ room → (reading room).Yields value rest
  exceeds : inRange → ∀ room, room < depth → (reading room).FailsFor .tooDeep
  refuses : ¬inRange → ∀ room, (reading room).Fails

namespace Reading.Bounded

variable {s s' t rest rest' : Octets} {α β γ : Type} {reading : ℕ → Reading s α}
  {inRange inRange' : Prop} {depth depth' : ℕ} {value : α} {value' : β}

theorem of_iff (h : Bounded reading inRange depth value rest) (hiff : inRange ↔ inRange') :
    Bounded reading inRange' depth value rest := by
  rw [← hiff]
  exact h

theorem fails_or_yields (h : Bounded reading inRange depth value rest) (room : ℕ) :
    (reading room).Fails ∨ inRange ∧ (reading room).Yields value rest := by
  by_cases hrange : inRange
  · by_cases hdeep : room < depth
    · obtain ⟨fault, hfault, _⟩ := h.exceeds hrange room hdeep
      exact .inl ⟨fault, hfault⟩
    · exact .inr ⟨hrange, h.fits hrange room (Nat.le_of_not_lt hdeep)⟩
  · exact .inl (h.refuses hrange room)

/-- A reading that fails with this one and goes on from what it yields. -/
theorem map {outer : ℕ → Reading s' β} (h : Bounded reading inRange depth value rest)
    (hyields : ∀ room, (reading room).Yields value rest →
      (outer room).Yields value' rest')
    (hfault : ∀ room fault, reading room = .error fault → outer room = .error fault) :
    Bounded outer inRange depth value' rest' := by
  constructor
  · intro hrange room hroom
    exact hyields room (h.fits hrange room hroom)
  · intro hrange room hroom
    obtain ⟨fault, hread, hcause⟩ := h.exceeds hrange room hroom
    exact ⟨fault, hfault room fault hread, hcause⟩
  · intro hrange room
    obtain ⟨fault, hread⟩ := h.refuses hrange room
    exact ⟨fault, hfault room fault hread⟩

/-- A reading that takes one part and then another. -/
theorem andThen {second : ℕ → Reading t β} {outer : ℕ → Reading s' γ} {result : γ}
    (h : Bounded reading inRange depth value rest)
    (hsecond : Bounded second inRange' depth' value' rest')
    (hyields : ∀ room, (reading room).Yields value rest →
      (second room).Yields value' rest' → (outer room).Yields result rest')
    (hfault : ∀ room fault, reading room = .error fault → outer room = .error fault)
    (hfault' : ∀ room fault, (reading room).Yields value rest →
      second room = .error fault → outer room = .error fault) :
    Bounded outer (inRange ∧ inRange') (max depth depth') result rest' := by
  constructor
  · intro hrange room hroom
    have hfirst := h.fits hrange.1 room (Nat.le_trans (Nat.le_max_left _ _) hroom)
    have hrest := hsecond.fits hrange.2 room (Nat.le_trans (Nat.le_max_right _ _) hroom)
    exact hyields room hfirst hrest
  · intro hrange room hroom
    -- The first part may already be too deep; otherwise it is read and the second one is.
    by_cases hdeep : room < depth
    · obtain ⟨fault, hread, hcause⟩ := h.exceeds hrange.1 room hdeep
      exact ⟨fault, hfault room fault hread, hcause⟩
    · have hfirst := h.fits hrange.1 room (Nat.le_of_not_lt hdeep)
      obtain ⟨fault, hread, hcause⟩ :=
        hsecond.exceeds hrange.2 room ((lt_max_iff.mp hroom).resolve_left hdeep)
      exact ⟨fault, hfault' room fault hfirst hread, hcause⟩
  · intro hrange room
    rcases h.fails_or_yields room with ⟨fault, hread⟩ | ⟨hrange', hfirst⟩
    · exact ⟨fault, hfault room fault hread⟩
    · obtain ⟨fault, hread⟩ := hsecond.refuses (fun hrest => hrange ⟨hrange', hrest⟩) room
      exact ⟨fault, hfault' room fault hfirst hread⟩

/-- A reading that enters a container takes one from the room. -/
theorem inside {outer : ℕ → Reading s' β} (h : Bounded reading inRange depth value rest)
    (htooDeep : (outer 0).FailsFor .tooDeep)
    (hyields : ∀ room, (reading room).Yields value rest →
      (outer (room + 1)).Yields value' rest)
    (hfault : ∀ room fault, reading room = .error fault →
      outer (room + 1) = .error fault) :
    Bounded outer inRange (depth + 1) value' rest := by
  constructor
  · intro hrange room hroom
    obtain ⟨room, rfl⟩ := Nat.exists_eq_add_of_le' (Nat.le_of_add_left_le hroom)
    exact hyields room (h.fits hrange room (Nat.le_of_succ_le_succ hroom))
  · intro hrange room hroom
    cases room with
    | zero => exact htooDeep
    | succ room =>
        obtain ⟨fault, hread, hcause⟩ :=
          h.exceeds hrange room (Nat.lt_of_succ_lt_succ hroom)
        exact ⟨fault, hfault room fault hread, hcause⟩
  · intro hrange room
    cases room with
    | zero =>
        obtain ⟨fault, hread, _⟩ := htooDeep
        exact ⟨fault, hread⟩
    | succ room =>
        obtain ⟨fault, hread⟩ := h.refuses hrange room
        exact ⟨fault, hfault room fault hread⟩

end Reading.Bounded

/-! ## What a written document begins with and what may follow it -/

def Document.opening {Text : Type} : Document Text → Opening
  | .null => .scalar .null
  | .bool flag => .scalar (if flag then .true else .false)
  | .number literal => .scalar (if literal.negative then .minus else .digit)
  | .string _ => .scalar .quote
  | .array _ => .container .array
  | .object _ => .container .object

theorem wholePart_begins {digits : List Digit} {w : List Char} (h : WholePart digits w) :
    ∃ (d : Digit) (r : List Char), w = Nat.digitChar d.val :: r := by
  cases h with
  | zero => exact ⟨0, [], rfl⟩
  | @digits d ds _ => exact ⟨d, digitText ds, rfl⟩

theorem opening?_digitChar (d : Digit) :
    opening? (ascii (Nat.digitChar d.val)) = some (.scalar .digit) := by
  revert d
  decide

section Beginnings

variable {Text : Type} {content : Text → List Char → Prop}

theorem value_begins {document : Document Text} {w : List Char}
    (h : Value content document w) :
    ∃ c r, w = c :: r ∧ c.toNat < 128 ∧ opening? (ascii c) = some document.opening := by
  cases h with
  | null => exact ⟨'n', _, rfl, by decide, rfl⟩
  | true => exact ⟨'t', _, rfl, by decide, rfl⟩
  | false => exact ⟨'f', _, rfl, by decide, rfl⟩
  | @number literal _ hnumber =>
      cases hnumber with
      | positive hsign hunsigned =>
          obtain ⟨hwhole, _, _⟩ := hunsigned
          obtain ⟨d, r, rfl⟩ := wholePart_begins hwhole
          refine ⟨Nat.digitChar d.val, _, rfl, digitChar_ascii d, ?_⟩
          rw [opening?_digitChar, Document.opening, hsign]
          rfl
      | negative hsign _ =>
          refine ⟨'-', _, rfl, by decide, ?_⟩
          rw [Document.opening, hsign]
          rfl
  | string hquoted =>
      cases hquoted
      exact ⟨'"', _, rfl, by decide, rfl⟩
  | emptyArray _ => exact ⟨'[', _, rfl, by decide, rfl⟩
  | array _ => exact ⟨'[', _, rfl, by decide, rfl⟩
  | emptyObject _ => exact ⟨'\x7b', _, rfl, by decide, rfl⟩
  | object _ => exact ⟨'\x7b', _, rfl, by decide, rfl⟩

theorem element_begins {document : Document Text} {w : List Char}
    (h : Element content document w) (rest : Octets) :
    ∃ b opening, opening? b = some opening ∧ Begins b (octets w ++ rest) := by
  obtain ⟨hbefore, hvalue, _⟩ := h
  obtain ⟨c, r, rfl, hascii, hopening⟩ := value_begins hvalue
  refine ⟨ascii c, _, hopening, ?_⟩
  rw [octets_append, octets_append, octets_cons_ascii hascii]
  simp only [List.append_assoc, List.cons_append]
  exact begins_of_blank hbefore (isBlank_of_opening? hopening) _

theorem elements_begin {items : List (Document Text)} {w : List Char}
    (h : Elements content items w) (rest : Octets) :
    ∃ b opening, opening? b = some opening ∧ Begins b (octets w ++ rest) := by
  cases h with
  | last hitem => exact element_begins hitem rest
  | more hitem _ =>
      rw [octets_append, List.append_assoc]
      exact element_begins hitem _

theorem member_begins {member : Text × Document Text} {w : List Char}
    (h : Member content member w) (rest : Octets) :
    Begins (ascii '"') (octets w ++ rest) := by
  obtain ⟨hbefore, hkey, _, _⟩ := h
  cases hkey
  simp only [octets_append, octets_cons_ascii (show '"'.toNat < 128 by decide),
    List.append_assoc, List.cons_append]
  exact begins_of_blank hbefore (by decide) _

theorem members_begin {members : List (Text × Document Text)} {w : List Char}
    (h : Members content members w) (rest : Octets) :
    Begins (ascii '"') (octets w ++ rest) := by
  cases h with
  | last hmember => exact member_begins hmember rest
  | more hmember _ =>
      rw [octets_append, List.append_assoc]
      exact member_begins hmember _

end Beginnings

theorem endsNumber_nil : EndsNumber [] := by
  constructor
  · intro b r h
    cases h
  · intro b r h
    cases h

theorem endsNumber_cons {b : UInt8} (hb : digit? b = none)
    (hmark : b ≠ ascii '.' ∧ b ≠ ascii 'e' ∧ b ≠ ascii 'E') (r : Octets) :
    EndsNumber (b :: r) := by
  refine ⟨noDigit_cons hb r, ?_⟩
  intro b' r' h
  injection h with h
  exact h ▸ hmark

theorem endsNumber_close (container : Container) (r : Octets) :
    EndsNumber (container.close :: r) := by
  refine endsNumber_cons ?_ ?_ r <;> cases container <;> decide

theorem endsNumber_comma (r : Octets) : EndsNumber (ascii ',' :: r) :=
  endsNumber_cons (by decide) (by decide) r

theorem endsNumber_blank {w : List Char} (hw : Blank w) {rest : Octets}
    (hrest : EndsNumber rest) : EndsNumber (octets w ++ rest) := by
  cases w with
  | nil => exact hrest
  | cons c w =>
      have hc := (List.forall_mem_cons.mp hw).1
      rw [octets_cons_ascii (isBlank_ascii hc).2, List.cons_append]
      refine endsNumber_cons ?_ ?_ _ <;> rcases hc with rfl | rfl | rfl | rfl <;> decide

/-! ## Scalars -/

theorem ascii_of_value {Text : Type} {content : Text → List Char → Prop}
    {document : Document Text} {c : Char} {w : List Char}
    (h : Value content document (c :: w)) : c.toNat < 128 := by
  obtain ⟨c', w', heq, hascii, _⟩ := value_begins h
  injection heq with heq
  exact heq ▸ hascii

theorem readScalar_minus {r : Octets} {n : JsonReport.Number} {rest : Octets}
    (h : (readNumber true r).Yields n rest) (origin : Origin) (b : UInt8) :
    (readScalar origin .minus b r).Yields (.number n) rest := by
  obtain ⟨shorter, hread⟩ := h
  refine ⟨Nat.lt_succ_of_lt shorter, ?_⟩
  simp only [readScalar, hread, Taken.map, Taken.cons]

theorem readScalar_digit {b : UInt8} {r : Octets} {n : JsonReport.Number} {rest : Octets}
    (h : (readNumber false (b :: r)).Yields n rest) (origin : Origin) :
    (readScalar origin .digit b r).Yields (.number n) rest := by
  obtain ⟨shorter, hread⟩ := h
  refine ⟨shorter, ?_⟩
  simp only [readScalar, hread, Taken.map]

theorem readScalar_minus_fails {r : Octets} {cause : Cause}
    (h : (readNumber true r).FailsFor cause) (origin : Origin) (b : UInt8) :
    (readScalar origin .minus b r).FailsFor cause := by
  obtain ⟨fault, hread, hcause⟩ := h
  refine ⟨fault, ?_, hcause⟩
  simp only [readScalar, hread]

theorem readScalar_digit_fails {b : UInt8} {r : Octets} {cause : Cause}
    (h : (readNumber false (b :: r)).FailsFor cause) (origin : Origin) :
    (readScalar origin .digit b r).FailsFor cause := by
  obtain ⟨fault, hread, hcause⟩ := h
  refine ⟨fault, ?_, hcause⟩
  simp only [readScalar, hread]

theorem readScalar_quote {origin : Origin} {r : Octets} {text : String} {rest : Octets}
    (h : (readString origin r).Yields text rest) (b : UInt8) :
    (readScalar origin .quote b r).Yields (.string text) rest := by
  obtain ⟨shorter, hread⟩ := h
  refine ⟨Nat.lt_succ_of_lt shorter, ?_⟩
  simp only [readScalar, hread, Taken.map, Taken.cons]

theorem readScalar_of_value {document : Document String} {c : Char} {w : List Char}
    (h : Value Content document (c :: w)) (hrange : document.InRange) (origin : Origin)
    {kind : Scalar} (hkind : document.opening = .scalar kind) {rest : Octets}
    (hrest : EndsNumber rest) :
    (readScalar origin kind (ascii c) (octets w ++ rest)).Yields document.value rest := by
  have hascii := ascii_of_value h
  cases h with
  | null =>
      cases hkind
      exact readWord_append ['u', 'l', 'l'] _ rfl _ rest
  | true =>
      cases hkind
      exact readWord_append ['r', 'u', 'e'] _ rfl _ rest
  | false =>
      cases hkind
      exact readWord_append ['a', 'l', 's', 'e'] _ rfl _ rest
  | @number literal _ hnumber =>
      obtain ⟨n, hn⟩ : literal.InRange := hrange
      have hvalue : (Document.number literal).value = .number n := by
        rw [Document.value, hn]
      rw [hvalue]
      cases hnumber with
      | positive hsign hunsigned =>
          have hdigit : kind = .digit := by simpa [Document.opening, hsign] using hkind.symm
          subst hdigit
          have hread := readNumber_of_unsigned hunsigned hn hrest
          rw [octets_cons_ascii hascii, hsign] at hread
          exact readScalar_digit hread origin
      | negative hsign hunsigned =>
          have hminus : kind = .minus := by simpa [Document.opening, hsign] using hkind.symm
          subst hminus
          have hread := readNumber_of_unsigned hunsigned hn hrest
          rw [hsign] at hread
          exact readScalar_minus hread origin _
  | string hquoted =>
      cases hkind
      cases hquoted with
      | quotes hcontent =>
          rw [octets_append, List.append_assoc]
          exact readScalar_quote (readString_of_content hcontent origin rest) _
  | emptyArray _ => cases hkind
  | array _ => cases hkind
  | emptyObject _ => cases hkind
  | object _ => cases hkind

theorem readScalar_refuses {document : Document String} {c : Char} {w : List Char}
    (h : Value Content document (c :: w)) (hrange : ¬document.InRange) (origin : Origin)
    {kind : Scalar} (hkind : document.opening = .scalar kind) {rest : Octets}
    (hrest : EndsNumber rest) :
    (readScalar origin kind (ascii c) (octets w ++ rest)).FailsFor .numberOutOfRange := by
  have hascii := ascii_of_value h
  cases h with
  | @number literal _ hnumber =>
      cases hnumber with
      | positive hsign hunsigned =>
          have hdigit : kind = .digit := by simpa [Document.opening, hsign] using hkind.symm
          subst hdigit
          have hread := readNumber_refuses hunsigned hrange hrest
          rw [octets_cons_ascii hascii, hsign] at hread
          exact readScalar_digit_fails hread origin
      | negative hsign hunsigned =>
          have hminus : kind = .minus := by simpa [Document.opening, hsign] using hkind.symm
          subst hminus
          have hread := readNumber_refuses hunsigned hrange hrest
          rw [hsign] at hread
          exact readScalar_minus_fails hread origin _
  | null => exact absurd trivial hrange
  | true => exact absurd trivial hrange
  | false => exact absurd trivial hrange
  | string _ => exact absurd trivial hrange
  | emptyArray _ => cases hkind
  | array _ => cases hkind
  | emptyObject _ => cases hkind
  | object _ => cases hkind

/-! ## One step of a value -/

section Steps

variable {origin : Origin} {before : List Char} {rest : Octets}

theorem readValue_scalar_fails (hbefore : Blank before) {b : UInt8} {r : Octets}
    {kind : Scalar} (hopening : opening? b = some (.scalar kind)) {cause : Cause}
    (h : (readScalar origin kind b r).FailsFor cause) (room : ℕ) :
    (readValue origin room (octets before ++ b :: r)).FailsFor cause := by
  obtain ⟨shorter, hmark⟩ := nextMark_of_blank hbefore (isBlank_of_opening? hopening) r
  obtain ⟨fault, hfault, hcause⟩ := h
  refine ⟨fault, ?_, hcause⟩
  simp only [readValue, hmark, hopening, hfault]

theorem bounded_scalar (hbefore : Blank before) {b : UInt8} {r : Octets} {kind : Scalar}
    (hopening : opening? b = some (.scalar kind)) {inRange : Prop} {value : Json}
    (hread : inRange → (readScalar origin kind b r).Yields value rest)
    (hrefuse : ¬inRange → (readScalar origin kind b r).FailsFor .numberOutOfRange) :
    Reading.Bounded (readValue origin · (octets before ++ b :: r)) inRange 0 value rest := by
  obtain ⟨shorter, hmark⟩ := nextMark_of_blank hbefore (isBlank_of_opening? hopening) r
  constructor
  · intro hrange room _
    obtain ⟨hshorter, hread⟩ := hread hrange
    refine ⟨Nat.lt_of_le_of_lt (Nat.le_of_lt_succ hshorter) shorter, ?_⟩
    simp only [readValue, hmark, hopening, hread, Taken.found]
  · intro _ room hroom
    exact absurd hroom (Nat.not_lt_zero room)
  · intro hrange room
    obtain ⟨fault, hfault, -⟩ := readValue_scalar_fails hbefore hopening (hrefuse hrange) room
    exact ⟨fault, hfault⟩

theorem readValue_tooDeep (hbefore : Blank before) {b : UInt8} {r : Octets}
    {container : Container} (hopening : opening? b = some (.container container)) :
    (readValue origin 0 (octets before ++ b :: r)).FailsFor .tooDeep := by
  obtain ⟨shorter, hmark⟩ := nextMark_of_blank hbefore (isBlank_of_opening? hopening) r
  refine ⟨.leaving .tooDeep r, ?_, rfl⟩
  simp only [readValue, hmark, hopening]

theorem bounded_empty (container : Container) (hbefore : Blank before) {b : UInt8}
    {r : Octets} (hopening : opening? b = some (.container container))
    {shorter : rest.length < r.length}
    (hends : container.endsAtOnce r = .ok (some ⟨(), rest, shorter⟩)) :
    Reading.Bounded (readValue origin · (octets before ++ b :: r)) True 1
      (match container with
      | .array => .array []
      | .object => .object []) rest := by
  obtain ⟨hshorter, hmark⟩ := nextMark_of_blank hbefore (isBlank_of_opening? hopening) r
  constructor
  · intro _ room hroom
    obtain ⟨room, rfl⟩ := Nat.exists_eq_add_of_le' hroom
    refine ⟨Nat.lt_trans shorter hshorter, ?_⟩
    cases container with
    | array => simp only [readValue, hmark, hopening, hends, Taken.map, Taken.past]
    | object => simp only [readValue, hmark, hopening, hends, Taken.map, Taken.past]
  · intro _ room hroom
    obtain rfl : room = 0 := Nat.lt_one_iff.mp hroom
    exact readValue_tooDeep hbefore hopening
  · intro hrange
    exact absurd trivial hrange

theorem bounded_array (hbefore : Blank before) {r : Octets}
    (hends : Container.array.endsAtOnce r = .ok none) {inRange : Prop} {depth : ℕ}
    {items : List Json}
    (hread : Reading.Bounded (readElements origin · r) inRange depth items rest) :
    Reading.Bounded (readValue origin · (octets before ++ ascii '[' :: r)) inRange
      (depth + 1) (.array items) rest := by
  have hopening : opening? (ascii '[') = some (.container .array) := rfl
  obtain ⟨shorter, hmark⟩ := nextMark_of_blank hbefore (isBlank_of_opening? hopening) r
  apply hread.inside (readValue_tooDeep hbefore hopening)
  · rintro room ⟨hshorter, hitems⟩
    refine ⟨Nat.lt_trans hshorter shorter, ?_⟩
    simp only [readValue, hmark, hopening, hends, hitems, Taken.map, Taken.past]
  · intro room fault hitems
    simp only [readValue, hmark, hopening, hends, hitems]

theorem bounded_object (hbefore : Blank before) {r : Octets}
    (hends : Container.object.endsAtOnce r = .ok none) {inRange : Prop} {depth : ℕ}
    {members : List (String × Json)}
    (hread : Reading.Bounded (readMembers origin · r) inRange depth members rest) :
    Reading.Bounded (readValue origin · (octets before ++ ascii '\x7b' :: r)) inRange
      (depth + 1) (.ofMembers members) rest := by
  have hopening : opening? (ascii '\x7b') = some (.container .object) := rfl
  obtain ⟨shorter, hmark⟩ := nextMark_of_blank hbefore (isBlank_of_opening? hopening) r
  apply hread.inside (readValue_tooDeep hbefore hopening)
  · rintro room ⟨hshorter, hmembers⟩
    refine ⟨Nat.lt_trans hshorter shorter, ?_⟩
    simp only [readValue, hmark, hopening, hends, hmembers, Taken.map, Taken.past]
  · intro room fault hmembers
    simp only [readValue, hmark, hopening, hends, hmembers]

end Steps

/-! ## One step of a list of items -/

section Items

variable {origin : Origin} {s r r' rest : Octets} {inRange inRange' : Prop}
  {depth depth' : ℕ} {item : Json}

theorem bounded_last_element
    (hitem : Reading.Bounded (readValue origin · s) inRange depth item r)
    (hclose : (Container.array.afterItemStrict r).Yields .close rest) :
    Reading.Bounded (readElements origin · s) inRange depth [item] rest := by
  obtain ⟨hshorter, hclose⟩ := hclose
  apply hitem.map
  · rintro room ⟨shorter, hread⟩
    refine ⟨Nat.lt_trans hshorter shorter, ?_⟩
    rw [readElements, hread]
    simp only [hclose, Taken.past]
  · intro room fault hread
    rw [readElements, hread]

theorem bounded_more_elements {items : List Json}
    (hitem : Reading.Bounded (readValue origin · s) inRange depth item r)
    (hcomma : (Container.array.afterItemStrict r).Yields .comma r')
    (hitems : Reading.Bounded (readElements origin · r') inRange' depth' items rest) :
    Reading.Bounded (readElements origin · s) (inRange ∧ inRange') (max depth depth')
      (item :: items) rest := by
  obtain ⟨hshorter, hcomma⟩ := hcomma
  apply hitem.andThen hitems
  · rintro room ⟨shorter, hread⟩ ⟨hshorter', hmore⟩
    refine ⟨Nat.lt_trans (Nat.lt_trans hshorter' hshorter) shorter, ?_⟩
    rw [readElements, hread]
    simp only [hcomma, hmore, Taken.map, Taken.past]
  · intro room fault hread
    rw [readElements, hread]
  · rintro room fault ⟨shorter, hread⟩ hmore
    rw [readElements, hread]
    simp only [hcomma, hmore]

variable {key : String} {s₁ s₂ : Octets}

theorem bounded_last_member (hkey : (readKey origin s).Yields key s₁)
    (hcolon : (readColon s₁).Yields () s₂)
    (hitem : Reading.Bounded (readValue origin · s₂) inRange depth item r)
    (hclose : (Container.object.afterItemStrict r).Yields .close rest) :
    Reading.Bounded (readMembers origin · s) inRange depth [(key, item)] rest := by
  obtain ⟨hshorter₁, hkey⟩ := hkey
  obtain ⟨hshorter₂, hcolon⟩ := hcolon
  obtain ⟨hshorter, hclose⟩ := hclose
  apply hitem.map
  · rintro room ⟨shorter, hread⟩
    refine ⟨by omega, ?_⟩
    rw [readMembers, hkey]
    simp only [hcolon, hread, hclose, Taken.past]
  · intro room fault hread
    rw [readMembers, hkey]
    simp only [hcolon, hread]

theorem bounded_more_members {members : List (String × Json)}
    (hkey : (readKey origin s).Yields key s₁) (hcolon : (readColon s₁).Yields () s₂)
    (hitem : Reading.Bounded (readValue origin · s₂) inRange depth item r)
    (hcomma : (Container.object.afterItemStrict r).Yields .comma r')
    (hmembers : Reading.Bounded (readMembers origin · r') inRange' depth' members rest) :
    Reading.Bounded (readMembers origin · s) (inRange ∧ inRange') (max depth depth')
      ((key, item) :: members) rest := by
  obtain ⟨hshorter₁, hkey⟩ := hkey
  obtain ⟨hshorter₂, hcolon⟩ := hcolon
  obtain ⟨hshorter, hcomma⟩ := hcomma
  apply hitem.andThen hmembers
  · rintro room ⟨shorter, hread⟩ ⟨hshorter', hmore⟩
    refine ⟨by omega, ?_⟩
    rw [readMembers, hkey]
    simp only [hcolon, hread, hcomma, hmore, Taken.map, Taken.past]
  · intro room fault hread
    rw [readMembers, hkey]
    simp only [hcolon, hread]
  · rintro room fault ⟨shorter, hread⟩ hmore
    rw [readMembers, hkey]
    simp only [hcolon, hread, hcomma, hmore]

end Items

/-! ## Written documents -/

theorem octets_bracketed {first last : Char} (hfirst : first.toNat < 128)
    (hlast : last.toNat < 128) (w : List Char) (rest : Octets) :
    octets (first :: (w ++ [last])) ++ rest =
      ascii first :: (octets w ++ ascii last :: rest) := by
  rw [octets_cons_ascii hfirst, octets_append, octets_cons_ascii hlast, List.cons_append,
    List.append_assoc]
  rfl

theorem octets_quoted (w : List Char) (rest : Octets) :
    octets ('"' :: (w ++ ['"'])) ++ rest =
      ascii '"' :: (octets w ++ ascii '"' :: rest) :=
  octets_bracketed (by decide) (by decide) w rest

theorem octets_array (w : List Char) (rest : Octets) :
    octets ('[' :: (w ++ [']'])) ++ rest =
      ascii '[' :: (octets w ++ ascii ']' :: rest) :=
  octets_bracketed (by decide) (by decide) w rest

theorem octets_object (w : List Char) (rest : Octets) :
    octets ('\x7b' :: (w ++ ['\x7d'])) ++ rest =
      ascii '\x7b' :: (octets w ++ ascii '\x7d' :: rest) :=
  octets_bracketed (by decide) (by decide) w rest

theorem octets_separated (w ws : List Char) (rest : Octets) :
    octets (w ++ ',' :: ws) ++ rest = octets w ++ ascii ',' :: (octets ws ++ rest) := by
  rw [octets_append, octets_cons_ascii (by decide), List.append_assoc, List.cons_append]

theorem octets_member (before k after w : List Char) (rest : Octets) :
    octets (before ++ k ++ after ++ ':' :: w) ++ rest =
      octets before ++ (octets k ++ (octets after ++ ascii ':' :: (octets w ++ rest))) := by
  simp only [octets_append, octets_cons_ascii (show ':'.toNat < 128 by decide),
    List.append_assoc, List.cons_append]

section Items

variable {Text : Type} {content : Text → List Char → Prop}

theorem endsAtOnce_of_elements {items : List (Document Text)} {w : List Char}
    (h : Elements content items w) (rest : Octets) :
    Container.array.endsAtOnce (octets w ++ ascii ']' :: rest) = .ok none := by
  obtain ⟨b, opening, hopening, hbegins⟩ := elements_begin h (ascii ']' :: rest)
  exact Container.endsAtOnce_of_begins hbegins
    (Container.array.ne_close_of_opening? hopening)

theorem endsAtOnce_of_members {members : List (Text × Document Text)} {w : List Char}
    (h : Members content members w) (rest : Octets) :
    Container.object.endsAtOnce (octets w ++ ascii '\x7d' :: rest) = .ok none :=
  Container.endsAtOnce_of_begins (members_begin h (ascii '\x7d' :: rest)) (by decide)

theorem afterItemStrict_elements {after : List Char} (hafter : Blank after)
    {items : List (Document Text)} {w : List Char} (h : Elements content items w)
    (rest : Octets) :
    (Container.array.afterItemStrict
      (octets after ++ ascii ',' :: (octets w ++ ascii ']' :: rest))).Yields .comma
        (octets w ++ ascii ']' :: rest) := by
  obtain ⟨b, opening, hopening, hbegins⟩ := elements_begin h (ascii ']' :: rest)
  exact Container.afterItemStrict_comma hafter hbegins
    (Container.array.ne_close_of_opening? hopening)

theorem afterItemStrict_members {after : List Char} (hafter : Blank after)
    {members : List (Text × Document Text)} {w : List Char}
    (h : Members content members w) (rest : Octets) :
    (Container.object.afterItemStrict
      (octets after ++ ascii ',' :: (octets w ++ ascii '\x7d' :: rest))).Yields .comma
        (octets w ++ ascii '\x7d' :: rest) :=
  Container.afterItemStrict_comma hafter (members_begin h (ascii '\x7d' :: rest)) (by decide)

end Items

theorem readKey_of_quoted {before k : List Char} (hbefore : Blank before) {key : String}
    (h : Quoted Content key k) (origin : Origin) (rest : Octets) :
    (readKey origin (octets before ++ (octets k ++ rest))).Yields key rest := by
  cases h with
  | @quotes w hcontent =>
      rw [octets_quoted]
      obtain ⟨shorter, hmark⟩ := nextMark_of_blank hbefore
        (show isBlank (ascii '"') = false by decide) (octets w ++ ascii '"' :: rest)
      obtain ⟨hshorter, hread⟩ := readString_of_content hcontent origin rest
      refine ⟨Nat.lt_trans hshorter shorter, ?_⟩
      simp only [readKey, hmark, if_true, hread, Taken.past]

theorem scalar_bounded {document : Document String} {w : List Char}
    (h : Value Content document w) (origin : Origin) {kind : Scalar}
    (hkind : document.opening = .scalar kind) {before : List Char}
    (hbefore : Blank before) {rest : Octets} (hrest : EndsNumber rest) :
    Reading.Bounded (readValue origin · (octets before ++ (octets w ++ rest)))
      document.InRange document.depth document.value rest := by
  obtain ⟨c, r, rfl, hascii, hopening⟩ := value_begins h
  have hdepth : document.depth = 0 := by
    cases document with
    | array _ => cases hkind
    | object _ => cases hkind
    | _ => rfl
  rw [octets_cons_ascii hascii, hdepth]
  exact bounded_scalar hbefore (hopening.trans (congrArg some hkind))
    (fun hrange => readScalar_of_value h hrange origin hkind hrest)
    (fun hrange => readScalar_refuses h hrange origin hkind hrest)

mutual

theorem value_bounded {document : Document String} {w : List Char}
    (h : Value Content document w) (origin : Origin) {before : List Char}
    (hbefore : Blank before) {rest : Octets} (hrest : EndsNumber rest) :
    Reading.Bounded (readValue origin · (octets before ++ (octets w ++ rest)))
      document.InRange document.depth document.value rest := by
  -- White space before a value is passed over by the reader of the value itself, and what
  -- comes after it is left to the reader of the container: hence the two sides here.
  match h with
  | .null => exact scalar_bounded .null origin rfl hbefore hrest
  | .true => exact scalar_bounded .true origin rfl hbefore hrest
  | .false => exact scalar_bounded .false origin rfl hbefore hrest
  | .number hnumber => exact scalar_bounded (.number hnumber) origin rfl hbefore hrest
  | .string hquoted => exact scalar_bounded (.string hquoted) origin rfl hbefore hrest
  | .emptyArray hblank =>
      rw [octets_array]
      obtain ⟨_, hends⟩ := Container.array.endsAtOnce_of_blank hblank rest
      exact bounded_empty .array hbefore rfl hends
  | .emptyObject hblank =>
      rw [octets_object]
      obtain ⟨_, hends⟩ := Container.object.endsAtOnce_of_blank hblank rest
      exact bounded_empty .object hbefore rfl hends
  | .array hitems =>
      rw [octets_array]
      exact bounded_array hbefore (endsAtOnce_of_elements hitems rest)
        (elements_bounded hitems origin rest)
  | .object hmembers =>
      rw [octets_object, Document.value, ← Members.ofList_eq_merged]
      exact bounded_object hbefore (endsAtOnce_of_members hmembers rest)
        (members_bounded hmembers origin rest)

theorem element_bounded {document : Document String} {w : List Char}
    (h : Element Content document w) (origin : Origin) {rest : Octets}
    (hrest : EndsNumber rest) :
    ∃ after, Blank after ∧
      Reading.Bounded (readValue origin · (octets w ++ rest)) document.InRange
        document.depth document.value (octets after ++ rest) := by
  match h with
  | .padded hbefore hvalue hafter =>
      refine ⟨_, hafter, ?_⟩
      rw [octets_append, octets_append, List.append_assoc, List.append_assoc]
      exact value_bounded hvalue origin hbefore (endsNumber_blank hafter hrest)

theorem elements_bounded {items : List (Document String)} {w : List Char}
    (h : Elements Content items w) (origin : Origin) (rest : Octets) :
    Reading.Bounded (readElements origin · (octets w ++ ascii ']' :: rest))
      (Document.ElementsForall NumberLiteral.InRange (fun _ => True) items)
      (Document.elementsDepth items) (Document.elementValues items) rest := by
  match h with
  | .last hitem =>
      obtain ⟨after, hafter, hread⟩ :=
        element_bounded hitem origin (endsNumber_close .array rest)
      rw [Document.elementsDepth, Document.elementsDepth, Nat.max_zero]
      exact (bounded_last_element hread
        (Container.array.afterItemStrict_close hafter rest)).of_iff (and_iff_left trivial).symm
  | .more hitem hitems =>
      rw [octets_separated]
      obtain ⟨after, hafter, hread⟩ := element_bounded hitem origin (endsNumber_comma _)
      exact bounded_more_elements hread (afterItemStrict_elements hafter hitems rest)
        (elements_bounded hitems origin rest)

theorem members_bounded {members : List (String × Document String)} {w : List Char}
    (h : Members Content members w) (origin : Origin) (rest : Octets) :
    Reading.Bounded (readMembers origin · (octets w ++ ascii '\x7d' :: rest))
      (Document.MembersForall NumberLiteral.InRange (fun _ => True) members)
      (Document.membersDepth members) (Document.memberValues members) rest := by
  match h with
  | .last (.pair hbefore hkey hafterKey hitem) =>
      obtain ⟨after, hafter, hread⟩ :=
        element_bounded hitem origin (endsNumber_close .object rest)
      rw [octets_member, Document.membersDepth, Document.membersDepth, Nat.max_zero]
      refine (bounded_last_member (readKey_of_quoted hbefore hkey origin _)
        (readColon_of_blank hafterKey _) hread
        (Container.object.afterItemStrict_close hafter rest)).of_iff ?_
      exact ⟨fun hrange => ⟨trivial, hrange, trivial⟩, fun hrange => hrange.2.1⟩
  | .more (.pair hbefore hkey hafterKey hitem) hmembers =>
      obtain ⟨after, hafter, hread⟩ := element_bounded hitem origin (endsNumber_comma _)
      rw [octets_separated, octets_member]
      refine (bounded_more_members (readKey_of_quoted hbefore hkey origin _)
        (readColon_of_blank hafterKey _) hread
        (afterItemStrict_members hafter hmembers rest)
        (members_bounded hmembers origin rest)).of_iff ?_
      exact ⟨fun hrange => ⟨trivial, hrange⟩, fun hrange => hrange.2⟩

end

theorem readDocument_of_written {document : Document String} {text : String}
    (h : document.WrittenAs text) (hrange : document.InRange) (origin : Origin) :
    (document.depth ≤ greatestDepth →
        readDocument origin (Utf8.encode text) = .ok document.value) ∧
      (greatestDepth < document.depth →
        ∃ fault, readDocument origin (Utf8.encode text) = .error fault ∧
          fault.cause = .tooDeep) := by
  obtain ⟨after, hafter, hread⟩ := element_bounded h origin endsNumber_nil
  rw [List.append_nil, List.append_nil] at hread
  rw [encode_eq_octets, readDocument, readWhole]
  constructor
  · intro hdepth
    obtain ⟨shorter, hvalue⟩ := hread.fits hrange greatestDepth hdepth
    rw [hvalue]
    simp only [nextMark_of_only_blank hafter]
  · intro hdepth
    obtain ⟨fault, hfault, hcause⟩ := hread.exceeds hrange greatestDepth hdepth
    refine ⟨fault, ?_, hcause⟩
    rw [hfault]

/-- A value that is read from a written document is the value of this document. -/
theorem value_of_readDocument {document : Document String} {text : String}
    (h : document.WrittenAs text) {origin : Origin} {value : Json}
    (hread : readDocument origin (Utf8.encode text) = .ok value) :
    document.value = value := by
  obtain ⟨after, hafter, hbounded⟩ := element_bounded h origin endsNumber_nil
  rw [List.append_nil, List.append_nil] at hbounded
  rw [encode_eq_octets, readDocument, readWhole] at hread
  rcases hbounded.fails_or_yields greatestDepth with ⟨fault, hfault⟩ | ⟨_, shorter, hvalue⟩
  · rw [hfault] at hread
    cases hread
  · rw [hvalue] at hread
    simp only [nextMark_of_only_blank hafter] at hread
    exact Except.ok.inj hread

end JsonReport
