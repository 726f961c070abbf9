import JsonReport.Proofs.SettledReading
import Mathlib.Tactic

/-!
# Tokens are settled where they end

Words, strings and numbers, put together from the steps of a reader.  A word and a string
end with an octet of their own.  A number ends where it cannot go on, so one octet more is
seen, and a leading zero is refused only at the digit behind it.
-/

namespace JsonReport

open Utf8
open Spelling

/-- A reading without the proof that it takes something. -/
def Reading.outcome {s : Octets} {α : Type} (reading : Reading s α) : Except Fault (α × Octets) :=
  reading.map fun taken => (taken.value, taken.rest)

/-- A reader that only passes over something. -/
def passing (read : Octets → Except Fault Octets) (s : Octets) : Except Fault (Unit × Octets) :=
  (read s).map fun rest => ((), rest)

@[simp] theorem Reading.outcome_ok {s : Octets} {α : Type} (taken : Taken s α) :
    Reading.outcome (.ok taken) = .ok (taken.value, taken.rest) := rfl

theorem Reading.outcome_length {s rest : Octets} {α : Type} {reading : Reading s α} {value : α}
    (h : reading.outcome = .ok (value, rest)) : rest.length < s.length := by
  cases reading with
  | error fault => cases h
  | ok taken =>
      cases h
      exact taken.shorter

/-! ## Words -/

section Words

variable {α : Type}

theorem passing_readLetters_cons (c : Char) (letters : List Char) :
    passing (readLetters (c :: letters)) = andThen (octet .endOfValue) fun b =>
      if b = ascii c then passing (readLetters letters) else stopping .expectedWord := by
  funext s
  cases s with
  | nil => rfl
  | cons b r =>
      rw [passing, readLetters, andThen_of_ok rfl]
      split_ifs <;> rfl

theorem settled_readLetters (letters : List Char) (s : Octets) :
    Settled false (passing (readLetters letters)) s := by
  induction letters generalizing s with
  | nil => exact settled_yielding ()
  | cons c letters ih =>
      rw [passing_readLetters_cons]
      apply (settled_octet (by decide)).thenAny
      intro b r _
      split_ifs
      · exact ih r
      · exact settled_stopping (by decide)

theorem outcome_readWord (letters : List Char) (meaning : α) (b : UInt8) :
    (fun r => (readWord letters meaning b r).outcome) =
      andThen (passing (readLetters letters)) fun _ => yielding meaning := by
  funext r
  unfold readWord
  split
  · next fault hfault =>
      rw [andThen, passing, hfault]
      rfl
  · next rest hrest =>
      simp only [andThen, passing, hrest]
      rfl

theorem settled_readWord (letters : List Char) (meaning : α) (b : UInt8) (r : Octets) :
    Settled false (fun r => (readWord letters meaning b r).outcome) r := by
  rw [outcome_readWord]
  exact (settled_readLetters letters r).thenAny fun _ _ _ => settled_yielding meaning

end Words

/-! ## Strings -/

theorem readHex_eq : readHex = andThen (octet .endOfString) fun a =>
    andThen (octet .endOfString) fun b => andThen (octet .endOfString) fun c =>
      andThen (octet .endOfString) fun d =>
        match hexValue? a b c d with
        | some n => yielding n
        | none => stopping .invalidEscape := by
  funext s
  rcases s with _ | ⟨a, _ | ⟨b, _ | ⟨c, _ | ⟨d, r⟩⟩⟩⟩
  · rfl
  · rfl
  · rfl
  · rfl
  · simp only [readHex, andThen, octet]
    cases hexValue? a b c d <;> rfl

theorem settled_readHex (s : Octets) : Settled false readHex s := by
  rw [readHex_eq]
  have hoctet (s : Octets) : Settled false (octet .endOfString) s := settled_octet (by decide)
  apply (hoctet s).thenAny
  intro a s₁ _
  apply (hoctet s₁).thenAny
  intro b s₂ _
  apply (hoctet s₂).thenAny
  intro c s₃ _
  apply (hoctet s₃).thenAny
  intro d r _
  split
  · exact settled_yielding _
  · exact settled_stopping (by decide)

theorem passing_readPairMark (c : Char) :
    passing (readPairMark c) = andThen (octet .endOfString) fun b =>
      if b = ascii c then yielding () else stopping .unfinishedPair := by
  funext s
  cases s with
  | nil => rfl
  | cons b r =>
      rw [passing, readPairMark, andThen_of_ok rfl]
      split_ifs <;> rfl

theorem settled_readPairMark (c : Char) (s : Octets) :
    Settled false (passing (readPairMark c)) s := by
  rw [passing_readPairMark]
  apply (settled_octet (by decide)).thenAny
  intro b r _
  split_ifs
  · exact settled_yielding ()
  · exact settled_stopping (by decide)

theorem readPair_eq (high : ℕ) :
    readPair high = andThen (passing (readPairMark '\\')) fun _ =>
      andThen (passing (readPairMark 'u')) fun _ => andThen readHex fun low =>
        if isLowSurrogate low then yielding (Char.ofNat (pairCode high low))
        else stopping .loneSurrogate := by
  funext s
  rw [readPair, andThen, passing]
  cases readPairMark '\\' s with
  | error fault => rfl
  | ok s₁ =>
      simp only [Except.map, andThen, passing]
      cases readPairMark 'u' s₁ with
      | error fault => rfl
      | ok s₂ =>
          dsimp only
          cases readHex s₂ with
          | error fault => rfl
          | ok code =>
              dsimp only
              split_ifs <;> rfl

theorem settled_readPair (high : ℕ) (s : Octets) : Settled false (readPair high) s := by
  rw [readPair_eq]
  apply (settled_readPairMark '\\' s).thenAny
  intro _ s₁ _
  apply (settled_readPairMark 'u' s₁).thenAny
  intro _ s₂ _
  apply (settled_readHex s₂).thenAny
  intro low r _
  split_ifs
  · exact settled_yielding _
  · exact settled_stopping (by decide)

theorem readCodePoint_eq : readCodePoint = andThen readHex fun n =>
    if isLowSurrogate n then stopping .loneSurrogate
    else if isHighSurrogate n then readPair n
    else yielding (Char.ofNat n) := by
  funext s
  rw [readCodePoint, andThen]
  cases readHex s with
  | error fault => rfl
  | ok code =>
      dsimp only
      split_ifs <;> rfl

theorem settled_readCodePoint (s : Octets) : Settled false readCodePoint s := by
  rw [readCodePoint_eq]
  apply (settled_readHex s).thenAny
  intro n r _
  split_ifs
  · exact settled_stopping (by decide)
  · exact settled_readPair n r
  · exact settled_yielding _

theorem readEscape_eq : readEscape = andThen (octet .endOfString) fun b =>
    match letterEscape? b with
    | some c => yielding c
    | none => if b = ascii 'u' then readCodePoint else stopping .invalidEscape := by
  funext s
  cases s with
  | nil => rfl
  | cons b r =>
      rw [readEscape, andThen_of_ok rfl]
      cases letterEscape? b with
      | some c => rfl
      | none =>
          dsimp only
          split_ifs <;> rfl

theorem settled_readEscape (s : Octets) : Settled false readEscape s := by
  rw [readEscape_eq]
  apply (settled_octet (by decide)).thenAny
  intro b r _
  split
  · exact settled_yielding _
  · split_ifs
    · exact settled_readCodePoint r
    · exact settled_stopping (by decide)

theorem outcome_readContent : (fun s => (readContent s).outcome) =
    andThen (octet .endOfString) fun b =>
      if b = ascii '"' then yielding []
      else if b = ascii '\\' then
        andThen readEscape fun c => andThen (fun s => (readContent s).outcome) fun content =>
          yielding (String.utf8EncodeChar c ++ content)
      else if b < 0x20 then stopping .controlCharacter
      else andThen (fun s => (readContent s).outcome) fun content => yielding (b :: content) := by
  funext s
  cases s with
  | nil =>
      rw [readContent]
      rfl
  | cons b r =>
      rw [readContent, andThen_of_ok rfl]
      split_ifs
      · rfl
      · rw [andThen]
        split
        · next fault hescape => rw [hescape]; rfl
        · next c r' hescape =>
            simp only [hescape, andThen]
            cases readContent r' <;> rfl
      · rfl
      · rw [andThen]
        cases readContent r <;> rfl

theorem settled_readContent (s : Octets) :
    Settled false (fun s => (readContent s).outcome) s := by
  rw [outcome_readContent]
  apply (settled_octet (by decide)).thenAny
  intro b r hr
  have hshorter : r.length < s.length := by
    cases s with
    | nil => cases hr
    | cons c s =>
        cases hr
        exact Nat.lt_succ_self _
  split_ifs
  · exact settled_yielding []
  · apply (settled_readEscape r).thenAny
    intro c r' hescape
    have hr' := readEscape_length hescape
    exact (settled_readContent r').thenAny fun content _ _ => settled_yielding _
  · exact settled_stopping (by decide)
  · exact (settled_readContent r).thenAny fun content _ _ => settled_yielding _
termination_by s.length

/-- The characters of a content; what is wrong with it is noticed behind the closing quote. -/
def ofContent (origin : Origin) (content : Octets) (s : Octets) : Except Fault (String × Octets) :=
  match origin.characters content with
  | .ok characters => .ok (String.ofList characters, s)
  | .error valid => .error ⟨.invalidCodePoint, s, content.length - valid⟩

theorem settled_ofContent (origin : Origin) (content s : Octets) :
    Settled false (ofContent origin content) s := by
  unfold ofContent
  split
  · exact settled_yielding _
  · exact settled_of_error rfl (.late (.inr rfl))

theorem outcome_readString (origin : Origin) : (fun s => (readString origin s).outcome) =
    andThen (fun s => (readContent s).outcome) (ofContent origin) := by
  funext s
  rw [readString, andThen]
  cases readContent s with
  | error fault => rfl
  | ok content =>
      simp only [Reading.outcome_ok, ofContent]
      cases origin.characters content.value <;> rfl

theorem settled_readString (origin : Origin) (s : Octets) :
    Settled false (fun s => (readString origin s).outcome) s := by
  rw [outcome_readString]
  exact (settled_readContent s).thenAny fun content r _ => settled_ofContent origin content r

/-! ## Numbers -/

theorem ok_takeDigits :
    (fun s => .ok (takeDigits s) : Octets → Except Fault (List Digit × Octets)) =
      optional [] fun b => (digit? b).map fun d =>
        andThen (fun s => .ok (takeDigits s)) fun digits => yielding (d :: digits) := by
  funext s
  cases s with
  | nil => rfl
  | cons b r =>
      rw [takeDigits, optional]
      cases digit? b <;> rfl

theorem settled_takeDigits (s : Octets) : Settled true (fun s => .ok (takeDigits s)) s := by
  rw [ok_takeDigits]
  apply settled_optional
  intro b r read hs hread
  obtain ⟨d, -, rfl⟩ := Option.map_eq_some_iff.1 hread
  subst hs
  exact (settled_takeDigits r).andThen (fun _ _ _ => settled_yielding _) fun _ _ => rfl
termination_by s.length

/-- A digit stands first, and then what goes on from it. -/
def afterDigit {α : Type} (next : Digit → Octets → Except Fault (α × Octets)) :
    Octets → Except Fault (α × Octets) :=
  andThen (octet .endOfValue) fun b =>
    match digit? b with
    | none => stopping .invalidNumber
    | some d => next d

theorem settled_afterDigit {α : Type} {next : Digit → Octets → Except Fault (α × Octets)}
    (h : ∀ d r, Settled true (next d) r) (s : Octets) : Settled true (afterDigit next) s := by
  apply (settled_octet (by decide)).thenAny
  intro b r _
  split
  · exact settled_stopping (by decide)
  · next d _ => exact h d r

theorem readDigits_eq : readDigits .endOfValue = afterDigit fun d =>
    andThen (fun s => .ok (takeDigits s)) fun digits => yielding (d :: digits) := by
  funext s
  cases s with
  | nil => rfl
  | cons b r =>
      rw [readDigits, afterDigit, andThen_of_ok rfl]
      cases digit? b <;> rfl

theorem settled_readDigits (s : Octets) : Settled true (readDigits .endOfValue) s := by
  rw [readDigits_eq]
  apply settled_afterDigit
  intro d r
  exact (settled_takeDigits r).andThen (fun _ _ _ => settled_yielding _) fun _ _ => rfl

/-- A digit that stands alone. -/
def readAlone (d : Digit) : Octets → Except Fault (List Digit × Octets) :=
  optional [d] fun b => (digit? b).map fun _ => stopping .invalidNumber

theorem settled_readAlone (d : Digit) (s : Octets) : Settled true (readAlone d) s := by
  apply settled_optional
  intro b r read _ hread
  obtain ⟨d, -, rfl⟩ := Option.map_eq_some_iff.1 hread
  exact settled_stopping (by decide)

theorem readWholePart_eq : readWholePart .endOfValue = afterDigit fun d =>
    if d = 0 then readAlone d
    else andThen (fun s => .ok (takeDigits s)) fun digits => yielding (d :: digits) := by
  funext s
  rcases s with _ | ⟨b, r⟩
  · rfl
  rw [readWholePart, readDigits, afterDigit, andThen_of_ok rfl]
  cases hd : digit? b with
  | none => rfl
  | some d =>
      dsimp only
      split_ifs with hzero
      · subst hzero
        rcases r with _ | ⟨c, r⟩
        · rfl
        · rw [readAlone, optional, takeDigits]
          cases digit? c <;> rfl
      · split
        · next h =>
            simp only [Except.ok.injEq, Prod.mk.injEq, List.cons.injEq] at h
            exact absurd h.1.1 hzero
        · rfl

theorem settled_readWholePart (s : Octets) : Settled true (readWholePart .endOfValue) s := by
  rw [readWholePart_eq]
  apply settled_afterDigit
  intro d r
  split_ifs
  · exact settled_readAlone d r
  · exact (settled_takeDigits r).andThen (fun _ _ _ => settled_yielding _) fun _ _ => rfl

theorem readFraction_eq : readFraction .endOfValue = optional none fun b =>
    if b = ascii '.' then
      some (andThen (readDigits .endOfValue) fun digits => yielding (some digits))
    else none := by
  funext s
  cases s with
  | nil => rfl
  | cons b r =>
      rw [readFraction, optional]
      split_ifs
      · dsimp only [andThen]
        cases readDigits .endOfValue r <;> rfl
      · rfl

theorem settled_readFraction (s : Octets) : Settled true (readFraction .endOfValue) s := by
  rw [readFraction_eq]
  apply settled_optional
  intro b r read _ hread
  split_ifs at hread
  cases hread
  exact (settled_readDigits r).andThen (fun _ _ _ => settled_yielding _) fun _ _ => rfl

theorem ok_readSign : (fun s => .ok (readSign s) : Octets → Except Fault (Bool × Octets)) =
    optional false fun b =>
      if b = ascii '-' then some (yielding true)
      else if b = ascii '+' then some (yielding false) else none := by
  funext s
  cases s with
  | nil => rfl
  | cons b r =>
      rw [readSign, optional]
      split_ifs <;> rfl

theorem settled_readSign (s : Octets) : Settled true (fun s => .ok (readSign s)) s := by
  rw [ok_readSign]
  apply settled_optional
  intro b r read _ hread
  split_ifs at hread <;> cases hread <;> exact settled_yielding _

theorem readExponent_eq : readExponent .endOfValue = optional none fun b =>
    if b = ascii 'e' ∨ b = ascii 'E' then
      some (andThen (fun s => .ok (readSign s)) fun negative =>
        andThen (readDigits .endOfValue) fun digits => yielding (some ⟨negative, digits⟩))
    else none := by
  funext s
  cases s with
  | nil => rfl
  | cons b r =>
      rw [readExponent, optional]
      split_ifs
      · simp only [andThen]
        cases readDigits .endOfValue (readSign r).2 <;> rfl
      · rfl

theorem settled_readExponent (s : Octets) : Settled true (readExponent .endOfValue) s := by
  rw [readExponent_eq]
  apply settled_optional
  intro b r read _ hread
  split_ifs at hread
  cases hread
  apply (settled_readSign r).andThen
  · intro negative r' _
    exact (settled_readDigits r').andThen (fun _ _ _ => settled_yielding _) fun _ _ => rfl
  · intro _ negative
    change ¬Cause.Prompt .endOfValue
    decide

theorem outcome_readLiteral (negative : Bool) :
    (fun s => (readLiteral .endOfValue negative s).outcome) =
      andThen (readWholePart .endOfValue) fun whole =>
        andThen (readFraction .endOfValue) fun fraction =>
          andThen (readExponent .endOfValue) fun exponent =>
            yielding ⟨negative, whole, fraction, exponent⟩ := by
  funext s
  unfold readLiteral
  split
  · next fault hwhole => exact (andThen_of_error hwhole).symm
  · next whole s₁ hwhole =>
      rw [andThen_of_ok hwhole]
      split
      · next fault hfraction => exact (andThen_of_error hfraction).symm
      · next fraction s₂ hfraction =>
          rw [andThen_of_ok hfraction]
          split
          · next fault hexponent => exact (andThen_of_error hexponent).symm
          · next exponent s₃ hexponent => rw [andThen_of_ok hexponent]; rfl

theorem settled_readLiteral (negative : Bool) (s : Octets) :
    Settled true (fun s => (readLiteral .endOfValue negative s).outcome) s := by
  rw [outcome_readLiteral]
  apply (settled_readWholePart s).andThen
  · intro whole s₁ _
    apply (settled_readFraction s₁).andThen
    · intro fraction s₂ _
      exact (settled_readExponent s₂).andThen (fun _ _ _ => settled_yielding _) fun _ _ => rfl
    · exact fun _ _ => rfl
  · exact fun _ _ => rfl

/-- The number of a literal; what is out of range is noticed behind the digits. -/
def ofLiteral (literal : NumberLiteral) (s : Octets) : Except Fault (Number × Octets) :=
  match literal.number with
  | .ok n => .ok (n, s)
  | .error unseen => .error (.leaving .numberOutOfRange (unseen.map Digit.octet ++ s))

theorem settled_ofLiteral (literal : NumberLiteral) (s : Octets) :
    Settled true (ofLiteral literal) s := by
  unfold ofLiteral
  split
  · exact settled_yielding _
  · exact settled_of_error rfl (.late (.inl rfl))

theorem spares_ofLiteral (literal : NumberLiteral) : Spares true (ofLiteral literal) := by
  rw [Spares, ofLiteral]
  cases literal.number with
  | ok n => rfl
  | error unseen =>
      change ¬Cause.Prompt .numberOutOfRange
      decide

theorem outcome_readNumber (negative : Bool) : (fun s => (readNumber negative s).outcome) =
    andThen (fun s => (readLiteral .endOfValue negative s).outcome) ofLiteral := by
  funext s
  rw [readNumber, andThen]
  cases readLiteral .endOfValue negative s with
  | error fault => rfl
  | ok literal =>
      simp only [Reading.outcome_ok, ofLiteral]
      cases literal.value.number <;> rfl

/-- A number is settled by its digits and what stands behind them. -/
theorem settled_readNumber (negative : Bool) (s : Octets) :
    Settled true (fun s => (readNumber negative s).outcome) s := by
  rw [outcome_readNumber]
  exact (settled_readLiteral negative s).andThen
    (fun literal r _ => settled_ofLiteral literal r) fun _ => spares_ofLiteral

end JsonReport
