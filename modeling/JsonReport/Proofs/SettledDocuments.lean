import JsonReport.Proofs.FailurePlaces
import JsonReport.Proofs.SettledTokens
import Mathlib.Tactic

/-!
# Syntax errors are settled where they are shown

The readers of documents, put together from the steps of a reader.  What follows an item is
looked for behind a value that has looked there already, if it is a number.  So a document
that is refused for its grammar or its depth is refused alike whatever stands behind the
place that is shown, and one that ends too early is shown at its end.
-/

namespace JsonReport

open Utf8

/-! ## Scalars and keys -/

section Scalars

variable (origin : Origin)

theorem outcome_readScalar_minus (b : UInt8) :
    (fun r => (readScalar origin .minus b r).outcome) =
      andThen (fun s => (readNumber true s).outcome) fun n => yielding (.number n) := by
  funext s
  rw [readScalar, andThen]
  cases readNumber true s <;> rfl

theorem outcome_readScalar_digit (b : UInt8) :
    (fun r => (readScalar origin .digit b r).outcome) =
      andThen (fun s => (readNumber false (b :: s)).outcome) fun n => yielding (.number n) := by
  funext s
  rw [readScalar, andThen]
  cases readNumber false (b :: s) <;> rfl

theorem outcome_readScalar_quote (b : UInt8) :
    (fun r => (readScalar origin .quote b r).outcome) =
      andThen (fun s => (readString origin s).outcome) fun text => yielding (.string text) := by
  funext s
  rw [readScalar, andThen]
  cases readString origin s <;> rfl

theorem settled_readScalar (kind : Scalar) (b : UInt8) (r : Octets) :
    Settled true (fun r => (readScalar origin kind b r).outcome) r := by
  cases kind with
  | null => exact (settled_readWord _ _ b r).lookingAhead
  | true => exact (settled_readWord _ _ b r).lookingAhead
  | false => exact (settled_readWord _ _ b r).lookingAhead
  | minus =>
      rw [outcome_readScalar_minus]
      exact (settled_readNumber true r).andThen (fun _ _ _ => settled_yielding _) fun _ _ => rfl
  | digit =>
      have hnumber : Settled true (fun s => (readNumber false (b :: s)).outcome) r := by
        apply (settled_readNumber false (b :: r)).tail
        · change ¬Cause.Prompt .endOfValue
          decide
        · intro n rest h
          exact Nat.le_of_lt_succ (Reading.outcome_length h)
      rw [outcome_readScalar_digit]
      exact hnumber.andThen (fun _ _ _ => settled_yielding _) fun _ _ => rfl
  | quote =>
      rw [outcome_readScalar_quote]
      exact (settled_readString origin r).thenAny fun _ _ _ => settled_yielding _

theorem outcome_readKey : (fun s => (readKey origin s).outcome) =
    andThen (mark .endOfValue) fun b =>
      if b = ascii '"' then fun s => (readString origin s).outcome
      else stopping .keyMustBeString := by
  funext s
  rw [readKey, andThen, mark]
  cases nextMark s with
  | none => rfl
  | some first =>
      dsimp only
      split_ifs
      · dsimp only
        cases readString origin first.rest <;> rfl
      · rfl

theorem settled_readKey (s : Octets) : Settled false (fun s => (readKey origin s).outcome) s := by
  rw [outcome_readKey]
  apply (settled_mark (by decide)).thenAny
  intro b r _
  split_ifs
  · exact settled_readString origin r
  · exact settled_stopping (by decide)

end Scalars

theorem outcome_readColon : (fun s => (readColon s).outcome) =
    andThen (mark .endOfObject) fun b =>
      if b = ascii ':' then yielding () else stopping .expectedColon := by
  funext s
  rw [readColon, andThen, mark]
  cases nextMark s with
  | none => rfl
  | some first =>
      dsimp only
      split_ifs <;> rfl

theorem settled_readColon (s : Octets) : Settled false (fun s => (readColon s).outcome) s := by
  rw [outcome_readColon]
  apply (settled_mark (by decide)).thenAny
  intro b r _
  split_ifs
  · exact settled_yielding ()
  · exact settled_stopping (by decide)

/-! ## Items -/

namespace Container

variable {β : Type} (container : Container) (item : β)

theorem category_unfinished : container.unfinished.category = .endOfInput := by
  cases container <;> rfl

theorem prompt_unexpected : container.unexpected.Prompt := by
  cases container <;> decide

theorem outcome_afterItem : (fun s => (container.afterItem s).outcome) =
    andThen (mark container.unfinished) fun b =>
      if b = container.close then yielding .close
      else if b = ascii ',' then yielding .comma
      else stopping container.unexpected := by
  funext s
  rw [afterItem, andThen, mark]
  cases nextMark s with
  | none => rfl
  | some first =>
      dsimp only
      split_ifs <;> rfl

theorem settled_afterItem (s : Octets) :
    Settled false (fun s => (container.afterItem s).outcome) s := by
  rw [outcome_afterItem]
  apply (settled_mark container.category_unfinished).thenAny
  intro b r _
  split_ifs
  · exact settled_yielding _
  · exact settled_yielding _
  · exact settled_stopping container.prompt_unexpected

/-- What goes on behind an item: `more` items behind a comma, unless the container ends
there. -/
def itemsBehind (more : Octets → Except Fault (List β × Octets)) :
    Octets → Except Fault (List β × Octets) :=
  andThen (fun s => (container.afterItem s).outcome) fun
    | .close => yielding [item]
    | .comma => onMark container.close .endOfValue (stopping .trailingComma)
        (andThen more fun items => yielding (item :: items))

variable {more : Octets → Except Fault (List β × Octets)}

theorem itemsBehind_eq (hblank : EndsOnBlank more) (s : Octets) :
    container.itemsBehind item more s =
      match container.afterItemStrict s with
      | .error fault => .error fault
      | .ok ⟨.close, r, _⟩ => .ok ([item], r)
      | .ok ⟨.comma, r, _⟩ =>
        match more r with
        | .error fault => .error fault
        | .ok (items, rest) => .ok (item :: items, rest) := by
  rw [itemsBehind, afterItemStrict, andThen]
  cases container.afterItem s with
  | error fault => rfl
  | ok next =>
      obtain ⟨_ | _, r, hr⟩ := next
      · rfl
      · simp only [Reading.outcome_ok, onMark, mark, refuseEnd]
        cases hmark : nextMark r with
        | none =>
            dsimp only
            rw [hblank r hmark]
        | some first =>
            dsimp only
            split_ifs
            · rfl
            · dsimp only [andThen]
              cases more r <;> rfl

theorem settled_itemsBehind {s : Octets}
    (hmore : ∀ r, r.length < s.length → Settled false more r) (hblank : EndsOnBlank more) :
    Settled false (container.itemsBehind item more) s := by
  apply (container.settled_afterItem s).thenAny
  intro next r hnext
  have hr : r.length < s.length := Reading.outcome_length hnext
  cases next with
  | close => exact settled_yielding _
  | comma =>
      apply Settled.onMark (by decide)
      · exact fun _ _ => settled_stopping (by decide)
      · exact (hmore r hr).thenAny fun _ _ _ => settled_yielding _
      · exact hblank.andThen

theorem spares_itemsBehind (more : Octets → Except Fault (List β × Octets)) :
    Spares true (container.itemsBehind item more) := by
  cases container <;> (change ¬Cause.Prompt _; decide)

end Container

/-! ## Values -/

section Values

variable (origin : Origin)

theorem endsOnBlank_readElements (room : ℕ) :
    EndsOnBlank fun s => (readElements origin room s).outcome := by
  intro s h
  dsimp only
  rw [readElements, readValue, h]
  rfl

theorem endsOnBlank_readMembers (room : ℕ) :
    EndsOnBlank fun s => (readMembers origin room s).outcome := by
  intro s h
  dsimp only
  rw [readMembers, readKey, h]
  rfl

theorem outcome_readElements (room : ℕ) : (fun s => (readElements origin room s).outcome) =
    andThen (fun s => (readValue origin room s).outcome) fun item =>
      Container.array.itemsBehind item fun s => (readElements origin room s).outcome := by
  funext s
  rw [readElements, andThen]
  cases readValue origin room s with
  | error fault => rfl
  | ok item =>
      simp only [Reading.outcome_ok]
      rw [Container.itemsBehind_eq _ _ (endsOnBlank_readElements origin room)]
      cases Container.array.afterItemStrict item.rest with
      | error fault => rfl
      | ok next =>
          obtain ⟨_ | _, r, hr⟩ := next
          · rfl
          · dsimp only
            cases readElements origin room r <;> rfl

theorem outcome_readMembers (room : ℕ) : (fun s => (readMembers origin room s).outcome) =
    andThen (fun s => (readKey origin s).outcome) fun key =>
      andThen (fun s => (readColon s).outcome) fun _ =>
        andThen (fun s => (readValue origin room s).outcome) fun value =>
          Container.object.itemsBehind (key, value) fun s =>
            (readMembers origin room s).outcome := by
  funext s
  rw [readMembers, andThen]
  cases readKey origin s with
  | error fault => rfl
  | ok key =>
      simp only [Reading.outcome_ok, andThen]
      cases readColon key.rest with
      | error fault => rfl
      | ok colon =>
          simp only [Reading.outcome_ok]
          cases readValue origin room colon.rest with
          | error fault => rfl
          | ok value =>
              simp only [Reading.outcome_ok]
              rw [Container.itemsBehind_eq _ _ (endsOnBlank_readMembers origin room)]
              cases Container.object.afterItemStrict value.rest with
              | error fault => rfl
              | ok next =>
                  obtain ⟨_ | _, r, hr⟩ := next
                  · rfl
                  · dsimp only
                    cases readMembers origin room r <;> rfl

/-- A container behind its opening mark. -/
def readOpened (room : ℕ) (container : Container) : Octets → Except Fault (Json × Octets) :=
  onMark container.close container.unfinished
    (yielding (match container with
      | .array => .array []
      | .object => .object []))
    (match container with
      | .array => andThen (fun s => (readElements origin room s).outcome) fun items =>
          yielding (.array items)
      | .object => andThen (fun s => (readMembers origin room s).outcome) fun members =>
          yielding (.ofMembers members))

theorem outcome_readValue (room : ℕ) : (fun s => (readValue origin room s).outcome) =
    andThen (mark .endOfValue) fun b =>
      match opening? b with
      | none => stopping .expectedValue
      | some (.scalar kind) => fun r => (readScalar origin kind b r).outcome
      | some (.container container) =>
        match room with
        | 0 => stopping .tooDeep
        | room + 1 => readOpened origin room container := by
  funext s
  rw [readValue, andThen, mark]
  cases nextMark s with
  | none => rfl
  | some first =>
      obtain ⟨b, r, hr⟩ := first
      dsimp only
      rcases opening? b with _ | kind | container
      · rfl
      · dsimp only
        cases readScalar origin kind b r <;> rfl
      · cases room with
        | zero => rfl
        | succ room =>
            dsimp only [readOpened, onMark, mark, Container.endsAtOnce]
            cases nextMark r with
            | none => cases container <;> rfl
            | some next =>
                dsimp only
                split_ifs with hclose
                · cases container <;> rfl
                · cases container with
                  | array =>
                      dsimp only [andThen]
                      cases readElements origin room r <;> rfl
                  | object =>
                      dsimp only [andThen]
                      cases readMembers origin room r <;> rfl

-- The induction is on what is left of the text, as in the readers themselves.  Only a value
-- looks ahead, for the sake of a number; whatever follows one spares the end of the text.

mutual

theorem settled_readValue (room : ℕ) (s : Octets) :
    Settled true (fun s => (readValue origin room s).outcome) s := by
  rw [outcome_readValue]
  apply (settled_mark (by decide)).thenAny
  intro b r hmark
  have hr : r.length < s.length := mark_length hmark
  split
  · exact settled_stopping (by decide)
  · next kind _ => exact settled_readScalar origin kind b r
  · next container _ =>
      cases room with
      | zero => exact settled_stopping (by decide)
      | succ room =>
          apply Settled.lookingAhead
          apply Settled.onMark container.category_unfinished
          · exact fun _ _ => settled_yielding _
          · cases container with
            | array => exact (settled_readElements room r).thenAny fun _ _ _ => settled_yielding _
            | object => exact (settled_readMembers room r).thenAny fun _ _ _ => settled_yielding _
          · cases container with
            | array => exact (endsOnBlank_readElements origin room).andThen
            | object => exact (endsOnBlank_readMembers origin room).andThen
termination_by 2 * s.length

theorem settled_readElements (room : ℕ) (s : Octets) :
    Settled false (fun s => (readElements origin room s).outcome) s := by
  rw [outcome_readElements]
  apply (settled_readValue room s).andThen
  · intro item r hitem
    have hr := Reading.outcome_length hitem
    exact Container.array.settled_itemsBehind item (fun r' _ => settled_readElements room r')
      (endsOnBlank_readElements origin room)
  · exact fun _ item => Container.array.spares_itemsBehind item
      fun s => (readElements origin room s).outcome
termination_by 2 * s.length + 1

theorem settled_readMembers (room : ℕ) (s : Octets) :
    Settled false (fun s => (readMembers origin room s).outcome) s := by
  rw [outcome_readMembers]
  apply (settled_readKey origin s).thenAny
  intro key r₁ hkey
  have h₁ := Reading.outcome_length hkey
  apply (settled_readColon r₁).thenAny
  intro _ r₂ hcolon
  have h₂ := Reading.outcome_length hcolon
  apply (settled_readValue room r₂).andThen
  · intro value r₃ hvalue
    have h₃ := Reading.outcome_length hvalue
    exact Container.object.settled_itemsBehind (key, value)
      (fun r₄ _ => settled_readMembers room r₄) (endsOnBlank_readMembers origin room)
  · exact fun _ value => Container.object.spares_itemsBehind (key, value)
      fun s => (readMembers origin room s).outcome
termination_by 2 * s.length + 1

end

end Values

/-! ## Documents -/

/-- The end of a document, where nothing but white space may stand. -/
def ending {α : Type} (value : α) (s : Octets) : Except Fault (α × Octets) :=
  match mark .endOfValue s with
  | .error _ => .ok (value, [])
  | .ok (_, rest) => .error (.leaving .trailingCharacters rest)

section Documents

variable {origin : Origin} {s : Octets} {fault : Fault}

theorem refused_ending {α : Type} {value : α} (h : ending value s = .error fault) :
    Refused (ending value) s fault := by
  rw [ending] at h
  split at h
  · cases h
  · next b rest hmark =>
      cases h
      obtain ⟨seen, rfl, hseen⟩ := exists_mark_seen hmark
      refine .prompt (by decide) rfl fun other => ?_
      rw [ending, mark_append hseen other]
      rfl

theorem readDocument_eq (s : Octets) : readDocument origin s =
    (andThen (fun s => (readValue origin greatestDepth s).outcome) ending s).map Prod.fst := by
  rw [readDocument, readWhole, andThen]
  cases readValue origin greatestDepth s with
  | error fault => rfl
  | ok taken =>
      simp only [Reading.outcome_ok, ending, mark]
      cases nextMark taken.rest <;> rfl

theorem Refused.mono {β γ : Type} {read : Octets → Except Fault β} {read' : Octets → Except Fault γ}
    (h : Refused read s fault)
    (hsame : ∀ t fault, read t = .error fault → read' t = .error fault) :
    Refused read' s fault := by
  cases h with
  | atEnd hcause => exact .atEnd hcause
  | late hcause => exact .late hcause
  | prompt hcause hs hseen => exact .prompt hcause hs fun other => hsame _ _ (hseen other)

/-- A document is refused for what was seen of it, or at its end, or late. -/
theorem refused_readDocument (h : readDocument origin s = .error fault) :
    Refused (readDocument origin) s fault := by
  have hvalue := settled_readValue origin greatestDepth s
  have hwhole : Refused (andThen (fun s => (readValue origin greatestDepth s).outcome) ending)
      s fault := by
    rw [readDocument_eq] at h
    cases hread : (readValue origin greatestDepth s).outcome with
    | error other =>
        rw [andThen_of_error hread] at h
        cases h
        exact (hvalue.refuses fault hread).andThen
    | ok taken =>
        obtain ⟨value, r⟩ := taken
        rw [andThen_of_ok hread] at h
        have hending : ending value r = .error fault := by
          cases hend : ending value r with
          | ok outcome =>
              rw [hend] at h
              cases h
          | error other =>
              rw [hend] at h
              cases h
              rfl
        exact (hvalue.takes value r hread).refused (refused_ending hending) fun _ => rfl
  apply hwhole.mono
  intro t other hother
  rw [readDocument_eq, hother]
  rfl

end Documents

/-! ## Failures -/

namespace Position

/-- Two places of a text that have one line and one column are the same place. -/
theorem index_unique {input : Octets} {i j : ℕ} (hi : i ≤ input.length) (hj : j ≤ input.length)
    (h : after (input.take i) = after (input.take j)) : i = j := by
  wlog hle : i ≤ j generalizing i j
  · exact (this hj hi h.symm (Nat.le_of_not_le hle)).symm
  have hsplit : input.take j = input.take i ++ (input.drop i).take (j - i) := by
    rw [← List.take_add, Nat.add_sub_cancel' hle]
  have hline : ascii '\n' ∉ (input.drop i).take (j - i) := by
    intro hmem
    have hfeeds := List.count_pos_iff.2 hmem
    have hlines : lineOf (input.take i) = lineOf (input.take j) := by
      rw [after_eq, after_eq, Position.mk.injEq] at h
      exact h.1
    rw [hsplit, lineOf, lineOf, List.count_append] at hlines
    omega
  rw [hsplit, after_append_of_line hline] at h
  have hcolumns := congrArg Position.column h
  rw [List.length_take, List.length_drop] at hcolumns
  dsimp only at hcolumns
  omega

end Position

namespace Category

theorem label_injective {category category' : Category} (h : category.label = category'.label) :
    category = category' := by
  cases category <;> cases category' <;> simp [label] at h ⊢

theorem hint_injective {category category' : Category} {context : String}
    (h : category.hint context = category'.hint context) : category = category' := by
  unfold hint at h
  have hfront := (String.append_left_inj _).1 ((String.append_left_inj _).1 h)
  exact label_injective ((String.append_right_inj _).1 hfront)

end Category

namespace Failure

/-- A failure tells the place of the input before which `i` octets stand. -/
def StandsAt (failure : Failure) (input : Octets) (i : ℕ) : Prop :=
  i ≤ input.length ∧
    failure.line? = some (Position.lineOf (input.take i)) ∧
    failure.column? = some (Position.columnOf (input.take i))

/-- A failure of decoding a value has the hint of a category. -/
def IsSorted (failure : Failure) (category : Category) : Prop :=
  failure.hint = some (category.hint Target.value.context)

variable {failure : Failure} {input : Octets} {i : ℕ}

theorem StandsAt.iff_eq (h : failure.StandsAt input i) (j : ℕ) :
    failure.StandsAt input j ↔ j = i := by
  constructor
  · intro hj
    obtain ⟨hi, hline, hcolumn⟩ := h
    obtain ⟨hj, hline', hcolumn'⟩ := hj
    rw [hline, Option.some.injEq] at hline'
    rw [hcolumn, Option.some.injEq] at hcolumn'
    apply Position.index_unique hj hi
    rw [Position.after_eq, Position.after_eq, hline', hcolumn']
  · rintro rfl
    exact h

theorem standsAt_leaving (target : Target) (cause : Cause) (seen unread : Octets) :
    (ofFault target (seen ++ unread) (.leaving cause unread)).StandsAt (seen ++ unread)
      seen.length := by
  have hindex : (Fault.leaving cause unread).index (seen ++ unread) = seen.length := by
    rw [Fault.index, Fault.leaving, List.length_append, Nat.add_sub_cancel, Nat.sub_zero]
  have hstands : (Fault.leaving cause unread).StandsIn (seen ++ unread) :=
    Fault.standsIn_leaving (List.suffix_append seen unread)
  obtain ⟨hi, hline, hcolumn, -⟩ := pointsTo_ofFault target hstands
  rw [hindex] at hi hline hcolumn
  exact ⟨hi, hline, hcolumn⟩

/-- The failure that is made of a fault says nothing of what was left unread. -/
theorem ofFault_leaving_append (target : Target) (cause : Cause) (seen unread : Octets) :
    ofFault target (seen ++ unread) (.leaving cause unread) =
      ofFault target seen (.leaving cause []) := by
  have hplace : (Fault.leaving cause unread).position (seen ++ unread) =
      (Fault.leaving cause []).position seen := by
    simp only [Fault.position, Fault.leaving, Position.before, List.length_append,
      Nat.add_sub_cancel, List.take_left, List.length_nil, Nat.sub_zero, List.take_length]
  have hmessage : (Fault.leaving cause unread).message (seen ++ unread) =
      (Fault.leaving cause []).message seen := by
    rw [Fault.message, Fault.message, hplace]
    rfl
  have hcategory : Category.ofFault (.leaving cause unread) (seen ++ unread) =
      Category.ofFault (.leaving cause []) seen := by
    rw [Category.ofFault, Category.ofFault, hmessage]
    rfl
  rw [ofFault, ofFault, hplace, hmessage, hcategory]

end Failure

section Decoding

variable {input : Octets} {failure : Failure} {category : Category}

/-- Faults of the settings are told apart from what is refused for what was seen. -/
theorem Refused.category_ne_data {β : Type} {read : Octets → Except Fault β} {s : Octets}
    {fault : Fault} (h : Refused read s fault) : fault.cause.category ≠ .data := by
  intro hdata
  cases h with
  | atEnd hcause => exact nomatch hcause.symm.trans hdata
  | late hcause => exact hcause.elim (nomatch ·.symm.trans hdata) (nomatch ·.symm.trans hdata)
  | prompt hcause _ _ =>
      exact hcause.elim (nomatch ·.symm.trans hdata) (nomatch ·.symm.trans hdata)

/-- A value that is not decoded was refused by its reader, for a cause of the category that
the hint tells. -/
theorem refused_of_decodeOctets (h : decodeOctets input = .error failure)
    (hsorted : failure.IsSorted category) :
    ∃ fault, Refused (readDocument .raw) input fault ∧ fault.cause.category = category ∧
      failure = Failure.ofFault .value input fault := by
  obtain ⟨fault, hread, rfl⟩ := exists_fault_of_decodeWith h
  have hrefused := refused_readDocument hread
  refine ⟨fault, hrefused, ?_, rfl⟩
  rw [Failure.IsSorted, Failure.hint_ofFault, Option.some.injEq] at hsorted
  rw [← Category.hint_injective hsorted, Category.ofFault_eq_category]
  rintro found wanted hwrong
  apply hrefused.category_ne_data
  rw [hwrong]
  rfl

/-- A failure of the grammar or of the depth is settled by the octets before its place. -/
theorem settled_of_prompt (h : decodeOctets input = .error failure)
    (hsorted : failure.IsSorted .grammar ∨ failure.IsSorted .depthLimit) :
    ∃ seen unread, input = seen ++ unread ∧ failure.StandsAt input seen.length ∧
      ∀ other, decodeOctets (seen ++ other) = .error failure := by
  obtain ⟨fault, hrefused, hprompt, rfl⟩ :
      ∃ fault, Refused (readDocument .raw) input fault ∧ fault.cause.Prompt ∧
        failure = Failure.ofFault .value input fault := by
    rcases hsorted with hsorted | hsorted
    · obtain ⟨fault, hrefused, hcategory, hfailure⟩ := refused_of_decodeOctets h hsorted
      exact ⟨fault, hrefused, .inl hcategory, hfailure⟩
    · obtain ⟨fault, hrefused, hcategory, hfailure⟩ := refused_of_decodeOctets h hsorted
      exact ⟨fault, hrefused, .inr hcategory, hfailure⟩
  cases hrefused with
  | atEnd hcause =>
      exact hprompt.elim (nomatch hcause.symm.trans ·) (nomatch hcause.symm.trans ·)
  | late hcause =>
      exfalso
      rcases hprompt with hprompt | hprompt <;> rcases hcause with hcause | hcause <;>
        exact nomatch hprompt.symm.trans hcause
  | @prompt cause seen unread _ hinput hseen =>
      subst hinput
      refine ⟨seen, unread, rfl, Failure.standsAt_leaving .value cause seen unread, fun other => ?_⟩
      rw [Failure.ofFault_leaving_append, ← Failure.ofFault_leaving_append .value cause seen other]
      exact decodeWith_of_fault (hseen other)

/-- A failure for the end of the input is shown there. -/
theorem standsAt_end (h : decodeOctets input = .error failure)
    (hsorted : failure.IsSorted .endOfInput) : failure.StandsAt input input.length := by
  obtain ⟨fault, hrefused, hend, rfl⟩ := refused_of_decodeOctets h hsorted
  cases hrefused with
  | @atEnd cause _ =>
      have hstands := Failure.standsAt_leaving .value cause input []
      rwa [List.append_nil] at hstands
  | late hcause =>
      exact hcause.elim (nomatch hend.symm.trans ·) (nomatch hend.symm.trans ·)
  | prompt hcause _ _ =>
      exact hcause.elim (nomatch hend.symm.trans ·) (nomatch hend.symm.trans ·)

end Decoding

/-- A failure of the grammar or of the depth tells one place of the input, and every input
that agrees with it up to there fails alike.  A failure for the end of the input tells that
end.  So what a decoded document begins with is refused neither for its grammar nor for its
depth. -/
theorem decodeOctets_settled (input : Octets) :
    (∀ failure, decodeOctets input = .error failure →
      failure.IsSorted .grammar ∨ failure.IsSorted .depthLimit →
      ∃ i, (∀ j, failure.StandsAt input j ↔ j = i) ∧
        ∀ other, input.take i <+: other → decodeOctets other = .error failure) ∧
    (∀ failure, decodeOctets input = .error failure → failure.IsSorted .endOfInput →
      ∀ j, failure.StandsAt input j ↔ j = input.length) ∧
    ∀ value, decodeOctets input = .ok value → ∀ front, front <+: input →
      ∀ failure, decodeOctets front = .error failure →
        ¬failure.IsSorted .grammar ∧ ¬failure.IsSorted .depthLimit := by
  refine ⟨?_, ?_, ?_⟩
  · intro failure h hsorted
    obtain ⟨seen, unread, rfl, hstands, hseen⟩ := settled_of_prompt h hsorted
    refine ⟨seen.length, hstands.iff_eq, ?_⟩
    rw [List.take_left]
    rintro _ ⟨other, rfl⟩
    exact hseen other
  · intro failure h hsorted
    exact (standsAt_end h hsorted).iff_eq
  · rintro value h _ ⟨behind, rfl⟩ failure hfailure
    rw [← not_or]
    intro hsorted
    obtain ⟨seen, unread, rfl, -, hseen⟩ := settled_of_prompt hfailure hsorted
    rw [List.append_assoc, hseen] at h
    cases h

theorem decodeOctets_settled_list :
    (∃ failure, failure.IsSorted .grammar ∧ failure.StandsAt (encode "[true,]]") 7 ∧
      ∀ other, decodeOctets (encode "[true,]" ++ other) = .error failure) ∧
    (∃ failure, decodeOctets (encode "[tru") = .error failure ∧
      failure.IsSorted .endOfInput ∧ failure.StandsAt (encode "[tru") 4) ∧
    decodeOctets (encode "[true]") = .ok (.array [.bool true]) ∧
    ∀ failure, decodeOctets (encode "[tru") = .error failure → ¬failure.IsSorted .grammar := by
  have hcomma : readDocument .raw (encode "[true,]]") =
      .error (.leaving .trailingComma (encode "]")) := by
    cbv
  have hend : readDocument .raw (encode "[tru") = .error (.leaving .endOfValue []) := by
    cbv
  have hvalue : readDocument .raw (encode "[true]") = .ok (.array [.bool true]) := by
    cbv
  have hsorted (cause : Cause) (hcause : cause.category ≠ .data) (unread input : Octets) :
      (Failure.ofFault .value input (.leaving cause unread)).IsSorted cause.category := by
    rw [Failure.IsSorted, Failure.hint_ofFault, Category.ofFault_eq_category]
    · rfl
    · rintro found wanted rfl
      exact hcause rfl
  have hdecoded : decodeOctets (encode "[true]") = .ok (.array [.bool true]) :=
    decodeWith_eq_ok.2 hvalue
  refine ⟨?_, ?_, hdecoded, ?_⟩
  · obtain ⟨i, hplaces, hsettled⟩ := (decodeOctets_settled (encode "[true,]]")).1 _
      (decodeWith_of_fault hcomma) (.inl (hsorted .trailingComma (by decide) _ _))
    have hstands := Failure.standsAt_leaving .value .trailingComma (encode "[true,]") (encode "]")
    obtain rfl : 7 = i := (hplaces 7).1 hstands
    exact ⟨_, hsorted .trailingComma (by decide) _ _, hstands,
      fun other => hsettled _ (List.prefix_append _ _)⟩
  · have hsettled := (decodeOctets_settled (encode "[tru")).2.1 _ (decodeWith_of_fault hend)
      (hsorted .endOfValue (by decide) _ _)
    exact ⟨_, decodeWith_of_fault hend, hsorted .endOfValue (by decide) _ _, (hsettled 4).2 rfl⟩
  · intro failure hfailure
    exact ((decodeOctets_settled (encode "[true]")).2.2 _ hdecoded (encode "[tru")
      (List.prefix_append _ (encode "e]")) failure hfailure).1

end JsonReport
