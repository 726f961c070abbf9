import JsonReport.Proofs.StandingDocuments
import Mathlib.Tactic

/-!
# What was read was written

Where a reader yields a value, a document of the grammar stood there that fits into the
room that was left and whose literals are in range, in raw octets no less than in a
text.  The value need not be spoken of here: what a written document yields is known from
the other direction.
-/

namespace JsonReport

open Utf8
open Spelling

/-! ## Scalars and keys -/

theorem readScalar_sound {origin : Origin} {kind : Scalar} {b : UInt8} {r : Octets}
    (hopening : opening? b = some (.scalar kind)) (hs : origin.Covers (b :: r))
    {value : Taken (b :: r) Json} (h : readScalar origin kind b r = .ok value) :
    ∃ document w, Value Content document w ∧ document.depth = 0 ∧ document.InRange ∧
      b :: r = octets w ++ value.rest := by
  cases kind with
  | null =>
      obtain rfl : b = ascii 'n' := eq_mark_of_opening? hopening rfl
      obtain ⟨hr, -⟩ := readWord_sound rfl h
      exact ⟨_, _, .null, rfl, trivial, congrArg (ascii 'n' :: ·) hr⟩
  | true =>
      obtain rfl : b = ascii 't' := eq_mark_of_opening? hopening rfl
      obtain ⟨hr, -⟩ := readWord_sound rfl h
      exact ⟨_, _, .true, rfl, trivial, congrArg (ascii 't' :: ·) hr⟩
  | false =>
      obtain rfl : b = ascii 'f' := eq_mark_of_opening? hopening rfl
      obtain ⟨hr, -⟩ := readWord_sound rfl h
      exact ⟨_, _, .false, rfl, trivial, congrArg (ascii 'f' :: ·) hr⟩
  | minus =>
      obtain rfl : b = ascii '-' := eq_mark_of_opening? hopening rfl
      simp only [readScalar] at h
      split at h
      · cases h
      · next n hn =>
          injection h with h
          subst h
          obtain ⟨literal, w, hw, hsign, hrange, hr⟩ := readNumber_sound hn
          exact ⟨_, _, .number (.negative hsign hw), rfl, ⟨_, hrange⟩,
            congrArg (ascii '-' :: ·) hr⟩
  | digit =>
      simp only [readScalar] at h
      split at h
      · cases h
      · next n hn =>
          injection h with h
          subst h
          obtain ⟨literal, w, hw, hsign, hrange, hr⟩ := readNumber_sound hn
          exact ⟨_, _, .number (.positive hsign hw), rfl, ⟨_, hrange⟩, hr⟩
  | quote =>
      obtain rfl : b = ascii '"' := eq_mark_of_opening? hopening rfl
      simp only [readScalar] at h
      split at h
      · cases h
      · next text htext =>
          injection h with h
          subst h
          obtain ⟨w, hw, hr⟩ := readString_sound (hs.of_mark (by decide)) htext
          refine ⟨_, _, .string (.quotes hw), rfl, trivial, ?_⟩
          rw [octets_quoted]
          exact congrArg (ascii '"' :: ·) hr

theorem readKey_sound {origin : Origin} {s : Octets} (hs : origin.Covers s)
    {key : Taken s String} (h : readKey origin s = .ok key) :
    ∃ before k, Blank before ∧ Quoted Content key.value k ∧
      s = octets before ++ (octets k ++ key.rest) := by
  rw [readKey] at h
  split at h
  · cases h
  · next mark hmark =>
      obtain ⟨before, hbefore, hsplit⟩ := blank_of_nextMark_eq_some hmark
      split at h
      · next hquote =>
          rw [hquote] at hsplit
          split at h
          · cases h
          · next text htext =>
              injection h with h
              subst h
              have hrest : origin.Covers mark.rest := (hs.after hsplit).of_mark (by decide)
              obtain ⟨w, hw, hr⟩ := readString_sound hrest htext
              refine ⟨before, _, hbefore, .quotes hw, ?_⟩
              rw [octets_quoted]
              exact hsplit.trans (congrArg (octets before ++ ascii '"' :: ·) hr)
      · cases h

/-! ## Values -/

/-- A document that the reader accepts where so many containers may still be opened. -/
def Fits (room : ℕ) (document : Document String) : Prop :=
  document.depth ≤ room ∧ document.InRange

theorem fits_array {room : ℕ} (items : List (Document String))
    (h : ∀ item ∈ items, Fits room item) : Fits (room + 1) (.array items) := by
  have hall : Document.elementsDepth items ≤ room ∧
      Document.ElementsForall NumberLiteral.InRange (fun _ => True) items := by
    induction items with
    | nil => exact ⟨Nat.zero_le room, trivial⟩
    | cons item items ih =>
        obtain ⟨⟨hdepth, hrange⟩, hitems⟩ := List.forall_mem_cons.mp h
        obtain ⟨hdepths, hranges⟩ := ih hitems
        exact ⟨Nat.max_le.mpr ⟨hdepth, hdepths⟩, hrange, hranges⟩
  exact ⟨Nat.succ_le_succ hall.1, hall.2⟩

theorem fits_object {room : ℕ} (members : List (String × Document String))
    (h : ∀ member ∈ members, Fits room member.2) : Fits (room + 1) (.object members) := by
  have hall : Document.membersDepth members ≤ room ∧
      Document.MembersForall NumberLiteral.InRange (fun _ => True) members := by
    induction members with
    | nil => exact ⟨Nat.zero_le room, trivial⟩
    | cons member members ih =>
        obtain ⟨⟨hdepth, hrange⟩, hmembers⟩ := List.forall_mem_cons.mp h
        obtain ⟨hdepths, hranges⟩ := ih hmembers
        exact ⟨Nat.max_le.mpr ⟨hdepth, hdepths⟩, trivial, hrange, hranges⟩
  exact ⟨Nat.succ_le_succ hall.1, hall.2⟩

mutual

theorem value_sound {origin : Origin} {room : ℕ} {s : Octets} (hs : origin.Covers s)
    {value : Taken s Json} (h : readValue origin room s = .ok value) :
    ValueStands Content (Fits room) s value.rest := by
  rw [readValue] at h
  split at h
  · cases h
  · next b r hr hmark =>
      obtain ⟨before, hbefore, hsplit⟩ := blank_of_nextMark_eq_some hmark
      have hcovers : origin.Covers (b :: r) := hs.after hsplit
      split at h
      · cases h
      · next kind hopening =>
          split at h
          · cases h
          · next scalar hscalar =>
              injection h with h
              subst h
              obtain ⟨document, w, hw, hdepth, hrange, hrest⟩ :=
                readScalar_sound hopening hcovers hscalar
              exact ⟨before, document, w, hbefore, hw, ⟨hdepth ▸ Nat.zero_le _, hrange⟩,
                hsplit.trans (congrArg (octets before ++ ·) hrest)⟩
      · next container hopening =>
          split at h
          · cases h
          · next room =>
              split at h
              · cases h
              · next closed hends =>
                  injection h with h
                  subst h
                  obtain rfl : b = ascii '[' := eq_mark_of_opening? hopening rfl
                  obtain ⟨after, hafter, hclose⟩ := Container.blank_of_endsAtOnce hends
                  have hfits : Fits (room + 1) (.array []) := fits_array [] (by simp)
                  exact valueStands_emptyArray hfits hbefore hsplit hafter hclose
              · next closed hends =>
                  injection h with h
                  subst h
                  obtain rfl : b = ascii '\x7b' := eq_mark_of_opening? hopening rfl
                  obtain ⟨after, hafter, hclose⟩ := Container.blank_of_endsAtOnce hends
                  have hfits : Fits (room + 1) (.object []) := fits_object [] (by simp)
                  exact valueStands_emptyObject hfits hbefore hsplit hafter hclose
              · next hends =>
                  obtain rfl : b = ascii '[' := eq_mark_of_opening? hopening rfl
                  split at h
                  · cases h
                  · next items hitems =>
                      injection h with h
                      subst h
                      have hinside := hcovers.of_mark (by decide)
                      exact (elements_sound hinside hitems).array fits_array hbefore hsplit
              · next hends =>
                  obtain rfl : b = ascii '\x7b' := eq_mark_of_opening? hopening rfl
                  split at h
                  · cases h
                  · next members hmembers =>
                      injection h with h
                      subst h
                      have hinside := hcovers.of_mark (by decide)
                      exact (members_sound hinside hmembers).object fits_object hbefore hsplit
termination_by 2 * s.length

theorem elements_sound {origin : Origin} {room : ℕ} {s : Octets} (hs : origin.Covers s)
    {items : Taken s (List Json)} (h : readElements origin room s = .ok items) :
    ElementsStand Content (Fits room) s items.rest := by
  rw [readElements] at h
  split at h
  · cases h
  · next item r hr hitem =>
      have hvalue : ValueStands Content (Fits room) s r := value_sound hs hitem
      split at h
      · cases h
      · next r' hr' hnext =>
          injection h with h
          subst h
          obtain ⟨after, hafter, hclose⟩ := closes_of_afterItemStrict hnext
          exact hvalue.lastElement hafter hclose
      · next r' hr' hnext =>
          obtain ⟨after, hafter, hcomma⟩ := continues_of_afterItemStrict hnext
          split at h
          · cases h
          · next more hmore =>
              injection h with h
              subst h
              have hcovers : origin.Covers r' := covers_of_comma hcomma (hvalue.covers hs)
              have hmore : ElementsStand Content (Fits room) r' more.rest :=
                elements_sound hcovers hmore
              exact hvalue.moreElements hafter hcomma hmore
termination_by 2 * s.length + 1
decreasing_by all_goals omega

theorem members_sound {origin : Origin} {room : ℕ} {s : Octets} (hs : origin.Covers s)
    {members : Taken s (List (String × Json))} (h : readMembers origin room s = .ok members) :
    MembersStand Content (Fits room) s members.rest := by
  rw [readMembers] at h
  split at h
  · cases h
  · next key r₁ hr₁ hkey =>
      obtain ⟨before, k, hbefore, hk, hsplit⟩ := readKey_sound hs hkey
      split at h
      · cases h
      · next colon r₂ hr₂ hcolon =>
          obtain ⟨afterKey, hafterKey, hsplit'⟩ := blank_of_readColon hcolon
          have hkeyStands : KeyStands Content s r₂ :=
            ⟨before, key, k, afterKey, hbefore, hk, hafterKey, hsplit' ▸ hsplit⟩
          split at h
          · cases h
          · next item r₃ hr₃ hitem =>
              have hcovers : origin.Covers r₂ := hkeyStands.covers hs
              have hvalue : ValueStands Content (Fits room) r₂ r₃ := value_sound hcovers hitem
              split at h
              · cases h
              · next r₄ hr₄ hnext =>
                  injection h with h
                  subst h
                  obtain ⟨after, hafter, hclose⟩ := closes_of_afterItemStrict hnext
                  exact hkeyStands.lastMember hvalue hafter hclose
              · next r₄ hr₄ hnext =>
                  obtain ⟨after, hafter, hcomma⟩ := continues_of_afterItemStrict hnext
                  split at h
                  · cases h
                  · next more hmore =>
                      injection h with h
                      subst h
                      have hcovers' : origin.Covers r₄ :=
                        covers_of_comma hcomma (hvalue.covers hcovers)
                      have hmore : MembersStand Content (Fits room) r₄ more.rest :=
                        members_sound hcovers' hmore
                      exact hkeyStands.moreMembers hvalue hafter hcomma hmore
termination_by 2 * s.length + 1
decreasing_by all_goals omega

end

/-- Whatever the reader accepts is a text that the grammar writes, within its limits. -/
theorem exists_text_of_readDocument {origin : Origin} {s : Octets} (hs : origin.Covers s)
    {value : Json} (h : readDocument origin s = .ok value) :
    ∃ (text : String) (document : Document String), s = Utf8.encode text ∧
      document.WrittenAs text ∧ document.depth ≤ greatestDepth ∧ document.InRange ∧
      document.value = value := by
  have hread := h
  rw [readDocument, readWhole] at hread
  split at hread
  · cases hread
  · next taken htaken =>
      split at hread
      · next hend =>
          obtain ⟨before, document, w, hbefore, hw, ⟨hdepth, hrange⟩, hsplit⟩ :=
            value_sound hs htaken
          obtain ⟨after, hafter, hrest⟩ := blank_of_nextMark_eq_none hend
          have htext : s = Utf8.encode (String.ofList (before ++ w ++ after)) := by
            rw [encode_eq_octets, String.toList_ofList, octets_append, octets_append,
              List.append_assoc, ← hrest]
            exact hsplit
          have hwritten : document.WrittenAs (String.ofList (before ++ w ++ after)) := by
            unfold Document.WrittenAs
            rw [String.toList_ofList]
            exact .padded hbefore hw hafter
          rw [htext] at h
          exact ⟨_, document, htext, hwritten, hdepth, hrange,
            value_of_readDocument hwritten h⟩
      · cases hread

theorem exists_written_of_readDocument {text : String} {value : Json}
    (h : readDocument .text (Utf8.encode text) = .ok value) :
    ∃ document : Document String, document.WrittenAs text ∧
      document.depth ≤ greatestDepth ∧ document.InRange ∧ document.value = value := by
  obtain ⟨text', document, hencode, hwritten, hdocument⟩ :=
    exists_text_of_readDocument (fun _ => ⟨text.toList, encode_eq_octets text⟩) h
  obtain rfl : text = text' := encode_injective hencode
  exact ⟨document, hwritten, hdocument⟩

end JsonReport
