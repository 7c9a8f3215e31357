import Handoff.Proofs.Legible
import Handoff.Reason.Outline

/-!
The structural text of a reason tells the whole reason, however deep it is nested.
-/

namespace Handoff

open Text

theorem FailureKind.bare_name (kind : FailureKind) : Bare kind.name := by
  cases kind <;> decide

theorem bare_toString (n : Nat) : Bare (toString n) := by
  intro c hc
  rw [Nat.toString_eq_ofList_toDigits, String.toList_ofList] at hc
  exact isAlphanum_of_mem_toDigits (by decide) (by decide) hc

mutual

theorem Reason.plain_outline : ∀ reason : Reason, reason.outline.Plain
  | .closed => (by decide : Bare "Closed")
  | .endOfStream => (by decide : Bare "EndOfStream")
  | .custom cause => ⟨by decide, cause.plain_outline⟩

theorem Cause.plain_outline : ∀ cause : Cause, cause.outline.Plain
  | .text _ => trivial
  | .failure failure => failure.plain_outline
  | .reason reason => reason.plain_outline
  | .shortWrite short => short.plain_outline

theorem Failure.plain_outline : ∀ failure : Failure, failure.outline.Plain
  | .bare kind => ⟨by decide, kind.bare_name⟩
  | .carrying kind cause =>
    ⟨by decide, by simpa using ⟨by decide, kind.bare_name⟩, by decide, cause.plain_outline⟩

theorem ShortWrite.plain_outline : ∀ short : ShortWrite, short.outline.Plain
  | ⟨written, reason⟩ =>
    ⟨by decide, by simpa using ⟨by decide, bare_toString written⟩, by decide, reason.plain_outline⟩

end

/-- The cause that an outline shows. Reasons and failures both have a `Custom`, which is a tuple in the one
and a record in the other. -/
def Cause.ofOutline? : Outline → Option Cause
  | .quote message => some (.text message)
  | .word "Closed" => some (.reason .closed)
  | .word "EndOfStream" => some (.reason .endOfStream)
  | .tuple "Custom" item => (ofOutline? item).map fun cause => .reason (.custom cause)
  | .tuple "Kind" (.word name) => (FailureKind.ofName? name).map fun kind => .failure (.bare kind)
  | .record "Custom" [("kind", name)] "error" item => do
    return .failure (.carrying (← FailureKind.ofName? name) (← ofOutline? item))
  | .record "WriteError" [("written", digits)] "error" item =>
    match ofOutline? item with
    | some (.reason why) => some (.shortWrite ⟨Nat.ofDigitChars 10 digits.toList 0, why⟩)
    | _ => none
  | _ => none

mutual

theorem Reason.ofOutline?_outline :
    ∀ reason : Reason, Cause.ofOutline? reason.outline = some (.reason reason)
  | .closed | .endOfStream => rfl
  | .custom cause => by
    rw [Reason.outline, Cause.ofOutline?, cause.ofOutline?_outline]
    rfl

theorem Cause.ofOutline?_outline : ∀ cause : Cause, Cause.ofOutline? cause.outline = some cause
  | .text _ => rfl
  | .failure failure => failure.ofOutline?_outline
  | .reason reason => reason.ofOutline?_outline
  | .shortWrite short => short.ofOutline?_outline

theorem Failure.ofOutline?_outline :
    ∀ failure : Failure, Cause.ofOutline? failure.outline = some (.failure failure)
  | .bare kind => by
    rw [Failure.outline, Cause.ofOutline?, kind.ofName?_name]
    rfl
  | .carrying kind cause => by
    rw [Failure.outline, Cause.ofOutline?, kind.ofName?_name, cause.ofOutline?_outline]
    rfl

theorem ShortWrite.ofOutline?_outline :
    ∀ short : ShortWrite, Cause.ofOutline? short.outline = some (.shortWrite short)
  | ⟨written, reason⟩ => by
    rw [ShortWrite.outline, Cause.ofOutline?, reason.ofOutline?_outline,
      Nat.toString_eq_ofList_toDigits, String.toList_ofList, Nat.ofDigitChars_ten_toDigits]

end

theorem Cause.line_inj (a b : Cause) : a.outline.line = b.outline.line ↔ a = b := by
  rw [Outline.line_inj a.plain_outline b.plain_outline]
  constructor
  · intro h
    have hread := congrArg ofOutline? h
    rw [a.ofOutline?_outline, b.ofOutline?_outline] at hread
    exact Option.some.inj hread
  · rintro rfl
    rfl

/-- No two reasons have one structural text, at any depth and whatever their messages say, and no two
failures or short writes do. -/
theorem outlines_tell_apart :
    (∀ a b : Reason, a.outline.line = b.outline.line ↔ a = b) ∧
      (∀ a b : Failure, a.outline.line = b.outline.line ↔ a = b) ∧
        ∀ a b : ShortWrite, a.outline.line = b.outline.line ↔ a = b := by
  refine ⟨fun a b => ?_, fun a b => ?_, fun a b => ?_⟩
  · exact (Cause.line_inj (.reason a) (.reason b)).trans (Cause.reason.injEq a b).to_iff
  · exact (Cause.line_inj (.failure a) (.failure b)).trans (Cause.failure.injEq a b).to_iff
  · exact (Cause.line_inj (.shortWrite a) (.shortWrite b)).trans (Cause.shortWrite.injEq a b).to_iff

example : (Reason.custom (.text "Closed")).outline.line ≠ (Reason.custom (.reason .closed)).outline.line := by
  decide

end Handoff
