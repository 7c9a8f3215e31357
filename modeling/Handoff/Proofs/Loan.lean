import Handoff.Proofs.Sound

/-!
Bytes that a blocking write has lent to a pipe, and what a step can do to them.
-/

namespace Handoff

def Effect.handed? : Effect → Option Bytes
  | handed _ bytes => some bytes
  | _ => none

/-- What reads got, one piece for each read that met a parcel. -/
def handed (effects : List Effect) : List Bytes :=
  effects.filterMap Effect.handed?

@[simp] theorem handed_append (es fs : List Effect) : handed (es ++ fs) = handed es ++ handed fs :=
  List.filterMap_append

theorem handed_of_consumed {log : List Effect} (h : ∀ e ∈ log, ∃ count, e = .logged (.consumed count)) :
    handed log = [] := by
  rw [handed, List.filterMap_eq_nil_iff]
  intro e he
  obtain ⟨count, rfl⟩ := h e he
  rfl

namespace Pipe

def loan (p : Pipe) : Option (Nat × Bytes) :=
  p.parcel.bind fun b =>
    match b.origin with
    | .lent owner => some (owner, b.bytes)
    | .copied _ => none

theorem loan_eq_some {p : Pipe} {owner : Nat} {bytes : Bytes} :
    p.loan = some (owner, bytes) ↔
      ∃ b, p.parcel = some b ∧ b.origin = .lent owner ∧ b.bytes = bytes := by
  unfold loan
  constructor
  · intro h
    obtain ⟨b, hp, hb⟩ := Option.bind_eq_some_iff.mp h
    split at hb
    · rename_i ho
      obtain ⟨rfl, rfl⟩ := Prod.mk.inj (Option.some.inj hb)
      exact ⟨b, hp, ho, rfl⟩
    · simp at hb
  · rintro ⟨b, hp, ho, rfl⟩
    simp [hp, ho]

theorem loan_of_parcel {p q : Pipe} (h : q.parcel = p.parcel) : q.loan = p.loan := by
  rw [loan, loan, h]

theorem filterMap_announce {α : Type} {f : Effect → Option α} (ha : f .announced = none)
    (hw : ∀ waker, f (.woke waker) = none) (p : Pipe) : p.announce.effects.filterMap f = [] := by
  rw [List.filterMap_eq_nil_iff]
  intro e he
  rcases mem_effects_announce.mp he with rfl | ⟨_, w, _, rfl⟩
  · exact ha
  · exact hw w

@[simp] theorem handed_announce (p : Pipe) : handed p.announce.effects = [] :=
  filterMap_announce rfl (fun _ => rfl) p

@[simp] theorem handed_place (p : Pipe) (origin : Origin) (bytes : Bytes) :
    handed (p.place origin bytes).effects = [] :=
  handed_announce _

@[simp] theorem handed_vacate (p : Pipe) : handed p.vacate.effects = [] :=
  handed_announce _

theorem not_lapsed_of_lent {b : Parcel} {owner : Nat} (h : b.origin = .lent owner) :
    b.lapsed = false := by
  simp [Parcel.lapsed, h, Origin.stamp?]

theorem advance_of_lent (p : Pipe) {b : Parcel} {owner : Nat} (h : b.origin = .lent owner)
    (room : Nat) : p.advance b room = { p with parcel := some (b.advance room) } := by
  have hk : (b.advance room).lapsed = false := not_lapsed_of_lent h
  rw [advance, hk]
  rfl

theorem advance_of_copied (p : Pipe) {b : Parcel} {stamp : UInt64} (h : b.origin = .copied stamp)
    (room : Nat) : p.advance b room = if (b.advance room).finished
      then { p with occupied := false, parcel := none } else { p with parcel := some (b.advance room) } := by
  have ho : (b.advance room).origin = .copied stamp := h
  rw [advance, Parcel.lapsed, ho, Origin.stamp?, Option.isSome_some, Bool.and_true]

theorem loan_advance {p : Pipe} {b : Parcel} (hb : p.parcel = some b) (room : Nat) :
    (p.advance b room).loan = p.loan := by
  cases ho : b.origin with
  | lent owner =>
    rw [advance_of_lent p ho]
    simp [loan, hb, Parcel.advance]
  | copied stamp =>
    have hn : p.loan = none := by simp [loan, hb, ho]
    unfold advance
    split
    · exact hn.symm
    · simp [loan, hb, ho, Parcel.advance]

theorem loan_eq_none_of_stamp {p : Pipe} {stamp : UInt64} (h : p.carries stamp = true) :
    p.loan = none := by
  unfold carries at h
  unfold loan
  cases hp : p.parcel with
  | none => rfl
  | some b =>
    cases ho : b.origin with
    | lent owner => simp [hp, ho, Origin.stamp?] at h
    | copied stamp => simp [ho]

theorem carries_of_unmet {p : Pipe} {stamp : UInt64} (h : p.unmet stamp = true) :
    p.carries stamp = true := by
  simp only [unmet, carries, Option.any_eq_true, Bool.and_eq_true] at h ⊢
  obtain ⟨b, hb, hs, -⟩ := h
  exact ⟨b, hb, hs⟩

theorem loan_eq_none_of_unoccupied {p : Pipe} (h : p.Sound) (ho : p.occupied = false) :
    p.loan = none := by
  have hp : p.parcel = none := by simpa [ho] using h.occupied_eq
  rw [loan, hp]
  rfl

end Pipe

theorem Channel.Change.parcel_of_loan {c d : Channel} {es : List Effect} (h : c.Change es d)
    (hc : c.pipe.Sound) {owner : Nat} {bytes : Bytes} (hl : c.pipe.loan = some (owner, bytes)) :
    d.pipe.parcel = c.pipe.parcel := by
  cases h with
  | mode | conclude | forsake => rfl
  | close half reason => exact c.pipe.parcel_close half reason
  | await | watch => exact Pipe.parcel_park ..
  | fail _ hs => simp [Pipe.loan_eq_none_of_stamp hs] at hl
  | withdraw _ hs => simp [Pipe.loan_eq_none_of_stamp (Pipe.carries_of_unmet hs)] at hl
  | stage _ _ _ hf => simp [Pipe.loan_eq_none_of_unoccupied hc hf] at hl

theorem Channel.Change.handed_eq {c d : Channel} {es : List Effect} (h : c.Change es d) :
    handed es = [] := by
  cases h with
  | mode | await | watch | conclude | forsake => rfl
  | close half reason =>
    rw [Pipe.effects_close, handed_append, Pipe.handed_announce]
    split <;> rfl
  | fail | withdraw | stage => exact Pipe.handed_announce _

theorem Channel.Change.loan {c d : Channel} {es : List Effect} (h : c.Change es d)
    (hc : c.pipe.Sound) : d.pipe.loan = c.pipe.loan := by
  cases hl : c.pipe.loan with
  | some l => rw [Pipe.loan_of_parcel (h.parcel_of_loan hc hl), hl]
  | none =>
    cases h with
    | mode | conclude | forsake => exact hl
    | close half reason => rw [Pipe.loan_of_parcel (c.pipe.parcel_close half reason), hl]
    | await | watch => rw [Pipe.loan_of_parcel (Pipe.parcel_park ..), hl]
    | fail | withdraw | stage => rfl

theorem Channel.Changes.loan {c d : Channel} {es : List Effect} (h : c.Changes es d)
    (hc : c.pipe.Sound) : d.pipe.loan = c.pipe.loan := by
  induction h with
  | nil => rfl
  | cons h _ ih => rw [ih (h.sound hc), h.loan hc]

theorem Channel.Changes.parcel_of_loan {c d : Channel} {es : List Effect} (h : c.Changes es d)
    (hc : c.pipe.Sound) {owner : Nat} {bytes : Bytes} (hl : c.pipe.loan = some (owner, bytes)) :
    d.pipe.parcel = c.pipe.parcel := by
  induction h with
  | nil => rfl
  | cons h _ ih => rw [ih (h.sound hc) (by rw [h.loan hc, hl]), h.parcel_of_loan hc hl]

theorem Channel.Changes.handed_eq {c d : Channel} {es : List Effect} (h : c.Changes es d) :
    handed es = [] := by
  induction h with
  | nil => rfl
  | cons h _ ih => rw [handed_append, h.handed_eq, ih, List.append_nil]

namespace Section

variable {owner : Nat} {lent left : Option Bytes} {c d : Channel} {es : List Effect}

theorem loan (h : Section owner lent c es d left) (hc : c.pipe.Sound) :
    (lent = none ∧ left = none ∧ d.pipe.loan = c.pipe.loan) ∨
      (∃ bytes, lent = none ∧ left = some bytes ∧ c.pipe.loan = none ∧
        d.pipe.loan = some (owner, bytes)) ∨
      ∃ bytes, lent = some bytes ∧ left = none ∧ d.pipe.loan = none := by
  cases h with
  | pull room _ hb =>
    refine .inl ⟨rfl, rfl, ?_⟩
    exact Pipe.loan_advance (Pipe.available_eq_some hb).1 room
  | enter bytes _ ho =>
    right
    left
    exact ⟨bytes, rfl, rfl, Pipe.loan_eq_none_of_unoccupied hc ho, rfl⟩
  | leave bytes => exact .inr (.inr ⟨bytes, rfl, rfl, rfl⟩)
  | other h => exact .inl ⟨rfl, rfl, h.loan hc⟩

theorem parcel_of_lent (h : Section owner none c es d left) (hc : c.pipe.Sound) {b : Parcel} {o : Nat}
    (hb : c.pipe.parcel = some b) (ho : b.origin = .lent o) :
    (d.pipe.parcel = some b ∧ handed es = []) ∨
      ∃ room, c.pipe.closed = false ∧ b.finished = false ∧
        d.pipe.parcel = some (b.advance room) ∧ handed es = [b.front room] := by
  cases h with
  | @pull _ a room hcl ha =>
    obtain ⟨hp, hf⟩ := Pipe.available_eq_some ha
    obtain rfl : a = b := Option.some.inj (hp.symm.trans hb)
    refine .inr ⟨room, hcl, hf, ?_, ?_⟩
    · rw [Pipe.parcel_announce, Pipe.advance_of_lent _ ho]
    · exact congrArg (_ :: ·) (Pipe.handed_announce _)
  | enter _ _ hf =>
    have := hc.occupied_eq
    simp [hf, hb] at this
  | other h =>
    have hl : c.pipe.loan = some (o, b.bytes) := Pipe.loan_eq_some.mpr ⟨b, hb, ho, rfl⟩
    exact .inl ⟨(h.parcel_of_loan hc hl).trans hb, h.handed_eq⟩

theorem handed_cases (h : Section owner lent c es d left) :
    handed es = [] ∨
      ∃ b room, c.pipe.parcel = some b ∧ b.finished = false ∧ handed es = [b.front room] := by
  cases h with
  | @pull _ b room _ hb =>
    obtain ⟨hp, hf⟩ := Pipe.available_eq_some hb
    exact .inr ⟨b, room, hp, hf, congrArg (_ :: ·) (Pipe.handed_announce _)⟩
  | enter bytes => exact .inl (Pipe.handed_place _ _ bytes)
  | @leave _ _ log _ hl =>
    left
    rw [handed_append, Pipe.handed_vacate, handed_of_consumed hl, List.append_nil]
  | other h => exact .inl h.handed_eq

theorem vacated (h : Section owner lent c es d left) (hl : lent ≠ none) {b : Parcel}
    (hb : c.pipe.parcel = some b) :
    left = none ∧ d.pipe.parcel = none ∧ .vacated b.passed ∈ es := by
  cases h with
  | leave => exact ⟨rfl, rfl, by simp [Pipe.vacate, hb]⟩
  | _ => exact absurd rfl hl

end Section

end Handoff
