import Mathlib.Data.List.TakeDrop
import Handoff.Proofs.Verdict

/-!
The place of a write among all writes of a run. What happens later adds to the reads of the latest write
or puts up new ones above it; nothing below changes any more.
-/

namespace Handoff

/-- The write `d` has become `w` with the effects, and the `newer` writes have come after it. Readers got
`more` of it, and only then what they got of the newer ones. -/
structure Delivery.Becomes (d : Delivery) (es : List Effect) (newer : List Delivery) (w : Delivery)
    (more : List Bytes) : Prop where
  origin : w.origin = d.origin
  bytes : w.bytes = d.bytes
  pieces : w.pieces = d.pieces ++ more
  cancelled : d.cancelled = true → w.cancelled = true
  placed : newer.reverse.map Delivery.offer = placed es
  handed : handed es = more ++ newer.reverse.flatMap Delivery.pieces

theorem exists_becomes (d : Delivery) (older : List Delivery) (es : List Effect) :
    ∃ newer w more, es.foldl record (d :: older) = newer ++ w :: older ∧ d.Becomes es newer w more := by
  induction es generalizing d older with
  | nil => exact ⟨[], d, [], rfl, rfl, rfl, (List.append_nil _).symm, id, rfl, rfl⟩
  | cons e es ih =>
    -- All but a new write and a read leave the order and the pieces as they are.
    have same {f : Delivery} (hr : record (d :: older) e = f :: older) (ho : f.origin = d.origin)
        (hb : f.bytes = d.bytes) (hp : f.pieces = d.pieces) (hc : d.cancelled = true → f.cancelled = true)
        (hn : placed (e :: es) = placed es) (hh : handed (e :: es) = handed es) :
        ∃ newer w more, (e :: es).foldl record (d :: older) = newer ++ w :: older ∧
          d.Becomes (e :: es) newer w more := by
      obtain ⟨newer, w, more, hf, hw⟩ := ih f older
      refine ⟨newer, w, more, by rw [List.foldl_cons, hr, hf], hw.origin.trans ho, hw.bytes.trans hb, ?_,
        fun h => hw.cancelled (hc h), by rw [hn, hw.placed], by rw [hh, hw.handed]⟩
      rw [hw.pieces, hp]
    cases e with
    | placed origin bytes =>
      obtain ⟨newer, w, more, hf, hw⟩ := ih { origin, bytes } (d :: older)
      have hp : w.pieces = more := hw.pieces
      refine ⟨newer ++ [w], d, [], ?_, rfl, rfl, (List.append_nil _).symm, id, ?_, ?_⟩
      · rw [List.append_assoc]
        exact hf
      · have ho : w.offer = (origin, bytes) := Prod.ext hw.origin hw.bytes
        rw [List.reverse_append, List.map_append, hw.placed, List.reverse_singleton, List.map_singleton, ho]
        rfl
      · rw [List.reverse_append, List.flatMap_append, List.reverse_singleton, List.flatMap_singleton, hp,
          List.nil_append]
        exact hw.handed
    | handed room bytes =>
      obtain ⟨newer, w, more, hf, hw⟩ := ih { d with pieces := d.pieces ++ [bytes] } older
      refine ⟨newer, w, bytes :: more, hf, hw.origin, hw.bytes, ?_, hw.cancelled, hw.placed, ?_⟩
      · rw [hw.pieces, List.append_assoc]
        rfl
      · exact congrArg (bytes :: ·) hw.handed
    | vacated passed => exact @same { d with vacated := some passed } rfl rfl rfl rfl id rfl rfl
    | announced | woke => exact same rfl rfl rfl rfl id rfl rfl
    | logged entry =>
      cases entry with
      | withdrawn => exact @same { d with cancelled := true } rfl rfl rfl rfl (fun _ => rfl) rfl rfl
      | consumed | closed => exact same rfl rfl rfl rfl id rfl rfl

namespace Accounts

variable {newer older : List Delivery} {w : Delivery} {p : Pipe}

theorem unread_of_cancelled (h : Accounts (newer ++ w :: older) p) (hc : w.cancelled = true) :
    w.pieces = [] := by
  have left : w.Complete ∨ w.Recalled → w.pieces = [] := by
    rintro (⟨hn, -⟩ | ⟨-, -, hr⟩)
    · cases hn.symm.trans hc
    · exact hr
  cases newer with
  | cons e newer => exact left (h.older w (by simp))
  | nil =>
    cases hb : p.parcel with
    | some b =>
      obtain ⟨f, hf, hold⟩ := h.held b hb
      obtain rfl : w = f := Option.some.inj hf
      cases hold.standing.symm.trans hc
    | none =>
      rcases h.latest hb w rfl with hl | hl | ⟨-, hn, -⟩
      · exact left (.inl hl)
      · exact left (.inr hl)
      · cases hn.symm.trans hc

/-- A write that readers have begun to read is read to its end before any other, unless a close cuts it
short. -/
theorem complete_or_latest (h : Accounts (newer ++ w :: older) p) (hm : w.pieces ≠ []) :
    w.Complete ∨ newer = [] ∧ (p.closed = true ∨ ∃ b, p.parcel = some b ∧ w.Holds b) := by
  cases newer with
  | cons e newer =>
    rcases h.older w (by simp) with hc | ⟨-, -, hr⟩
    · exact .inl hc
    · exact absurd hr hm
  | nil =>
    cases hb : p.parcel with
    | some b =>
      obtain ⟨f, hf, hold⟩ := h.held b hb
      obtain rfl : w = f := Option.some.inj hf
      exact .inr ⟨rfl, .inr ⟨b, rfl, hold⟩⟩
    | none =>
      rcases h.latest hb w rfl with hc | ⟨-, -, hr⟩ | ⟨hcl, -⟩
      · exact .inl hc
      · exact absurd hr hm
      · exact .inr ⟨rfl, .inl hcl⟩

end Accounts

theorem Latest.place {write : Outstanding} {ds : List Delivery} (h : Latest write ds) :
    ∃ newer d older, ds = newer ++ d :: older ∧ d.Awaited write ∧
      ∀ e ∈ newer, ∃ owner, e.origin = .lent owner := by
  induction h with
  | here h => exact ⟨[], _, _, rfl, h, by simp⟩
  | past owner h _ ih =>
    obtain ⟨newer, d, older, rfl, hd, hn⟩ := ih
    exact ⟨_ :: newer, d, older, rfl, hd, List.forall_mem_cons.mpr ⟨⟨owner, h⟩, hn⟩⟩

theorem Run.place {settings : Settings} {deeds : List Deed} {l : Link}
    (run : Run (.opened settings) deeds l) {write : Outstanding}
    (hw : l.channel.outstanding = some write) :
    ∃ newer d older, ledger (effects deeds) = newer ++ d :: older ∧ d.Awaited write ∧
      (∀ e ∈ newer, ∃ owner, e.origin = .lent owner) ∧
      (l.channel.pipe.carries write.stamp = false ∧ d.Complete ∨
        l.channel.pipe.carries write.stamp = true ∧ newer = [] ∧
          ∃ b, l.channel.pipe.parcel = some b ∧ d.Holds b) := by
  obtain ⟨newer, d, older, hled, hd, hn⟩ := (run.recorded write hw).place
  have hacc := run.accounts
  rw [hled] at hacc
  exact ⟨newer, d, older, hled, hd, hn, hacc.awaited hd hn⟩

/-- No read has met the write after readers had it whole. -/
def Delivery.Timely (d : Delivery) : Prop :=
  ∀ front piece back, d.pieces = front ++ piece :: back → front ≠ [] → front.flatten ≠ d.bytes

theorem timely_record {ds : List Delivery} (h : ∀ d ∈ ds, d.Timely) {e : Effect} (he : e.handed? = none) :
    ∀ d ∈ record ds e, d.Timely := by
  unfold record
  split
  · refine List.forall_mem_cons.mpr ⟨?_, h⟩
    intro front piece back hp
    simp at hp
  · cases he
  · cases ds with
    | nil => exact h
    | cons d ds =>
      obtain ⟨hd, hds⟩ := List.forall_mem_cons.mp h
      exact List.forall_mem_cons.mpr ⟨hd, hds⟩
  · cases ds with
    | nil => exact h
    | cons d ds =>
      obtain ⟨hd, hds⟩ := List.forall_mem_cons.mp h
      exact List.forall_mem_cons.mpr ⟨hd, hds⟩
  · exact h

theorem timely_foldl_record {ds : List Delivery} (h : ∀ d ∈ ds, d.Timely) {es : List Effect}
    (he : handed es = []) : ∀ d ∈ es.foldl record ds, d.Timely := by
  induction es generalizing ds with
  | nil => exact h
  | cons e es ih =>
    obtain ⟨hn, hr⟩ := List.forall_mem_cons.mp (List.filterMap_eq_nil_iff.mp he)
    exact ih (timely_record h hn) (List.filterMap_eq_nil_iff.mpr hr)

theorem Delivery.Holds.received_ne {d : Delivery} {b : Parcel} (h : d.Holds b)
    (hf : b.finished = false) (hm : d.pieces ≠ []) : d.received ≠ d.bytes := by
  intro he
  rw [h.received, h.bytes, List.take_eq_self_iff] at he
  have hmet : b.met = true := by
    cases hb : b.met with
    | true => rfl
    | false => exact absurd (h.unmet.mpr hb) hm
  have hrest : b.rest = [] := List.drop_of_length_le he
  simp [Parcel.finished, hmet, hrest] at hf

theorem Section.timely {owner : Nat} {lent left : Option Bytes} {c d : Channel} {es : List Effect}
    {ds : List Delivery} (h : Section owner lent c es d left) (ha : Accounts ds c.pipe)
    (ht : ∀ d ∈ ds, d.Timely) : ∀ d ∈ es.foldl record ds, d.Timely := by
  cases h with
  | @pull _ b room _ hb =>
    obtain ⟨hp, hf⟩ := Pipe.available_eq_some hb
    obtain ⟨w, older, rfl, hold, -⟩ := ha.cons_of_parcel hp
    obtain ⟨hw, holder⟩ := List.forall_mem_cons.mp ht
    rw [List.foldl_cons, foldl_record_announce]
    refine List.forall_mem_cons.mpr ⟨?_, holder⟩
    intro front piece back he hfront
    change w.pieces ++ [b.front room] = front ++ piece :: back at he
    rcases back.eq_nil_or_concat with rfl | ⟨rest, last, rfl⟩
    · obtain ⟨rfl, -⟩ := List.append_inj' he rfl
      exact hold.received_ne hf hfront
    · rw [List.concat_eq_append, ← List.cons_append, ← List.append_assoc] at he
      exact hw front piece rest (List.append_inj' he rfl).1 hfront
  | enter bytes => exact timely_foldl_record ht (Pipe.handed_place ..)
  | leave bytes _ he =>
    refine timely_foldl_record ht ?_
    rw [handed_append, Pipe.handed_vacate, handed_of_consumed he, List.append_nil]
  | other h => exact timely_foldl_record ht h.handed_eq

theorem Run.timely {settings : Settings} {deeds : List Deed} {l : Link}
    (run : Run (.opened settings) deeds l) : ∀ d ∈ ledger (effects deeds), d.Timely := by
  induction run with
  | start => simp [effects, ledger]
  | next run h ih =>
    obtain ⟨_, _, _, hsec⟩ := Link.section_of_move h
    rw [effects_concat, ledger_append]
    exact hsec.timely run.accounts ih

end Handoff
