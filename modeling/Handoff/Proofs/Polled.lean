import Handoff.Proofs.Blame
import Handoff.Proofs.Portions

/-!
A polled write with the pipe to itself. Its copy is in the pipe until readers have all of it; by then the
writer need not have noticed.
-/

namespace Handoff

/-- The polled write on record, and what is left of it. -/
inductive Polled (c : Channel) : Option Slice → Bytes → Prop
  | idle (ho : c.outstanding = none) (hp : c.pipe.parcel = none) (hv : c.pipe.occupied = false) :
      Polled c none []
  | staged {stamp : UInt64} {slice : Slice} {b : Parcel} (ho : c.outstanding = some ⟨stamp, slice⟩)
      (hp : c.pipe.parcel = some b) (hb : b.origin = .copied stamp) (hf : b.finished = false) :
      Polled c (some slice) b.rest
  | taken {stamp : UInt64} {slice : Slice} (ho : c.outstanding = some ⟨stamp, slice⟩)
      (hp : c.pipe.parcel = none) (hv : c.pipe.occupied = false) : Polled c (some slice) []

namespace Polled

variable {c d : Channel} {current : Option Slice} {left : Bytes}

theorem congr (h : Polled c current left) (ho : d.outstanding = c.outstanding)
    (hp : d.pipe.parcel = c.pipe.parcel) (hv : d.pipe.occupied = c.pipe.occupied) :
    Polled d current left := by
  cases h with
  | idle ho' hp' hv' => exact .idle (ho.trans ho') (hp.trans hp') (hv.trans hv')
  | staged ho' hp' hb hf => exact .staged (ho.trans ho') (hp.trans hp') hb hf
  | taken ho' hp' hv' => exact .taken (ho.trans ho') (hp.trans hp') (hv.trans hv')

theorem park (h : Polled c current left) (half : Half) (waker : Waker) :
    Polled { c with pipe := c.pipe.park half waker } current left :=
  h.congr rfl (Pipe.parcel_park ..) (Pipe.occupied_park ..)

theorem pull (h : Polled c current left) (hu : Untouched c.pipe) (room : Nat) :
    ∃ rest, Polled { c with pipe := (c.pipe.pull room).state } current rest ∧
      (handed (c.pipe.pull room).effects).flatten ++ rest = left ∧
      placed (c.pipe.pull room).effects = [] := by
  cases hr : c.pipe.readable with
  | false =>
    rw [c.pipe.pull_of_unreadable hr]
    exact ⟨left, h, rfl, rfl⟩
  | true =>
    cases h with
    | idle ho hp hv | taken ho hp hv => simp [Pipe.readable, Pipe.available, hu.closed, hp] at hr
    | @staged stamp slice b ho hp hb hf =>
      have ha : c.pipe.available = some b := by simp [Pipe.available, hp, hf]
      have hpull := Pipe.pull_of_available hu.closed ha room
      have hh : (handed (c.pipe.pull room).effects).flatten = b.front room := by
        rw [hpull]
        change (b.front room :: handed (c.pipe.advance b room).announce.effects).flatten = b.front room
        rw [Pipe.handed_announce, List.flatten_singleton]
      have hput : placed (c.pipe.pull room).effects = [] := by
        rw [hpull]
        exact Pipe.placed_announce _
      have hfront := b.front_append_rest_advance room
      rw [hh, hput]
      cases hfin : (b.advance room).finished with
      -- The last read of a copy lets it go, before its writer has looked.
      | true =>
        have hrest : (b.advance room).rest = [] := by
          simp only [Parcel.finished, Bool.and_eq_true, List.isEmpty_iff] at hfin
          exact hfin.2
        refine ⟨[], .taken ho ?_ ?_, by rw [← hfront, hrest], rfl⟩
        · rw [hpull, Pipe.advance_of_copied _ hb, if_pos hfin]
          rfl
        · rw [hpull, Pipe.advance_of_copied _ hb, if_pos hfin]
          rfl
      | false =>
        refine ⟨(b.advance room).rest, .staged ho ?_ hb hfin, hfront, rfl⟩
        rw [hpull, Pipe.advance_of_copied _ hb, if_neg (by simp [hfin])]
        rfl

theorem pollPull (h : Polled c current left) (hu : Untouched c.pipe) (room : Nat) (waker : Waker) :
    ∃ rest, Polled { c with pipe := (c.pipe.pollPull room waker).state } current rest ∧
      (handed (c.pipe.pollPull room waker).effects).flatten ++ rest = left ∧
      placed (c.pipe.pollPull room waker).effects = [] := by
  obtain ⟨rest, hp, hh, hpl⟩ := h.pull hu room
  rw [c.pipe.effects_pollPull]
  refine ⟨rest, ?_, hh, hpl⟩
  unfold Pipe.pollPull
  dsimp only
  split
  · exact hp
  · exact hp.park .read waker
  · exact hp

/-- However readers go on, they get what is left of the write, front to back. -/
theorem read (h : Polled c current left) (hu : Untouched c.pipe) {owner : Nat} {call : Call .read}
    (hcl : call.closing = none) {s : Step Channel (Progress (Call .read))}
    (hs : call.advance owner c = some s) :
    ∃ rest, Polled s.state current rest ∧ (handed s.effects).flatten ++ rest = left ∧
      placed s.effects = [] := by
  cases call with
  | receive room =>
    obtain ⟨result, -, rfl⟩ := Call.receive_cases hs
    exact h.pull hu room
  | read room | drain room chunks =>
    obtain ⟨l, hl, rfl⟩ := Option.map_eq_some_iff.mp hs
    rcases Channel.look_cases hl with ⟨result, -, rfl⟩ | ⟨-, -, rfl⟩
    · exact h.pull hu room
    · exact h.pull hu room
  | prompt p =>
    obtain rfl := Option.some.inj hs
    cases p with
    | tryReceive room => exact h.pull hu room
    | pollRead room waker => exact h.pollPull hu room waker
    | setNonblocking on => exact ⟨left, h.congr rfl rfl rfl, rfl, rfl⟩
    | isClosed | describe => exact ⟨left, h, rfl, rfl⟩
    | close reason => cases hcl

theorem start (h : Polled c none left) (hu : Untouched c.pipe) (slice : Slice) (waker : Waker) :
    left = [] ∧ (c.pollWrite slice waker).value = .pending ∧
      Polled (c.pollWrite slice waker).state (some slice) slice.bytes ∧
      handed (c.pollWrite slice waker).effects = [] ∧
      (placed (c.pollWrite slice waker).effects).map Prod.snd = [slice.bytes] := by
  cases h with
  | idle ho hp hv =>
    have hstaged : Polled ⟨(c.pipe.placeCopy slice.bytes).state, c.nonblocking,
        some ⟨c.pipe.nextStamp, slice⟩⟩ (some slice) slice.bytes :=
      @staged _ _ _ (.fresh (.copied c.pipe.nextStamp) slice.bytes) rfl rfl rfl rfl
    rw [Channel.pollWrite_of_none ho, Channel.start_of_free hu.closed hv]
    refine ⟨rfl, rfl, hstaged.park .write waker, Pipe.handed_place _ _ _, ?_⟩
    exact congrArg (List.map Prod.snd) (Pipe.placed_place _ _ slice.bytes)

theorem watch {slice : Slice} (h : Polled c (some slice) left) (hu : Untouched c.pipe)
    {write : Outstanding} (ho : c.outstanding = some write) (waker : Waker) :
    write.slice = slice ∧ handed (c.watch write waker).effects = [] ∧
      placed (c.watch write waker).effects = [] ∧
      ((c.watch write waker).value = .pending ∧ c.pipe.readable = true ∧
          Polled (c.watch write waker).state (some slice) left ∨
        left = [] ∧ (c.watch write waker).value = .ready (.ok slice.bytes.length) ∧
          Polled (c.watch write waker).state none []) := by
  cases h with
  | @staged stamp _ b ho' hp hb hf =>
    obtain rfl := Option.some.inj (ho.symm.trans ho')
    have hreadable : c.pipe.readable = true := by simp [Pipe.readable, Pipe.available, hp, hf]
    rw [Channel.watch_of_waiting (Pipe.carries_of_parcel hp hb) hu.closed]
    exact ⟨rfl, rfl, rfl, .inl ⟨rfl, hreadable, (staged ho' hp hb hf).park .write waker⟩⟩
  | @taken stamp _ ho' hp hv =>
    obtain rfl := Option.some.inj (ho.symm.trans ho')
    have hcarries : c.pipe.carries stamp = false := by simp [Pipe.carries, hp]
    rw [Channel.watch_of_gone hcarries]
    exact ⟨rfl, rfl, rfl, .inr ⟨rfl, rfl, .idle rfl hp hv⟩⟩

theorem repoll {slice : Slice} (h : Polled c (some slice) left) (hu : Untouched c.pipe)
    (waker : Waker) :
    handed (c.pollWrite slice waker).effects = [] ∧ placed (c.pollWrite slice waker).effects = [] ∧
      ((c.pollWrite slice waker).value = .pending ∧ c.pipe.readable = true ∧
          Polled (c.pollWrite slice waker).state (some slice) left ∨
        left = [] ∧ (c.pollWrite slice waker).value = .ready (.ok slice.bytes.length) ∧
          Polled (c.pollWrite slice waker).state none []) := by
  obtain ⟨write, ho⟩ : ∃ write, c.outstanding = some write := by
    cases h with
    | staged ho | taken ho => exact ⟨_, ho⟩
  obtain ⟨hs, hrest⟩ := h.watch hu ho waker
  subst hs
  rw [Channel.pollWrite_of_outstanding ho]
  exact hrest

theorem flush (h : Polled c current left) (hu : Untouched c.pipe) (waker : Waker) :
    handed (c.pollFlush waker).effects = [] ∧ placed (c.pollFlush waker).effects = [] ∧
      ((c.pollFlush waker).value = .pending ∧ c.pipe.readable = true ∧
          Polled (c.pollFlush waker).state current left ∨
        left = [] ∧ (c.pollFlush waker).value = .ready (.ok ()) ∧
          Polled (c.pollFlush waker).state none []) := by
  cases hcur : current with
  | none =>
    subst hcur
    cases h with
    | idle ho hp hv =>
      rw [Channel.pollFlush_of_none ho]
      exact ⟨rfl, rfl, .inr ⟨rfl, rfl, .idle ho hp hv⟩⟩
  | some slice =>
    subst hcur
    obtain ⟨write, ho⟩ : ∃ write, c.outstanding = some write := by
      cases h with
      | staged ho | taken ho => exact ⟨_, ho⟩
    obtain ⟨-, hh, hp, hcase⟩ := h.watch hu ho waker
    rw [Channel.pollFlush_of_outstanding ho]
    refine ⟨hh, hp, ?_⟩
    rcases hcase with ⟨hv, hreadable, hpolled⟩ | ⟨hleft, hv, hpolled⟩
    · exact .inl ⟨by rw [Step.value_map, hv]; rfl, hreadable, hpolled⟩
    · exact .inr ⟨hleft, by rw [Step.value_map, hv]; rfl, hpolled⟩

end Polled

end Handoff
