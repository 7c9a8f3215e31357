import Mathlib.Algebra.Group.Nat.Defs
import Mathlib.Data.List.Nodup
import Handoff.Proofs.Frozen
import Handoff.Proofs.Portions

/-!
The stamps of polled writes. They are given out in order, so as long as there are enough of them no two
writes have the same.
-/

namespace Handoff

def stamps (es : List Effect) : List UInt64 :=
  (placed es).filterMap fun offer => offer.1.stamp?

@[simp] theorem stamps_append (es fs : List Effect) : stamps (es ++ fs) = stamps es ++ stamps fs := by
  rw [stamps, placed_append, List.filterMap_append]
  rfl

theorem mem_stamps {es : List Effect} {stamp : UInt64} :
    stamp ∈ stamps es ↔ ∃ bytes, (.copied stamp, bytes) ∈ placed es := by
  rw [stamps, List.mem_filterMap]
  constructor
  · rintro ⟨⟨origin, bytes⟩, hp, hs⟩
    cases origin with
    | lent owner => cases hs
    | copied other =>
      obtain rfl : other = stamp := Option.some.inj hs
      exact ⟨bytes, hp⟩
  · rintro ⟨bytes, hp⟩
    exact ⟨_, hp, rfl⟩

theorem Staged.mem_stamps {since : List Deed} {write : Outstanding} (h : Staged since write) :
    write.stamp ∈ stamps (effects since) := by
  obtain ⟨later, hp, -⟩ := h.offers
  exact Handoff.mem_stamps.mpr ⟨write.slice.bytes, hp ▸ List.mem_cons_self⟩

/-- The stamps of the effects are the next ones of the pipe before, and then the pipe after goes on. -/
def Stamped (p : Pipe) (es : List Effect) (q : Pipe) : Prop :=
  stamps es = (List.range (stamps es).length).map (fun i => p.nextStamp + .ofNat i) ∧
    q.nextStamp = p.nextStamp + .ofNat (stamps es).length

namespace Stamped

theorem same {p q : Pipe} {es : List Effect} (he : placed es = []) (hn : q.nextStamp = p.nextStamp) :
    Stamped p es q := by
  have hs : stamps es = [] := by rw [stamps, he, List.filterMap_nil]
  rw [Stamped, hs]
  exact ⟨rfl, by simpa using hn⟩

theorem trans {p q r : Pipe} {es fs : List Effect} (h : Stamped p es q) (t : Stamped q fs r) :
    Stamped p (es ++ fs) r := by
  obtain ⟨hs, hn⟩ := h
  obtain ⟨ht, hr⟩ := t
  rw [Stamped, stamps_append, List.length_append]
  constructor
  · rw [List.range_add, List.map_append, ← hs, List.map_map]
    refine congrArg (stamps es ++ ·) (ht.trans (List.map_congr_left fun i _ => ?_))
    rw [hn, Function.comp_apply, UInt64.ofNat_add, UInt64.add_assoc]
  · rw [hr, hn, UInt64.ofNat_add, UInt64.add_assoc]

end Stamped

@[simp] theorem Pipe.nextStamp_park (p : Pipe) (half : Half) (waker : Waker) :
    (p.park half waker).nextStamp = p.nextStamp := by
  unfold park
  split
  · rfl
  · cases half <;> rfl

theorem Channel.Change.stamped {c d : Channel} {es : List Effect} (h : c.Change es d) :
    Stamped c.pipe es d.pipe := by
  cases h with
  | mode | conclude | forsake => exact .same rfl rfl
  | close half reason =>
    refine .same (c.pipe.placed_close half reason) ?_
    cases half <;> rfl
  | await | watch => exact .same rfl (Pipe.nextStamp_park ..)
  | fail | withdraw => exact .same (Pipe.placed_announce _) rfl
  | stage slice =>
    have hs : stamps (c.pipe.placeCopy slice.bytes).effects = [c.pipe.nextStamp] := by
      have hp : placed (c.pipe.placeCopy slice.bytes).effects =
          [(.copied c.pipe.nextStamp, slice.bytes)] := Pipe.placed_place _ _ _
      rw [stamps, hp]
      rfl
    rw [Stamped, hs]
    exact ⟨by simp, rfl⟩

theorem Channel.Changes.stamped {c d : Channel} {es : List Effect} (h : c.Changes es d) :
    Stamped c.pipe es d.pipe := by
  induction h with
  | nil => exact .same rfl rfl
  | cons h _ ih => exact h.stamped.trans ih

theorem Section.stamped {owner : Nat} {lent left : Option Bytes} {c d : Channel} {es : List Effect}
    (h : Section owner lent c es d left) : Stamped c.pipe es d.pipe := by
  cases h with
  | @pull _ b room =>
    refine .same (Pipe.placed_announce _) ?_
    change (c.pipe.advance b room).nextStamp = c.pipe.nextStamp
    unfold Pipe.advance
    split <;> rfl
  | enter bytes =>
    -- Lent bytes are put up without a stamp.
    have hs : stamps (c.pipe.place (.lent owner) bytes).effects = [] := by
      rw [stamps, Pipe.placed_place]
      rfl
    rw [Stamped, hs]
    exact ⟨rfl, by simp [Pipe.place, Pipe.announce]⟩
  | leave bytes _ he =>
    refine .same ?_ rfl
    rw [placed_append, placed_of_consumed he, List.append_nil]
    exact Pipe.placed_announce _
  | other h => exact h.stamped

theorem Run.stamped {l m : Link} {deeds : List Deed} (run : Run l deeds m) :
    Stamped l.channel.pipe (effects deeds) m.channel.pipe := by
  induction run with
  | start => exact .same rfl rfl
  | next _ h ih =>
    obtain ⟨_, _, _, hsec⟩ := Link.section_of_move h
    rw [effects_concat]
    exact ih.trans hsec.stamped

theorem Run.stamps_nodup {l m : Link} {deeds : List Deed} (run : Run l deeds m)
    (h : (stamps (effects deeds)).length ≤ 2 ^ 64) : (stamps (effects deeds)).Nodup := by
  rw [run.stamped.1, List.nodup_map_iff_inj_on List.nodup_range]
  intro i hi j hj he
  rw [List.mem_range] at hi hj
  have hn := congrArg UInt64.toNat (UInt64.add_right_inj _ |>.mp he)
  rwa [UInt64.toNat_ofNat_of_lt' (Nat.lt_of_lt_of_le hi h),
    UInt64.toNat_ofNat_of_lt' (Nat.lt_of_lt_of_le hj h)] at hn

end Handoff
