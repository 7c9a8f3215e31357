import Handoff.Proofs.Section

/-!
Who hears of a step. Where the transfer changes, all blocked calls hear of it afterwards, and every
waker that was waiting is woken; otherwise nothing that anyone waits for has changed.
-/

namespace Handoff

def Effect.still : Effect → Bool
  | woke _ | logged (.consumed _) => true
  | _ => false

/-- Nothing has changed since the last announcement. -/
def Announced (effects : List Effect) : Prop :=
  ∃ before after, effects = before ++ .announced :: after ∧ ∀ e ∈ after, e.still = true

theorem Announced.prepend {es : List Effect} (h : Announced es) (fs : List Effect) :
    Announced (fs ++ es) := by
  obtain ⟨before, after, rfl, ha⟩ := h
  exact ⟨fs ++ before, after, by simp, ha⟩

theorem Announced.append {es fs : List Effect} (h : Announced es) (hf : ∀ e ∈ fs, e.still = true) :
    Announced (es ++ fs) := by
  obtain ⟨before, after, rfl, ha⟩ := h
  refine ⟨before, after ++ fs, by simp, ?_⟩
  intro e he
  rcases List.mem_append.mp he with he | he
  · exact ha e he
  · exact hf e he

theorem Pipe.announced_announce (p : Pipe) : Announced p.announce.effects := by
  refine ⟨[], _, rfl, ?_⟩
  intro e he
  obtain ⟨w, -, rfl⟩ := List.mem_map.mp he
  rfl

theorem Pipe.woke_of_waiting {p : Pipe} {half : Half} {w : Waker} (h : w ∈ p.waiting half) :
    .woke w ∈ p.announce.effects :=
  mem_effects_announce.mpr (.inr ⟨half, w, h, rfl⟩)

namespace Pipe

/-- Two pipes that nobody who waits can tell apart. -/
structure Alike (p q : Pipe) : Prop where
  occupied : q.occupied = p.occupied
  parcel : q.parcel = p.parcel
  closed : q.closed = p.closed

theorem Alike.refl (p : Pipe) : p.Alike p :=
  ⟨rfl, rfl, rfl⟩

theorem Alike.trans {p q r : Pipe} (h : p.Alike q) (t : q.Alike r) : p.Alike r where
  occupied := t.occupied.trans h.occupied
  parcel := t.parcel.trans h.parcel
  closed := t.closed.trans h.closed

theorem Alike.readable {p q : Pipe} (h : p.Alike q) : q.readable = p.readable := by
  simp [Pipe.readable, Pipe.available, h.parcel, h.closed]

theorem Alike.enterable {p q : Pipe} (h : p.Alike q) : q.enterable = p.enterable := by
  simp [Pipe.enterable, h.occupied, h.closed]

theorem Alike.leavable {p q : Pipe} (h : p.Alike q) : q.leavable = p.leavable := by
  simp [Pipe.leavable, Pipe.consumed, h.parcel, h.closed]

end Pipe

inductive Heard (c : Channel) (es : List Effect) (d : Channel) : Prop
  | still (he : ∀ e ∈ es, e.still = true) (ha : c.pipe.Alike d.pipe)
      (hw : ∀ half, c.pipe.waiting half ⊆ d.pipe.waiting half)
  | told (ha : Announced es) (hw : ∀ half, ∀ w ∈ c.pipe.waiting half, .woke w ∈ es)

namespace Heard

variable {c d e : Channel} {es fs : List Effect}

theorem refl (c : Channel) : Heard c [] c :=
  .still (by simp) (.refl _) fun _ => List.Subset.refl _

theorem trans (h : Heard c es d) (t : Heard d fs e) : Heard c (es ++ fs) e := by
  cases t with
  -- A waker is woken by the first announcement after it was parked.
  | told ha hw =>
    refine .told (ha.prepend es) ?_
    intro half w hm
    cases h with
    | still _ _ hk => exact List.mem_append_right _ (hw half w (hk half hm))
    | told _ hk => exact List.mem_append_left _ (hk half w hm)
  | still he ha hw =>
    cases h with
    | told hb hk => exact .told (hb.append he) fun half w hm => List.mem_append_left _ (hk half w hm)
    | still he' hb hk =>
      refine .still ?_ (hb.trans ha) fun half => ?_
      · intro f hf
        rcases List.mem_append.mp hf with hf | hf
        · exact he' f hf
        · exact he f hf
      · exact List.Subset.trans (hk half) (hw half)

theorem announce (d : Channel) {p : Pipe} (hp : ∀ half, p.waiting half = c.pipe.waiting half)
    (before : List Effect) : Heard c (before ++ p.announce.effects) d := by
  refine .told (p.announced_announce.prepend before) ?_
  intro half w hm
  rw [← hp] at hm
  exact List.mem_append_right _ (Pipe.woke_of_waiting hm)

theorem park (c : Channel) (half : Half) (waker : Waker) :
    Heard c [] { c with pipe := c.pipe.park half waker } := by
  refine .still (by simp) ⟨by simp, by simp, by simp⟩ ?_
  intro other w hw
  exact Pipe.mem_waiting_park.mpr (.inl hw)

theorem vacate (c d : Channel) : Heard c c.pipe.vacate.effects d := by
  refine announce d ?_ [_]
  intro half
  cases half <;> rfl

theorem place (c d : Channel) (origin : Origin) (bytes : Bytes) :
    Heard c (c.pipe.place origin bytes).effects d := by
  refine announce d ?_ [_]
  intro half
  cases half <;> rfl

end Heard

theorem Pipe.waiting_advance (p : Pipe) (b : Parcel) (room : Nat) (half : Half) :
    (p.advance b room).waiting half = p.waiting half := by
  unfold advance
  split <;> cases half <;> rfl

theorem Channel.Change.heard {c d : Channel} {es : List Effect} (h : c.Change es d) : Heard c es d := by
  cases h with
  | mode on => exact .still (by simp) (.refl _) fun _ => List.Subset.refl _
  | close half reason =>
    rw [Pipe.effects_close]
    exact .announce _ (fun _ => rfl) _
  | await waker | watch waker => exact .park c _ waker
  | conclude => exact .still (by simp [Effect.still]) (.refl _) fun _ => List.Subset.refl _
  | forsake => exact .still (by simp) (.refl _) fun _ => List.Subset.refl _
  | fail => exact .vacate c _
  | withdraw =>
    refine .announce _ ?_ [_, _]
    intro half
    cases half <;> rfl
  | stage slice =>
    refine .announce _ ?_ [_]
    intro half
    cases half <;> rfl

theorem Channel.Changes.heard {c d : Channel} {es : List Effect} (h : c.Changes es d) : Heard c es d := by
  induction h with
  | nil => exact .refl _
  | cons h _ ih => exact h.heard.trans ih

theorem Section.heard {owner : Nat} {lent left : Option Bytes} {c d : Channel} {es : List Effect}
    (h : Section owner lent c es d left) : Heard c es d := by
  cases h with
  | pull room hc hb => exact .announce _ (c.pipe.waiting_advance _ room) [_]
  | enter bytes => exact .place c _ _ bytes
  | leave bytes hl he =>
    have hk := Heard.vacate c { c with pipe := c.pipe.vacate.state }
    refine hk.trans (.still ?_ (.refl _) fun _ => List.Subset.refl _)
    intro e hm
    obtain ⟨count, rfl⟩ := he e hm
    rfl
  | other h => exact h.heard

end Handoff
