import Handoff.Proofs.Replay
import Handoff.Proofs.Wakes

/-!
Wakers that wait and are woken. None is woken more often than polls with it were pending, and where the pipe
changes all that waited are woken, each once for each half, before anyone starts to wait again.
-/

namespace Handoff

namespace Pipe

variable {p q : Pipe} {es : List Effect}

theorem Stirred.count (h : p.Stirred es q) (w : Waker) :
    (wakes es).count w + q.parked.count w = p.parked.count w := by
  cases h with
  | still hw _ hk => rw [hw, parked_of_waiting hk, List.count_nil, Nat.zero_add]
  | roused hw hk =>
    have hnone : q.parked = [] := congrArg₂ (· ++ ·) (hk .read) (hk .write)
    rw [hw, hnone, List.count_nil, Nat.add_zero]

theorem count_parking (p : Pipe) (left : Option (Half × Waker)) (w : Waker) :
    (p.parking left).parked.count w ≤ p.parked.count w + (left.any (·.2 = w)).toNat := by
  cases left with
  | none => exact Nat.le_add_right _ _
  | some left =>
    obtain ⟨half, waker⟩ := left
    simp only [parking, Option.elim_some, park]
    split
    · exact Nat.le_add_right _ _
    · cases half <;> by_cases hw : waker = w <;> simp [parked, hw] <;> omega

theorem mem_waiting_parking {left : Option (Half × Waker)} {half : Half} {w : Waker} :
    w ∈ (p.parking left).waiting half ↔ w ∈ p.waiting half ∨ left = some (half, w) := by
  cases left with
  | none => simp [parking]
  | some left =>
    obtain ⟨other, waker⟩ := left
    simp only [parking, Option.elim_some, mem_waiting_park, Option.some.injEq, Prod.mk.injEq]
    tauto

theorem alike_parking (p : Pipe) (left : Option (Half × Waker)) : p.Alike (p.parking left) := by
  cases left with
  | none => exact .refl p
  | some left => exact ⟨p.occupied_park .., p.parcel_park .., p.closed_park ..⟩

def Single (p : Pipe) : Prop :=
  ∀ half, (p.waiting half).Nodup

theorem Single.parking (h : p.Single) (left : Option (Half × Waker)) : (p.parking left).Single := by
  cases left with
  | none => exact h
  | some left =>
    obtain ⟨half, waker⟩ := left
    intro other
    simp only [Pipe.parking, Option.elim_some, park]
    split
    · exact h other
    · rename_i hw
      have hnew : (p.waiting half ++ [waker]).Nodup :=
        List.nodup_append.mpr ⟨h half, List.nodup_singleton _, fun a ha b hb hab => hw (by simp_all)⟩
      cases half <;> cases other
      · exact hnew
      · exact h .write
      · exact h .read
      · exact hnew

theorem Single.stirs (h : p.Single) {left : Option (Half × Waker)} (hs : p.Stirs es q left) : q.Single := by
  obtain ⟨r, hr, rfl⟩ := hs
  apply Single.parking
  intro half
  cases hr with
  | still _ _ hk => exact hk half ▸ h half
  | roused _ hk => exact hk half ▸ List.nodup_nil

end Pipe

/-- What a deed does to those who wait. All that wait are woken where the pipe changes or is closed, and then
only a poll of this very deed has left its waker; a poll never wakes what it leaves. -/
structure Deed.Rouses (d : Deed) : Prop where
  woken : wakes d.step.effects = [] ∨ wakes d.step.effects = d.found.channel.pipe.parked
  changed : ¬ d.found.channel.pipe.Alike d.step.state.channel.pipe →
    wakes d.step.effects = d.found.channel.pipe.parked ∧
      ∀ half, ∀ w ∈ d.step.state.channel.pipe.waiting half, d.left = some (half, w)
  closing : ∀ t ∈ d.found.tasks, t.closing.isSome → d.move = .turn t.id →
    wakes d.step.effects = d.found.channel.pipe.parked ∧ d.step.state.channel.pipe.parked = []
  unwoken : wakes d.step.effects = [] → ∀ half w, w ∈ d.step.state.channel.pipe.waiting half ↔
    w ∈ d.found.channel.pipe.waiting half ∨ d.left = some (half, w)
  left : ∀ half w, d.left = some (half, w) → w ∈ d.step.state.channel.pipe.waiting half

theorem Pipe.parked_eq_nil {p : Pipe} : p.parked = [] ↔ ∀ half, p.waiting half = [] := by
  rw [parked, List.append_eq_nil_iff]
  constructor
  · rintro ⟨hr, hw⟩ half
    cases half
    · exact hr
    · exact hw
  · exact fun h => ⟨h .read, h .write⟩

theorem Link.Orderly.rouses {l : Link} (ho : l.Orderly) {m : Move} {s : Step Link (Option Event)}
    (h : l.move m = some s) : (Deed.mk l m s).Rouses := by
  obtain ⟨r, hr, hs⟩ := stirs_move h
  have hmem (half : Half) (w : Waker) : w ∈ s.state.channel.pipe.waiting half ↔
      w ∈ r.waiting half ∨ (Deed.mk l m s).left = some (half, w) := by
    rw [hs]
    exact Pipe.mem_waiting_parking
  have halike : r.Alike s.state.channel.pipe := hs ▸ r.alike_parking _
  have hclosing {t : Task} (ht : t ∈ l.tasks) (hc : t.closing.isSome) (hm : m = .turn t.id) :
      s.state.channel.pipe.parked = [] := by
    subst hm
    exact parked_of_closing ho ht hc h
  constructor
  case left => exact fun half w hl => (hmem half w).mpr (.inr hl)
  case woken =>
    cases hr with
    | still hw => exact .inl hw
    | roused hw => exact .inr hw
  case changed =>
    intro hne
    cases hr with
    | still _ ha => exact absurd (ha.trans halike) hne
    | roused hw hk =>
      refine ⟨hw, fun half w hmw => ((hmem half w).mp hmw).resolve_left ?_⟩
      simp [hk half]
  case closing =>
    intro t ht hc hm
    refine ⟨?_, hclosing ht hc hm⟩
    cases hr with
    | roused hw => exact hw
    -- Had anyone waited, they would wait still.
    | still hw _ hk =>
      have hnone : l.channel.pipe.parked = [] := by
        rw [Pipe.parked_eq_nil]
        intro half
        rw [← hk half, List.eq_nil_iff_forall_not_mem]
        intro w hmw
        have hafter := Pipe.parked_eq_nil.mp (hclosing ht hc hm) half
        simpa [hafter] using (hmem half w).mpr (.inl hmw)
      exact hw.trans hnone.symm
  case unwoken =>
    intro hw half w
    cases hr with
    | still _ _ hk => rw [hmem, hk half]
    | roused hw' hk =>
      have hbefore := Pipe.parked_eq_nil.mp (hw'.symm.trans hw) half
      rw [hmem, hk half, show l.channel.pipe.waiting half = [] from hbefore]

theorem Pipe.single_opened (settings : Settings) : (Link.opened settings).channel.pipe.Single := by
  intro half
  cases half <;> exact List.nodup_nil

namespace Run

variable {settings : Settings} {deeds : List Deed} {l : Link}

theorem single (run : Run (.opened settings) deeds l) : l.channel.pipe.Single := by
  induction run with
  | start => exact Pipe.single_opened settings
  | next _ h ih => exact ih.stirs (Link.stirs_move h)

theorem paid (run : Run (.opened settings) deeds l) (w : Waker) :
    (wakes (effects deeds)).count w + l.channel.pipe.parked.count w ≤ deeds.countP (·.parks w) := by
  induction run with
  | start => exact Nat.le_refl 0
  | @next deeds l m s _ h ih =>
    obtain ⟨r, hr, hs⟩ := Link.stirs_move h
    -- A poll pays for a place to wait in, and the wake that empties that place is paid for with it.
    have hcount : (wakes (Deed.mk l m s).step.effects).count w + r.parked.count w =
        l.channel.pipe.parked.count w := hr.count w
    have hpark := r.count_parking (Deed.mk l m s).left w
    have hparks : [Deed.mk l m s].countP (·.parks w) = ((Deed.mk l m s).left.any (·.2 = w)).toNat := by
      rw [List.countP_singleton, Deed.parks]
      cases (Deed.mk l m s).left.any (·.2 = w) <;> rfl
    rw [← hs] at hpark
    rw [effects_concat, wakes_append, List.count_append, List.countP_append, hparks]
    omega

end Run

theorem Split.single {settings : Settings} {begun fired : List Nat} {es : List Effect} {m : Link}
    (split : Split (.opened settings) begun fired es m) : m.channel.pipe.Single := by
  induction split with
  | start => exact Pipe.single_opened settings
  | @keep _ _ _ m t reason _ _ _ ih =>
    intro half
    have hsame : (m.kept t.half reason).channel.pipe.waiting half = m.channel.pipe.waiting half := by
      cases half <;> cases ht : t.half <;> simp [Link.kept, Pipe.keepReason, Pipe.waiting]
    exact hsame ▸ ih half
  | shut _ _ _ ih =>
    intro half
    cases half
    · exact ih .read
    · exact ih .write
  | next _ h _ ih => exact ih.stirs (Link.stirs_move h)

/-- Wakes are conserved: nobody waits twice on a half, a waker is woken no more often than polls with it have
been pending, and each deed wakes either nobody or just those who waited before it. That is so between the parts
of a close, too, and once all its parts are done nobody waits any more. -/
theorem Run.wakes_conserved {settings : Settings} {deeds : List Deed} {l : Link}
    (run : Run (.opened settings) deeds l) :
    l.channel.pipe.Single ∧ (∀ d ∈ deeds, d.Rouses) ∧
    (∀ w, (wakes (effects deeds)).count w + l.channel.pipe.parked.count w ≤ deeds.countP (·.parks w)) ∧
    (∀ earlier d later, deeds = earlier ++ d :: later → ∀ w,
      (wakes (effects (earlier ++ [d]))).count w ≤ earlier.countP (·.parks w)) ∧
    ∀ begun fired es m, Split (.opened settings) begun fired es m →
      m.channel.pipe.Single ∧ (∀ move s, m.move move = some s → (Deed.mk m move s).Rouses) ∧
      (begun = [] → m.channel.pipe.closed = true → m.channel.pipe.parked = []) := by
  refine ⟨run.single, ?_, run.paid, ?_, ?_⟩
  · intro d hd
    obtain ⟨earlier, later, -, before, hm⟩ := run.split hd
    exact (Link.Reachable.orderly ⟨settings, earlier, before⟩).rouses hm
  · rintro earlier d later rfl w
    obtain ⟨before, hm, -⟩ := run.split_at
    obtain ⟨r, hr, -⟩ := Link.stirs_move hm
    have hpaid := before.paid w
    have hcount := hr.count w
    rw [effects_concat, wakes_append, List.count_append]
    omega
  · intro begun fired es m split
    obtain ⟨hbegun, hreplayed⟩ := split.replayed (Link.orderly_opened settings) (Link.begun_opened settings)
    refine ⟨split.single, fun move s h => (hreplayed.orderly (Link.orderly_opened settings)).rouses h, ?_⟩
    rintro rfl hc
    have howed := hbegun.owed_eq_nil
    rwa [Pipe.owed, if_pos hc] at howed

/-- Two polls with one waker, and a write that wakes it once. -/
theorem waker_woken_once :
    ∃ deeds l, Run (.opened {}) deeds l ∧ wakes (effects deeds) = [.named "waker"] ∧
      deeds.countP (·.parks (.named "waker")) = 2 ∧ l.channel.pipe.Single ∧ ∀ d ∈ deeds, d.Rouses := by
  have run := @run_of_play (.opened {}) _
    [.spawn ⟨1, "reader", .read, .share, 0, [.prompt (.pollRead 4 (.named "waker")),
        .prompt (.pollRead 4 (.named "waker"))]⟩, .turn 1, .turn 1,
      .spawn ⟨2, "writer", .write, .share, 0, [.send [7] false]⟩, .turn 2] _ rfl
  obtain ⟨hsingle, hrouses, -⟩ := run.wakes_conserved
  exact ⟨_, _, run, rfl, by decide, hsingle, hrouses⟩

end Handoff
