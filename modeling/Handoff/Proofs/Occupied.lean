import Handoff.Proofs.Cancelled
import Handoff.Proofs.Replay
import Handoff.Proofs.Rest

/-!
What occupies a pipe. An occupied pipe always holds a parcel: one that readers have yet to finish, or a lent
one that its writer, whose turn it is, takes out next. The stamps in use are ones that have been given out.
-/

namespace Handoff

structure Pipe.Vacant (p : Pipe) : Prop where
  parcel : p.parcel = none
  occupied : p.occupied = false

namespace Link

/-- What is known of the parcel that occupies a pipe. Once there is nothing more to wait for, the task that
lends it takes it out; a copy on record is taken out by a poll for it after a close, or by a poll for another
slice that comes before any read. -/
structure Tenant (l : Link) (b : Parcel) : Prop where
  passed_le : b.passed ≤ b.bytes.length
  met_of_passed : 0 < b.passed → b.met = true
  lent_of_finished : b.finished = true → ∃ owner, b.origin = .lent owner
  left : b.finished = false → b.passed < b.bytes.length ∨ b.bytes = [] ∧ b.met = false
  offered : b.finished = false → l.channel.pipe.available = some b ∧
    (l.channel.pipe.closed = false → ∀ room, (l.channel.pipe.pull room).value = .ok (some (b.front room)))
  lender : ∀ owner, b.origin = .lent owner → ∃ t ∈ l.tasks, t.id = owner ∧ t.lending = some b.bytes ∧
    (b.finished = true ∨ l.channel.pipe.closed = true → ∃ s, l.move (.turn owner) = some s ∧
      s.state.channel.pipe.Vacant ∧ s.value ≠ none)
  recorded : ∀ write, l.channel.outstanding = some write → b.origin = .copied write.stamp →
    (l.channel.pipe.closed = true → ∀ waker, (l.channel.watch write waker).state.pipe.Vacant) ∧
      (b.met = false → (l.channel.cancel write).state.pipe.Vacant)

end Link

/-- The stamps that have been given out are all different and come before the next one, and those of the
parcel and of the write on record are among them. -/
structure Channel.Numbered (c : Channel) (given : List UInt64) : Prop where
  nodup : given.Nodup
  below : ∀ stamp ∈ given, stamp < c.pipe.nextStamp
  parcel : ∀ b stamp, c.pipe.parcel = some b → b.origin = .copied stamp → stamp ∈ given
  outstanding : ∀ write, c.outstanding = some write → write.stamp ∈ given

structure Link.Tenancy (l : Link) (given : List UInt64) : Prop where
  occupied_iff : l.channel.pipe.occupied = true ↔ ∃ b, l.channel.pipe.parcel = some b
  tenant : ∀ b, l.channel.pipe.parcel = some b → l.Tenant b
  numbered : given.length < 2 ^ 64 → l.channel.Numbered given
  staged : ∀ m s, l.move m = some s → ∀ stamp ∈ stamps s.effects,
    stamp = l.channel.pipe.nextStamp ∧ (given.length < 2 ^ 64 → stamp ∉ given) ∧
      ∃ slice, s.state.channel.outstanding = some ⟨stamp, slice⟩

theorem Parcel.Sound.left {b : Parcel} (h : b.Sound) (hf : b.finished = false) :
    b.passed < b.bytes.length ∨ b.bytes = [] ∧ b.met = false := by
  refine (h.short hf).imp_right ?_
  rintro ⟨he, -⟩
  exact ⟨he, by simpa [finished, rest, he] using hf⟩

theorem Section.vacant {owner : Nat} {bytes : Bytes} {left : Option Bytes} {c d : Channel}
    {es : List Effect} (h : Section owner (some bytes) c es d left) : d.pipe.Vacant := by
  cases h
  exact ⟨rfl, rfl⟩

namespace Link

/-- A task whose parcel is finished, or cut short by a close, takes it out next. -/
theorem Orderly.takes_out {l : Link} (h : l.Orderly) {t : Task} (ht : t ∈ l.tasks) {bytes : Bytes}
    (hb : t.lending = some bytes) (hl : l.channel.pipe.leavable = true) :
    ∃ s, l.move (.turn t.id) = some s ∧ s.state.channel.pipe.Vacant ∧ s.value ≠ none := by
  have hne : l.advance t.id ≠ none := by
    intro hn
    have ha := (l.advance_eq_none_iff t.id).mp hn t (h.task?_of_mem ht)
    rw [t.awaits_of_lending l.channel hb, hl] at ha
    cases ha
  obtain ⟨s, hs⟩ := Option.ne_none_iff_exists'.mp hne
  refine ⟨s, hs, ?_⟩
  cases turned_of_advance hs with
  | @called before after u call rest r hu hi _ hc hr =>
    obtain rfl : u = t := h.unique (by simp [hu]) ht hi
    have hlend : call.lending = some bytes := (Task.lending_cons hc).symm.trans hb
    obtain ⟨answer, ha⟩ := Call.answered_of_lending hr hlend
    have hsec := Call.section_of_advance hr
    rw [hlend] at hsec
    exact ⟨hsec.vacant, by simp [Task.tell, ha]⟩
  | @ended before after u hu hi _ hc | @dropped before after u hu hi _ hc =>
    obtain rfl : u = t := h.unique (by simp [hu]) ht hi
    simp [Task.lending_nil hc] at hb

theorem stamp_of_move {l : Link} {m : Move} {s : Step Link (Option Event)} (h : l.move m = some s)
    {stamp : UInt64} (hs : stamp ∈ stamps s.effects) :
    stamp = l.channel.pipe.nextStamp ∧ ∃ slice, s.state.channel.outstanding = some ⟨stamp, slice⟩ := by
  obtain ⟨_, _, _, hsec⟩ := section_of_move h
  have record {other : UInt64} (ho : other ∈ stamps s.effects) :
      ∃ slice, s.state.channel.outstanding = some ⟨other, slice⟩ := by
    obtain ⟨bytes, hp⟩ := mem_stamps.mp ho
    obtain ⟨slice, -, hslice, -⟩ := copied_of_move h hp
    exact ⟨slice, hslice⟩
  -- The first stamp of a step is the next one of the pipe, and a step leaves one write on record.
  have hfirst : l.channel.pipe.nextStamp ∈ stamps s.effects := by
    rw [hsec.stamped.1, List.mem_map]
    exact ⟨0, List.mem_range.mpr (List.length_pos_of_mem hs), by simp⟩
  obtain ⟨slice, ho⟩ := record hs
  obtain ⟨other, hn⟩ := record hfirst
  rw [ho] at hn
  obtain ⟨rfl, -⟩ := Outstanding.mk.inj (Option.some.inj hn)
  exact ⟨rfl, slice, ho⟩

theorem Orderly.tenant {l : Link} (h : l.Orderly) {b : Parcel} (hb : l.channel.pipe.parcel = some b)
    (hs : b.Sound) (hl : ∀ owner, b.origin = .lent owner →
      ∃ t ∈ l.tasks, t.id = owner ∧ t.lending = some b.bytes) : l.Tenant b where
  passed_le := hs.passed_le
  met_of_passed hp := hs.met_of_passed (Nat.ne_of_gt hp)
  lent_of_finished hf := by
    cases ho : b.origin with
    | lent owner => exact ⟨owner, rfl⟩
    | copied stamp => simp [hs.unfinished_of_copied ho] at hf
  left := hs.left
  offered hf := by
    have ha : l.channel.pipe.available = some b := by simp [Pipe.available, hb, hf]
    refine ⟨ha, fun hc room => ?_⟩
    rw [Pipe.pull_of_available hc ha]
    rfl
  lender owner ho := by
    obtain ⟨t, ht, rfl, hlend⟩ := hl owner ho
    refine ⟨t, ht, rfl, hlend, fun hd => h.takes_out ht hlend ?_⟩
    rcases hd with hf | hc
    · simp [Pipe.leavable, Pipe.consumed, hb, hf]
    · simp [Pipe.leavable, hc]
  recorded write hw ho := by
    refine ⟨fun hc waker => ?_, fun hm => ?_⟩
    · rw [Channel.watch_of_cut (Pipe.carries_of_parcel hb ho) hc]
      exact ⟨rfl, rfl⟩
    · have hu : l.channel.pipe.unmet write.stamp = true := by simp [Pipe.unmet_of_parcel hb ho, hm]
      rw [Channel.cancel_of_unmet hu]
      exact ⟨rfl, rfl⟩

theorem Orderly.tenancy {l : Link} (h : l.Orderly) {given : List UInt64}
    (ho : l.channel.pipe.occupied = l.channel.pipe.parcel.isSome)
    (hs : ∀ b, l.channel.pipe.parcel = some b → b.Sound)
    (hl : ∀ b, l.channel.pipe.parcel = some b → ∀ owner, b.origin = .lent owner →
      ∃ t ∈ l.tasks, t.id = owner ∧ t.lending = some b.bytes)
    (hn : given.length < 2 ^ 64 → l.channel.Numbered given) : l.Tenancy given where
  occupied_iff := by rw [ho, Option.isSome_iff_exists]
  tenant b hb := h.tenant hb (hs b hb) (hl b hb)
  numbered := hn
  staged m s hm stamp hstamp := by
    obtain ⟨rfl, slice, hslice⟩ := stamp_of_move hm hstamp
    exact ⟨rfl, fun hfew hg => UInt64.lt_irrefl _ ((hn hfew).below _ hg), slice, hslice⟩

end Link

theorem Channel.Numbered.of_seen {c : Channel} {given : List UInt64} (h : c.seen.Numbered given) :
    c.Numbered given where
  nodup := h.nodup
  below stamp hs := c.pipe.nextStamp_seen ▸ h.below stamp hs
  parcel b stamp hb := h.parcel b stamp (c.pipe.parcel_seen.trans hb)
  outstanding := h.outstanding

theorem Stamped.lt {p q : Pipe} {es : List Effect} (h : Stamped p es q) (hp : p.nextStamp = 0)
    (hfew : (stamps es).length < 2 ^ 64) {stamp : UInt64} (hs : stamp ∈ stamps es) :
    stamp < q.nextStamp := by
  obtain ⟨hes, hn⟩ := h
  rw [hes, List.mem_map] at hs
  obtain ⟨i, hi, rfl⟩ := hs
  rw [List.mem_range] at hi
  rw [hn, hp, UInt64.zero_add, UInt64.zero_add, UInt64.lt_iff_toNat_lt,
    UInt64.toNat_ofNat_of_lt' (Nat.lt_trans hi hfew), UInt64.toNat_ofNat_of_lt' hfew]
  exact hi

theorem Run.numbered {settings : Settings} {deeds : List Deed} {l : Link}
    (run : Run (.opened settings) deeds l) (hfew : (stamps (effects deeds)).length < 2 ^ 64) :
    l.channel.Numbered (stamps (effects deeds)) where
  nodup := run.stamps_nodup (Nat.le_of_lt hfew)
  below stamp hs := run.stamped.lt rfl hfew hs
  parcel b stamp hb ho := by
    obtain ⟨d, rest, hd, hold, -⟩ := run.accounts.cons_of_parcel hb
    refine mem_stamps.mpr ⟨d.bytes, ?_⟩
    rw [← offer_ledger, hd, ← ho, ← hold.origin]
    exact List.mem_map_of_mem (List.mem_reverse.mpr List.mem_cons_self)
  outstanding write hw := by
    obtain ⟨earlier, since, rfl, hstaged⟩ := run.staged hw
    rw [effects_append, stamps_append]
    exact List.mem_append_right _ hstaged.mem_stamps

theorem Run.tenancy {settings : Settings} {deeds : List Deed} {l : Link}
    (run : Run (.opened settings) deeds l) : l.Tenancy (stamps (effects deeds)) := by
  have hl : l.Reachable := ⟨settings, deeds, run⟩
  exact hl.orderly.tenancy hl.sound.occupied_eq hl.sound.parcel (fun b hb owner => hl.lender_of_origin hb)
    run.numbered

theorem placed_untold (es : List Effect) : placed (untold es) = placed es := by
  induction es with
  | nil => rfl
  | cons e es ih =>
    cases e <;> simpa [untold, placed, List.filterMap_cons, Effect.tells, Effect.placed?] using ih

theorem Split.tenancy {settings : Settings} {begun fired : List Nat} {es : List Effect} {m : Link}
    (split : Split (.opened settings) begun fired es m) : m.Tenancy (stamps es) := by
  obtain ⟨-, hr⟩ := split.replayed (Link.orderly_opened settings) (Link.begun_opened settings)
  have ho : m.Orderly := hr.orderly (Link.orderly_opened settings)
  obtain ⟨deeds, run, hu, -⟩ := hr
  have hs : stamps (effects deeds) = stamps es := by
    rw [stamps, ← placed_untold, hu, placed_untold, stamps]
  have hl : m.seen.Reachable := ⟨settings, deeds, run⟩
  have hp {b : Parcel} (hb : m.channel.pipe.parcel = some b) : m.seen.channel.pipe.parcel = some b :=
    m.channel.pipe.parcel_seen.trans hb
  apply ho.tenancy
  · simpa [Link.seen, Channel.seen] using hl.sound.occupied_eq
  · exact fun b hb => hl.sound.parcel b (hp hb)
  · exact fun b hb owner => hl.lender_of_origin (hp hb)
  · intro hfew
    rw [← hs] at hfew ⊢
    exact (run.numbered hfew).of_seen

/-- Between any two steps, those of a close among them, an occupied pipe is some write's. -/
theorem occupied_by_parcel (settings : Settings) :
    (∀ deeds l, Run (.opened settings) deeds l → l.Tenancy (stamps (effects deeds))) ∧
      ∀ begun fired es m, Split (.opened settings) begun fired es m → m.Tenancy (stamps es) :=
  ⟨fun _ _ run => run.tenancy, fun _ _ _ _ split => split.tenancy⟩

/-- The copy has been read and let go but is still on record; the send after it has been read, too, and its
parcel stays until its writer's turn. -/
theorem copy_then_finished_send :
    ∃ deeds l, Run (.opened {}) deeds l ∧ stamps (effects deeds) = [0] ∧ l.channel.Numbered [0] ∧
      ∃ b, l.channel.pipe.parcel = some b ∧ b.finished = true ∧
        ∃ s, l.move (.turn 3) = some s ∧ s.state.channel.pipe.Vacant := by
  have run := @run_of_play (.opened {}) _
    [.spawn ⟨1, "copier", .write, .own, 0, [.prompt (.pollWrite ⟨"buffer", 0, [1]⟩ .silent)]⟩, .turn 1,
      .spawn ⟨2, "reader", .read, .share, 0, [.receive 1, .receive 3]⟩, .turn 2, .turn 1,
      .spawn ⟨3, "sender", .write, .share, 0, [.send [2, 3, 4] false]⟩, .turn 3, .turn 2] _ rfl
  have ht := (occupied_by_parcel {}).1 _ _ run
  refine ⟨_, _, run, rfl, ht.numbered (by decide), _, rfl, rfl, ?_⟩
  obtain ⟨_, -, -, -, hout⟩ := (ht.tenant _ rfl).lender 3 rfl
  obtain ⟨s, hs, hvacant, -⟩ := hout (.inl rfl)
  exact ⟨s, hs, hvacant⟩

end Handoff
