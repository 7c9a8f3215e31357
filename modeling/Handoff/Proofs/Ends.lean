import Handoff.Proofs.Heard

/-!
How a stream ends. A reader with room is told so once a close without an error has ended it, and never
before; and no flush fails while the pipe is open.
-/

namespace Handoff

/-- Whether this tells a reader with room that the stream has ended. -/
def Answer.ends : Answer → Bool
  | .reply (.bytes []) | .polled (.ready (.bytes [])) | .reply (.drained _ none) => true
  | _ => false

theorem Call.Hears.ends_iff {call : Call .read} {result : Except Failure Bytes} {answer : Answer}
    (h : call.Hears result (.answered answer)) : answer.ends = true ↔ result = .ok [] := by
  cases h with
  | read | poll =>
    cases result with
    | error => simp [Reply.ofRead, Answer.ends]
    | ok bytes => cases bytes <;> simp [Reply.ofRead, Answer.ends]
  | last => simp [Answer.ends]
  | failed => simp [Answer.ends]

theorem Call.ended_of_ends {call : Call .read} {room : Nat} (hc : call.streams? = some room)
    (hr : room ≠ 0) {owner : Nat} {c : Channel} {s : Step Channel (Progress (Call .read))}
    (h : call.advance owner c = some s) {answer : Answer} (hv : s.value = .answered answer)
    (he : answer.ends = true) : c.pipe.closed = true ∧ c.pipe.reason .read = .endOfStream := by
  rcases Call.hears_or_again hc h with ho | hp | ⟨result, hh⟩
  · cases hv.symm.trans ho
  · cases hv.symm.trans hp
    cases he
  · obtain rfl : result = .ok [] := (Call.Hears.ends_iff (hv ▸ hh)).mp he
    exact (Call.audible hc hr h hh).ended_of_nil

theorem Call.ends_of_ended {call : Call .read} {room : Nat} (hc : call.streams? = some room)
    {c : Channel} (hcl : c.pipe.closed = true) (hr : c.pipe.reason .read = .endOfStream)
    (owner : Nat) : ∃ answer, call.advance owner c = some (.quiet (.answered answer) c) ∧
      answer.ends = true := by
  obtain ⟨answer, hs, hh⟩ := Call.hears_of_closed hc hcl owner
  rw [hr] at hh
  exact ⟨answer, hs, hh.ends_iff.mpr rfl⟩

theorem Call.flushReason?_of_unstarted {half : Half} {call : Call half}
    (h : call.unstarted = true) : call.flushReason? = none := by
  cases call with
  | prompt p =>
    cases p with
    | closeFlushed => cases h
    | _ => rfl
  | _ => rfl

theorem Task.flushReason?_proceed {t : Task} {rest : List (Call t.half)} {p : Progress (Call t.half)}
    (hrest : ∀ later ∈ rest, later.flushReason? = none)
    (hp : ∀ next, p = .onward next → next.flushReason? = none) :
    ∀ later ∈ (t.proceed rest p).calls, later.flushReason? = none := by
  cases p with
  | answered answer => exact hrest
  | onward next => exact List.forall_mem_cons.mpr ⟨hp next rfl, hrest⟩

/-- While the pipe is open no flush has failed. -/
theorem Link.Reachable.flushed {l : Link} (hl : l.Reachable) (ho : l.channel.pipe.closed = false) :
    ∀ t ∈ l.tasks, ∀ call ∈ t.calls, call.flushReason? = none := by
  obtain ⟨settings, deeds, run⟩ := hl
  induction run with
  | start => simp [opened]
  | @next deeds m move s run h ih =>
    have hr : m.Reachable := ⟨settings, deeds, run⟩
    obtain ⟨_, _, _, hsec⟩ := section_of_move h
    have hopen := (hsec.leads.opened ho).1
    have old := ih hopen
    cases move with
    | spawn t =>
      obtain ⟨hu, -, rfl⟩ := spawned_of_move h
      intro u hm call hc
      rcases List.mem_append.mp hm with hm | hm
      · exact old u hm call hc
      · obtain rfl := List.mem_singleton.mp hm
        exact Call.flushReason?_of_unstarted (hu call hc)
    | turn id =>
      cases turned_of_advance h with
      | @called before after t call rest r ht hi hb hk hr' =>
        have htm := old t (by simp [ht])
        rw [hk] at htm
        have hother : ∀ u ∈ before ++ after, u ∈ m.tasks := fun u hu => (hr.orderly.other ht hu).1
        have hnext : ∀ next, r.value = .onward next → next.flushReason? = none := by
          intro next hv
          cases hf : next.flushReason? with
          | none => rfl
          | some reason =>
            have htold : r.value.reason? = some reason := by rw [hv]; exact hf
            rcases Call.reason_told hr' htold with hn | ⟨hcl, -⟩
            · cases (htm call List.mem_cons_self).symm.trans hn
            · cases hopen.symm.trans hcl
        intro u hm
        rcases List.mem_append.mp hm with hm | hm
        · exact old u (hother u (List.mem_append_left _ hm))
        · rcases List.mem_cons.mp hm with rfl | hm
          · exact Task.flushReason?_proceed (fun later hc => htm later (List.mem_cons_of_mem _ hc)) hnext
          · exact old u (hother u (List.mem_append_right _ hm))
      | ended ht => exact fun u hu => old u (hr.orderly.other ht hu).1
      | dropped ht =>
        rw [tasks_markGone]
        exact fun u hu => old u (hr.orderly.other ht hu).1

theorem Link.Reachable.flushReason? {l : Link} (hl : l.Reachable)
    (ho : l.channel.pipe.closed = false) {id : Nat} {half : Half} {call : Call half}
    (hc : l.call? id = some ⟨half, call⟩) : call.flushReason? = none := by
  obtain ⟨t, ht, hhead⟩ := Option.bind_eq_some_iff.mp hc
  have htm := hl.flushed ho t (mem_of_task? ht).1
  obtain ⟨i, name, half, mode, made, calls⟩ := t
  obtain ⟨first, hfirst, he⟩ := Option.map_eq_some_iff.mp hhead
  cases he
  exact htm first (List.mem_of_head? hfirst)

end Handoff
