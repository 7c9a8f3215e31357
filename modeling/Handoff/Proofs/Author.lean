import Handoff.Proofs.Section

/-!
Which calls put bytes up, and which take back bytes that no read has met.
-/

namespace Handoff

def Effect.authored : Effect → Bool
  | placed _ _ | logged (.withdrawn _) => true
  | _ => false

/-- The effects that only a write has, and only on its own bytes. -/
def authored (effects : List Effect) : List Effect :=
  effects.filter Effect.authored

@[simp] theorem authored_append (es fs : List Effect) :
    authored (es ++ fs) = authored es ++ authored fs :=
  List.filter_append es fs

namespace Pipe

@[simp] theorem authored_announce (p : Pipe) : authored p.announce.effects = [] := by
  rw [authored, List.filter_eq_nil_iff]
  intro e he
  rcases mem_effects_announce.mp he with rfl | ⟨_, w, _, rfl⟩ <;> simp [Effect.authored]

@[simp] theorem authored_vacate (p : Pipe) : authored p.vacate.effects = [] :=
  authored_announce _

theorem authored_place (p : Pipe) (origin : Origin) (bytes : Bytes) :
    authored (p.place origin bytes).effects = [.placed origin bytes] :=
  congrArg (_ :: ·) (authored_announce _)

@[simp] theorem authored_close (p : Pipe) (half : Half) (reason : Option Reason) :
    authored (p.close half reason).effects = [] := by
  rw [effects_close, authored_append, authored_announce]
  split <;> rfl

@[simp] theorem authored_pull (p : Pipe) (room : Nat) : authored (p.pull room).effects = [] := by
  rcases p.pull_cases room with ⟨result, -, he⟩ | ⟨b, -, -, he⟩
  · rw [he]
    rfl
  · rw [he]
    exact authored_announce _

@[simp] theorem authored_pollPull (p : Pipe) (room : Nat) (waker : Waker) :
    authored (p.pollPull room waker).effects = [] := by
  unfold pollPull
  dsimp only
  split <;> exact authored_pull p room

theorem authored_enter {p : Pipe} {owner : Nat} {bytes : Bytes}
    {s : Step Pipe (Except ShortWrite Unit)} (h : p.enter owner bytes = some s) {e : Effect}
    (he : e ∈ authored s.effects) : e = .placed (.lent owner) bytes ∧ s.value = .ok () := by
  rcases enter_cases h with rfl | ⟨-, -, rfl⟩
  · simp [authored] at he
  · rw [Step.effects_map, authored_place] at he
    exact ⟨List.mem_singleton.mp he, rfl⟩

theorem authored_leave {p : Pipe} {s : Step Pipe (Except ShortWrite Nat)}
    (h : p.leave = some s) : authored s.effects = [] := by
  obtain ⟨-, result, log, rfl, hl⟩ := leave_cases h
  rw [Step.effects_andThen, authored_append, Step.effects_map, authored_vacate, List.nil_append,
    authored, List.filter_eq_nil_iff]
  intro e he
  obtain ⟨count, rfl⟩ := hl e he
  simp [Effect.authored]

end Pipe

namespace Channel

theorem authored_look {c : Channel} {room : Nat} {s : Step Channel Look} (h : c.look room = some s) :
    authored s.effects = [] := by
  rcases look_cases h with ⟨result, -, rfl⟩ | ⟨-, -, rfl⟩
  · exact c.pipe.authored_pull room
  · exact c.pipe.authored_pull room

@[simp] theorem authored_watch (c : Channel) (write : Outstanding) (waker : Waker) :
    authored (c.watch write waker).effects = [] := by
  unfold watch
  split
  · rfl
  · split
    · exact c.pipe.authored_vacate
    · rfl

@[simp] theorem authored_pollFlush (c : Channel) (waker : Waker) :
    authored (c.pollFlush waker).effects = [] := by
  unfold pollFlush
  split
  · rfl
  · exact c.authored_watch _ waker

theorem authored_cancel (c : Channel) (write : Outstanding) {e : Effect}
    (he : e ∈ authored (c.cancel write).effects) :
    e = .logged (.withdrawn write.slice.bytes.length) := by
  unfold cancel at he
  dsimp only at he
  split at he
  · rw [Step.effects_after, authored_append, effects_lift, Step.effects_map,
      Pipe.authored_vacate, List.append_nil] at he
    exact List.mem_singleton.mp he
  · simp [authored] at he

theorem authored_start (c : Channel) (slice : Slice) (waker : Waker) {e : Effect}
    (he : e ∈ authored (c.start slice waker).effects) :
    ∃ stamp, e = .placed (.copied stamp) slice.bytes ∧
      (c.start slice waker).state.outstanding = some ⟨stamp, slice⟩ := by
  unfold start at he ⊢
  split at he
  · simp [authored] at he
  · split at he
    · simp [authored] at he
    · rename_i hc ho
      rw [if_neg hc, if_neg ho]
      refine ⟨c.pipe.nextStamp, ?_, rfl⟩
      apply List.mem_singleton.mp
      rw [← Pipe.authored_place]
      exact he

theorem authored_pollWrite (c : Channel) (slice : Slice) (waker : Waker) {e : Effect}
    (he : e ∈ authored (c.pollWrite slice waker).effects) :
    (∀ write, c.outstanding = some write → write.slice ≠ slice) ∧
      ((∃ stamp, e = .placed (.copied stamp) slice.bytes ∧
          (c.pollWrite slice waker).state.outstanding = some ⟨stamp, slice⟩) ∨
        ∃ write, c.outstanding = some write ∧
          e = .logged (.withdrawn write.slice.bytes.length)) := by
  unfold pollWrite at he ⊢
  cases ho : c.outstanding with
  | none =>
    simp only [ho] at he
    exact ⟨by simp, .inl (c.authored_start slice waker he)⟩
  | some write =>
    simp only [ho] at he
    split at he
    · simp at he
    · rename_i hn
      refine ⟨fun w hw => Option.some.inj hw ▸ hn, ?_⟩
      rw [Step.effects_after, authored_append] at he
      rcases List.mem_append.mp he with he | he
      · exact .inr ⟨write, rfl, c.authored_cancel write he⟩
      · refine .inl ?_
        simp only [if_neg hn]
        exact (c.cancel write).state.authored_start slice waker he

end Channel

namespace Call

def data? {half : Half} : Call half → Option Bytes
  | send bytes _ | write bytes _ => some bytes
  | _ => none

def slice? {half : Half} : Call half → Option Slice
  | prompt (.pollWrite slice _) => some slice
  | _ => none

/-- A blocking write puts its bytes up once, and a polled write only while its slice is not the one
that is outstanding. -/
inductive Author {half : Half} (owner : Nat) (call : Call half) (c : Channel)
    (s : Step Channel (Progress (Call half))) : Effect → Prop
  | lend (bytes : Bytes) (hd : call.data? = some bytes) (hb : call.lending = none)
      (ha : s.value.lending = some bytes) : Author owner call c s (.placed (.lent owner) bytes)
  | copy (slice : Slice) (stamp : UInt64) (hs : call.slice? = some slice)
      (hb : ∀ write, c.outstanding = some write → write.slice ≠ slice)
      (ha : s.state.outstanding = some ⟨stamp, slice⟩) :
      Author owner call c s (.placed (.copied stamp) slice.bytes)
  | retract (slice : Slice) (write : Outstanding) (hs : call.slice? = some slice)
      (hb : c.outstanding = some write) (hn : write.slice ≠ slice) :
      Author owner call c s (.logged (.withdrawn write.slice.bytes.length))

theorem author_of_advance {half : Half} {owner : Nat} {call : Call half} {c : Channel}
    {s : Step Channel (Progress (Call half))} (h : call.advance owner c = some s) {e : Effect}
    (he : e ∈ authored s.effects) : Author owner call c s e := by
  cases call with
  | prompt p =>
    obtain rfl := Option.some.inj h
    cases p with
    | pollWrite slice waker =>
      obtain ⟨hn, ⟨stamp, rfl, ho⟩ | ⟨write, hw, rfl⟩⟩ := c.authored_pollWrite slice waker he
      · exact .copy slice stamp rfl hn ho
      · exact .retract slice write rfl hw (hn write hw)
    | pollRead room waker => simp [Prompt.advance, Channel.pollLook] at he
    | tryReceive | pollFlush | pollClose | closeFlushed | close => simp [Prompt.advance] at he
    | setNonblocking | isClosed | describe => simp [Prompt.advance, authored] at he
  | receive room =>
    obtain ⟨result, -, rfl⟩ := receive_cases h
    simp at he
  | read room | drain room chunks =>
    obtain ⟨l, hl, rfl⟩ := Option.map_eq_some_iff.mp h
    simp [Channel.authored_look hl] at he
  | send bytes placed | write bytes placed =>
    cases placed with
    | false =>
      obtain ⟨l, hl, rfl⟩ := Option.map_eq_some_iff.mp h
      obtain ⟨rfl, hv⟩ := Pipe.authored_enter hl he
      apply Author.lend bytes rfl rfl
      simp only [Channel.value_lift, Step.value_map, hv]
      rfl
    | true =>
      obtain ⟨l, hl, rfl⟩ := Option.map_eq_some_iff.mp h
      simp [Pipe.authored_leave hl] at he
  | flush =>
    obtain rfl := Option.some.inj h
    simp [authored] at he

end Call

def Effect.placed? : Effect → Option (Origin × Bytes)
  | placed origin bytes => some (origin, bytes)
  | _ => none

def placed (effects : List Effect) : List (Origin × Bytes) :=
  effects.filterMap Effect.placed?

end Handoff
